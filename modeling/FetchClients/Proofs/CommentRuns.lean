/-
# Runs of comments

The runs of comments are their maximal pieces without a blank line: no run is empty,
together they are the comments, and two neighbours lie in one run exactly when the
second starts at most one line after the first ends. A search through the neighbours
with an index for the start of the next run cuts the same pieces, and every slice that
it takes lies in the list (`cutRuns?_eq`). So the doc of a node is the longest end
without a blank line, and the doc of a file the longest such start, unless all comments
are one run that is the doc of the declaration below it (`runs_maximal`).

Key definitions: `Adjoins`, `IsDivision`, `Together`, `cutRuns?`, `IsLongestSuffix`,
`IsLongestPrefix`.
Key theorems: `isDivision_iff`, `IsDivision.together_iff`, `CutOff.Keeps.window?`,
`cutRuns?_eq`, `IsDivision.isLongestSuffix`, `IsDivision.isLongestPrefix`, `runs_maximal`.
-/
import FetchClients.Outline.DocBlock
import Mathlib.Data.List.SplitBy

namespace FetchClients

open TypeScript (Comment)

/-- No blank line stands between a comment and the next one. -/
def Adjoins (a b : Comment) : Prop :=
  b.firstLine ≤ a.lastLine + 1

instance (a b : Comment) : Decidable (Adjoins a b) :=
  inferInstanceAs (Decidable (b.firstLine ≤ a.lastLine + 1))

/-- Comments that no blank line divides. -/
abbrev Unbroken (comments : List Comment) : Prop :=
  comments.IsChain Adjoins

/-- Comments in pieces that no blank line divides, with a blank line wherever one ends and the
next starts. -/
structure IsDivision (comments : List Comment) (pieces : List (List Comment)) : Prop where
  flatten : pieces.flatten = comments
  nonempty : [] ∉ pieces
  unbroken : ∀ piece ∈ pieces, Unbroken piece
  divided : pieces.IsChain fun p q => ∀ a ∈ p.getLast?, ∀ b ∈ q.head?, ¬ Adjoins a b

/-- Two neighbours `a` and `b`, with `before` and `after` around them, lie in one of the pieces. -/
def Together (pieces : List (List Comment)) (before : List Comment) (a b : Comment)
    (after : List Comment) : Prop :=
  ∃ earlier front back later, pieces = earlier ++ (front ++ a :: b :: back) :: later ∧
    before = earlier.flatten ++ front ∧ after = back ++ later.flatten

/-- The longest end of comments that no blank line divides. -/
structure IsLongestSuffix (comments block : List Comment) : Prop where
  suffix : block <:+ comments
  unbroken : Unbroken block
  longest : ∀ other, other <:+ comments → Unbroken other → other <:+ block

/-- The longest start of comments that no blank line divides. -/
structure IsLongestPrefix (comments block : List Comment) : Prop where
  start : block <+: comments
  unbroken : Unbroken block
  longest : ∀ other, other <+: comments → Unbroken other → other <+: block

/-- The last of the comments ends on the line above `line`, or later. -/
def EndsBeside (comments : List Comment) (line : Nat) : Prop :=
  ∃ last, comments.getLast? = some last ∧ line ≤ last.lastLine + 1

variable {comments front back : List Comment} {pieces later : List (List Comment)}
  {a b : Comment} {run : List Comment} {line : Nat}

/-! ### The runs divide the comments -/

/-- Comments have one division, their runs. -/
theorem isDivision_iff : IsDivision comments pieces ↔ runs comments = pieces := by
  unfold runs
  rw [List.splitBy_eq_iff]
  simp only [decide_eq_true_eq, decide_eq_false_iff_not]
  constructor
  · rintro ⟨hflatten, hnonempty, hunbroken, hdivided⟩
    refine ⟨hflatten.symm, hnonempty, hunbroken, hdivided.imp_of_mem_imp fun p q hp hq h => ?_⟩
    have hp : p ≠ [] := fun he => hnonempty (he ▸ hp)
    have hq : q ≠ [] := fun he => hnonempty (he ▸ hq)
    exact ⟨hp, hq, h _ (List.getLast_mem_getLast? hp) _ (List.head_mem_head? hq)⟩
  · rintro ⟨hflatten, hnonempty, hunbroken, hdivided⟩
    refine ⟨hflatten.symm, hnonempty, hunbroken, hdivided.imp ?_⟩
    rintro p q ⟨hp, hq, h⟩ a ha b hb
    rwa [List.getLast_of_mem_getLast? ha, List.head_of_mem_head? hb] at h

theorem isDivision_runs (comments : List Comment) : IsDivision comments (runs comments) :=
  isDivision_iff.mpr rfl

/-- Pieces that end with a comment have a last piece that does. -/
theorem exists_last_piece (hnil : [] ∉ pieces) (h : pieces.flatten = front ++ [a]) :
    ∃ earlier rest, pieces = earlier ++ [rest ++ [a]] ∧ front = earlier.flatten ++ rest := by
  rcases List.eq_nil_or_concat' pieces with rfl | ⟨earlier, last, rfl⟩
  · simp at h
  · rcases List.eq_nil_or_concat' last with rfl | ⟨rest, c, rfl⟩
    · simp at hnil
    · rw [List.flatten_append, List.flatten_singleton, ← List.append_assoc] at h
      obtain ⟨hfront, rfl⟩ := List.append_singleton_inj.mp h
      exact ⟨earlier, rest, rfl, hfront.symm⟩

/-- Pieces that start with a comment have a first piece that does. -/
theorem exists_first_piece (hnil : [] ∉ pieces) (h : pieces.flatten = b :: back) :
    ∃ rest later, pieces = (b :: rest) :: later ∧ back = rest ++ later.flatten := by
  match pieces with
  | [] => simp at h
  | [] :: later => simp at hnil
  | (c :: rest) :: later =>
    obtain ⟨rfl, hback⟩ := List.cons.inj h
    exact ⟨rest, later, rfl, hback.symm⟩

namespace IsDivision

/-- Where one piece ends and the next one starts, a blank line stands. -/
theorem not_adjoins (h : IsDivision comments (pieces ++ later))
    (hends : pieces.flatten = front ++ [a]) (hstarts : later.flatten = b :: back) :
    ¬ Adjoins a b := by
  obtain ⟨hpieces, hlater⟩ := not_or.mp (mt List.mem_append.mpr h.nonempty)
  obtain ⟨earlier, rest, rfl, -⟩ := exists_last_piece hpieces hends
  obtain ⟨rest', later', rfl, -⟩ := exists_first_piece hlater hstarts
  have hgap := (List.isChain_append.mp h.divided).2.2 (rest ++ [a]) (by simp) (b :: rest') (by simp)
  exact hgap a (by simp) b (by simp)

/-- Neighbours lie in one piece exactly when no blank line stands between them. -/
theorem together_iff (h : IsDivision comments pieces)
    (hcomments : comments = front ++ a :: b :: back) :
    Together pieces front a b back ↔ Adjoins a b := by
  constructor
  · rintro ⟨earlier, rest, rest', later, rfl, -, -⟩
    have hpiece := h.unbroken (rest ++ a :: b :: rest') (by simp)
    exact (List.isChain_append_cons_cons.mp hpiece).2.1
  · intro hadjoins
    have hcut : pieces.flatten = (front ++ [a]) ++ b :: back := by simp [h.flatten, hcomments]
    -- the pieces can be cut between the two, and if a piece ends there they do not adjoin
    rcases List.flatten_eq_append_iff.mp hcut with
      ⟨earlier, later, rfl, hends, hstarts⟩ | ⟨earlier, rest, c, rest', later, rfl, hends, hstarts⟩
    · exact absurd hadjoins (h.not_adjoins hends.symm hstarts.symm)
    · obtain ⟨rfl, hback⟩ := List.cons.inj hstarts
      rcases List.eq_nil_or_concat' rest with rfl | ⟨rest, c, rfl⟩
      · rw [List.append_nil] at hends
        have hstarts : ((b :: rest') :: later).flatten = b :: back := by simp [hback]
        exact absurd hadjoins (h.not_adjoins hends.symm hstarts)
      · rw [← List.append_assoc] at hends
        obtain ⟨hfront, rfl⟩ := List.append_singleton_inj.mp hends
        exact ⟨earlier, rest, rest', later, by simp, hfront, hback⟩

/-! ### A division grows at its end -/

/-- A comment behind a blank line is a piece of its own. -/
theorem concat_of_not_adjoins (h : IsDivision (front ++ [a]) pieces) (hgap : ¬ Adjoins a b) :
    IsDivision (front ++ [a] ++ [b]) (pieces ++ [[b]]) where
  flatten := by simp [h.flatten]
  nonempty := by simp [h.nonempty]
  unbroken := by
    intro piece hpiece
    rcases List.mem_append.mp hpiece with hpiece | hpiece
    · exact h.unbroken piece hpiece
    · rw [List.mem_singleton.mp hpiece]
      exact List.isChain_singleton b
  divided := by
    obtain ⟨earlier, rest, rfl, -⟩ := exists_last_piece h.nonempty h.flatten
    refine List.isChain_append.mpr ⟨h.divided, List.isChain_singleton _, ?_⟩
    simpa using hgap

/-- A comment without a blank line above it belongs to the last piece. -/
theorem concat_of_adjoins (h : IsDivision (front ++ [a]) (pieces ++ [run]))
    (hadjoins : Adjoins a b) :
    IsDivision (front ++ [a] ++ [b]) (pieces ++ [run ++ [b]]) := by
  obtain ⟨earlier, rest, hlast, -⟩ := exists_last_piece h.nonempty h.flatten
  obtain ⟨rfl, rfl⟩ := List.append_singleton_inj.mp hlast
  have hrun := h.unbroken (rest ++ [a]) (by simp)
  obtain ⟨hpieces, -, hgap⟩ := List.isChain_append.mp h.divided
  refine ⟨?_, ?_, ?_, ?_⟩
  · simp [← List.append_assoc, ← h.flatten]
  · simpa using h.nonempty
  · intro piece hpiece
    rcases List.mem_append.mp hpiece with hpiece | hpiece
    · exact h.unbroken piece (by simp [hpiece])
    · rw [List.mem_singleton.mp hpiece]
      exact List.isChain_append.mpr ⟨hrun, List.isChain_singleton b, by simpa using hadjoins⟩
  · refine List.isChain_append.mpr ⟨hpieces, List.isChain_singleton _, ?_⟩
    simpa using hgap

/-! ### The ends of a division -/

/-- The last piece is the longest end that no blank line divides. -/
theorem isLongestSuffix (h : IsDivision comments (pieces ++ [run])) :
    IsLongestSuffix comments run := by
  have hflatten : pieces.flatten ++ run = comments := by simpa using h.flatten
  have hrun : run ≠ [] := fun he => h.nonempty (by simp [he])
  refine ⟨⟨_, hflatten⟩, h.unbroken run (by simp), fun other hother hunbroken => ?_⟩
  rcases List.suffix_or_suffix_of_suffix hother ⟨_, hflatten⟩ with hshorter | ⟨more, rfl⟩
  · exact hshorter
  rcases List.eq_nil_or_concat' more with rfl | ⟨more, a, rfl⟩
  · simp
  -- a longer end goes over the blank line above the last piece
  obtain ⟨b, rest, rfl⟩ := List.exists_cons_of_ne_nil hrun
  obtain ⟨above, habove⟩ := hother
  have hends : pieces.flatten = (above ++ more) ++ [a] := by
    rw [← List.append_cancel_right_eq _ (b :: rest), hflatten, ← habove]
    simp
  rw [List.append_assoc, List.singleton_append] at hunbroken
  exact absurd (List.isChain_append_cons_cons.mp hunbroken).2.1
    (h.not_adjoins hends (by simp : [b :: rest].flatten = b :: rest))

/-- The first piece is the longest start that no blank line divides. -/
theorem isLongestPrefix (h : IsDivision comments (run :: later)) :
    IsLongestPrefix comments run := by
  have hflatten : run ++ later.flatten = comments := by simpa using h.flatten
  have hrun : run ≠ [] := fun he => h.nonempty (by simp [he])
  refine ⟨⟨_, hflatten⟩, h.unbroken run (by simp), fun other hother hunbroken => ?_⟩
  rcases List.prefix_or_prefix_of_prefix hother ⟨_, hflatten⟩ with hshorter | ⟨more, rfl⟩
  · exact hshorter
  cases more with
  | nil => simp
  | cons b more =>
    -- a longer start goes over the blank line below the first piece
    obtain ⟨rest, a, rfl⟩ := (List.eq_nil_or_concat' run).resolve_left hrun
    obtain ⟨below, hbelow⟩ := hother
    have hstarts : later.flatten = b :: (more ++ below) := by
      rw [← List.append_cancel_left_eq (rest ++ [a]), hflatten, ← hbelow]
      simp
    rw [List.append_assoc, List.singleton_append] at hunbroken
    exact absurd (List.isChain_append_cons_cons.mp hunbroken).2.1
      (@not_adjoins _ rest _ [rest ++ [a]] _ _ _ h (by simp) hstarts)

end IsDivision

/-! ### Cutting by indices -/

/-- The comments from one index up to another, if these lie in the list in this order. -/
def slice? (comments : List Comment) (start stop : Nat) : Option (List Comment) :=
  if start ≤ stop ∧ stop ≤ comments.length then some ((comments.take stop).drop start) else none

/-- The runs that are cut off so far, and the index that the next one starts at. -/
structure CutOff where
  done : List (List Comment)
  start : Nat

/-- What is cut off at the neighbours `i` and `i + 1`: a run that ends with the first, if a blank
line stands between them. -/
def CutOff.window? (comments : List Comment) (c : CutOff) (i : Nat) : Option CutOff := do
  let a ← comments[i]?
  let b ← comments[i + 1]?
  if b.firstLine > a.lastLine + 1 then
    let run ← slice? comments c.start (i + 1)
    return ⟨c.done ++ [run], i + 1⟩
  else return c

/-- The runs as slices between indices, cut off at one pair of neighbours after the other; none if a
comment or a slice is looked for outside the list. -/
def cutRuns? (comments : List Comment) : Option (List (List Comment)) := do
  let c ← (List.range (comments.length - 1)).foldlM (CutOff.window? comments) ⟨[], 0⟩
  if c.start < comments.length then
    let run ← slice? comments c.start comments.length
    return c.done ++ [run]
  else return c.done

/-- What is cut off divides the comments up to number `i`, but for their last run, which the index
points at. -/
structure CutOff.Keeps (comments : List Comment) (i : Nat) (c : CutOff) : Prop where
  start_eq : c.start = c.done.flatten.length
  divides : ∃ run, IsDivision (comments.take (i + 1)) (c.done ++ [run])

/-- The slice behind the pieces before the last is the last. -/
theorem slice?_of_isDivision {stop : Nat} (hstop : stop ≤ comments.length)
    (h : IsDivision (comments.take stop) (pieces ++ [run])) :
    slice? comments pieces.flatten.length stop = some run := by
  have hflatten : comments.take stop = pieces.flatten ++ run := by simp [← h.flatten]
  have hlength : stop = pieces.flatten.length + run.length := by
    rw [← List.length_append, ← hflatten, List.length_take, Nat.min_eq_left hstop]
  rw [slice?, if_pos ⟨by omega, hstop⟩, hflatten, List.drop_left]

/-- A window of neighbours in the list keeps what is cut off a division. -/
theorem CutOff.Keeps.window? {c : CutOff} {i : Nat} (h : c.Keeps comments i)
    (hi : i + 1 < comments.length) :
    ∃ next, CutOff.window? comments c i = some next ∧ next.Keeps comments (i + 1) := by
  obtain ⟨run, hdivides⟩ := h.divides
  have hfirst : comments.take (i + 1) = comments.take i ++ [comments[i]] :=
    List.take_succ_eq_append_getElem (Nat.lt_of_succ_lt hi)
  have hsecond : comments.take (i + 2) = comments.take i ++ [comments[i]] ++ [comments[i + 1]] := by
    rw [← hfirst]
    exact List.take_succ_eq_append_getElem hi
  unfold CutOff.window?
  simp only [List.getElem?_eq_getElem hi, List.getElem?_eq_getElem (Nat.lt_of_succ_lt hi),
    Option.bind_eq_bind, Option.bind_some]
  by_cases hadjoins : Adjoins comments[i] comments[i + 1]
  · rw [if_neg (Nat.not_lt.mpr hadjoins)]
    refine ⟨c, rfl, h.start_eq, run ++ [comments[i + 1]], ?_⟩
    rw [hfirst] at hdivides
    rw [hsecond]
    exact hdivides.concat_of_adjoins hadjoins
  · have hslice := slice?_of_isDivision (Nat.le_of_lt hi) hdivides
    rw [if_pos (Nat.not_le.mp hadjoins), h.start_eq, hslice]
    refine ⟨⟨c.done ++ [run], i + 1⟩, rfl, ?_, [comments[i + 1]], ?_⟩
    · rw [hdivides.flatten, List.length_take, Nat.min_eq_left (Nat.le_of_lt hi)]
    · rw [hfirst] at hdivides
      rw [hsecond]
      exact hdivides.concat_of_not_adjoins hadjoins

/-- Going through the first windows keeps what is cut off a division. -/
theorem exists_foldlM_window? : ∀ {i : Nat}, i < comments.length →
    ∃ c, (List.range i).foldlM (CutOff.window? comments) ⟨[], 0⟩ = some c ∧ c.Keeps comments i
  | 0, h => by
    refine ⟨⟨[], 0⟩, rfl, rfl, [comments[0]], ?_⟩
    have hfirst : comments.take 1 = [comments[0]] := by
      simpa using List.take_succ_eq_append_getElem h
    rw [hfirst, isDivision_iff]
    rfl
  | i + 1, h => by
    obtain ⟨c, hc, hkeeps⟩ := exists_foldlM_window? (Nat.lt_of_succ_lt h)
    obtain ⟨next, hnext, hkeeps⟩ := hkeeps.window? h
    refine ⟨next, ?_, hkeeps⟩
    rw [List.range_succ, List.foldlM_append, hc]
    simpa using hnext

/-- The slices between the indices are the runs, and all of them lie in the list. -/
theorem cutRuns?_eq (comments : List Comment) : cutRuns? comments = some (runs comments) := by
  unfold cutRuns?
  rcases Nat.eq_zero_or_pos comments.length with hnone | hsome
  · obtain rfl := List.length_eq_zero_iff.mp hnone
    rfl
  · obtain ⟨c, hc, hkeeps⟩ := exists_foldlM_window? (Nat.sub_lt hsome Nat.one_pos)
    obtain ⟨run, hdivides⟩ := hkeeps.divides
    rw [Nat.sub_add_cancel hsome] at hdivides
    have hslice := slice?_of_isDivision (Nat.le_refl _) hdivides
    rw [List.take_length] at hdivides
    have hstart : c.start < comments.length := by
      have hrun : run ≠ [] := fun he => hdivides.nonempty (by simp [he])
      have hlength := congrArg List.length hdivides.flatten
      have hpos := List.length_pos_of_ne_nil hrun
      rw [List.flatten_append, List.flatten_singleton, List.length_append,
        ← hkeeps.start_eq] at hlength
      omega
    rw [← hkeeps.start_eq] at hslice
    rw [hc, isDivision_iff.mp hdivides]
    simp [hstart, hslice]

/-! ### Doc comments -/

theorem abuts_eq_true_iff : abuts comments line = true ↔ EndsBeside comments line := by
  unfold abuts EndsBeside
  cases comments.getLast? <;> simp

/-- Whether comments end beside a line is decided by their last run. -/
theorem endsBeside_of_isDivision (h : IsDivision comments (pieces ++ [run])) :
    EndsBeside run line ↔ EndsBeside comments line := by
  have hrun : run ≠ [] := fun he => h.nonempty (by simp [he])
  have hlast : comments.getLast? = run.getLast? := by
    rw [← h.flatten, List.flatten_append, List.flatten_singleton,
      List.getLast?_append_of_ne_nil _ hrun]
  unfold EndsBeside
  rw [hlast]

/-- The doc of a node is the last piece of the comments above it, if these end beside it. -/
theorem docBlock_of_isDivision (h : IsDivision comments (pieces ++ [run])) :
    docBlock comments line = if abuts run line then run else [] := by
  simp [docBlock, isDivision_iff.mp h]

/-- The doc of a node is the longest end of the comments above it that no blank line divides, if
they end beside the node. -/
theorem isLongestSuffix_docBlock (h : EndsBeside comments line) :
    IsLongestSuffix comments (docBlock comments line) := by
  have hdivision := isDivision_runs comments
  rcases List.eq_nil_or_concat' (runs comments) with hruns | ⟨pieces, run, hruns⟩
  · obtain ⟨last, hlast, -⟩ := h
    rw [List.splitBy_eq_nil.mp hruns] at hlast
    cases hlast
  · rw [hruns] at hdivision
    rw [docBlock_of_isDivision hdivision,
      if_pos (abuts_eq_true_iff.mpr ((endsBeside_of_isDivision hdivision).mpr h))]
    exact hdivision.isLongestSuffix

theorem docBlock_eq_nil (h : ¬ EndsBeside comments line) : docBlock comments line = [] := by
  have hdivision := isDivision_runs comments
  rcases List.eq_nil_or_concat' (runs comments) with hruns | ⟨pieces, run, hruns⟩
  · simp [docBlock, hruns]
  · rw [hruns] at hdivision
    have habuts := mt abuts_eq_true_iff.mp (mt (endsBeside_of_isDivision hdivision).mp h)
    rw [docBlock_of_isDivision hdivision, if_neg habuts]

variable {declLine : Option Nat}

/-- The comments above the first item are one run, and that is the doc of the declaration which the
item is. -/
def IsDeclDoc (comments : List Comment) (declLine : Option Nat) : Prop :=
  runs comments = [comments] ∧ ∃ line, declLine = some line ∧ EndsBeside comments line

theorem fileDocBlock_of_isDeclDoc (h : IsDeclDoc comments declLine) :
    fileDocBlock comments declLine = [] := by
  obtain ⟨hruns, line, rfl, hends⟩ := h
  simp [fileDocBlock, hruns, abuts_eq_true_iff.mpr hends]

/-- The doc of a file is the first run, unless that is the doc of the first declaration. -/
theorem fileDocBlock_of_runs (hruns : runs comments = run :: later)
    (h : ¬ IsDeclDoc comments declLine) : fileDocBlock comments declLine = run := by
  unfold fileDocBlock
  rw [hruns]
  cases later with
  | cons next later => rfl
  | nil =>
    cases declLine with
    | none => rfl
    | some line =>
      obtain rfl : run = comments := by simpa [hruns] using (isDivision_runs comments).flatten
      have habuts : ¬ abuts run line = true := fun habuts =>
        h ⟨hruns, line, rfl, abuts_eq_true_iff.mp habuts⟩
      exact if_neg habuts

theorem fileDocBlock_eq_nil_iff :
    fileDocBlock comments declLine = [] ↔ comments = [] ∨ IsDeclDoc comments declLine := by
  constructor
  · intro h
    by_contra hnot
    obtain ⟨hne, hdecl⟩ := not_or.mp hnot
    obtain ⟨run, later, hruns⟩ := List.exists_cons_of_ne_nil (List.splitBy_ne_nil.mpr hne)
    rw [fileDocBlock_of_runs hruns hdecl] at h
    exact (isDivision_iff.mpr hruns).nonempty (by simp [h])
  · rintro (rfl | h)
    · rfl
    · exact fileDocBlock_of_isDeclDoc h

/-- The doc of a file, if it has one, is the longest start of the comments above its first item that
no blank line divides. -/
theorem isLongestPrefix_fileDocBlock (h : fileDocBlock comments declLine ≠ []) :
    IsLongestPrefix comments (fileDocBlock comments declLine) := by
  obtain ⟨hne, hdecl⟩ := not_or.mp (mt fileDocBlock_eq_nil_iff.mpr h)
  obtain ⟨run, later, hruns⟩ := List.exists_cons_of_ne_nil (List.splitBy_ne_nil.mpr hne)
  rw [fileDocBlock_of_runs hruns hdecl]
  exact (isDivision_iff.mpr hruns).isLongestPrefix

/-- **Runs are maximal.** Cutting comments by indices stays in the list and gives their runs: pieces
that are not empty and together are the comments, with two neighbours in one of them exactly when
the second starts at most one line after the first ends. The doc of a node is the longest end
without a blank line if the last comment ends on the line above the node or later, and else empty.
The doc of a file is the longest start without a blank line, and it is empty exactly if there are no
comments or all are one run that ends beside a first declaration. -/
theorem runs_maximal (comments : List Comment) :
    (cutRuns? comments = some (runs comments) ∧
      [] ∉ runs comments ∧ (runs comments).flatten = comments ∧
      ∀ before a b after, comments = before ++ a :: b :: after →
        (Together (runs comments) before a b after ↔ b.firstLine ≤ a.lastLine + 1)) ∧
    (∀ line, (EndsBeside comments line → IsLongestSuffix comments (docBlock comments line)) ∧
      (¬ EndsBeside comments line → docBlock comments line = [])) ∧
    ∀ declLine,
      (fileDocBlock comments declLine = [] ↔ comments = [] ∨ runs comments = [comments] ∧
        ∃ line, declLine = some line ∧ EndsBeside comments line) ∧
      (fileDocBlock comments declLine ≠ [] →
        IsLongestPrefix comments (fileDocBlock comments declLine)) := by
  have hdivision := isDivision_runs comments
  refine ⟨⟨cutRuns?_eq comments, hdivision.nonempty, hdivision.flatten, ?_⟩, ?_, ?_⟩
  · intro before a b after hcomments
    exact hdivision.together_iff hcomments
  · exact fun line => ⟨isLongestSuffix_docBlock, docBlock_eq_nil⟩
  · exact fun declLine => ⟨fileDocBlock_eq_nil_iff, isLongestPrefix_fileDocBlock⟩

/-- A note on line 1 with a block of two lines below it, and a marker on line 5. -/
def notedMarker : List Comment :=
  [⟨.line, " @author A", 1, 1⟩, ⟨.block, " more\n", 2, 3⟩, ⟨.line, " @HttpClient", 5, 5⟩]

theorem runs_maximal_noted :
    cutRuns? notedMarker = some (runs notedMarker) ∧
      Together (runs notedMarker) [] ⟨.line, " @author A", 1, 1⟩ ⟨.block, " more\n", 2, 3⟩
        [⟨.line, " @HttpClient", 5, 5⟩] ∧
      IsLongestSuffix notedMarker (docBlock notedMarker 6) ∧ docBlock notedMarker 7 = [] ∧
      IsLongestPrefix notedMarker (fileDocBlock notedMarker (some 6)) := by
  obtain ⟨⟨hcut, -, -, htogether⟩, hdoc, hfile⟩ := runs_maximal notedMarker
  refine ⟨hcut, (htogether [] _ _ [_] rfl).mpr (by decide), (hdoc 6).1 ⟨_, rfl, by decide⟩,
    (hdoc 7).2 ?_, (hfile (some 6)).2 (by decide)⟩
  rintro ⟨last, hlast, hends⟩
  cases hlast
  exact absurd hends (by decide)

end FetchClients
