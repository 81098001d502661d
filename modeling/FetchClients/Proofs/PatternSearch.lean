/-
# What a search by a pattern finds

A pattern stands for fields part by part (`Glob.Fits`): a part without wildcards for
its own text, a part with wildcards for one name, and a `**` for names further down. A
search finds only paths that take the moves of fields that its parts stand for
(`Glob.Search.fits_of_mem`), and if such fields lead into a directory by a path that
can be looked at, then the search finds a path to it (`Glob.Search.mem_of_fits`). What
it cannot come to is an empty part behind a `.` that it starts at
(`Glob.emptyBehindHere`).

Key definitions: `Glob.Fits`, `Glob.Search.Spells`, `Glob.emptyBehindHere`.
Key theorems: `Glob.Search.fits_of_mem`, `Glob.Search.mem_of_fits`, `Glob.fits_of_mem_expand`,
`Glob.mem_expand_of_fits`.
-/
import FetchClients.Proofs.ConfigSearch
import FetchClients.Proofs.Entering
import FetchClients.Proofs.FoundSources
import Mathlib.Data.List.DropRight

namespace FetchClients

namespace Text

theorem joinWith_concat {sep : List Char} (part : List Char) : ∀ {parts : List (List Char)},
    parts ≠ [] → joinWith sep (parts ++ [part]) = joinWith sep parts ++ sep ++ part
  | [], h => absurd rfl h
  | [first], _ => by simp [joinWith]
  | first :: next :: parts, _ => by
    have ih := @joinWith_concat sep part (next :: parts) (by simp)
    simpa [joinWith] using ih

theorem length_le_utf8ByteSize (s : String) : s.toList.length ≤ s.utf8ByteSize := by
  rw [← String.ofList_toList (s := s), String.utf8ByteSize_ofList, String.toList_ofList]
  induction s.toList with
  | nil => exact Nat.le_refl 0
  | cons c cs ih =>
    have hsize := c.utf8Size_pos
    rw [List.length_cons, String.utf8Len_cons]
    omega

end Text

namespace Path

theorem toList_ofFields (rooted : Bool) (fs : List (List Char)) :
    (ofFields rooted fs).text.toList = (if rooted then ['/'] else []) ++ Text.joinWith ['/'] fs := by
  cases rooted <;> simp [ofFields]

theorem toList_ofFields_concat (rooted : Bool) {fs : List (List Char)} (hfs : fs ≠ [])
    (f : List Char) : (ofFields rooted (fs ++ [f])).text.toList =
      (ofFields rooted fs).text.toList ++ '/' :: f := by
  rw [toList_ofFields, toList_ofFields, Text.joinWith_concat f hfs]
  simp

/-- A path is its fields between slashes. -/
theorem ofFields_body (p : Path) : ofFields p.isAbsolute p.body.2 = p := by
  obtain ⟨inner, htext, hinner⟩ := exists_inner p
  have hbody : p.body.2 = Text.fields '/' inner := by rw [body_eq_of_toList htext hinner]
  have heq : (ofFields p.isAbsolute p.body.2).text = p.text :=
    String.ext (by rw [toList_ofFields, hbody, Text.joinWith_fields, htext])
  exact congrArg Path.mk heq

theorem isAbsolute_eq (p : Path) : p.isAbsolute = decide (p.text.toList.head? = some '/') := by
  unfold isAbsolute body
  split
  · rename_i heq
    simp [heq]
  · rename_i hnot
    refine (decide_eq_false fun hhead => ?_).symm
    obtain ⟨rest, hrest⟩ := List.head?_eq_some_iff.mp hhead
    exact hnot rest hrest

theorem components_ne_nil {p : Path} (h : p.text ≠ "") : p.components ≠ [] := by
  rw [components_eq]
  cases habs : p.isAbsolute with
  | true => simp
  | false => simpa using steps_ne_nil habs h

/-- Only a path that stays where it starts takes the steps of `.`. -/
theorem moving_of_here {p : Path} (h : p.components = [.here]) :
    p.isAbsolute = false ∧ moving p.body.2 = [] := by
  rw [components_eq] at h
  cases habs : p.isAbsolute with
  | true => simp [habs] at h
  | false =>
    have hmoving := filter_fieldComponents (!p.body.1) p.body.2
    rw [habs, if_neg Bool.false_ne_true, List.nil_append, steps_eq] at h
    rw [h] at hmoving
    exact ⟨rfl, List.map_eq_nil_iff.mp hmoving.symm⟩

end Path

namespace Glob

/-! ### What patterns stand for -/

/-- Whether a part with wildcards picks a field: a name that it stands for, or else `.` or `..` if a
dot opens the part. -/
def Picks (part : List Token) (f : List Char) : Prop :=
  accepts part f = true ∧ (ProperName (String.ofList f) ∨
    part.head? = some (.char '.') ∧ (f = ['.'] ∨ f = ['.', '.']))

/-- The fields that the parts of a pattern stand for, from the first on. A `**`, with those that
follow it, stands for names: for at least one if nothing else follows, and else for as many as there
are in front of a name that the next part stands for. -/
inductive Fits : List (List Token) → List (List Char) → Prop
  | done : Fits [] []
  | name {part parts text fs} : literal? part = some text → Fits parts fs →
      Fits (part :: parts) (text :: fs)
  | picked {part parts f fs} : literal? part = none → isRecursive part = false → Picks part f →
      Fits parts fs → Fits (part :: parts) (f :: fs)
  | folders {part parts fs} : isRecursive part = true → parts.dropWhile isRecursive = [] → fs ≠ [] →
      (∀ f ∈ fs, ProperName (String.ofList f)) → Fits (part :: parts) fs
  | foldersBefore {part parts next rest front f fs} : isRecursive part = true →
      parts.dropWhile isRecursive = next :: rest → (∀ g ∈ front, ProperName (String.ofList g)) →
      ProperName (String.ofList f) → accepts next f = true → Fits rest fs →
      Fits (part :: parts) (front ++ f :: fs)

theorem literal?_of_isRecursive {part : List Token} (h : isRecursive part = true) :
    literal? part = none := by
  cases hliteral : literal? part with
  | none => rfl
  | some text =>
    rw [literal?_eq_some_iff.mp hliteral] at h
    simp [isRecursive] at h

section Steps

variable {part : List Token} {parts : List (List Token)} {f : List Char} {fs : List (List Char)}

theorem Fits.ne_nil (h : Fits (part :: parts) fs) : fs ≠ [] := by
  cases h with
  | name | picked => simp
  | folders _ _ hne => exact hne
  | foldersBefore => simp

theorem fits_literal_iff {text : List Char} (hliteral : literal? part = some text) :
    Fits (part :: parts) fs ↔ ∃ gs, fs = text :: gs ∧ Fits parts gs := by
  constructor
  · intro h
    cases h with
    | name hother hfits =>
      obtain rfl := Option.some.inj (hliteral.symm.trans hother)
      exact ⟨_, rfl, hfits⟩
    | picked hwild => simp [hliteral] at hwild
    | folders hrecursive | foldersBefore hrecursive =>
      simp [literal?_of_isRecursive hrecursive] at hliteral
  · rintro ⟨gs, rfl, hfits⟩
    exact .name hliteral hfits

theorem fits_picked_iff (hwild : literal? part = none) (hplain : isRecursive part = false) :
    Fits (part :: parts) fs ↔ ∃ f gs, fs = f :: gs ∧ Picks part f ∧ Fits parts gs := by
  constructor
  · intro h
    cases h with
    | name hliteral => simp [hwild] at hliteral
    | picked _ _ hpicks hfits => exact ⟨_, _, rfl, hpicks, hfits⟩
    | folders hrecursive | foldersBefore hrecursive => simp [hplain] at hrecursive
  · rintro ⟨f, gs, rfl, hpicks, hfits⟩
    exact .picked hwild hplain hpicks hfits

/-- The first name that a `**` stands for is one that it goes down by, the last if nothing follows,
or one that the next part stands for. -/
theorem fits_recursive_iff (hrecursive : isRecursive part = true) :
    Fits (part :: parts) (f :: fs) ↔ ProperName (String.ofList f) ∧
      (Fits (part :: parts.dropWhile isRecursive) fs ∨
        (parts.dropWhile isRecursive = [] ∧ fs = []) ∨
        ∃ next rest, parts.dropWhile isRecursive = next :: rest ∧ accepts next f = true ∧
          Fits rest fs) := by
  have hsame : (parts.dropWhile isRecursive).dropWhile isRecursive = parts.dropWhile isRecursive :=
    List.dropWhile_idempotent ..
  constructor
  · intro h
    generalize hwhole : f :: fs = whole at h
    cases h with
    | name hliteral => simp [literal?_of_isRecursive hrecursive] at hliteral
    | picked _ hplain => simp [hrecursive] at hplain
    | folders _ hnone _ hnames =>
      obtain ⟨hf, hfs⟩ := List.forall_mem_cons.mp (hwhole ▸ hnames)
      refine ⟨hf, ?_⟩
      by_cases hnil : fs = []
      · exact .inr (.inl ⟨hnone, hnil⟩)
      · exact .inl (.folders hrecursive (hsame.trans hnone) hnil hfs)
    | @foldersBefore _ _ next rest front g gs _ hnext hfront hg haccepts hfits =>
      cases front with
      | nil =>
        obtain ⟨rfl, rfl⟩ := List.cons.inj hwhole
        exact ⟨hg, .inr (.inr ⟨next, rest, hnext, haccepts, hfits⟩)⟩
      | cons h front =>
        obtain ⟨rfl, rfl⟩ := List.cons.inj hwhole
        obtain ⟨hf, hfront⟩ := List.forall_mem_cons.mp hfront
        exact ⟨hf, .inl (.foldersBefore hrecursive (hsame.trans hnext) hfront hg haccepts hfits)⟩
  · rintro ⟨hf, hfits | ⟨hnone, rfl⟩ | ⟨next, rest, hnext, haccepts, hfits⟩⟩
    · cases hfits with
      | name hliteral => simp [literal?_of_isRecursive hrecursive] at hliteral
      | picked _ hplain => simp [hrecursive] at hplain
      | folders _ hnone _ hnames =>
        exact .folders hrecursive (hsame.symm.trans hnone) (by simp)
          (List.forall_mem_cons.mpr ⟨hf, hnames⟩)
      | @foldersBefore _ _ _ _ front _ _ _ hnext hfront hg haccepts hfits =>
        rw [← List.cons_append]
        exact .foldersBefore hrecursive (hsame.symm.trans hnext)
          (List.forall_mem_cons.mpr ⟨hf, hfront⟩) hg haccepts hfits
    · exact .folders hrecursive hnone (by simp) (by simpa using hf)
    · rw [← List.nil_append (f :: fs)]
      exact .foldersBefore hrecursive hnext (by simp) hf haccepts hfits

/-- Only an empty part stands for an empty field. -/
theorem Fits.head?_ne (h : Fits (part :: parts) fs) (hpart : part ≠ []) : fs.head? ≠ some [] := by
  intro hhead
  obtain ⟨gs, rfl⟩ := List.head?_eq_some_iff.mp hhead
  have hname : ¬ ProperName (String.ofList []) := fun hproper => hproper.ne_empty rfl
  cases hliteral : literal? part with
  | some text =>
    obtain ⟨_, heq, -⟩ := (fits_literal_iff hliteral).mp h
    obtain ⟨rfl, -⟩ := List.cons.inj heq
    exact hpart (literal?_eq_some_iff.mp hliteral)
  | none =>
    by_cases hrecursive : isRecursive part = true
    · exact hname ((fits_recursive_iff hrecursive).mp h).1
    · obtain ⟨_, _, heq, ⟨-, hpicked⟩, -⟩ :=
        (fits_picked_iff hliteral (Bool.eq_false_iff.mpr hrecursive)).mp h
      obtain ⟨rfl, -⟩ := List.cons.inj heq
      rcases hpicked with hproper | ⟨-, hdots | hdots⟩
      · exact hname hproper
      · cases hdots
      · cases hdots

end Steps

/-- No field that parts stand for has a slash. -/
theorem Fits.not_slash {parts : List (List Token)} {fs : List (List Char)} (h : Fits parts fs)
    (hparts : ∀ part ∈ parts, IsSlashless true part) : ∀ f ∈ fs, '/' ∉ f := by
  have hproper : ∀ {f : List Char}, ProperName (String.ofList f) → '/' ∉ f := fun hf => by
    simpa using hf.not_slash
  induction h with
  | done => simp
  | name hliteral _ ih =>
    obtain ⟨hpart, hparts⟩ := List.forall_mem_cons.mp hparts
    have hslash := slash_not_mem_of_literal? hliteral hpart
    exact List.forall_mem_cons.mpr ⟨by simpa using hslash, ih hparts⟩
  | picked _ _ hpicks _ ih =>
    obtain ⟨-, hparts⟩ := List.forall_mem_cons.mp hparts
    refine List.forall_mem_cons.mpr ⟨?_, ih hparts⟩
    obtain ⟨-, hf | ⟨-, rfl | rfl⟩⟩ := hpicks
    · exact hproper hf
    · decide
    · decide
  | folders _ _ _ hnames => exact fun f hf => hproper (hnames f hf)
  | foldersBefore _ hnext hfront hf _ _ ih =>
    obtain ⟨-, hparts⟩ := List.forall_mem_cons.mp hparts
    have hrest := ih fun part hpart => hparts part <|
      (List.dropWhile_sublist _).subset (hnext ▸ List.mem_cons_of_mem _ hpart)
    intro g hg
    rcases List.mem_append.mp hg with hg | hg
    · exact hproper (hfront g hg)
    · rcases List.mem_cons.mp hg with rfl | hg
      · exact hproper hf
      · exact hrest g hg

namespace Search

/-! ### Only what the pattern stands for is found -/

/-- A path that takes the moves of fields. -/
structure Spells (rooted : Bool) (fs : List (List Char)) (p : Path) : Prop where
  absolute : p.isAbsolute = rooted
  moving : Path.moving p.body.2 = Path.moving fs

section Spells

variable {rooted : Bool} {fs : List (List Char)} {p : Path} {name : String}

theorem Spells.join (h : Spells rooted fs p) (hslash : '/' ∉ name.toList) :
    Spells rooted (fs ++ [name.toList]) (p.join ⟨name⟩) := by
  obtain ⟨kept, hbody, hkept⟩ := p.body_join_fields (Path.not_isAbsolute_name hslash)
  rw [Path.body_name hslash] at hbody
  have hmoving : Path.moving kept = Path.moving fs := by
    rw [← h.moving]
    rcases hkept with hkept | hkept
    · rw [hkept]
    · rw [hkept, Path.moving_append, Path.moving_cons_stay (.inl rfl), Path.moving_nil,
        List.append_nil]
  refine ⟨?_, ?_⟩
  · rw [Path.isAbsolute, hbody]
    exact h.absolute
  · rw [hbody, Path.moving_append, Path.moving_append, hmoving]

theorem Spells.child (h : Spells rooted fs p) (hslash : '/' ∉ name.toList) :
    Spells rooted (fs ++ [name.toList]) (child p name) := by
  obtain ⟨q, hq, hcases⟩ := child_eq_join p name
  rw [hq]
  refine Spells.join ?_ hslash
  rcases hcases with rfl | ⟨rfl, hhere⟩
  · exact h
  · obtain ⟨habs, hmoving⟩ := Path.moving_of_here hhere
    exact ⟨habs.symm.trans h.absolute, by rw [← h.moving, hmoving]; rfl⟩

end Spells

section Sound

variable {d : Disk} (htree : d.IsLinkedTree) {directoriesOnly rooted : Bool}
include htree

theorem properName_of_mem_names {directory : Path} {name : String}
    (h : name ∈ names ⟨d, directoriesOnly⟩ directory) : ProperName name := by
  obtain ⟨place, -, hsome⟩ := mem_names_iff_lookup.mp h
  exact (htree.storedName hsome name (by simp)).toProperName

section Step

variable {n : Nat} {part : List Token} {parts : List (List Token)} {directory next p : Path}
  {name : String} {fs : List (List Char)}

omit htree in
/-- What is found at a `.` or `..` that a part picks: such a part opens with a dot, so it stands for
one field. -/
theorem fits_of_mem_dots (hwild : literal? part = none) (hpart : IsSlashless true part)
    (hdots : name ∈ [".", ".."])
    (hpicks : (decide (part.head? = some (.char '.')) && accepts part name.toList) = true)
    (hspells : Spells rooted fs directory)
    (hgoes : Spells rooted (fs ++ [name.toList]) (directory.join ⟨name⟩) →
      ∃ gs, Fits parts gs ∧ Spells rooted (fs ++ [name.toList] ++ gs) p) :
    ∃ gs, Fits (part :: parts) gs ∧ Spells rooted (fs ++ gs) p := by
  obtain ⟨hhead, haccepts⟩ := Bool.and_eq_true_iff.mp hpicks
  have hhead : part.head? = some (.char '.') := of_decide_eq_true hhead
  have hplain : isRecursive part = false := by
    rw [Bool.eq_false_iff]
    intro hrecursive
    rw [(hpart.2 (by simpa [isRecursive] using hrecursive)).2] at hhead
    simp at hhead
  have hname : name.toList = ['.'] ∨ name.toList = ['.', '.'] := by
    rcases List.mem_cons.mp hdots with rfl | hdots
    · exact .inl rfl
    · rw [List.mem_singleton.mp hdots]
      exact .inr rfl
  have hslash : '/' ∉ name.toList := by rcases hname with hname | hname <;> simp [hname]
  obtain ⟨gs, hgs, hfound⟩ := hgoes (hspells.join hslash)
  exact ⟨name.toList :: gs, .picked hwild hplain ⟨haccepts, .inr ⟨hhead, hname⟩⟩ hgs,
    List.append_cons fs name.toList gs ▸ hfound⟩

omit htree in
theorem fits_of_mem_visit (hwild : literal? part = none) (hname : ProperName name)
    (hspells : Spells rooted (fs ++ [name.toList]) next)
    (hunder : p ∈ under ⟨d, directoriesOnly⟩ n (part :: parts.dropWhile isRecursive) next →
      ∃ gs, Fits (part :: parts.dropWhile isRecursive) gs ∧
        Spells rooted (fs ++ [name.toList] ++ gs) p)
    (hgoes : ∀ rest, (∀ q ∈ rest, q ∈ parts) → p ∈ onward ⟨d, directoriesOnly⟩ n rest next →
      ∃ gs, Fits rest gs ∧ Spells rooted (fs ++ [name.toList] ++ gs) p)
    (hp : p ∈ visit ⟨d, directoriesOnly⟩ (n + 1) (part :: parts) name next) :
    ∃ gs, Fits (part :: parts) gs ∧ Spells rooted (fs ++ gs) p := by
  have hproper : ProperName (String.ofList name.toList) := by simpa using hname
  obtain ⟨gs, hgs, hfound⟩ : ∃ gs, Fits (part :: parts) (name.toList :: gs) ∧
      Spells rooted (fs ++ [name.toList] ++ gs) p := by
    by_cases hrecursive : isRecursive part = true
    · simp only [fits_recursive_iff hrecursive]
      rcases (mem_visit_recursive_iff hrecursive).mp hp with
        ⟨-, hp⟩ | ⟨hnone, -, rfl⟩ | ⟨q, rest, heq, haccepts, hp⟩
      · obtain ⟨gs, hgs, hfound⟩ := hunder hp
        exact ⟨gs, ⟨hproper, .inl hgs⟩, hfound⟩
      · exact ⟨[], ⟨hproper, .inr (.inl ⟨hnone, rfl⟩)⟩, by rwa [List.append_nil]⟩
      · obtain ⟨gs, hgs, hfound⟩ := hgoes rest (fun r hr => (List.dropWhile_sublist _).subset
          (heq ▸ List.mem_cons_of_mem q hr)) hp
        exact ⟨gs, ⟨hproper, .inr (.inr ⟨q, rest, heq, haccepts, hgs⟩)⟩, hfound⟩
    · have hplain := Bool.eq_false_iff.mpr hrecursive
      obtain ⟨haccepts, hp⟩ := (mem_visit_iff hplain).mp hp
      obtain ⟨gs, hgs, hfound⟩ := hgoes parts (fun _ hq => hq) hp
      exact ⟨gs, .picked hwild hplain ⟨haccepts, .inl hproper⟩ hgs, hfound⟩
  exact ⟨name.toList :: gs, hgs, List.append_cons fs name.toList gs ▸ hfound⟩

end Step

/-- What is found from a path takes the moves of its fields, and then those of fields that the parts
stand for. -/
theorem fits_of_mem : ∀ n : Nat,
    (∀ parts directory p fs, (∀ part ∈ parts, IsSlashless true part) → Spells rooted fs directory →
      p ∈ under ⟨d, directoriesOnly⟩ n parts directory →
        ∃ gs, Fits parts gs ∧ Spells rooted (fs ++ gs) p) ∧
    (∀ parts next p fs, (∀ part ∈ parts, IsSlashless true part) → Spells rooted fs next →
      p ∈ onward ⟨d, directoriesOnly⟩ n parts next →
        ∃ gs, Fits parts gs ∧ Spells rooted (fs ++ gs) p) ∧
    ∀ part parts name next p fs, (∀ q ∈ part :: parts, IsSlashless true q) →
      literal? part = none → ProperName name → Spells rooted (fs ++ [name.toList]) next →
      p ∈ visit ⟨d, directoriesOnly⟩ n (part :: parts) name next →
        ∃ gs, Fits (part :: parts) gs ∧ Spells rooted (fs ++ gs) p
  | 0 => by simp only [under, onward, visit, List.not_mem_nil, false_implies, implies_true, and_self]
  | n + 1 => by
    obtain ⟨hunder, honward, hvisit⟩ := fits_of_mem n
    refine ⟨fun parts directory p fs hparts hspells hp => ?_, fun parts next p fs hparts hspells hp => ?_,
      fun part parts name next p fs hparts hwild hname hspells hp => ?_⟩
    · cases parts with
      | nil => simp [under] at hp
      | cons part parts =>
        obtain ⟨hpart, hrest⟩ := List.forall_mem_cons.mp hparts
        cases hliteral : literal? part with
        | some text =>
          obtain ⟨-, hp⟩ := (mem_under_literal_iff hliteral).mp hp
          have hnext := hspells.child (slash_not_mem_of_literal? hliteral hpart)
          rw [String.toList_ofList] at hnext
          obtain ⟨gs, hgs, hfound⟩ := honward parts _ p _ hrest hnext hp
          exact ⟨text :: gs, .name hliteral hgs, by simpa using hfound⟩
        | none =>
          obtain ⟨-, ⟨name, hname, hp⟩ | ⟨name, hdots, hpicks, hp⟩⟩ :=
            (mem_under_wild_iff hliteral).mp hp
          · have hname := properName_of_mem_names htree hname
            exact hvisit part parts name _ p fs hparts hliteral hname
              (hspells.child hname.not_slash) hp
          · exact fits_of_mem_dots hliteral hpart hdots hpicks hspells fun hnext =>
              honward parts _ p _ hrest hnext hp
    · cases parts with
      | nil =>
        rw [onward_nil] at hp
        obtain rfl := List.mem_singleton.mp (List.mem_ite_nil_right.mp hp).2
        exact ⟨[], .done, by simpa using hspells⟩
      | cons part parts =>
        rw [onward_cons] at hp
        exact hunder _ next p fs hparts hspells hp
    · obtain ⟨hpart, hrest⟩ := List.forall_mem_cons.mp hparts
      refine fits_of_mem_visit hwild hname hspells (fun hp => ?_) (fun rest hsubset hp => ?_) hp
      · refine hunder _ next p _ (List.forall_mem_cons.mpr ⟨hpart, fun q hq => ?_⟩) hspells hp
        exact hrest q ((List.dropWhile_sublist _).subset hq)
      · exact honward rest next p _ (fun q hq => hrest q (hsubset q hq)) hspells hp

end Sound

end Search

/-! ### All that the pattern stands for is found -/

/-- Whether a search that starts at `.` can stay there up to a part that is empty; such a part is
looked for in the path without a text, where nothing is. -/
def emptyBehindHere : List (List Token) → Bool
  | [] => false
  | part :: parts => part.isEmpty ||
      part.head? = some (.char '.') && accepts part ['.'] && emptyBehindHere parts

/-- A part that stays is not empty, and what follows it is no empty part behind a `.` either. -/
theorem emptyBehindHere_of_stay {part : List Token} {parts : List (List Token)} {f : List Char}
    (h : emptyBehindHere (part :: parts) = false) (hf : f = [] ∨ f = ['.'])
    (hpart : literal? part = some f ∨ part.head? = some (.char '.') ∧ accepts part f = true) :
    emptyBehindHere parts = false := by
  rw [emptyBehindHere, Bool.or_eq_false_iff] at h
  obtain ⟨hne, h⟩ := h
  rcases hf with rfl | rfl
  · rcases hpart with hliteral | ⟨hhead, haccepts⟩
    · simp [literal?_eq_some_iff.mp hliteral] at hne
    · obtain ⟨rest, rfl⟩ := List.head?_eq_some_iff.mp hhead
      simp [accepts] at haccepts
  · have hstay : (decide (part.head? = some (.char '.')) && accepts part ['.']) = true := by
      rcases hpart with hliteral | ⟨hhead, haccepts⟩
      · rw [literal?_eq_some_iff.mp hliteral]
        rfl
      · simp [hhead, haccepts]
    rwa [hstay, Bool.true_and] at h

namespace Search

/-- A path that takes the moves of fields and is written with no more than these; only a search that
starts at `.` has no fields and writes it. -/
structure Written (rooted : Bool) (fs : List (List Char)) (p : Path) : Prop
    extends Spells rooted fs p where
  nonempty : p.text ≠ ""
  short : p.text.toList.Sublist (Path.ofFields rooted fs).text.toList ∨
    fs = [] ∧ rooted = false ∧ p = ⟨"."⟩

section Written

variable {rooted : Bool} {fs : List (List Char)} {p : Path} {name : String}

theorem Written.join (h : Written rooted fs p) (hslash : '/' ∉ name.toList)
    (hfs : fs = [] → rooted = true) : Written rooted (fs ++ [name.toList]) (p.join ⟨name⟩) where
  toSpells := h.toSpells.join hslash
  nonempty := Path.text_join_ne_empty h.nonempty _
  short := by
    have hne : p.text.toList ≠ [] := fun he => h.nonempty (String.ext he)
    rw [Path.toList_join_relative p (Path.not_isAbsolute_name hslash)]
    rcases h.short with hshort | ⟨hnil, hrelative, -⟩
    · refine .inl ?_
      by_cases hnil : fs = []
      · rw [hfs hnil, hnil] at hshort ⊢
        have htext : p.text.toList = ['/'] := (List.sublist_singleton.mp hshort).resolve_left hne
        rw [htext, if_pos (.inr rfl), List.nil_append, Path.toList_ofFields]
        rfl
      · rw [Path.toList_ofFields_concat rooted hnil]
        split
        · exact hshort.append (List.sublist_cons_self ..)
        · exact hshort.append (List.Sublist.refl _)
    · rw [hfs hnil] at hrelative
      cases hrelative

theorem Written.child (h : Written rooted fs p) (hslash : '/' ∉ name.toList)
    (hname : p.sameSteps ⟨"."⟩ = true → name ≠ "") :
    Written rooted (fs ++ [name.toList]) (Search.child p name) := by
  have hchild := h.toSpells.child hslash
  unfold Search.child at hchild ⊢
  by_cases hsame : p.sameSteps ⟨"."⟩ = true
  · rw [if_pos hsame] at hchild ⊢
    refine ⟨hchild, hname hsame, .inl ?_⟩
    by_cases hnil : fs = []
    · rw [hnil, List.nil_append, Path.toList_ofFields]
      exact List.sublist_append_right ..
    · rw [Path.toList_ofFields_concat rooted hnil]
      exact (List.sublist_cons_self ..).trans (List.sublist_append_right ..)
  · rw [if_neg hsame]
    refine h.join hslash fun hnil => ?_
    rw [← Bool.not_eq_false]
    intro hrelative
    rcases h.short with hshort | ⟨-, -, rfl⟩
    · rw [hnil, hrelative] at hshort
      exact h.nonempty (String.ext (List.sublist_nil.mp hshort))
    · exact hsame (by decide)

/-- A path to a place behind a name takes other steps than `.`. -/
theorem Spells.not_here {f : List Char} (h : Spells rooted (fs ++ [f]) p)
    (hf : ¬ (f = [] ∨ f = ['.'])) : p.sameSteps ⟨"."⟩ = false := by
  rw [Bool.eq_false_iff]
  intro hsame
  have hhere : p.components = (Path.mk ".").components := by simpa [Path.sameSteps] using hsame
  obtain ⟨-, hmoving⟩ := Path.moving_of_here (hhere.trans (by decide))
  rw [h.moving, Path.moving_append, Path.moving_cons hf] at hmoving
  simp at hmoving

/-- A path that takes the steps of `.` goes on from one that does. -/
theorem here_of_child (hne : p.text ≠ "") (hslash : '/' ∉ name.toList) {q : Path}
    (hq : q = Search.child p name ∨ q = p.join ⟨name⟩) (h : q.sameSteps ⟨"."⟩ = true) :
    p.sameSteps ⟨"."⟩ = true := by
  by_cases hsame : p.sameSteps ⟨"."⟩ = true
  · exact hsame
  · have hjoin : q = p.join ⟨name⟩ := by
      rcases hq with rfl | rfl
      · exact if_neg hsame
      · rfl
    have hcomponents : (p.join ⟨name⟩).components = [.here] := by
      rw [hjoin] at h
      have hhere : (p.join ⟨name⟩).components = (Path.mk ".").components := by
        simpa [Path.sameSteps] using h
      exact hhere.trans (by decide)
    rw [Path.components_join_relative hne (Path.not_isAbsolute_name hslash)] at hcomponents
    rcases List.append_eq_singleton_iff.mp hcomponents with ⟨hnil, -⟩ | ⟨hhere, -⟩
    · exact absurd hnil (Path.components_ne_nil hne)
    · simpa [Path.sameSteps, hhere] using (by decide : [Component.here] = (Path.mk ".").components)

end Written

section Complete

variable {d : Disk} {directoriesOnly rooted : Bool} {whole : List (List Char)} {target : Location}
  (hreadable : Disk.Readable (Path.ofFields rooted whole).text)
  (henters : d.Enters (if rooted then [] else d.cwd) whole target)
include hreadable henters

/-- A path that is written with the first of some fields leads into a directory if all of them do. -/
theorem Written.enters {fs gs : List (List Char)} {p : Path} (h : Written rooted fs p)
    (hwhole : whole = fs ++ gs) : ∃ mid, d.Enters (if rooted then [] else d.cwd) fs mid ∧
      d.lookup true p = .ok (mid, .directory) := by
  subst hwhole
  obtain ⟨mid, hmid⟩ := henters.opens
  have htext : Disk.Readable p.text := by
    rcases h.short with hshort | ⟨-, -, rfl⟩
    · refine hreadable.of_sublist (hshort.trans ?_) h.nonempty
      rw [Path.toList_ofFields, Path.toList_ofFields]
      exact ((Path.joinWith_prefix (List.prefix_append fs gs)).sublist).append_left _
    · decide
  have hbase : p.base d.cwd = if rooted then [] else d.cwd := by rw [Path.base, h.absolute]
  refine ⟨mid, hmid, Disk.lookup_eq_directory_iff_leadsInto.mpr ⟨htext, ?_⟩⟩
  rwa [Disk.LeadsInto, hbase, Disk.enters_congr h.moving]

theorem Written.isDirectory {fs gs : List (List Char)} {p : Path} (h : Written rooted fs p)
    (hwhole : whole = fs ++ gs) : d.isDirectory p = true := by
  obtain ⟨mid, -, hlookup⟩ := h.enters hreadable henters hwhole
  exact Disk.isDirectory_eq_true_iff.mpr ⟨mid, hlookup⟩

theorem Written.leads {f : List Char} {fs gs : List (List Char)} {directory : Path}
    (h : Written rooted fs directory) (hwhole : whole = fs ++ f :: gs)
    (hnext : Written rooted (fs ++ [f]) (Search.child directory (String.ofList f))) :
    Leads d directory (String.ofList f) := by
  unfold Leads
  split
  · exact h.isDirectory hreadable henters hwhole
  · exact Disk.isOk_lookup_of_isDirectory
      (hnext.isDirectory hreadable henters (hwhole.trans (List.append_cons fs f gs)))

theorem Written.mem_names {f : List Char} {fs gs : List (List Char)} {directory : Path}
    (h : Written rooted fs directory) (hwhole : whole = fs ++ f :: gs)
    (hf : ProperName (String.ofList f)) : String.ofList f ∈ names ⟨d, directoriesOnly⟩ directory := by
  obtain ⟨mid, hmid, hlookup⟩ := h.enters hreadable henters hwhole
  rw [hwhole, List.append_cons] at henters
  obtain ⟨next, hnext⟩ := henters.opens
  have hfield := Disk.NameField.of_properName hf
  rw [String.toList_ofList] at hfield
  exact mem_names_iff_lookup.mpr ⟨mid, hlookup, hnext.isSome_get? hfield hmid⟩

section Step

variable {n : Nat} {part : List Token} {parts : List (List Token)} {directory next : Path}
  {f : List Char} {fs gs : List (List Char)}

omit hreadable henters in
/-- No empty part follows behind a `.` after the field that a part stands for. -/
theorem emptyBehindHere_of_next (hdirectory : Written rooted fs directory)
    (hhere : directory.sameSteps ⟨"."⟩ = true → emptyBehindHere (part :: parts) = false)
    (hslash : '/' ∉ (String.ofList f).toList)
    (hnext : next = Search.child directory (String.ofList f) ∨ next = directory.join ⟨String.ofList f⟩)
    (hspells : Spells rooted (fs ++ [f]) next)
    (hpart : literal? part = some f ∨ part.head? = some (.char '.') ∧ accepts part f = true)
    (hsame : next.sameSteps ⟨"."⟩ = true) : emptyBehindHere parts = false := by
  have hstay : f = [] ∨ f = ['.'] := by
    by_contra hmoves
    rw [hspells.not_here hmoves] at hsame
    cases hsame
  exact emptyBehindHere_of_stay (hhere (here_of_child hdirectory.nonempty hslash hnext hsame)) hstay
    hpart

theorem mem_under_literal {text : List Char} (hliteral : literal? part = some text)
    (hwhole : whole = fs ++ text :: gs) (hpart : IsSlashless true part)
    (hdirectory : Written rooted fs directory)
    (hhere : directory.sameSteps ⟨"."⟩ = true → emptyBehindHere (part :: parts) = false)
    (hgoes : ∀ next, Written rooted (fs ++ [text]) next →
      (next.sameSteps ⟨"."⟩ = true → emptyBehindHere parts = false) →
        ∃ p ∈ onward ⟨d, directoriesOnly⟩ n parts next, Written rooted whole p) :
    ∃ p ∈ under ⟨d, directoriesOnly⟩ (n + 1) (part :: parts) directory, Written rooted whole p := by
  have hslash := slash_not_mem_of_literal? hliteral hpart
  have hnext := hdirectory.child hslash fun hsame hempty => by
    have hnil : text = [] := by simpa using congrArg String.toList hempty
    have hpart : part = [] := by simpa [hnil] using literal?_eq_some_iff.mp hliteral
    simpa [emptyBehindHere, hpart] using hhere hsame
  rw [String.toList_ofList] at hnext
  obtain ⟨p, hp, hwritten⟩ := hgoes _ hnext
    (emptyBehindHere_of_next hdirectory hhere hslash (.inl rfl) hnext.toSpells (.inl hliteral))
  have hleads := hdirectory.leads hreadable henters hwhole hnext
  exact ⟨p, (mem_under_literal_iff hliteral).mpr ⟨hleads, hp⟩, hwritten⟩

theorem mem_under_name (hwild : literal? part = none) (hwhole : whole = fs ++ f :: gs)
    (hf : ProperName (String.ofList f)) (hdirectory : Written rooted fs directory)
    (hvisits : ∀ next, Written rooted (fs ++ [f]) next →
      ∃ p ∈ visit ⟨d, directoriesOnly⟩ n (part :: parts) (String.ofList f) next,
        Written rooted whole p) :
    ∃ p ∈ under ⟨d, directoriesOnly⟩ (n + 1) (part :: parts) directory, Written rooted whole p := by
  have hnext := hdirectory.child hf.not_slash fun _ => hf.ne_empty
  rw [String.toList_ofList] at hnext
  obtain ⟨p, hp, hwritten⟩ := hvisits _ hnext
  have hthere := hdirectory.isDirectory hreadable henters hwhole
  exact ⟨p, (mem_under_wild_iff hwild).mpr
    ⟨hthere, .inl ⟨_, hdirectory.mem_names hreadable henters hwhole hf, hp⟩⟩, hwritten⟩

theorem mem_under_dots (hwild : literal? part = none) (hwhole : whole = fs ++ f :: gs)
    (hhead : part.head? = some (.char '.')) (hdots : f = ['.'] ∨ f = ['.', '.'])
    (haccepts : accepts part f = true) (hdirectory : Written rooted fs directory)
    (hfs : fs = [] → rooted = true)
    (hhere : directory.sameSteps ⟨"."⟩ = true → emptyBehindHere (part :: parts) = false)
    (hgoes : ∀ next, Written rooted (fs ++ [f]) next →
      (next.sameSteps ⟨"."⟩ = true → emptyBehindHere parts = false) →
        ∃ p ∈ onward ⟨d, directoriesOnly⟩ n parts next, Written rooted whole p) :
    ∃ p ∈ under ⟨d, directoriesOnly⟩ (n + 1) (part :: parts) directory, Written rooted whole p := by
  have hslash : '/' ∉ (String.ofList f).toList := by rcases hdots with rfl | rfl <;> decide
  have hname : String.ofList f ∈ [".", ".."] := by rcases hdots with rfl | rfl <;> decide
  have hnext := hdirectory.join hslash hfs
  rw [String.toList_ofList] at hnext
  obtain ⟨p, hp, hwritten⟩ := hgoes _ hnext (emptyBehindHere_of_next hdirectory hhere hslash
    (.inr rfl) hnext.toSpells (.inr ⟨hhead, haccepts⟩))
  have hthere := hdirectory.isDirectory hreadable henters hwhole
  exact ⟨p, (mem_under_wild_iff hwild).mpr ⟨hthere, .inr ⟨_, hname, by simp [hhead, haccepts], hp⟩⟩,
    hwritten⟩

theorem mem_visit_of_fits (hwhole : whole = fs ++ f :: gs) (hnext : Written rooted (fs ++ [f]) next)
    (hwild : literal? part = none) (hfits : Fits (part :: parts) (f :: gs))
    (hunder : Fits (part :: parts.dropWhile isRecursive) gs →
      ∃ p ∈ under ⟨d, directoriesOnly⟩ n (part :: parts.dropWhile isRecursive) next,
        Written rooted whole p)
    (hgoes : ∀ rest, (∀ q ∈ rest, q ∈ parts) → Fits rest gs →
      ∃ p ∈ onward ⟨d, directoriesOnly⟩ n rest next, Written rooted whole p) :
    ∃ p ∈ visit ⟨d, directoriesOnly⟩ (n + 1) (part :: parts) (String.ofList f) next,
      Written rooted whole p := by
  rw [List.append_cons] at hwhole
  have hthere := hnext.isDirectory hreadable henters hwhole
  by_cases hrecursive : isRecursive part = true
  · simp only [mem_visit_recursive_iff hrecursive]
    obtain ⟨-, hgs | ⟨hnone, rfl⟩ | ⟨q, rest, heq, haccepts, hgs⟩⟩ :=
      (fits_recursive_iff hrecursive).mp hfits
    · obtain ⟨p, hp, hwritten⟩ := hunder hgs
      exact ⟨p, .inl ⟨hthere, hp⟩, hwritten⟩
    · rw [List.append_nil] at hwhole
      exact ⟨next, .inr (.inl ⟨hnone, hthere, rfl⟩), hwhole ▸ hnext⟩
    · obtain ⟨p, hp, hwritten⟩ := hgoes rest (fun r hr => (List.dropWhile_sublist _).subset
        (heq ▸ List.mem_cons_of_mem q hr)) hgs
      exact ⟨p, .inr (.inr ⟨q, rest, heq, by rwa [String.toList_ofList], hp⟩), hwritten⟩
  · have hplain := Bool.eq_false_iff.mpr hrecursive
    obtain ⟨g, rest, heq, ⟨haccepts, -⟩, hgs⟩ := (fits_picked_iff hwild hplain).mp hfits
    obtain ⟨rfl, rfl⟩ := List.cons.inj heq
    obtain ⟨p, hp, hwritten⟩ := hgoes parts (fun _ hq => hq) hgs
    exact ⟨p, (mem_visit_iff hplain).mpr ⟨by rwa [String.toList_ofList], hp⟩, hwritten⟩

end Step

/-- If fields that the parts stand for lead into a directory, and a path with these fields can be
looked at, a path is found that is written with them. -/
theorem mem_of_fits : ∀ n : Nat,
    (∀ part parts directory fs gs, whole = fs ++ gs → (∀ q ∈ part :: parts, IsSlashless true q) →
      Written rooted fs directory → (fs = [] → rooted = true ∨ literal? part ≠ none) →
      (directory.sameSteps ⟨"."⟩ = true → emptyBehindHere (part :: parts) = false) →
      Fits (part :: parts) gs → 3 * gs.length ≤ n →
        ∃ p ∈ under ⟨d, directoriesOnly⟩ n (part :: parts) directory, Written rooted whole p) ∧
    (∀ parts next fs gs, whole = fs ++ gs → (∀ q ∈ parts, IsSlashless true q) → fs ≠ [] →
      Written rooted fs next → (next.sameSteps ⟨"."⟩ = true → emptyBehindHere parts = false) →
      Fits parts gs → 3 * gs.length < n →
        ∃ p ∈ onward ⟨d, directoriesOnly⟩ n parts next, Written rooted whole p) ∧
    ∀ part parts f next fs gs, whole = fs ++ f :: gs → (∀ q ∈ part :: parts, IsSlashless true q) →
      literal? part = none → ProperName (String.ofList f) → Written rooted (fs ++ [f]) next →
      Fits (part :: parts) (f :: gs) → 3 * gs.length + 1 < n →
        ∃ p ∈ visit ⟨d, directoriesOnly⟩ n (part :: parts) (String.ofList f) next,
          Written rooted whole p
  | 0 => by
    refine ⟨fun part parts _ fs gs _ _ _ _ _ hfits hbound => ?_, by simp, by simp⟩
    exact absurd (List.length_eq_zero_iff.mp (by omega)) hfits.ne_nil
  | n + 1 => by
    obtain ⟨hunder, honward, hvisit⟩ := mem_of_fits n
    refine ⟨fun part parts directory fs gs hwhole hparts hdirectory hopens hhere hfits hbound => ?_,
      fun parts next fs gs hwhole hparts hfs hnext hhere hfits hbound => ?_,
      fun part parts f next fs gs hwhole hparts hwild hf hnext hfits hbound => ?_⟩
    · cases hliteral : literal? part with
      | some text =>
        obtain ⟨gs, rfl, hgs⟩ := (fits_literal_iff hliteral).mp hfits
        obtain ⟨hpart, hrest⟩ := List.forall_mem_cons.mp hparts
        rw [List.length_cons] at hbound
        refine mem_under_literal hreadable henters hliteral hwhole hpart hdirectory hhere
          fun next hnext hhere => ?_
        exact honward parts next _ gs (hwhole.trans (List.append_cons ..)) hrest (by simp) hnext hhere
          hgs (by omega)
      | none =>
        obtain ⟨f, gs, rfl⟩ := List.exists_cons_of_ne_nil hfits.ne_nil
        rw [List.length_cons] at hbound
        have hname := fun hf : ProperName (String.ofList f) =>
          mem_under_name hreadable henters hliteral hwhole hf hdirectory fun next hnext =>
            hvisit part parts f next fs gs hwhole hparts hliteral hf hnext hfits (by omega)
        by_cases hrecursive : isRecursive part = true
        · exact hname ((fits_recursive_iff hrecursive).mp hfits).1
        · obtain ⟨g, rest, heq, ⟨haccepts, hf | ⟨hhead, hdots⟩⟩, hgs⟩ :=
            (fits_picked_iff hliteral (Bool.eq_false_iff.mpr hrecursive)).mp hfits
          · exact hname ((List.cons.inj heq).1 ▸ hf)
          · obtain ⟨rfl, rfl⟩ := List.cons.inj heq
            obtain ⟨-, hrest⟩ := List.forall_mem_cons.mp hparts
            have hfs := fun hnil => (hopens hnil).resolve_right (not_not.mpr hliteral)
            refine mem_under_dots hreadable henters hliteral hwhole hhead hdots haccepts hdirectory hfs
              hhere fun next hnext hhere => ?_
            exact honward parts next _ gs (hwhole.trans (List.append_cons ..)) hrest (by simp) hnext
              hhere hgs (by omega)
    · cases parts with
      | nil =>
        cases hfits
        obtain rfl : whole = fs := by simpa using hwhole
        refine ⟨next, ?_, hnext⟩
        rw [onward_nil]
        have hthere := hnext.isDirectory hreadable henters hwhole
        simp [result, hthere]
      | cons part parts =>
        rw [onward_cons]
        exact hunder part parts next fs gs hwhole hparts hnext (fun hnil => absurd hnil hfs) hhere
          hfits (by omega)
    · obtain ⟨hpart, hrest⟩ := List.forall_mem_cons.mp hparts
      have hmoves : ¬ (f = [] ∨ f = ['.']) := by
        have hfield := Disk.NameField.of_properName hf
        rw [String.toList_ofList] at hfield
        exact not_or.mpr ⟨hfield.ne_nil, hfield.ne_here⟩
      have hhere := hnext.toSpells.not_here hmoves
      have hwhole' := hwhole.trans (List.append_cons fs f gs)
      refine mem_visit_of_fits hreadable henters hwhole hnext hwild hfits (fun hgs => ?_)
        fun rest hsubset hgs => ?_
      · refine hunder part _ next _ gs hwhole' (List.forall_mem_cons.mpr ⟨hpart, fun q hq => ?_⟩) hnext
          (by simp) (by simp [hhere]) hgs (by omega)
        exact hrest q ((List.dropWhile_sublist _).subset hq)
      · exact honward rest next _ gs hwhole' (fun q hq => hrest q (hsubset q hq)) (by simp) hnext
          (by simp [hhere]) hgs (by omega)

end Complete

end Search

/-! ### The paths that a pattern stands for -/

theorem length_le_joinWith_cons (f : List Char) (fs : List (List Char)) :
    f.length + (Text.joinWith ['/'] fs).length ≤ (Text.joinWith ['/'] (f :: fs)).length := by
  cases fs with
  | nil => simp [Text.joinWith]
  | cons g fs => simp [Text.joinWith]

theorem length_le_joinWith_append {front fs : List (List Char)}
    (h : ∀ f ∈ front, ProperName (String.ofList f)) :
    front.length + (Text.joinWith ['/'] fs).length ≤ (Text.joinWith ['/'] (front ++ fs)).length := by
  induction front with
  | nil => simp
  | cons f front ih =>
    obtain ⟨hf, hfront⟩ := List.forall_mem_cons.mp h
    have hlength : 0 < f.length := by
      rw [List.length_pos_iff]
      rintro rfl
      exact hf.ne_empty rfl
    have hcons := length_le_joinWith_cons f (front ++ fs)
    have ih := ih hfront
    simp only [List.cons_append, List.length_cons] at *
    omega

/-- Only a `**` stands for more than one field, and each of these makes the path longer. -/
theorem Fits.length_le {parts : List (List Token)} {fs : List (List Char)} (h : Fits parts fs) :
    fs.length ≤ parts.length + (Text.joinWith ['/'] fs).length := by
  induction h with
  | done => simp
  | @name part parts text fs _ _ ih =>
    have hcons := length_le_joinWith_cons text fs
    simp only [List.length_cons]
    omega
  | @picked part parts f fs _ _ _ _ ih =>
    have hcons := length_le_joinWith_cons f fs
    simp only [List.length_cons]
    omega
  | @folders part parts fs _ _ _ hnames =>
    have hlength := @length_le_joinWith_append fs [] hnames
    rw [List.append_nil] at hlength
    omega
  | @foldersBefore part parts next rest front f fs _ hnext hfront _ _ _ ih =>
    have hlength := @length_le_joinWith_append front (f :: fs) hfront
    have hcons := length_le_joinWith_cons f fs
    have hrest := (List.dropWhile_sublist isRecursive (l := parts)).length_le
    rw [hnext] at hrest
    simp only [List.length_append, List.length_cons] at *
    omega

/-- Whether a search by a relative pattern can stay at `.` up to a part that is empty. -/
def losesHere (pattern : String) : Bool :=
  match partsOf pattern with
  | .ok parts => !(Path.mk pattern).isAbsolute && emptyBehindHere parts
  | .error _ => false

theorem spells_origin (pattern : String) :
    Search.Written (Path.mk pattern).isAbsolute [] (origin pattern) := by
  rw [Path.isAbsolute_eq]
  unfold origin
  by_cases hrooted : pattern.toList.head? = some '/'
  · rw [if_pos hrooted, decide_eq_true hrooted]
    exact ⟨⟨by decide, by decide⟩, by decide, .inl (by decide)⟩
  · rw [if_neg hrooted, decide_eq_false hrooted]
    exact ⟨⟨by decide, by decide⟩, by decide, .inr ⟨rfl, rfl, rfl⟩⟩

section Expand

variable {d : Disk} {pattern : String} {found : List Path} (hfound : expand d pattern = .ok found)
include hfound

/-- A path that a pattern expands to takes the moves of fields that its parts stand for. -/
theorem fits_of_mem_expand (htree : d.IsLinkedTree) {p : Path} (hp : p ∈ found) :
    ∃ parts fs, partsOf pattern = .ok parts ∧ Fits parts fs ∧
      Search.Spells (Path.mk pattern).isAbsolute fs p := by
  obtain ⟨-, parts, hparts, rfl⟩ := expand_eq_ok_iff.mp hfound
  obtain ⟨hunder, -⟩ := Search.fits_of_mem htree (3 * (parts.length + Disk.pathLimit))
  obtain ⟨fs, hfits, hspells⟩ := hunder parts _ p [] (isSlashless_of_partsOf hparts)
    (spells_origin pattern).toSpells hp
  exact ⟨parts, fs, hparts, hfits, hspells⟩

/-- If a path with fields that the parts of a pattern stand for leads to a directory, then the pattern
expands to a path to it. A relative pattern must open with a part without wildcards, and the search
must not be lost at `.`. -/
theorem mem_expand_of_fits {parts : List (List Token)} {q : Path} {target : Location}
    (hparts : partsOf pattern = .ok parts) (hfits : Fits parts q.body.2)
    (habs : (Path.mk pattern).isAbsolute = q.isAbsolute)
    (hopens : q.isAbsolute = true ∨ ∀ part ∈ parts.head?, literal? part ≠ none)
    (hhere : losesHere pattern = false) (hlookup : d.lookup true q = .ok (target, .directory)) :
    ∃ p ∈ found, d.lookup true p = .ok (target, .directory) := by
  obtain ⟨-, others, hothers, rfl⟩ := expand_eq_ok_iff.mp hfound
  obtain rfl := Except.ok.inj (hparts.symm.trans hothers)
  obtain ⟨hreadable, hleads⟩ := Disk.lookup_eq_directory_iff_leadsInto.mp hlookup
  have htext : Disk.Readable (Path.ofFields q.isAbsolute q.body.2).text := by rwa [Path.ofFields_body]
  cases parts with
  | nil =>
    generalize hfs : q.body.2 = fs at hfits
    cases hfits
    exact absurd hfs (Path.body_ne_nil q)
  | cons part parts =>
    have hlength : q.body.2.length ≤ (part :: parts).length + Disk.pathLimit := by
      have hshort : (Text.joinWith ['/'] q.body.2).length ≤ Disk.pathLimit := by
        refine Nat.le_trans ?_ ((Text.length_le_utf8ByteSize _).trans htext.short)
        rw [Path.toList_ofFields, List.length_append]
        exact Nat.le_add_left ..
      have hfields := hfits.length_le
      omega
    have horigin := spells_origin pattern
    rw [habs] at horigin
    have hstay : (origin pattern).sameSteps ⟨"."⟩ = true → emptyBehindHere (part :: parts) = false := by
      intro hsame
      rw [losesHere, hparts, habs] at hhere
      cases hrooted : q.isAbsolute with
      | true =>
        rw [hrooted, Path.isAbsolute_eq, decide_eq_true_eq] at habs
        rw [origin, if_pos habs] at hsame
        exact absurd hsame (by decide)
      | false => simpa [hrooted] using hhere
    obtain ⟨hunder, -⟩ := @Search.mem_of_fits d (pattern.toList.getLast? = some '/') _ _ _ htext hleads
      (3 * ((part :: parts).length + Disk.pathLimit))
    obtain ⟨p, hp, hwritten⟩ := hunder part parts _ [] q.body.2 rfl (isSlashless_of_partsOf hparts) horigin
      (fun _ => hopens.imp_right fun hfirst => hfirst part rfl) hstay hfits
      (Nat.mul_le_mul_left 3 hlength)
    obtain ⟨mid, hmid, hfound⟩ := hwritten.enters htext hleads (List.append_nil _).symm
    refine ⟨p, hp, ?_⟩
    rwa [Except.ok.inj (hleads.symm.trans hmid)]

end Expand

end Glob
end FetchClients
