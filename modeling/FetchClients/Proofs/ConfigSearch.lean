/-
# Which configuration a start directory finds

The search climbs by the text of its start: it looks at the places that the text
goes through, the last one first, and takes the nearest with a configuration
before the first top of a repository that has none (`Config.locate_find?`). The
absolute form of the start goes through the start directory and all directories
above it. So the two agree exactly when the nearest configuration is the same
for both lists of places (`Config.find?_absolute_iff`): an absolute start that
does not climb always agrees, a relative one only if its search is settled
before the working directory is left, or would find nothing there.

Key definitions: `Path.trail`, `Path.upward`, `Config.Settles`, `Config.nearest?`.
Key theorems: `Config.locate_find?`, `Config.nearest?_upward`,
`Config.find?_absolute_iff`.
-/
import FetchClients.Config.Load
import FetchClients.Proofs.Places
import Mathlib.Data.String.Basic

namespace FetchClients

namespace Text

theorem utf8ByteSize_le_of_sublist {s t : String} (h : s.toList.Sublist t.toList) :
    s.utf8ByteSize ≤ t.utf8ByteSize := by
  rw [← String.ofList_toList (s := s), ← String.ofList_toList (s := t), String.utf8ByteSize_ofList,
    String.utf8ByteSize_ofList]
  exact String.utf8Len_le_of_sublist h

theorem utf8ByteSize_le_of_opens {s t : String} (h : s.toList <+: t.toList) :
    s.utf8ByteSize ≤ t.utf8ByteSize :=
  utf8ByteSize_le_of_sublist h.sublist

end Text

/-- A part of a text that can be looked for can be looked for itself, if it is not empty. -/
theorem Disk.Readable.of_sublist {s t : String} (h : Disk.Readable t)
    (hsublist : s.toList.Sublist t.toList) (hne : s ≠ "") : Disk.Readable s :=
  ⟨fun hzero => h.no_zero (hsublist.subset hzero), hne,
    (Text.utf8ByteSize_le_of_sublist hsublist).trans h.short⟩

/-- What opens a text that can be looked for can be looked for itself, if it is not empty. -/
theorem Disk.Readable.of_opens {s t : String} (h : Disk.Readable t)
    (hopens : s.toList <+: t.toList) (hne : s ≠ "") : Disk.Readable s :=
  h.of_sublist hopens.sublist hne

namespace Path

/-- The places that the text of a path goes through, the last one first. -/
def trail (p : Path) (cwd : Location) : List Location :=
  (p.steps.inits.map (fold (p.base cwd))).reverse

/-- A place and those above it, up to the root. -/
def upward (place : Location) : List Location :=
  place.inits.reverse

/-- An absolute path of names starts at the root and takes a step to each name. -/
theorem base_steps_of_names {p : Path} {names : List String} (cwd : Location)
    (h : p.components = .root :: names.map .name) :
    p.base cwd = [] ∧ p.steps = names.map .name := by
  have habs : p.isAbsolute = true := by
    rw [isAbsolute_iff, h]
    exact List.mem_cons_self
  rw [components_eq, habs] at h
  exact ⟨by rw [base, habs, if_pos rfl], List.cons.inj h |>.2⟩

theorem trail_of_steps_eq_nil {p : Path} (cwd : Location) (h : p.steps = []) :
    p.trail cwd = [fold (p.base cwd) p.steps] := by
  rw [trail, h]
  rfl

/-- The trail of a path goes on with that of its parent. -/
theorem trail_parent? {p q : Path} (cwd : Location) (h : p.parent? = some q) :
    p.trail cwd = fold (p.base cwd) p.steps :: q.trail cwd := by
  obtain ⟨habs, last, hsteps⟩ := steps_parent? h
  have hbase : q.base cwd = p.base cwd := by rw [base, base, habs]
  rw [trail, trail, hbase, hsteps, List.inits_append]
  simp

/-- The paths that are looked at lie on the trail, and each is written as the path is up to some
step. -/
theorem map_ancestorsUpTo (cwd : Location) : ∀ (n : Nat) (p : Path), p.text.toList.length < n →
    (p.ancestorsUpTo n).map (fun q => fold (q.base cwd) q.steps) = p.trail cwd
  | 0, p, h => absurd h (Nat.not_lt_zero _)
  | n + 1, p, h => by
    unfold ancestorsUpTo
    split
    · rename_i parent hparent
      have hlength := length_parent? hparent
      rw [List.map_cons, map_ancestorsUpTo cwd n parent (by omega), trail_parent? cwd hparent]
    · rename_i hnone
      have hsteps : p.steps = [] := by
        by_contra hne
        obtain ⟨q, hq⟩ := exists_parent?_of_steps hne
        rw [hnone] at hq
        cases hq
      rw [trail_of_steps_eq_nil cwd hsteps]
      rfl

theorem toList_of_mem_ancestorsUpTo : ∀ {n : Nat} {p q : Path}, q ∈ p.ancestorsUpTo n →
    q.text.toList <+: p.text.toList
  | 0, p, q, h => by simp [ancestorsUpTo] at h
  | n + 1, p, q, h => by
    unfold ancestorsUpTo at h
    split at h
    · rename_i parent hparent
      rcases List.mem_cons.mp h with rfl | h
      · exact List.prefix_rfl
      · exact (toList_of_mem_ancestorsUpTo h).trans (toList_parent? hparent)
    · rw [List.mem_singleton.mp h]

/-- A path starts where those that it goes through start, and takes their steps first. -/
theorem steps_of_mem_ancestorsUpTo : ∀ {n : Nat} {p q : Path}, q ∈ p.ancestorsUpTo n →
    q.isAbsolute = p.isAbsolute ∧ q.steps <+: p.steps
  | 0, p, q, h => by simp [ancestorsUpTo] at h
  | n + 1, p, q, h => by
    unfold ancestorsUpTo at h
    split at h
    · rename_i parent hparent
      rcases List.mem_cons.mp h with rfl | h
      · exact ⟨rfl, List.prefix_rfl⟩
      · obtain ⟨habs, last, hsteps⟩ := steps_parent? hparent
        obtain ⟨habs', hopens⟩ := steps_of_mem_ancestorsUpTo h
        exact ⟨habs'.trans habs, hopens.trans ⟨[last], hsteps.symm⟩⟩
    · rw [List.mem_singleton.mp h]
      exact ⟨rfl, List.prefix_rfl⟩

theorem here_not_mem_fieldComponents : ∀ fs : List (List Char),
    .here ∉ fieldComponents false fs
  | [] => by simp [fieldComponents]
  | f :: fs => by
    have ih := here_not_mem_fieldComponents fs
    rw [fieldComponents]
    split
    · rename_i hnames
      have hf : componentOf f ≠ .here := by
        intro heq
        unfold componentOf at heq
        split at heq
        · rename_i hhere
          simp [hhere, fieldNames] at hnames
        · split at heq <;> cases heq
      simp [ih, Ne.symm hf]
    · exact ih

theorem exists_map_name {cs : List Component} (hroot : .root ∉ cs) (hup : .up ∉ cs)
    (hhere : .here ∉ cs) : ∃ names : List String, cs = names.map .name := by
  obtain ⟨names, hnames⟩ := exists_names_of_steps hroot hup
  have hall : cs.filter (· ≠ .here) = cs := by
    rw [List.filter_eq_self]
    intro c hc
    have hne : c ≠ .here := fun he => hhere (he ▸ hc)
    simpa using hne
  exact ⟨names, hall.symm.trans hnames⟩

/-- A path that does not climb takes names, after a `.` perhaps. -/
theorem steps_of_not_climbs {p : Path} (hup : .up ∉ p.components) :
    ∃ names : List String, p.steps = names.map .name ∨ p.steps = .here :: names.map .name := by
  have hroot := root_not_mem_steps p
  have hsteps : .up ∉ p.steps := fun hmem => hup (by rw [components_eq]; simp [hmem])
  rw [steps_eq] at hroot hsteps ⊢
  generalize p.body.2 = fs at hroot hsteps ⊢
  cases hopening : !p.body.1 with
  | false =>
    rw [hopening] at hroot hsteps
    obtain ⟨names, hnames⟩ := exists_map_name hroot hsteps (here_not_mem_fieldComponents fs)
    exact ⟨names, .inl hnames⟩
  | true =>
    rw [hopening] at hroot hsteps
    cases fs with
    | nil => exact ⟨[], .inl rfl⟩
    | cons f fs =>
      rw [fieldComponents] at hroot hsteps ⊢
      by_cases hnames : fieldNames true f = true
      · rw [if_pos hnames] at hroot hsteps ⊢
        simp only [List.mem_cons, not_or] at hroot hsteps
        obtain ⟨names, hrest⟩ := exists_map_name hroot.2 hsteps.2 (here_not_mem_fieldComponents fs)
        rw [hrest]
        cases hc : componentOf f with
        | root => exact absurd hc (componentOf_ne_root f)
        | up => exact absurd hc.symm hsteps.1
        | here => exact ⟨names, .inr rfl⟩
        | name n => exact ⟨n :: names, .inl rfl⟩
      · rw [if_neg hnames] at hroot hsteps ⊢
        obtain ⟨names, hrest⟩ := exists_map_name hroot hsteps (here_not_mem_fieldComponents fs)
        exact ⟨names, .inl hrest⟩

theorem upward_eq_cons (place : Location) : ∃ above, upward place = place :: above := by
  rw [upward]
  induction place using List.reverseRecOn with
  | nil => exact ⟨[], rfl⟩
  | append_singleton place name ih =>
    rw [List.inits_append]
    exact ⟨place.inits.reverse, by simp⟩

/-- The directories that a path that does not climb goes through are those above its place up to
where it starts. -/
theorem trail_of_not_climbs {p : Path} (cwd : Location) (hup : .up ∉ p.components) :
    ∃ below extra above, p.trail cwd = below ++ p.base cwd :: extra ∧
      (∀ place ∈ extra, place = p.base cwd) ∧ upward (p.base cwd) = p.base cwd :: above ∧
      upward (fold (p.base cwd) p.steps) = below ++ p.base cwd :: above := by
  obtain ⟨above, habove⟩ := upward_eq_cons (p.base cwd)
  obtain ⟨names, hsteps⟩ := steps_of_not_climbs hup
  have hfold : fold (p.base cwd) p.steps = p.base cwd ++ names := by
    rcases hsteps with hsteps | hsteps
    · rw [hsteps, fold_names]
    · rw [hsteps]
      exact fold_names (p.base cwd) names
  have hinits : names.inits = [] :: names.inits.tail := by cases names <;> rfl
  have hmap : (names.map Component.name).inits.map (fold (p.base cwd)) =
      names.inits.map (p.base cwd ++ ·) := by
    rw [List.map_inits, List.map_map]
    exact List.map_congr_left fun ns _ => fold_names (p.base cwd) ns
  have hupward : upward (p.base cwd ++ names) =
      (names.inits.tail.map (p.base cwd ++ ·)).reverse ++ upward (p.base cwd) := by
    rw [upward, List.inits_append, List.reverse_append]
    rfl
  rw [hfold, hupward, habove]
  rcases hsteps with hsteps | hsteps
  · refine ⟨_, [], above, ?_, by simp, rfl, rfl⟩
    rw [trail, hsteps, hmap, hinits]
    simp
  · refine ⟨_, [p.base cwd], above, ?_, by simp, rfl, rfl⟩
    have hhere : ∀ cs, fold (p.base cwd) (.here :: cs) = fold (p.base cwd) cs := fun cs => rfl
    rw [trail, hsteps, List.inits_cons, List.map_cons, List.map_map]
    have hskip : (fold (p.base cwd) ∘ fun cs => Component.here :: cs) = fold (p.base cwd) :=
      funext hhere
    rw [hskip, hmap, hinits]
    simp [fold]

end Path

namespace Config

/-- Whether a search ends in a directory: it has a configuration or is the top of a repository. -/
def Settles (d : Disk) (place : Location) : Prop :=
  (d.get? (place ++ [fileName])).isSome ∨ (d.get? (place ++ [repositoryName])).isSome

/-- The configuration of the nearest of some directories, before the first top of a repository that
has none. -/
def nearest? (d : Disk) : List Location → Option Location
  | [] => none
  | place :: places =>
    if (d.get? (place ++ [fileName])).isSome then some (place ++ [fileName])
    else if (d.get? (place ++ [repositoryName])).isSome then none
    else nearest? d places

/-- Whether the text of a path leaves room for the name of a configuration behind it. -/
def HasRoom (p : Path) : Prop :=
  p.text.utf8ByteSize + ("/" ++ fileName).utf8ByteSize ≤ Disk.pathLimit

instance (p : Path) : Decidable (HasRoom p) :=
  inferInstanceAs (Decidable (_ ≤ _))

section Search

variable {d : Disk}

/-! ### What a search finds -/

/-- The directories after one that settles the search are not looked at. -/
theorem nearest?_append_of_settles : ∀ {places : List Location} (more : List Location),
    (∃ place ∈ places, Settles d place) → nearest? d (places ++ more) = nearest? d places
  | [], more, h => by simp at h
  | place :: places, more, h => by
    rw [List.cons_append, nearest?, nearest?]
    by_cases hfile : (d.get? (place ++ [fileName])).isSome
    · rw [if_pos hfile, if_pos hfile]
    · rw [if_neg hfile, if_neg hfile]
      by_cases htop : (d.get? (place ++ [repositoryName])).isSome
      · rw [if_pos htop, if_pos htop]
      · rw [if_neg htop, if_neg htop]
        refine nearest?_append_of_settles more ?_
        obtain ⟨other, hmem, hsettles⟩ := h
        rcases List.mem_cons.mp hmem with rfl | hmem
        · exact absurd hsettles (not_or.mpr ⟨hfile, htop⟩)
        · exact ⟨other, hmem, hsettles⟩

/-- Directories that do not settle a search are passed over. -/
theorem nearest?_append_of_not_settles : ∀ {places : List Location} (more : List Location),
    (∀ place ∈ places, ¬ Settles d place) → nearest? d (places ++ more) = nearest? d more
  | [], _, _ => rfl
  | place :: places, more, h => by
    obtain ⟨hfile, htop⟩ := not_or.mp (h place (by simp))
    rw [List.cons_append, nearest?, if_neg hfile, if_neg htop]
    exact nearest?_append_of_not_settles more fun other hmem => h other (List.mem_cons_of_mem _ hmem)

/-- What is found is the configuration of one of the directories. -/
theorem nearest?_eq_some {file : Location} : ∀ {places : List Location},
    nearest? d places = some file → ∃ place ∈ places, file = place ++ [fileName]
  | [], h => by simp [nearest?] at h
  | place :: places, h => by
    rw [nearest?] at h
    split at h
    · exact ⟨place, by simp, (Option.some.inj h).symm⟩
    · split at h
      · cases h
      · obtain ⟨other, hmem, heq⟩ := nearest?_eq_some h
        exact ⟨other, List.mem_cons_of_mem _ hmem, heq⟩

/-- The configuration that is found for a place lies in it or above it. -/
theorem nearest?_upward {place file : Location} (h : nearest? d (Path.upward place) = some file) :
    ∃ above, above <+: place ∧ file = above ++ [fileName] := by
  obtain ⟨above, hmem, heq⟩ := nearest?_eq_some h
  rw [Path.upward, List.mem_reverse, List.mem_inits] at hmem
  exact ⟨above, hmem, heq⟩

theorem nearest?_eq_none_of_not_settles {places : List Location}
    (h : ∀ place ∈ places, ¬ Settles d place) : nearest? d places = none := by
  have hnil := nearest?_append_of_not_settles [] h
  rw [List.append_nil] at hnil
  exact hnil

/-- The search from a path that does not climb goes no further up than its start. It finds what the
search up to the root finds if it ends before, or if there is nothing above the start. -/
theorem nearest?_trail_iff {p : Path} (cwd : Location) (hup : .up ∉ p.components) :
    nearest? d (p.trail cwd) = nearest? d (Path.upward (Path.fold (p.base cwd) p.steps)) ↔
      (∃ place ∈ p.trail cwd, Settles d place) ∨
        nearest? d (Path.upward (p.base cwd)) = none := by
  obtain ⟨below, extra, above, htrail, hextra, hbase, hplace⟩ := Path.trail_of_not_climbs cwd hup
  have hsplit : ∀ rest, below ++ p.base cwd :: rest = (below ++ [p.base cwd]) ++ rest := by simp
  rw [htrail, hbase, hplace]
  by_cases hsettles : ∃ place ∈ below ++ [p.base cwd], Settles d place
  · have hall : ∃ place ∈ below ++ p.base cwd :: extra, Settles d place := by
      obtain ⟨place, hmem, hs⟩ := hsettles
      exact ⟨place, by rw [hsplit]; exact List.mem_append_left extra hmem, hs⟩
    rw [hsplit extra, hsplit above, nearest?_append_of_settles _ hsettles,
      nearest?_append_of_settles _ hsettles]
    exact iff_of_true rfl (.inl (hsplit extra ▸ hall))
  · have hnot : ∀ place ∈ below ++ [p.base cwd], ¬ Settles d place := fun place hmem hs =>
      hsettles ⟨place, hmem, hs⟩
    have hnotBase : ¬ Settles d (p.base cwd) := hnot _ (by simp)
    have htrailNot : ∀ place ∈ below ++ p.base cwd :: extra, ¬ Settles d place := by
      intro place hmem
      rw [hsplit, List.mem_append] at hmem
      rcases hmem with hmem | hmem
      · exact hnot place hmem
      · rw [hextra place hmem]
        exact hnotBase
    have hbelow : ∀ place ∈ below, ¬ Settles d place := fun place hmem =>
      hnot place (List.mem_append_left _ hmem)
    rw [nearest?_eq_none_of_not_settles htrailNot, nearest?_append_of_not_settles _ hbelow]
    constructor
    · intro heq
      exact .inr heq.symm
    · rintro (⟨place, hmem, hs⟩ | hnone)
      · exact absurd hs (htrailNot place hmem)
      · exact hnone.symm

/-- The search from an absolute path that does not climb goes up to the root. -/
theorem nearest?_trail_of_isAbsolute {p : Path} (cwd : Location) (hup : .up ∉ p.components)
    (habs : p.isAbsolute = true) :
    nearest? d (p.trail cwd) = nearest? d (Path.upward (Path.fold (p.base cwd) p.steps)) := by
  rw [nearest?_trail_iff cwd hup]
  have hbase : p.base cwd = [] := by rw [Path.base, habs]; rfl
  obtain ⟨below, extra, -, htrail, -⟩ := Path.trail_of_not_climbs cwd hup
  by_cases hroot : Settles d []
  · exact .inl ⟨[], by rw [htrail, hbase]; simp, hroot⟩
  · refine .inr ?_
    rw [hbase]
    exact nearest?_eq_none_of_not_settles (by simpa [Path.upward] using hroot)

end Search

/-! ### Names of the search below a path -/

theorem properName_fileName : ProperName fileName :=
  ⟨by decide, by decide, by decide, by decide⟩

theorem properName_repositoryName : ProperName repositoryName :=
  ⟨by decide, by decide, by decide, by decide⟩

/-- A name that is no longer than that of a configuration can be looked for below every path that
starts like one with room. -/
theorem readable_join {p q : Path} {name : String} (hname : ProperName name)
    (hzero : Char.ofNat 0 ∉ p.text.toList) (hroom : HasRoom p)
    (hopens : q.text.toList <+: p.text.toList) (hnameZero : Char.ofNat 0 ∉ name.toList)
    (hshort : name.utf8ByteSize ≤ fileName.utf8ByteSize) :
    Disk.Readable (q.join ⟨name⟩).text := by
  have htext := Path.toList_join q hname
  have hsize : (q.join ⟨name⟩).text.utf8ByteSize ≤ q.text.utf8ByteSize + ("/" ++ name).utf8ByteSize := by
    have hopens : (q.join ⟨name⟩).text.toList = q.text.toList ++ name.toList ∨
        (q.join ⟨name⟩).text.toList = q.text.toList ++ '/' :: name.toList := by
      rw [htext]
      split
      · exact .inl rfl
      · exact .inr rfl
    rcases hopens with heq | heq
    · have hjoin : (q.join ⟨name⟩).text = q.text ++ name := String.ext (by simp [heq])
      rw [hjoin, String.utf8ByteSize_append, String.utf8ByteSize_append]
      omega
    · have hjoin : (q.join ⟨name⟩).text = q.text ++ ("/" ++ name) := String.ext (by simp [heq])
      rw [hjoin, String.utf8ByteSize_append]
  have hq : q.text.utf8ByteSize ≤ p.text.utf8ByteSize := Text.utf8ByteSize_le_of_opens hopens
  have hqZero : Char.ofNat 0 ∉ q.text.toList := fun hmem => hzero (hopens.subset hmem)
  refine ⟨?_, ?_, ?_⟩
  · rw [htext]
    split
    · simp [hqZero, hnameZero]
    · simp only [List.mem_append, List.mem_cons, hqZero, hnameZero, or_false, false_or]
      decide
  · intro hempty
    have hnil : (q.join ⟨name⟩).text.toList = [] := by simp [hempty]
    have hne : name.toList ≠ [] := fun he => hname.ne_empty (String.ext he)
    rw [htext] at hnil
    split at hnil <;> simp [hne] at hnil
  · unfold HasRoom at hroom
    rw [String.utf8ByteSize_append] at hsize hroom
    omega

/-! ### The search by text and the search by place -/

section Agreement

variable {d : Disk} (h : d.IsTree)
include h

theorem locate_findIn {p : Path} (hzero : Char.ofNat 0 ∉ p.text.toList) (hroom : HasRoom p) :
    ∀ {qs : List Path}, (∀ q ∈ qs, d.Passes q ∧ q.text.toList <+: p.text.toList) →
    (findIn d qs).map (d.locate true) =
      (nearest? d (qs.map fun q => Path.fold (q.base d.cwd) q.steps)).map .ok
  | [], _ => rfl
  | q :: qs, hqs => by
    obtain ⟨hpasses, hopens⟩ := hqs q (by simp)
    have hfileReadable : Disk.Readable (q.join ⟨fileName⟩).text :=
      readable_join properName_fileName hzero hroom hopens (by decide) (by decide)
    have htopReadable : Disk.Readable (q.join ⟨repositoryName⟩).text :=
      readable_join properName_repositoryName hzero hroom hopens (by decide) (by decide)
    have hfile := Disk.has_join h hpasses properName_fileName (by decide) hfileReadable
    have htop := Disk.has_join h hpasses properName_repositoryName (by decide) htopReadable
    rw [findIn, List.map_cons, nearest?]
    by_cases hasFile : d.has (q.join ⟨fileName⟩) = true
    · rw [if_pos hasFile, if_pos (hfile.mp hasFile), Option.map_some, Option.map_some,
        Disk.locate_join h hpasses properName_fileName (by decide) hfileReadable]
    · rw [if_neg hasFile, if_neg (fun hsome => hasFile (hfile.mpr hsome))]
      by_cases hasTop : d.has (q.join ⟨repositoryName⟩) = true
      · rw [if_pos hasTop, if_pos (htop.mp hasTop)]
        rfl
      · rw [if_neg hasTop, if_neg (fun hsome => hasTop (htop.mpr hsome))]
        exact locate_findIn hzero hroom fun q' hq' => hqs q' (List.mem_cons_of_mem q hq')

/-- A search finds the nearest configuration on the trail of its start. -/
theorem locate_find? {start : Path} (hpasses : d.Passes start)
    (hzero : Char.ofNat 0 ∉ start.text.toList) (hroom : HasRoom start) :
    (find? d start).map (d.locate true) = (nearest? d (start.trail d.cwd)).map .ok := by
  have hlength : start.text.toList.length < start.text.length + 1 := by
    rw [String.length_toList]
    omega
  have htrail := Path.map_ancestorsUpTo d.cwd (start.text.length + 1) start hlength
  rw [find?, Path.ancestors, ← htrail]
  refine locate_findIn h hzero hroom fun q hq => ⟨?_, Path.toList_of_mem_ancestorsUpTo hq⟩
  obtain ⟨habs, hopens⟩ := Path.steps_of_mem_ancestorsUpTo hq
  exact hpasses.of_opens habs hopens

/-! ### The absolute form of a start -/

/-- The absolute path of a directory goes through directories only. -/
theorem passes_of_names {p : Path} {place : Location}
    (hp : p.components = .root :: place.map .name) (hget : d.get? place = some .directory) :
    d.Passes p := by
  obtain ⟨hbase, hsteps⟩ := Path.base_steps_of_names d.cwd hp
  intro cs hcs
  rw [hsteps] at hcs
  obtain ⟨above, habove, rfl⟩ := List.prefix_map_iff.mp hcs
  rw [hbase, Path.fold_names, List.nil_append]
  exact h.get?_prefix hget above habove

theorem locate_find?_ofLocation {place : Location} (hget : d.get? place = some .directory)
    (hroom : HasRoom (.ofLocation place)) :
    (find? d (.ofLocation place)).map (d.locate true) =
      (nearest? d (Path.upward place)).map .ok := by
  have hstored := h.storedName hget
  have hproper : ∀ n ∈ place, ProperName n := fun n hn => (hstored n hn).toProperName
  have hcomponents := Path.components_ofLocation hproper
  obtain ⟨hbase, hsteps⟩ := Path.base_steps_of_names d.cwd hcomponents
  have htrail : (Path.ofLocation place).trail d.cwd = Path.upward place := by
    rw [Path.trail, Path.upward, hbase, hsteps, List.map_inits, List.map_map]
    have hfold : (Path.fold [] ∘ List.map Component.name) = id := by
      funext names
      simpa using Path.fold_names [] names
    rw [hfold, List.map_id]
  have hpasses := passes_of_names h hcomponents hget
  have hzero : Char.ofNat 0 ∉ (Path.ofLocation place).text.toList := by
    have htext : (Path.ofLocation place).text.toList =
        '/' :: Text.joinWith ['/'] (place.map String.toList) := by
      simp [Path.ofLocation, Text.joinWith_eq_intercalate, String.toList_intercalate]
    rw [htext]
    intro hmem
    rcases List.mem_cons.mp hmem with heq | hmem
    · exact absurd heq (by decide)
    · rcases Text.mem_joinWith hmem with hmem | ⟨part, hpart, hmem⟩
      · exact absurd hmem (by decide)
      · obtain ⟨n, hn, rfl⟩ := List.mem_map.mp hpart
        exact (hstored n hn).no_zero hmem
  rw [locate_find? h hpasses hzero hroom, htrail]

end Agreement

/-- Whether the searches from two paths find the same file, or both find none. -/
def Agrees (d : Disk) (p q : Path) : Prop :=
  (find? d p).map (d.locate true) = (find? d q).map (d.locate true)

theorem map_ok_inj {a b : Option Location} :
    a.map (Except.ok (ε := Problem)) = b.map .ok ↔ a = b := by
  cases a <;> cases b <;> simp

/-- A start directory and its absolute form find the same configuration exactly when the nearest one
on the way of the text and the nearest one above the place are the same. If the start does not climb,
they are the same exactly when the start is absolute, when the search ends before the directory that
the start is taken from is left, or when there is nothing to be found above. Where the two agree, a
configuration that is found lies in the start directory or above it. -/
theorem find?_absolute_iff {d : Disk} {start abs : Path} (h : d.IsTree)
    (hstart : d.isDirectory start = true)
    (habs : start.absolute? (.ofLocation d.cwd) = some abs) (hroom : HasRoom start)
    (hroomAbs : HasRoom abs) :
    (Agrees d start abs ↔ nearest? d (start.trail d.cwd) =
      nearest? d (Path.upward (start.locationFrom (.ofLocation d.cwd)))) ∧
    (.up ∉ start.components → (Agrees d start abs ↔ start.isAbsolute = true ∨
      (∃ place ∈ start.trail d.cwd, Settles d place) ∨
        nearest? d (Path.upward d.cwd) = none)) ∧
    (Agrees d start abs → ∀ file, find? d start = some file →
      ∃ above, above <+: start.locationFrom (.ofLocation d.cwd) ∧
        d.locate true file = .ok (above ++ [fileName])) := by
  obtain ⟨hreadable, hpasses⟩ := (Disk.isDirectory_iff h).mp hstart
  have hplace := Disk.locationFrom_cwd h start
  have hget : d.get? (Path.fold (start.base d.cwd) start.steps) = some .directory :=
    hpasses start.steps List.prefix_rfl
  obtain rfl := Path.eq_of_absolute? habs
  rw [hplace] at hroomAbs ⊢
  have hfound := locate_find? h hpasses hreadable.no_zero hroom
  have hfoundAbs := locate_find?_ofLocation h hget hroomAbs
  have hagrees : Agrees d start (.ofLocation (Path.fold (start.base d.cwd) start.steps)) ↔
      nearest? d (start.trail d.cwd) =
        nearest? d (Path.upward (Path.fold (start.base d.cwd) start.steps)) := by
    rw [Agrees, hfound, hfoundAbs, map_ok_inj]
  refine ⟨hagrees, fun hup => ?_, fun hagree file hfile => ?_⟩
  · rw [hagrees]
    cases hrooted : start.isAbsolute with
    | true => simpa using nearest?_trail_of_isAbsolute d.cwd hup hrooted
    | false =>
      have hbase : start.base d.cwd = d.cwd := by rw [Path.base, hrooted]; rfl
      rw [nearest?_trail_iff d.cwd hup, hbase]
      simp
  · rw [hagrees] at hagree
    rw [hfile, hagree, Option.map_some] at hfound
    obtain ⟨target, hnearest, hlocate⟩ := Option.map_eq_some_iff.mp hfound.symm
    obtain ⟨above, habove, rfl⟩ := nearest?_upward hnearest
    exact ⟨above, habove, hlocate.symm⟩

/-- A disk with a configuration above the working directory. -/
def configAbove : Disk :=
  ⟨[(["project"], .directory), ([".stubgenrc.json"], .file (some "\x7b\x7d"))], ["project"]⟩

/-- A search from `.` does not leave the working directory. -/
theorem not_agrees_here :
    configAbove.IsTree ∧ configAbove.isDirectory ⟨"."⟩ = true ∧
      (Path.mk ".").absolute? (.ofLocation configAbove.cwd) = some (.ofLocation ["project"]) ∧
      ¬ Agrees configAbove ⟨"."⟩ (.ofLocation ["project"]) := by
  have htree : configAbove.IsTree := by decide
  have hpasses : configAbove.Passes ⟨"."⟩ := by decide
  have hget : configAbove.get? ["project"] = some .directory := by decide
  have hfound := locate_find? htree hpasses (by decide) (by decide)
  have hfoundAbs := locate_find?_ofLocation htree hget (by decide)
  have hnearest : nearest? configAbove ((Path.mk ".").trail configAbove.cwd) = none := by decide
  have hnearestAbs : nearest? configAbove (Path.upward ["project"]) = some [fileName] := by decide
  refine ⟨htree, (Disk.isDirectory_iff htree).mpr ⟨by decide, hpasses⟩, by decide, ?_⟩
  rw [Agrees, hfound, hfoundAbs, hnearest, hnearestAbs]
  simp

theorem find?_absolute_iff_project :
    configAbove.IsTree ∧ configAbove.isDirectory ⟨"/./project/"⟩ = true ∧
      (Path.mk "/./project/").absolute? (.ofLocation configAbove.cwd) =
        some (.ofLocation ["project"]) ∧
      HasRoom ⟨"/./project/"⟩ ∧ HasRoom (.ofLocation ["project"]) ∧
      Agrees configAbove ⟨"/./project/"⟩ (.ofLocation ["project"]) := by
  have htree : configAbove.IsTree := by decide
  have hdirectory : configAbove.isDirectory ⟨"/./project/"⟩ = true :=
    (Disk.isDirectory_iff htree).mpr ⟨by decide, by decide⟩
  have habs : (Path.mk "/./project/").absolute? (.ofLocation configAbove.cwd) =
      some (.ofLocation ["project"]) := by decide
  have hroom : HasRoom ⟨"/./project/"⟩ := by decide
  have hroomAbs : HasRoom (.ofLocation ["project"]) := by decide
  refine ⟨htree, hdirectory, habs, hroom, hroomAbs, ?_⟩
  have hclimbs : .up ∉ (Path.mk "/./project/").components := by decide
  exact ((find?_absolute_iff htree hdirectory habs hroom hroomAbs).2.1 hclimbs).mpr (.inl rfl)

end Config
end FetchClients
