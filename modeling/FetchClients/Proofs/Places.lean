/-
# Where paths lead on a disk without links

On a disk that is a tree of files and directories a path leads to the place that
its steps name: following it name by name and folding its text agree
(`Disk.fold_of_resolve`). It leads to a directory exactly when every place on the
way is one (`Disk.resolve_eq_directory_iff`), so each path that its text goes
through leads to a directory too, and a name behind it stands for what is at that
name in the directory (`Disk.has_join`).

Key definitions: `Disk.StoredName`, `Disk.IsTree`, `Disk.along`, `Path.base`.
Key theorems: `Path.body_join`, `Disk.fold_of_resolve`,
`Disk.resolve_eq_directory_iff`, `Disk.isDirectory_iff`, `Disk.has_join`.
-/
import FetchClients.Disk.Resolve
import FetchClients.Proofs.Paths
import Mathlib.Data.List.Infix

namespace FetchClients

namespace Text

/-- A text with a separator has the parts before it and the parts after it. -/
theorem fields_append_sep : ∀ {sep : Char} (text rest : List Char),
    fields sep (text ++ sep :: rest) = fields sep text ++ fields sep rest
  | sep, [], rest => by simp [fields]
  | sep, c :: cs, rest => by
    have ih := @fields_append_sep sep cs rest
    by_cases hc : c = sep
    · simp [fields, hc, ih]
    · obtain ⟨part, parts, hparts⟩ := List.exists_cons_of_ne_nil (@fields_ne_nil sep cs)
      simp [fields, hc, ih, hparts]

/-- Joined parts have the characters of the parts and of what stands between them. -/
theorem mem_joinWith {c : Char} {sep : List Char} : ∀ {parts : List (List Char)},
    c ∈ joinWith sep parts → c ∈ sep ∨ ∃ part ∈ parts, c ∈ part
  | [], h => by simp [joinWith] at h
  | [part], h => .inr ⟨part, by simp, h⟩
  | part :: next :: parts, h => by
    rw [joinWith, List.mem_append, List.mem_append] at h
    · rcases h with (h | h) | h
      · exact .inr ⟨part, by simp, h⟩
      · exact .inl h
      · rcases mem_joinWith h with h | ⟨other, hmem, h⟩
        · exact .inl h
        · exact .inr ⟨other, List.mem_cons_of_mem _ hmem, h⟩
    · simp

end Text

namespace Path

/-- Where the steps of a path start. -/
def base (p : Path) (cwd : Location) : Location :=
  if p.isAbsolute then [] else cwd

/-- A path leads from its base by its steps. -/
theorem fold_components (p : Path) (start : Location) :
    fold start p.components = fold (p.base start) p.steps := by
  rw [components_eq, fold_append]
  unfold base
  cases p.isAbsolute <;> rfl

theorem steps_eq (p : Path) : p.steps = fieldComponents (!p.body.1) p.body.2 := rfl

theorem fieldComponents_append_nil (opening : Bool) (fs : List (List Char)) :
    fieldComponents opening (fs ++ [[]]) = fieldComponents opening fs := by
  rw [fieldComponents_append]
  exact List.append_nil _

/-- A text after the slash of its root, if it has one, is cut into the fields of the path. -/
theorem body_eq_of_toList {p : Path} {rooted : Bool} {inner : List Char}
    (htext : p.text.toList = (if rooted then ['/'] else []) ++ inner)
    (hinner : rooted = false → inner.head? ≠ some '/') :
    p.body = (rooted, Text.fields '/' inner) := by
  unfold body
  cases rooted with
  | true => simp [htext]
  | false =>
    have hnot : ∀ rest, inner ≠ '/' :: rest := fun rest he => hinner rfl (by simp [he])
    simp only [Bool.false_eq_true, if_false, List.nil_append] at htext
    split
    · rename_i rest heq
      exact absurd (htext.symm.trans heq) (hnot rest)
    · rw [htext]

theorem exists_inner (p : Path) : ∃ inner : List Char,
    p.text.toList = (if p.isAbsolute then ['/'] else []) ++ inner ∧
      (p.isAbsolute = false → inner.head? ≠ some '/') := by
  unfold isAbsolute body
  split
  · rename_i rest heq
    exact ⟨rest, by simp [heq], by simp⟩
  · rename_i hnot
    refine ⟨p.text.toList, by simp, fun _ hhead => ?_⟩
    obtain ⟨rest, hrest⟩ := List.head?_eq_some_iff.mp hhead
    exact hnot rest hrest

theorem not_isAbsolute_name {name : String} (h : '/' ∉ name.toList) :
    (Path.mk name).isAbsolute = false := by
  obtain ⟨inner, htext, -⟩ := exists_inner (Path.mk name)
  rw [Bool.eq_false_iff]
  intro habs
  rw [habs] at htext
  exact h (by simp [htext])

/-- A text without slashes is one field. -/
theorem body_name {name : String} (h : '/' ∉ name.toList) :
    (Path.mk name).body.2 = [name.toList] := by
  obtain ⟨inner, htext, hinner⟩ := exists_inner (Path.mk name)
  rw [body_eq_of_toList htext hinner, ← Text.fields_of_not_mem h]
  rw [not_isAbsolute_name h, if_neg Bool.false_ne_true, List.nil_append] at htext
  rw [htext]

/-- The text of a path with a relative path below it. -/
theorem toList_join_relative (p : Path) {q : Path} (h : q.isAbsolute = false) :
    (p.join q).text.toList =
      if p.text.toList = [] ∨ p.text.toList.getLast? = some '/' then p.text.toList ++ q.text.toList
      else p.text.toList ++ '/' :: q.text.toList := by
  have hempty : p.text.isEmpty = true ↔ p.text.toList = [] := by
    rw [String.isEmpty_iff]
    exact ⟨fun he => by simp [he], fun he => String.ext he⟩
  unfold join
  rw [h]
  simp only [Bool.false_eq_true, if_false, Bool.or_eq_true, decide_eq_true_eq, hempty]
  split <;> simp

/-- The text of a path with a name below it. -/
theorem toList_join (p : Path) {name : String} (h : ProperName name) :
    (p.join ⟨name⟩).text.toList =
      if p.text.toList = [] ∨ p.text.toList.getLast? = some '/' then p.text.toList ++ name.toList
      else p.text.toList ++ '/' :: name.toList :=
  toList_join_relative p (not_isAbsolute_name h.not_slash)

/-- What paths below a path have in common: the fields of the path, but for an empty one at its end.
Those of the relative path follow. -/
theorem exists_body_join (p : Path) : ∃ kept, (p.body.2 = kept ∨ p.body.2 = kept ++ [[]]) ∧
    ∀ q : Path, q.isAbsolute = false → (p.join q).body = (p.isAbsolute, kept ++ q.body.2) := by
  obtain ⟨inner, htext, hinner⟩ := exists_inner p
  have hbody : p.body.2 = Text.fields '/' inner := by rw [body_eq_of_toList htext hinner]
  have hrelative : ∀ q : Path, q.isAbsolute = false →
      q.body.2 = Text.fields '/' q.text.toList ∧ q.text.toList.head? ≠ some '/' := by
    intro q h
    obtain ⟨more, hmore, hhead⟩ := exists_inner q
    rw [body_eq_of_toList hmore hhead]
    rw [h, if_neg Bool.false_ne_true, List.nil_append] at hmore
    rw [hmore]
    exact ⟨rfl, hhead h⟩
  rcases List.eq_nil_or_concat inner with rfl | ⟨before, last, rfl⟩
  · -- nothing stands after the root, so the relative path does
    refine ⟨[], .inr (by rw [hbody]; rfl), fun q h => ?_⟩
    obtain ⟨hqBody, hhead⟩ := hrelative q h
    rw [List.nil_append, hqBody]
    refine body_eq_of_toList ?_ fun _ => hhead
    rw [toList_join_relative p h, htext]
    cases p.isAbsolute <;> simp
  · rw [List.concat_eq_append] at htext hinner hbody
    have hlast : p.text.toList.getLast? = some last := by rw [htext, ← List.append_assoc]; simp
    have hne : p.text.toList ≠ [] := by rw [htext]; simp
    by_cases hslash : last = '/'
    · -- the slash at the end stands between the steps and the relative path
      subst hslash
      refine ⟨Text.fields '/' before, .inr ?_, fun q h => ?_⟩
      · rw [hbody, Text.fields_append_sep]
        rfl
      · rw [(hrelative q h).1, ← Text.fields_append_sep]
        refine body_eq_of_toList ?_ fun hrel hstarts => ?_
        · rw [toList_join_relative p h, if_pos (.inr hlast), htext]
          simp
        · refine hinner hrel ?_
          rw [List.head?_append] at hstarts ⊢
          simpa using hstarts
    · refine ⟨Text.fields '/' (before ++ [last]), .inl hbody, fun q h => ?_⟩
      rw [(hrelative q h).1, ← Text.fields_append_sep]
      refine body_eq_of_toList ?_ fun hrel hstarts => ?_
      · have hnot : ¬ (p.text.toList = [] ∨ p.text.toList.getLast? = some '/') := by
          rw [hlast]
          simp [hne, hslash]
        rw [toList_join_relative p h, if_neg hnot, htext]
        simp
      · refine hinner hrel ?_
        rw [List.head?_append] at hstarts
        simpa using hstarts

/-- The fields of a path with a relative path below it: those of the path, but for an empty one at
its end, and those of the relative path. -/
theorem body_join_fields (p : Path) {q : Path} (h : q.isAbsolute = false) :
    ∃ kept, (p.join q).body = (p.isAbsolute, kept ++ q.body.2) ∧
      (p.body.2 = kept ∨ p.body.2 = kept ++ [[]]) := by
  obtain ⟨kept, hkept, hbody⟩ := exists_body_join p
  exact ⟨kept, hbody q h, hkept⟩

/-- The fields of a path with a relative path below it: fields that take the steps of the path, and
those of the relative path. -/
theorem body_join_relative (p : Path) {q : Path} (h : q.isAbsolute = false) :
    ∃ kept, (p.join q).body = (p.isAbsolute, kept ++ q.body.2) ∧
      fieldComponents (!p.isAbsolute) kept = p.steps := by
  obtain ⟨kept, hbody, hkept⟩ := body_join_fields p h
  refine ⟨kept, hbody, ?_⟩
  rw [steps_eq]
  rcases hkept with hkept | hkept
  · rw [hkept]
    rfl
  · rw [hkept, fieldComponents_append_nil]
    rfl

/-- The fields of a path with a name below it: fields that take the steps of the path, and the
name. -/
theorem body_join (p : Path) {name : String} (h : ProperName name) :
    ∃ kept, (p.join ⟨name⟩).body = (p.isAbsolute, kept ++ [name.toList]) ∧
      fieldComponents (!p.isAbsolute) kept = p.steps := by
  rw [← body_name h.not_slash]
  exact body_join_relative p (not_isAbsolute_name h.not_slash)

/-- A path below another takes its steps first, unless it is absolute. -/
theorem steps_join_cases (p q : Path) : p.join q = q ∧ q.isAbsolute = true ∨
    (p.join q).isAbsolute = p.isAbsolute ∧ ∃ more, (p.join q).steps = p.steps ++ more ∧
      ∀ n, .name n ∈ more ↔ .name n ∈ q.steps := by
  by_cases habs : q.isAbsolute = true
  · exact .inl ⟨if_pos habs, habs⟩
  · obtain ⟨kept, hbody, hkept⟩ := body_join_relative p (Bool.eq_false_iff.mpr habs)
    refine .inr ⟨by rw [isAbsolute, hbody], fieldComponents (!p.isAbsolute && kept.isEmpty) q.body.2,
      ?_, fun n => ⟨?_, ?_⟩⟩
    · rw [steps_eq, hbody, fieldComponents_append, hkept]
    · exact mem_fieldComponents_congr (by simp)
    · exact mem_fieldComponents_congr (by simp)

theorem isAbsolute_join (p : Path) {name : String} (h : ProperName name) :
    (p.join ⟨name⟩).isAbsolute = p.isAbsolute := by
  obtain ⟨kept, hbody, -⟩ := body_join p h
  unfold isAbsolute
  rw [hbody]
  rfl

/-- A name below a path is its last step. -/
theorem steps_join (p : Path) {name : String} (h : ProperName name) :
    (p.join ⟨name⟩).steps = p.steps ++ [.name name] := by
  obtain ⟨kept, hbody, hkept⟩ := body_join p h
  have hne : name.toList ≠ [] := fun he => h.ne_empty (String.ext he)
  have hhere : name.toList ≠ ['.'] := fun he => h.ne_here (String.ext he)
  rw [steps_eq, hbody, fieldComponents_concat hne hhere, hkept, componentOf_toList h]

/-- A name below a path is its last component. -/
theorem components_join (p : Path) {name : String} (h : ProperName name) :
    (p.join ⟨name⟩).components = p.components ++ [.name name] := by
  rw [components_eq, components_eq, isAbsolute_join p h, steps_join p h, List.append_assoc]

/-- A name below a path is below the place of the path. -/
theorem locationFrom_join (p cwd : Path) {name : String} (h : ProperName name) :
    (p.join ⟨name⟩).locationFrom cwd = p.locationFrom cwd ++ [name] :=
  locationFrom_concat cwd (components_join p h)

theorem joinWith_prefix : ∀ {fs gs : List (List Char)}, fs <+: gs →
    Text.joinWith ['/'] fs <+: Text.joinWith ['/'] gs
  | [], _, _ => List.nil_prefix
  | [f], gs, h => by
    obtain ⟨rest, rfl⟩ := h
    cases rest with
    | nil => exact List.prefix_rfl
    | cons g rest => exact ⟨'/' :: Text.joinWith ['/'] (g :: rest), by simp [Text.joinWith]⟩
  | f :: f' :: fs, gs, h => by
    obtain ⟨rest, rfl⟩ := h
    have ih : Text.joinWith ['/'] (f' :: fs) <+: Text.joinWith ['/'] (f' :: fs ++ rest) :=
      joinWith_prefix (List.prefix_append _ _)
    simpa [Text.joinWith] using ih

/-- A parent is written as a path is, up to the last step. -/
theorem toList_parent? {p q : Path} (h : p.parent? = some q) : q.text.toList <+: p.text.toList := by
  obtain ⟨inner, htext, hinner⟩ := exists_inner p
  have hbody := body_eq_of_toList htext hinner
  unfold parent? at h
  rw [hbody] at h
  dsimp only at h
  split at h
  · cases h
  · cases h
    have hkept : trimFields (!p.isAbsolute)
        (trimFields (!p.isAbsolute) (Text.fields '/' inner)).dropLast <+: Text.fields '/' inner :=
      ((trimFields_opens _ _).trans (List.dropLast_prefix _)).trans (trimFields_opens _ _)
    have hjoined := joinWith_prefix hkept
    rw [Text.joinWith_fields] at hjoined
    rw [htext]
    unfold ofFields
    generalize p.isAbsolute = rooted at hjoined ⊢
    cases rooted <;> simpa using hjoined

/-- A parent starts where a path does and takes all its steps but the last. -/
theorem steps_parent? {p q : Path} (h : p.parent? = some q) :
    q.isAbsolute = p.isAbsolute ∧ ∃ last, p.steps = q.steps ++ [last] := by
  obtain ⟨last, hroot, hcomponents⟩ := components_of_parent? h
  have habs : q.isAbsolute = p.isAbsolute := by
    rw [Bool.eq_iff_iff, isAbsolute_iff, isAbsolute_iff, hcomponents]
    simp [Ne.symm hroot]
  refine ⟨habs, last, ?_⟩
  rw [components_eq p, components_eq q, habs, List.append_assoc] at hcomponents
  exact List.append_cancel_left hcomponents

/-- A path is longer than its parent. -/
theorem length_parent? {p q : Path} (h : p.parent? = some q) :
    q.text.toList.length < p.text.toList.length := by
  have hopens := toList_parent? h
  rcases Nat.lt_or_ge q.text.toList.length p.text.toList.length with hlt | hge
  · exact hlt
  · have heq : q.text.toList = p.text.toList := hopens.eq_of_length_le hge
    have hpath : q = p := by
      obtain ⟨text⟩ := q
      obtain ⟨text'⟩ := p
      exact congrArg Path.mk (String.ext heq)
    obtain ⟨-, last, hsteps⟩ := steps_parent? h
    rw [hpath] at hsteps
    simp at hsteps

end Path

namespace Disk

/-- A name that a directory can hold. -/
structure StoredName (name : String) : Prop extends ProperName name where
  short : name.utf8ByteSize ≤ nameLimit
  no_zero : Char.ofNat 0 ∉ name.toList

instance (name : String) : Decidable (StoredName name) :=
  decidable_of_iff
    (ProperName name ∧ name.utf8ByteSize ≤ nameLimit ∧ Char.ofNat 0 ∉ name.toList)
    ⟨fun ⟨h, hshort, hzero⟩ => ⟨h, hshort, hzero⟩, fun h => ⟨h.toProperName, h.short, h.no_zero⟩⟩

/-- Whether an entry stands for another path. -/
def isLink : Entry → Bool
  | .link _ => true
  | .file _ | .directory => false

/-- A tree of files and directories that is seen from one of its directories: no entry is a link, and
each stands in a directory that is there. -/
structure IsTree (d : Disk) : Prop where
  linkless : ∀ e ∈ d.entries, isLink e.2 = false
  named : ∀ e ∈ d.entries, ∀ n ∈ e.1, StoredName n
  parent : ∀ e ∈ d.entries, d.get? e.1.dropLast = some .directory
  cwd : d.get? d.cwd = some .directory

instance (d : Disk) : Decidable d.IsTree :=
  decidable_of_iff
    ((∀ e ∈ d.entries, isLink e.2 = false) ∧ (∀ e ∈ d.entries, ∀ n ∈ e.1, StoredName n) ∧
      (∀ e ∈ d.entries, d.get? e.1.dropLast = some .directory) ∧ d.get? d.cwd = some .directory)
    ⟨fun ⟨hlinkless, hnamed, hparent, hcwd⟩ => ⟨hlinkless, hnamed, hparent, hcwd⟩,
      fun h => ⟨h.linkless, h.named, h.parent, h.cwd⟩⟩

namespace IsTree

variable {d : Disk}

theorem mem_of_get? {place : Location} {entry : Entry} (h : d.get? place = some entry)
    (hne : place ≠ []) : (place, entry) ∈ d.entries := by
  unfold get? at h
  rw [if_neg hne, Option.map_eq_some_iff] at h
  obtain ⟨e, hfind, rfl⟩ := h
  have hplace : e.1 = place := by simpa using List.find?_some hfind
  exact hplace ▸ List.mem_of_find?_eq_some hfind

theorem get?_ne_link (h : d.IsTree) (place : Location) (target : String) :
    d.get? place ≠ some (.link target) := by
  intro hget
  by_cases hne : place = []
  · simp [get?, hne] at hget
  · exact absurd (h.linkless _ (mem_of_get? hget hne)) (by simp [isLink])

theorem storedName (h : d.IsTree) {place : Location} {entry : Entry}
    (hget : d.get? place = some entry) : ∀ n ∈ place, StoredName n := by
  intro n hn
  have hne : place ≠ [] := fun he => by simp [he] at hn
  exact h.named _ (mem_of_get? hget hne) n hn

/-- What stands at a place stands in a directory. -/
theorem get?_dropLast (h : d.IsTree) {place : Location} {entry : Entry}
    (hget : d.get? place = some entry) : d.get? place.dropLast = some .directory := by
  by_cases hne : place = []
  · simp [get?, hne]
  · exact h.parent _ (mem_of_get? hget hne)

/-- All places above one at which something stands are directories. -/
theorem get?_prefix (h : d.IsTree) : ∀ {place : Location}, d.get? place = some .directory →
    ∀ above, above <+: place → d.get? above = some .directory := by
  intro place
  induction place using List.reverseRecOn with
  | nil =>
    intro hget above habove
    rw [List.prefix_nil.mp habove]
    exact hget
  | append_singleton place name ih =>
    intro hget above habove
    rcases List.prefix_concat_iff.mp habove with rfl | habove
    · exact hget
    · have hparent := h.get?_dropLast hget
      rw [List.dropLast_concat] at hparent
      exact ih hparent above habove

end IsTree

/-- The place that a field leads to. -/
def along (place : Location) (field : List Char) : Location :=
  if field = [] then place else Path.step place (Path.componentOf field)

theorem fold_fieldComponents_cons (opening : Bool) (place : Location) (f : List Char)
    (fs : List (List Char)) :
    Path.fold place (Path.fieldComponents opening (f :: fs)) =
      Path.fold (along place f) (Path.fieldComponents false fs) := by
  unfold along
  by_cases hnil : f = []
  · simp [Path.fieldComponents, Path.fieldNames, hnil]
  · by_cases hhere : f = ['.']
    · -- a step that stays is named only where it opens the path
      cases opening <;>
        simp [Path.fieldComponents, Path.fieldNames, Path.componentOf, hhere, Path.fold, Path.step]
    · have hnames : Path.fieldNames opening f = true := by
        unfold Path.fieldNames
        split <;> simp_all
      simp [Path.fieldComponents, hnames, hnil, Path.fold]

/-- A field takes one step, or leads nowhere else. -/
theorem fieldComponents_cons_cases (opening : Bool) (place : Location) (f : List Char)
    (fs : List (List Char)) :
    (Path.fieldComponents opening (f :: fs) =
        Path.componentOf f :: Path.fieldComponents false fs ∧
      ∀ cs, Path.fold place (Path.componentOf f :: cs) = Path.fold (along place f) cs) ∨
    (Path.fieldComponents opening (f :: fs) = Path.fieldComponents false fs ∧
      along place f = place) := by
  by_cases hnames : Path.fieldNames opening f = true
  · have hne : f ≠ [] := by
      rintro rfl
      simp [Path.fieldNames] at hnames
    refine .inl ⟨by simp [Path.fieldComponents, hnames], fun cs => ?_⟩
    rw [along, if_neg hne]
    rfl
  · refine .inr ⟨by simp [Path.fieldComponents, hnames], ?_⟩
    unfold along
    by_cases hnil : f = []
    · rw [if_pos hnil]
    · have hhere : f = ['.'] := by
        unfold Path.fieldNames at hnames
        split at hnames <;> simp_all
      rw [if_neg hnil, hhere]
      rfl

section Tree

variable {d : Disk} (h : d.IsTree)
include h

/-- A path is followed as long as it is in directories and its names are short enough. -/
theorem resolve_cons_eq_ok_iff {links : Nat} {place target : Location} {f : List Char}
    {fs : List (List Char)} :
    d.resolve true links place (f :: fs) = .ok target ↔
      d.get? place = some .directory ∧ (String.ofList f).utf8ByteSize ≤ nameLimit ∧
        d.resolve true links (along place f) fs = .ok target := by
  rw [resolve_eq, resolveWith]
  cases hplace : d.get? place with
  | none => simp
  | some entry =>
    cases entry with
    | file contents => simp
    | link target => simp
    | directory =>
      simp only [true_and]
      unfold along
      by_cases hskip : f = [] ∨ f = ['.']
      · have hshort : (String.ofList f).utf8ByteSize ≤ nameLimit := by
          rcases hskip with rfl | rfl <;> decide
        have halong : (if f = [] then place else Path.step place (Path.componentOf f)) = place := by
          rcases hskip with rfl | rfl <;> rfl
        rw [if_pos hskip, halong]
        exact ⟨fun hr => ⟨hshort, hr⟩, fun hr => hr.2⟩
      · rw [if_neg hskip]
        obtain ⟨hnil, hhere⟩ := not_or.mp hskip
        rw [if_neg hnil]
        by_cases hup : f = ['.', '.']
        · subst hup
          rw [if_pos rfl]
          exact ⟨fun hr => ⟨by decide, hr⟩, fun hr => hr.2⟩
        · have hstep : Path.step place (Path.componentOf f) = place ++ [String.ofList f] := by
            simp [Path.componentOf, hhere, hup, Path.step]
          rw [if_neg hup, hstep]
          by_cases hlong : nameLimit < (String.ofList f).utf8ByteSize
          · simp [hlong, Nat.not_le.mpr hlong]
          · have hshort := Nat.not_lt.mp hlong
            rw [if_neg hlong]
            cases hnext : d.get? (place ++ [String.ofList f]) with
            | none => simp [hshort]
            | some entry =>
              cases entry with
              | link target => exact absurd hnext (h.get?_ne_link _ target)
              | file contents => simp [hshort]
              | directory => simp [hshort]

/-- Following a path agrees with folding its text. -/
theorem fold_of_resolve {links : Nat} : ∀ {opening : Bool} {place target : Location}
    {fs : List (List Char)}, d.resolve true links place fs = .ok target →
    Path.fold place (Path.fieldComponents opening fs) = target
  | _, place, target, [], hr => by
    rw [resolve_nil] at hr
    exact Except.ok.inj hr
  | opening, place, target, f :: fs, hr => by
    obtain ⟨-, -, hrest⟩ := (resolve_cons_eq_ok_iff h).mp hr
    rw [fold_fieldComponents_cons]
    exact fold_of_resolve hrest

/-- Fields are followed one after another. -/
theorem resolve_append_eq_ok_iff {links : Nat} : ∀ {place target : Location}
    {fs gs : List (List Char)}, d.resolve true links place (fs ++ gs) = .ok target ↔
      ∃ mid, d.resolve true links place fs = .ok mid ∧ d.resolve true links mid gs = .ok target
  | place, target, [], gs => by
    simp
  | place, target, f :: fs, gs => by
    simp only [List.cons_append, resolve_cons_eq_ok_iff h, resolve_append_eq_ok_iff]
    constructor
    · rintro ⟨hplace, hshort, mid, hmid, hrest⟩
      exact ⟨mid, ⟨hplace, hshort, hmid⟩, hrest⟩
    · rintro ⟨mid, ⟨hplace, hshort, hmid⟩, hrest⟩
      exact ⟨hplace, hshort, mid, hmid, hrest⟩

/-- A field that leads to something is short enough. -/
theorem short_of_get?_along {place : Location} {f : List Char} {entry : Entry}
    (hget : d.get? (along place f) = some entry) :
    (String.ofList f).utf8ByteSize ≤ nameLimit := by
  by_cases hnil : f = []
  · subst hnil
    decide
  · by_cases hhere : f = ['.']
    · subst hhere
      decide
    · by_cases hup : f = ['.', '.']
      · subst hup
        decide
      · have halong : along place f = place ++ [String.ofList f] := by
          simp [along, hnil, Path.componentOf, hhere, hup, Path.step]
        rw [halong] at hget
        exact (h.storedName hget _ (by simp)).short

/-- A path leads to a directory exactly when every place on the way is one. -/
theorem resolve_eq_directory_iff {links : Nat} : ∀ {opening : Bool} {place target : Location}
    {fs : List (List Char)},
    d.resolve true links place fs = .ok target ∧ d.get? target = some .directory ↔
      target = Path.fold place (Path.fieldComponents opening fs) ∧
        ∀ cs, cs <+: Path.fieldComponents opening fs →
          d.get? (Path.fold place cs) = some .directory
  | opening, place, target, [] => by
    have hnil : Path.fieldComponents opening [] = [] := rfl
    rw [resolve_nil, hnil]
    constructor
    · rintro ⟨heq, hget⟩
      obtain rfl := Except.ok.inj heq
      refine ⟨rfl, fun cs hcs => ?_⟩
      rw [List.prefix_nil.mp hcs]
      exact hget
    · rintro ⟨rfl, hall⟩
      exact ⟨rfl, hall [] List.prefix_rfl⟩
  | opening, place, target, f :: fs => by
    have ih := @resolve_eq_directory_iff links false (along place f) target fs
    rw [resolve_cons_eq_ok_iff h, and_assoc, and_assoc, ih, fold_fieldComponents_cons]
    rcases fieldComponents_cons_cases opening place f fs with ⟨hcons, hfold⟩ | ⟨hskip, hstay⟩
    · rw [hcons]
      constructor
      · rintro ⟨hplace, -, htarget, hall⟩
        refine ⟨htarget, fun cs hcs => ?_⟩
        rcases List.prefix_cons_iff.mp hcs with rfl | ⟨cs, rfl, hcs⟩
        · exact hplace
        · rw [hfold]
          exact hall cs (List.cons_prefix_cons.mp hcs).2
      · rintro ⟨htarget, hall⟩
        have hrest : ∀ cs, cs <+: Path.fieldComponents false fs →
            d.get? (Path.fold (along place f) cs) = some .directory := by
          intro cs hcs
          rw [← hfold]
          exact hall _ (List.cons_prefix_cons.mpr ⟨rfl, hcs⟩)
        have hnext : d.get? (along place f) = some .directory := hrest [] List.nil_prefix
        exact ⟨hall [] List.nil_prefix, short_of_get?_along h hnext, htarget, hrest⟩
    · rw [hstay, hskip]
      constructor
      · rintro ⟨-, -, htarget, hall⟩
        exact ⟨htarget, hall⟩
      · rintro ⟨htarget, hall⟩
        have hplace : d.get? place = some .directory := hall [] List.nil_prefix
        exact ⟨hplace, short_of_get?_along h (hstay.symm ▸ hplace), htarget, hall⟩

end Tree

/-- A text that can be looked for on a disk. -/
structure Readable (text : String) : Prop where
  no_zero : Char.ofNat 0 ∉ text.toList
  ne_empty : text ≠ ""
  short : text.utf8ByteSize ≤ pathLimit

instance (text : String) : Decidable (Readable text) :=
  decidable_of_iff
    (Char.ofNat 0 ∉ text.toList ∧ text ≠ "" ∧ text.utf8ByteSize ≤ pathLimit)
    ⟨fun ⟨hzero, hempty, hshort⟩ => ⟨hzero, hempty, hshort⟩,
      fun h => ⟨h.no_zero, h.ne_empty, h.short⟩⟩

theorem locate_eq_ok_iff {d : Disk} {p : Path} {place : Location} :
    d.locate true p = .ok place ↔
      Readable p.text ∧ d.resolve true linkLimit (p.base d.cwd) p.body.2 = .ok place := by
  unfold locate
  by_cases hzero : Char.ofNat 0 ∈ p.text.toList
  · have hnot : ¬ Readable p.text := fun hr => hr.no_zero hzero
    simp [hzero, hnot]
  · rw [if_neg (by simpa using hzero)]
    by_cases hempty : p.text = ""
    · have hnot : ¬ Readable p.text := fun hr => hr.ne_empty hempty
      simp only [hnot, false_and, iff_false]
      simp [hempty]
    · rw [if_neg (by simpa using hempty)]
      by_cases hlong : pathLimit < p.text.utf8ByteSize
      · have hnot : ¬ Readable p.text := fun hr => Nat.not_le.mpr hlong hr.short
        simp [hlong, hnot]
      · rw [if_neg hlong]
        have hreadable : Readable p.text := ⟨hzero, hempty, Nat.not_lt.mp hlong⟩
        simp only [hreadable, true_and]
        rfl

theorem lookup_eq_ok_iff {d : Disk} {p : Path} {place : Location} {entry : Entry} :
    d.lookup true p = .ok (place, entry) ↔
      d.locate true p = .ok place ∧ d.get? place = some entry := by
  unfold lookup
  constructor
  · intro hlookup
    split at hlookup
    · cases hlookup
    · rename_i target hlocate
      split at hlookup
      · rename_i found hget
        obtain ⟨rfl, rfl⟩ := Prod.mk.inj (Except.ok.inj hlookup)
        exact ⟨hlocate, hget⟩
      · cases hlookup
  · rintro ⟨hlocate, hget⟩
    simp only [hlocate, hget]

theorem has_eq_true_iff {d : Disk} {p : Path} :
    d.has p = true ↔ ∃ place, d.locate true p = .ok place ∧ (d.get? place).isSome := by
  unfold has
  constructor
  · intro hok
    cases hlookup : d.lookup true p with
    | error problem => simp [hlookup, Except.isOk, Except.toBool] at hok
    | ok found =>
      obtain ⟨place, entry⟩ := found
      obtain ⟨hlocate, hget⟩ := lookup_eq_ok_iff.mp hlookup
      exact ⟨place, hlocate, by simp [hget]⟩
  · rintro ⟨place, hlocate, hsome⟩
    obtain ⟨entry, hget⟩ := Option.isSome_iff_exists.mp hsome
    rw [lookup_eq_ok_iff.mpr ⟨hlocate, hget⟩]
    rfl

theorem isDirectory_eq_true_iff {d : Disk} {p : Path} :
    d.isDirectory p = true ↔ ∃ place, d.lookup true p = .ok (place, .directory) := by
  unfold isDirectory
  split
  · rename_i place heq
    simp [heq]
  · rename_i hnot
    simp only [Bool.false_eq_true, false_iff, not_exists]
    exact hnot

theorem has_of_isDirectory {d : Disk} {p : Path} (h : d.isDirectory p = true) : d.has p = true := by
  obtain ⟨place, hlookup⟩ := isDirectory_eq_true_iff.mp h
  rw [has, hlookup]
  rfl

theorem isFile_eq_true_iff {d : Disk} {p : Path} :
    d.isFile p = true ↔ ∃ place contents, d.lookup true p = .ok (place, .file contents) := by
  unfold isFile
  split
  · rename_i place contents heq
    simp [heq]
  · rename_i hnot
    simp only [Bool.false_eq_true, false_iff, not_exists]
    exact hnot

/-- Whether a path goes through directories only. -/
def Passes (d : Disk) (p : Path) : Prop :=
  ∀ cs, cs <+: p.steps → d.get? (Path.fold (p.base d.cwd) cs) = some .directory

instance (d : Disk) (p : Path) : Decidable (d.Passes p) :=
  decidable_of_iff
    (∀ cs ∈ p.steps.inits, d.get? (Path.fold (p.base d.cwd) cs) = some .directory)
    ⟨fun h cs hcs => h cs ((List.mem_inits cs p.steps).mpr hcs),
      fun h cs hcs => h cs ((List.mem_inits cs p.steps).mp hcs)⟩

/-- Each path that a path goes through does so too. -/
theorem Passes.of_opens {d : Disk} {p q : Path} (habs : q.isAbsolute = p.isAbsolute)
    (hsteps : q.steps <+: p.steps) (h : d.Passes p) : d.Passes q := by
  intro cs hcs
  rw [Path.base, habs]
  exact h cs (hcs.trans hsteps)

section Tree

variable {d : Disk} (h : d.IsTree)
include h

/-- The place of a path's absolute form, by its steps. -/
theorem locationFrom_cwd (p : Path) :
    p.locationFrom (.ofLocation d.cwd) = Path.fold (p.base d.cwd) p.steps := by
  have hcwd : ∀ n ∈ d.cwd, ProperName n := fun n hn => (h.storedName h.cwd n hn).toProperName
  have hfold : Path.fold [] (Path.ofLocation d.cwd).components = d.cwd := by
    rw [Path.components_ofLocation hcwd]
    have hnames := Path.fold_names [] d.cwd
    simpa [Path.fold, Path.step] using hnames
  rw [Path.locationFrom, hfold, Path.fold_components]

/-- Where a path leads, whether something stands there or not, is at the place of its absolute form. -/
theorem locationFrom_of_locate {p : Path} {place : Location} (hlocate : d.locate true p = .ok place) :
    p.locationFrom (.ofLocation d.cwd) = place := by
  obtain ⟨-, hresolve⟩ := locate_eq_ok_iff.mp hlocate
  rw [locationFrom_cwd h, Path.steps_eq]
  exact fold_of_resolve h hresolve

theorem locationFrom_of_lookup {p : Path} {place : Location} {entry : Entry}
    (hlookup : d.lookup true p = .ok (place, entry)) :
    p.locationFrom (.ofLocation d.cwd) = place :=
  locationFrom_of_locate h (lookup_eq_ok_iff.mp hlookup).1

theorem lookup_eq_directory_iff {p : Path} {place : Location} :
    d.lookup true p = .ok (place, .directory) ↔
      Readable p.text ∧ place = Path.fold (p.base d.cwd) p.steps ∧ d.Passes p := by
  rw [lookup_eq_ok_iff, locate_eq_ok_iff, and_assoc, resolve_eq_directory_iff h, Path.steps_eq]
  rfl

/-- A path that stands for a directory goes through directories only. -/
theorem isDirectory_iff {p : Path} :
    d.isDirectory p = true ↔ Readable p.text ∧ d.Passes p := by
  rw [isDirectory_eq_true_iff]
  constructor
  · rintro ⟨place, hlookup⟩
    obtain ⟨hreadable, -, hpasses⟩ := (lookup_eq_directory_iff h).mp hlookup
    exact ⟨hreadable, hpasses⟩
  · rintro ⟨hreadable, hpasses⟩
    exact ⟨_, (lookup_eq_directory_iff h).mpr ⟨hreadable, rfl, hpasses⟩⟩

/-- A name below a directory leads to that name in the directory. -/
theorem locate_join {p : Path} {name : String} (hp : d.Passes p) (hname : ProperName name)
    (hshort : name.utf8ByteSize ≤ nameLimit) (hreadable : Readable (p.join ⟨name⟩).text) :
    d.locate true (p.join ⟨name⟩) = .ok (Path.fold (p.base d.cwd) p.steps ++ [name]) := by
  obtain ⟨kept, hbody, hkept⟩ := Path.body_join p hname
  have hbase : (p.join ⟨name⟩).base d.cwd = p.base d.cwd := by
    rw [Path.base, Path.base, Path.isAbsolute_join p hname]
  have hdirectory : d.resolve true linkLimit (p.base d.cwd) kept =
      .ok (Path.fold (p.base d.cwd) p.steps) ∧
        d.get? (Path.fold (p.base d.cwd) p.steps) = some .directory :=
    (resolve_eq_directory_iff h).mpr ⟨by rw [hkept], fun cs hcs => hp cs (hkept ▸ hcs)⟩
  have halong : along (Path.fold (p.base d.cwd) p.steps) name.toList =
      Path.fold (p.base d.cwd) p.steps ++ [name] := by
    have hne : name.toList ≠ [] := fun he => hname.ne_empty (String.ext he)
    rw [along, if_neg hne, Path.componentOf_toList hname]
    rfl
  rw [locate_eq_ok_iff, hbase, hbody]
  refine ⟨hreadable, (resolve_append_eq_ok_iff h).mpr ⟨_, hdirectory.1, ?_⟩⟩
  rw [resolve_cons_eq_ok_iff h, halong]
  exact ⟨hdirectory.2, by simpa using hshort, resolve_nil ..⟩

/-- A name below a directory stands for what the directory holds under that name. -/
theorem has_join {p : Path} {name : String} (hp : d.Passes p) (hname : ProperName name)
    (hshort : name.utf8ByteSize ≤ nameLimit) (hreadable : Readable (p.join ⟨name⟩).text) :
    d.has (p.join ⟨name⟩) = true ↔
      (d.get? (Path.fold (p.base d.cwd) p.steps ++ [name])).isSome := by
  rw [has_eq_true_iff, locate_join h hp hname hshort hreadable]
  simp

end Tree

end Disk
end FetchClients
