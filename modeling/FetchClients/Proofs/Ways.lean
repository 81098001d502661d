/-
# Ways on a disk

A path is resolved along a way: one step for each of its fields, which stays, goes
up, goes down to a name or follows a link. A path resolves to a place exactly when
a way leads there (`Disk.resolve_eq_ok_iff`), so what holds of all ways is shown
by one case for each kind of step. A way on a disk is also one on any disk that
keeps its directories and has the same links (`Disk.Way.keep`), whatever files
there are and whatever else was made.

Key definitions: `Disk.Way`, `Disk.Rooted`, `Disk.KeepsWays`.
Key theorems: `Disk.resolve_eq_ok_iff`, `Disk.Way.append`, `Disk.Way.lands`,
`Disk.Way.storedName`, `Disk.Way.keep`.
-/
import FetchClients.Proofs.Places

namespace FetchClients

/-- The parts of a text hold nothing that the text does not. -/
theorem Text.mem_of_mem_fields {c : Char} : ∀ {sep : Char} {text part : List Char},
    part ∈ fields sep text → c ∈ part → c ∈ text
  | _, [], part, hpart, hc => by simp_all [fields]
  | sep, d :: ds, part, hpart, hc => by
    unfold fields at hpart
    split at hpart
    · rcases List.mem_cons.mp hpart with rfl | hpart
      · cases hc
      · exact List.mem_cons_of_mem d (mem_of_mem_fields hpart hc)
    · split at hpart
      · rw [List.mem_singleton.mp hpart, List.mem_singleton] at hc
        simp [hc]
      · rename_i p ps hds
        rcases List.mem_cons.mp hpart with rfl | hpart
        · rcases List.mem_cons.mp hc with rfl | hc
          · simp
          · exact List.mem_cons_of_mem d (mem_of_mem_fields (hds ▸ List.mem_cons_self) hc)
        · exact List.mem_cons_of_mem d
            (mem_of_mem_fields (hds ▸ List.mem_cons_of_mem p hpart) hc)

namespace Path

theorem body_ne_nil (p : Path) : p.body.2 ≠ [] := by
  unfold body
  split <;> exact Text.fields_ne_nil

theorem mem_text_of_mem_body {p : Path} {f : List Char} {c : Char} (hf : f ∈ p.body.2)
    (hc : c ∈ f) : c ∈ p.text.toList := by
  unfold body at hf
  split at hf
  · rename_i rest heq
    rw [heq]
    exact List.mem_cons_of_mem '/' (Text.mem_of_mem_fields hf hc)
  · exact Text.mem_of_mem_fields hf hc

end Path

namespace Disk

/-- A field that names something in a directory. -/
structure NameField (f : List Char) : Prop where
  ne_nil : f ≠ []
  ne_here : f ≠ ['.']
  ne_up : f ≠ ['.', '.']

theorem NameField.properName {f : List Char} (h : NameField f) (hslash : '/' ∉ f) :
    ProperName (String.ofList f) where
  not_slash := by simpa using hslash
  ne_empty he := h.ne_nil (by simpa using congrArg String.toList he)
  ne_here he := h.ne_here (by simpa using congrArg String.toList he)
  ne_up he := h.ne_up (by simpa using congrArg String.toList he)

theorem NameField.of_properName {name : String} (h : ProperName name) : NameField name.toList where
  ne_nil he := h.ne_empty (String.ext he)
  ne_here he := h.ne_here (String.ext (by simpa using he))
  ne_up he := h.ne_up (String.ext (by simpa using he))

/-- A name that a path spells can be stored, if it is short enough. -/
theorem NameField.storedName {f : List Char} (h : NameField f)
    (hshort : (String.ofList f).utf8ByteSize ≤ nameLimit) (hslash : '/' ∉ f)
    (hzero : Char.ofNat 0 ∉ f) : StoredName (String.ofList f) :=
  ⟨h.properName hslash, hshort, by simpa using hzero⟩

/-- The ways on a disk: from a place along fields to a place, over no more than so many links. -/
inductive Way (d : Disk) (follow : Bool) : Nat → Location → List (List Char) → Location → Prop
  | done {links place} : Way d follow links place [] place
  | stay {links place f fs target} (hplace : d.get? place = some .directory)
      (hf : f = [] ∨ f = ['.']) (hrest : Way d follow links place fs target) :
      Way d follow links place (f :: fs) target
  | up {links place fs target} (hplace : d.get? place = some .directory)
      (hrest : Way d follow links place.dropLast fs target) :
      Way d follow links place (['.', '.'] :: fs) target
  | down {links place f fs target} (hplace : d.get? place = some .directory) (hf : NameField f)
      (hshort : (String.ofList f).utf8ByteSize ≤ nameLimit)
      (hnext : ∀ link, d.get? (place ++ [String.ofList f]) ≠ some (.link link))
      (hrest : Way d follow links (place ++ [String.ofList f]) fs target) :
      Way d follow links place (f :: fs) target
  | atLink {links place f link} (hplace : d.get? place = some .directory) (hf : NameField f)
      (hshort : (String.ofList f).utf8ByteSize ≤ nameLimit)
      (hnext : d.get? (place ++ [String.ofList f]) = some (.link link)) (hfollow : follow = false) :
      Way d follow links place [f] (place ++ [String.ofList f])
  | jump {links place f fs link target} (hplace : d.get? place = some .directory)
      (hf : NameField f) (hshort : (String.ofList f).utf8ByteSize ≤ nameLimit)
      (hnext : d.get? (place ++ [String.ofList f]) = some (.link link))
      (hfollow : (fs.isEmpty && !follow) = false)
      (hrest : Way d follow links ((Path.mk link).base place) ((Path.mk link).body.2 ++ fs) target) :
      Way d follow (links + 1) place (f :: fs) target

section Steps

variable {d : Disk} {follow : Bool} {place target : Location} {f : List Char} {fs : List (List Char)}

/-- What one field does in a directory. -/
theorem resolveWith_cons (jump : Location → List (List Char) → Except Problem Location)
    (hplace : d.get? place = some .directory) :
    d.resolveWith follow jump place (f :: fs) =
      if f = [] ∨ f = ['.'] then d.resolveWith follow jump place fs
      else if f = ['.', '.'] then d.resolveWith follow jump place.dropLast fs
      else if nameLimit < (String.ofList f).utf8ByteSize then .error .nameTooLong
      else match d.get? (place ++ [String.ofList f]) with
        | some (.link link) =>
          if fs.isEmpty && !follow then .ok (place ++ [String.ofList f])
          else jump ((Path.mk link).base place) ((Path.mk link).body.2 ++ fs)
        | _ => d.resolveWith follow jump (place ++ [String.ofList f]) fs := by
  rw [resolveWith, hplace]
  rfl

/-- Only a directory is walked through. -/
theorem resolveWith_cons_of_ne (jump : Location → List (List Char) → Except Problem Location)
    (h : d.get? place ≠ some .directory) :
    d.resolveWith follow jump place (f :: fs) =
      .error (if d.get? place = none then .missing else .notDirectory) := by
  rw [resolveWith]
  split <;> simp_all

section Names

variable {links : Nat} (hplace : d.get? place = some .directory)
include hplace

theorem resolve_stay (hf : f = [] ∨ f = ['.']) :
    d.resolve follow links place (f :: fs) = d.resolve follow links place fs := by
  rw [resolve_eq, resolveWith_cons _ hplace, if_pos hf]

theorem resolve_up :
    d.resolve follow links place (['.', '.'] :: fs) = d.resolve follow links place.dropLast fs := by
  rw [resolve_eq, resolveWith_cons _ hplace, if_neg (by simp), if_pos rfl]

theorem resolve_down (hf : NameField f) (hshort : (String.ofList f).utf8ByteSize ≤ nameLimit)
    (hnext : ∀ link, d.get? (place ++ [String.ofList f]) ≠ some (.link link)) :
    d.resolve follow links place (f :: fs) =
      d.resolve follow links (place ++ [String.ofList f]) fs := by
  rw [resolve_eq, resolveWith_cons _ hplace, if_neg (not_or.mpr ⟨hf.ne_nil, hf.ne_here⟩),
    if_neg hf.ne_up, if_neg (Nat.not_lt.mpr hshort)]
  split
  · rename_i link hlink
    exact absurd hlink (hnext link)
  · rfl

theorem resolve_jump (hf : NameField f) (hshort : (String.ofList f).utf8ByteSize ≤ nameLimit)
    {link : String} (hnext : d.get? (place ++ [String.ofList f]) = some (.link link))
    (hfollow : (fs.isEmpty && !follow) = false) :
    d.resolve follow (links + 1) place (f :: fs) =
      d.resolve follow links ((Path.mk link).base place) ((Path.mk link).body.2 ++ fs) := by
  rw [resolve_eq, resolveWith_cons _ hplace, if_neg (not_or.mpr ⟨hf.ne_nil, hf.ne_here⟩),
    if_neg hf.ne_up, if_neg (Nat.not_lt.mpr hshort), hnext]
  simp only [hfollow, Bool.false_eq_true, if_false]
  rfl

end Names

theorem directory_of_resolveWith {jump : Location → List (List Char) → Except Problem Location}
    (h : d.resolveWith follow jump place (f :: fs) = .ok target) :
    d.get? place = some .directory := by
  rw [resolveWith] at h
  split at h
  · cases h
  · cases h
  · cases h
  · assumption

end Steps

/-- Only directories are walked through. -/
theorem Way.directory {d : Disk} {follow : Bool} {links : Nat} {place target : Location}
    {f : List Char} {fs : List (List Char)} (h : d.Way follow links place (f :: fs) target) :
    d.get? place = some .directory := by
  cases h <;> assumption

/-- Empty fields lead nowhere else. -/
theorem Way.stays {d : Disk} {follow : Bool} {links : Nat} {place : Location}
    (hplace : d.get? place = some .directory) : ∀ {empties : List (List Char)},
    (∀ f ∈ empties, f = []) → d.Way follow links place empties place
  | [], _ => .done
  | f :: empties, h =>
    .stay hplace (.inl (h f (by simp))) (stays hplace fun g hg => h g (List.mem_cons_of_mem f hg))

theorem way_of_resolveWith {d : Disk} {follow : Bool} {links : Nat}
    {jump : Location → List (List Char) → Except Problem Location}
    (hjump : ∀ place fs target, jump place fs = .ok target →
      ∃ fewer, links = fewer + 1 ∧ d.Way follow fewer place fs target) :
    ∀ {place : Location} {fs : List (List Char)} {target : Location},
      d.resolveWith follow jump place fs = .ok target → d.Way follow links place fs target
  | place, [], target, h => by
    rw [resolveWith] at h
    rw [← Except.ok.inj h]
    exact .done
  | place, f :: fs, target, h => by
    have hplace := directory_of_resolveWith h
    rw [resolveWith_cons jump hplace] at h
    by_cases hstay : f = [] ∨ f = ['.']
    · rw [if_pos hstay] at h
      exact .stay hplace hstay (way_of_resolveWith hjump h)
    · rw [if_neg hstay] at h
      obtain ⟨hnil, hhere⟩ := not_or.mp hstay
      by_cases hup : f = ['.', '.']
      · rw [if_pos hup] at h
        rw [hup]
        exact .up hplace (way_of_resolveWith hjump h)
      · have hf : NameField f := ⟨hnil, hhere, hup⟩
        rw [if_neg hup] at h
        by_cases hlong : nameLimit < (String.ofList f).utf8ByteSize
        · rw [if_pos hlong] at h
          cases h
        · rw [if_neg hlong] at h
          have hshort := Nat.not_lt.mp hlong
          split at h
          · rename_i link hnext
            by_cases hlast : (fs.isEmpty && !follow) = true
            · rw [if_pos hlast] at h
              rw [← Except.ok.inj h]
              simp only [Bool.and_eq_true, List.isEmpty_iff, Bool.not_eq_true'] at hlast
              rw [hlast.1]
              exact .atLink hplace hf hshort hnext hlast.2
            · rw [if_neg hlast] at h
              obtain ⟨fewer, rfl, hrest⟩ := hjump _ _ _ h
              exact .jump hplace hf hshort hnext (Bool.eq_false_iff.mpr hlast) hrest
          · rename_i hnext
            exact .down hplace hf hshort hnext (way_of_resolveWith hjump h)

theorem resolve_of_way {d : Disk} {follow : Bool} {links : Nat} {place target : Location}
    {fs : List (List Char)} (h : d.Way follow links place fs target) :
    d.resolve follow links place fs = .ok target := by
  induction h with
  | done => exact resolve_nil ..
  | stay hplace hf _ ih => rw [resolve_stay hplace hf, ih]
  | up hplace _ ih => rw [resolve_up hplace, ih]
  | down hplace hf hshort hnext _ ih => rw [resolve_down hplace hf hshort hnext, ih]
  | atLink hplace hf hshort hnext hfollow =>
    rw [resolve_eq, resolveWith_cons _ hplace, if_neg (not_or.mpr ⟨hf.ne_nil, hf.ne_here⟩),
      if_neg hf.ne_up, if_neg (Nat.not_lt.mpr hshort), hnext]
    simp [hfollow]
  | jump hplace hf hshort hnext hfollow _ ih => rw [resolve_jump hplace hf hshort hnext hfollow, ih]

/-- A path resolves to the place that a way along its fields leads to. -/
theorem resolve_eq_ok_iff {d : Disk} {follow : Bool} : ∀ {links : Nat} {place target : Location}
    {fs : List (List Char)},
    d.resolve follow links place fs = .ok target ↔ d.Way follow links place fs target
  | 0, place, target, fs => by
    refine ⟨fun h => way_of_resolveWith (fun _ _ _ hjump => ?_) h, resolve_of_way⟩
    cases hjump
  | links + 1, place, target, fs => by
    refine ⟨fun h => way_of_resolveWith (fun _ _ _ hjump => ?_) h, resolve_of_way⟩
    exact ⟨links, rfl, resolve_eq_ok_iff.mp hjump⟩

/-- A way that ends with a slash ends in a directory. -/
theorem Way.directory_of_slash {d : Disk} {follow : Bool} {links : Nat} {place target : Location}
    {slashed : List (List Char)} (h : d.Way follow links place slashed target) :
    ∀ {fs : List (List Char)}, slashed = fs ++ [[]] → d.get? target = some .directory := by
  induction h with
  | done => intro fs heq; simp at heq
  | @stay links place f fs target hplace hf hrest ih =>
    intro gs heq
    cases gs with
    | nil =>
      obtain ⟨-, rfl⟩ := List.cons.inj heq
      cases hrest
      exact hplace
    | cons g gs => exact ih (List.cons.inj heq).2
  | @up links place fs target hplace hrest ih =>
    intro gs heq
    cases gs with
    | nil => simp at heq
    | cons g gs => exact ih (List.cons.inj heq).2
  | @down links place f fs target hplace hf hshort hnext hrest ih =>
    intro gs heq
    cases gs with
    | nil => exact absurd (List.cons.inj heq).1 hf.ne_nil
    | cons g gs => exact ih (List.cons.inj heq).2
  | @atLink links place f link hplace hf hshort hnext hfollow =>
    intro gs heq
    cases gs with
    | nil => exact absurd (List.cons.inj heq).1 hf.ne_nil
    | cons g gs => simp at heq
  | @jump links place f fs link target hplace hf hshort hnext hfollow hrest ih =>
    intro gs heq
    cases gs with
    | nil => exact absurd (List.cons.inj heq).1 hf.ne_nil
    | cons g gs =>
      obtain ⟨-, rfl⟩ := List.cons.inj heq
      exact ih (List.append_assoc ..).symm

/-- Fields behind a way resolve as they do from its end, if they need no links. -/
theorem Way.resolve_append {d : Disk} {links : Nat} {place mid : Location} {fs gs : List (List Char)}
    {result : Except Problem Location} (h : d.Way true links place fs mid)
    (hmore : ∀ links, d.resolve true links mid gs = result) :
    d.resolve true links place (fs ++ gs) = result := by
  induction h with
  | done => exact hmore _
  | stay hplace hf _ ih => rw [List.cons_append, resolve_stay hplace hf, ih hmore]
  | up hplace _ ih => rw [List.cons_append, resolve_up hplace, ih hmore]
  | down hplace hf hshort hnext _ ih =>
    rw [List.cons_append, resolve_down hplace hf hshort hnext, ih hmore]
  | atLink _ _ _ _ hfollow => cases hfollow
  | jump hplace hf hshort hnext _ _ ih =>
    rw [List.cons_append, resolve_jump hplace hf hshort hnext (by simp), ← List.append_assoc, ih hmore]

/-- A way goes on as any way from its end that needs no links. -/
theorem Way.trans {d : Disk} {links : Nat} {place mid target : Location} {fs gs : List (List Char)}
    (h : d.Way true links place fs mid) (hmore : ∀ links, d.Way true links mid gs target) :
    d.Way true links place (fs ++ gs) target :=
  resolve_eq_ok_iff.mp (h.resolve_append fun links => resolve_of_way (hmore links))

/-- A way needs no slash at its end. -/
theorem Way.unslash {d : Disk} {links : Nat} {place target : Location} {slashed : List (List Char)}
    (h : d.Way true links place slashed target) :
    ∀ {fs : List (List Char)}, slashed = fs ++ [[]] → d.Way true links place fs target := by
  induction h with
  | done => intro fs heq; simp at heq
  | @stay links place f fs target hplace hf hrest ih =>
    intro gs heq
    cases gs with
    | nil =>
      obtain ⟨-, rfl⟩ := List.cons.inj heq
      exact hrest
    | cons g gs =>
      obtain ⟨rfl, hgs⟩ := List.cons.inj heq
      exact .stay hplace hf (ih hgs)
  | @up links place fs target hplace hrest ih =>
    intro gs heq
    cases gs with
    | nil => simp at heq
    | cons g gs =>
      obtain ⟨rfl, hgs⟩ := List.cons.inj heq
      exact .up hplace (ih hgs)
  | @down links place f fs target hplace hf hshort hnext hrest ih =>
    intro gs heq
    cases gs with
    | nil => exact absurd (List.cons.inj heq).1 hf.ne_nil
    | cons g gs =>
      obtain ⟨rfl, hgs⟩ := List.cons.inj heq
      exact .down hplace hf hshort hnext (ih hgs)
  | atLink _ _ _ _ hfollow => cases hfollow
  | @jump links place f fs link target hplace hf hshort hnext hfollow hrest ih =>
    intro gs heq
    cases gs with
    | nil => exact absurd (List.cons.inj heq).1 hf.ne_nil
    | cons g gs =>
      obtain ⟨rfl, rfl⟩ := List.cons.inj heq
      exact .jump hplace hf hshort hnext (by simp) (ih (List.append_assoc ..).symm)

/-- A way into a directory goes on as any way from there that needs no links. -/
theorem Way.append {d : Disk} {links : Nat} {place mid target : Location} {fs gs : List (List Char)}
    (h : d.Way true links place (fs ++ [[]]) mid) (hmore : ∀ links, d.Way true links mid gs target) :
    d.Way true links place (fs ++ gs) target :=
  (h.unslash rfl).trans hmore

/-! ### Where ways end -/

/-- Whether everything on a disk stands in a directory. -/
def Rooted (d : Disk) : Prop :=
  ∀ place, (d.get? place).isSome → d.get? place.dropLast = some .directory

theorem IsTree.rooted {d : Disk} (h : d.IsTree) : d.Rooted := by
  intro place hplace
  obtain ⟨entry, hget⟩ := Option.isSome_iff_exists.mp hplace
  exact h.get?_dropLast hget

/-- Where something can stand in a directory, and no link does. -/
structure Landing (d : Disk) (place : Location) : Prop where
  directory : d.get? place.dropLast = some .directory
  not_link : ∀ link, d.get? place ≠ some (.link link)

theorem Rooted.landing {d : Disk} (hrooted : d.Rooted) {place : Location}
    (h : d.get? place = some .directory) : d.Landing place :=
  ⟨hrooted place (by rw [h]; rfl), fun link hlink => by rw [h] at hlink; cases hlink⟩

/-- A way along which all links are followed ends in a directory that is there, and not at a link. -/
theorem Way.lands {d : Disk} (hrooted : d.Rooted) {links : Nat} {place target : Location}
    {fs : List (List Char)} (h : d.Way true links place fs target)
    (hplace : fs = [] → d.Landing place) : d.Landing target := by
  induction h with
  | done => exact hplace rfl
  | stay hdirectory _ _ ih => exact ih fun _ => hrooted.landing hdirectory
  | up hdirectory _ ih =>
    exact ih fun _ => hrooted.landing (hrooted.landing hdirectory).directory
  | down hdirectory _ _ hnext _ ih =>
    exact ih fun _ => ⟨by rw [List.dropLast_concat]; exact hdirectory, hnext⟩
  | atLink _ _ _ _ hfollow => cases hfollow
  | @jump _ _ _ fs link _ _ _ _ _ _ _ ih =>
    refine ih fun hnil => ?_
    exact absurd (List.append_eq_nil_iff.mp hnil).1 (Path.body_ne_nil (Path.mk link))

/-- On a tree a way ends at a place that can be stored, if it starts at one. -/
theorem Way.storedName {d : Disk} (htree : d.IsTree) {links : Nat} {place target : Location}
    {fs : List (List Char)} (h : d.Way true links place fs target)
    (hplace : ∀ n ∈ place, StoredName n) (hslash : ∀ f ∈ fs, '/' ∉ f)
    (hzero : ∀ f ∈ fs, Char.ofNat 0 ∉ f) : ∀ n ∈ target, StoredName n := by
  induction h with
  | done => exact hplace
  | stay _ _ _ ih =>
    exact ih hplace (fun g hg => hslash g (List.mem_cons_of_mem _ hg))
      fun g hg => hzero g (List.mem_cons_of_mem _ hg)
  | up _ _ ih =>
    exact ih (fun n hn => hplace n (List.dropLast_subset _ hn))
      (fun g hg => hslash g (List.mem_cons_of_mem _ hg))
      fun g hg => hzero g (List.mem_cons_of_mem _ hg)
  | @down _ place f fs _ _ hf hshort _ _ ih =>
    refine ih (fun n hn => ?_) (fun g hg => hslash g (List.mem_cons_of_mem _ hg))
      fun g hg => hzero g (List.mem_cons_of_mem _ hg)
    rcases List.mem_append.mp hn with hn | hn
    · exact hplace n hn
    · rw [List.mem_singleton.mp hn]
      exact hf.storedName hshort (hslash f List.mem_cons_self) (hzero f List.mem_cons_self)
  | atLink _ _ _ _ hfollow => cases hfollow
  | jump _ _ _ hnext => exact absurd hnext (htree.get?_ne_link _ _)

/-! ### Ways that are kept -/

/-- All directories of a disk stand on a later one, and the links are the same. -/
structure KeepsWays (d later : Disk) : Prop where
  cwd : later.cwd = d.cwd
  directory : ∀ place, d.get? place = some .directory → later.get? place = some .directory
  link_iff : ∀ place link, later.get? place = some (.link link) ↔ d.get? place = some (.link link)

namespace KeepsWays

theorem refl (d : Disk) : d.KeepsWays d :=
  ⟨rfl, fun _ h => h, fun _ _ => Iff.rfl⟩

theorem trans {d mid later : Disk} (h : d.KeepsWays mid) (h' : mid.KeepsWays later) :
    d.KeepsWays later where
  cwd := h'.cwd.trans h.cwd
  directory place hplace := h'.directory place (h.directory place hplace)
  link_iff place link := (h'.link_iff place link).trans (h.link_iff place link)

/-- No way is lost by an entry that replaces neither a directory nor a link. -/
theorem put {d : Disk} {place : Location} {entry : Entry} (hne : place ≠ [])
    (hdirectory : d.get? place ≠ some .directory)
    (hlink : ∀ link, d.get? place ≠ some (.link link)) (hentry : isLink entry = false) :
    d.KeepsWays (d.put place entry) where
  cwd := rfl
  directory other hother := by
    by_cases heq : other = place
    · exact absurd (heq ▸ hother) hdirectory
    · rwa [get?_put_of_ne heq]
  link_iff other link := by
    by_cases heq : other = place
    · subst heq
      rw [get?_put_self hne]
      constructor
      · intro he
        rw [Option.some.inj he] at hentry
        cases hentry
      · exact fun hget => absurd hget (hlink link)
    · rw [get?_put_of_ne heq]

end KeepsWays

/-- A way on a disk is a way on every disk that keeps its directories and links. -/
theorem Way.keep {d later : Disk} {follow : Bool} {links : Nat} {place target : Location}
    {fs : List (List Char)} (hkeeps : d.KeepsWays later) (h : d.Way follow links place fs target) :
    later.Way follow links place fs target := by
  induction h with
  | done => exact .done
  | stay hplace hf _ ih => exact .stay (hkeeps.directory _ hplace) hf ih
  | up hplace _ ih => exact .up (hkeeps.directory _ hplace) ih
  | down hplace hf hshort hnext _ ih =>
    refine .down (hkeeps.directory _ hplace) hf hshort (fun link hlink => ?_) ih
    exact hnext link ((hkeeps.link_iff _ link).mp hlink)
  | atLink hplace hf hshort hnext hfollow =>
    exact .atLink (hkeeps.directory _ hplace) hf hshort ((hkeeps.link_iff _ _).mpr hnext) hfollow
  | jump hplace hf hshort hnext hfollow _ ih =>
    exact .jump (hkeeps.directory _ hplace) hf hshort ((hkeeps.link_iff _ _).mpr hnext) hfollow ih

theorem locate_eq_ok_iff_way {d : Disk} {follow : Bool} {p : Path} {place : Location} :
    d.locate follow p = .ok place ↔
      Readable p.text ∧ d.Way follow linkLimit (p.base d.cwd) p.body.2 place := by
  rw [← resolve_eq_ok_iff]
  unfold locate
  by_cases hreadable : Readable p.text
  · have hzero : ¬ Char.ofNat 0 ∈ p.text.toList := hreadable.no_zero
    have hlong : ¬ pathLimit < p.text.utf8ByteSize := Nat.not_lt.mpr hreadable.short
    simp only [List.contains_iff_mem, hzero, if_false, String.isEmpty_iff, hreadable.ne_empty, hlong,
      hreadable, true_and]
    rfl
  · simp only [hreadable, false_and, iff_false]
    by_cases hzero : Char.ofNat 0 ∈ p.text.toList
    · simp [hzero]
    · by_cases hempty : p.text = ""
      · simp [hempty]
      · have hlong : pathLimit < p.text.utf8ByteSize :=
          Nat.lt_of_not_le fun hshort => hreadable ⟨hzero, hempty, hshort⟩
        simp [hzero, hempty, hlong]

theorem locate_keep {d later : Disk} {follow : Bool} {p : Path} {place : Location}
    (hkeeps : d.KeepsWays later) (h : d.locate follow p = .ok place) :
    later.locate follow p = .ok place := by
  obtain ⟨hreadable, hway⟩ := locate_eq_ok_iff_way.mp h
  exact locate_eq_ok_iff_way.mpr ⟨hreadable, hkeeps.cwd ▸ hway.keep hkeeps⟩

end Disk
end FetchClients
