/-
# Fields that lead into directories

A search spells its paths by names that it finds one behind the other, and leaves out
the `.` it starts at. So it is not the fields of a path that tell where the path leads
but those that move (`Path.moving`): empty fields and `.` are of no account on a way
into a directory (`Disk.resolve_moving`). A way into a directory goes through
directories only, one for each of the fields that open it (`Disk.Enters.opens`).

Key definitions: `Path.moving`, `Disk.Enters`, `Disk.LeadsInto`.
Key theorems: `Disk.resolve_moving`, `Disk.Way.split`, `Disk.lookup_eq_directory_iff_leadsInto`,
`Disk.Enters.opens`, `Disk.Enters.isSome_get?`.
-/
import FetchClients.Proofs.Ways

namespace FetchClients

/-! ### Fields that move -/

namespace Path

/-- The fields that do not stay where they are. -/
def moving (fs : List (List Char)) : List (List Char) :=
  fs.filter fun f => f ≠ [] ∧ f ≠ ['.']

@[simp] theorem moving_nil : moving [] = [] := rfl

@[simp] theorem moving_append (fs gs : List (List Char)) :
    moving (fs ++ gs) = moving fs ++ moving gs :=
  List.filter_append ..

@[simp] theorem moving_moving (fs : List (List Char)) : moving (moving fs) = moving fs := by
  simp [moving]

theorem moving_cons_stay {f : List Char} (hf : f = [] ∨ f = ['.']) (fs : List (List Char)) :
    moving (f :: fs) = moving fs := by
  unfold moving
  rw [List.filter_cons_of_neg]
  simpa [imp_iff_not_or] using hf

theorem moving_cons {f : List Char} (hf : ¬ (f = [] ∨ f = ['.'])) (fs : List (List Char)) :
    moving (f :: fs) = f :: moving fs := by
  unfold moving
  rw [List.filter_cons_of_pos]
  simpa using hf

/-- What moves on a path are its components, but for those that stay. -/
theorem filter_fieldComponents (opening : Bool) : ∀ fs : List (List Char),
    (fieldComponents opening fs).filter (· ≠ .here) = (moving fs).map componentOf
  | [] => rfl
  | f :: fs => by
    have ih := filter_fieldComponents false fs
    by_cases hstay : f = [] ∨ f = ['.']
    · rw [moving_cons_stay hstay, ← ih]
      rcases hstay with rfl | rfl
      · rfl
      · cases opening <;> rfl
    · obtain ⟨hnil, hhere⟩ := not_or.mp hstay
      have hcomponent : componentOf f ≠ .here := by
        unfold componentOf
        rw [if_neg hhere]
        split <;> simp
      rw [moving_cons hstay, fieldComponents, if_pos, List.filter_cons_of_pos, ih, List.map_cons]
      · simpa using hcomponent
      · unfold fieldNames
        split <;> simp_all

end Path

namespace Disk

open FetchClients.Path (moving moving_cons moving_cons_stay)

/-! ### Ways in parts -/

/-- A way leads along its first fields to a place, and from there along the others. -/
theorem Way.split {d : Disk} {links : Nat} {place target : Location} {whole : List (List Char)}
    (h : d.Way true links place whole target) : ∀ {fs gs : List (List Char)}, whole = fs ++ gs →
      ∃ fewer mid, d.Way true links place fs mid ∧ d.Way true fewer mid gs target := by
  induction h with
  | @done links place =>
    intro fs gs heq
    obtain ⟨rfl, rfl⟩ := List.append_eq_nil_iff.mp heq.symm
    exact ⟨links, place, .done, .done⟩
  | @stay links place f rest target hplace hf hrest ih =>
    intro fs gs heq
    cases fs with
    | nil =>
      obtain rfl : _ = gs := heq
      exact ⟨links, place, .done, .stay hplace hf hrest⟩
    | cons g fs =>
      obtain ⟨rfl, hrest⟩ := List.cons.inj heq
      obtain ⟨fewer, mid, hfs, hgs⟩ := ih hrest
      exact ⟨fewer, mid, .stay hplace hf hfs, hgs⟩
  | @up links place rest target hplace hrest ih =>
    intro fs gs heq
    cases fs with
    | nil =>
      obtain rfl : _ = gs := heq
      exact ⟨links, place, .done, .up hplace hrest⟩
    | cons g fs =>
      obtain ⟨rfl, hrest⟩ := List.cons.inj heq
      obtain ⟨fewer, mid, hfs, hgs⟩ := ih hrest
      exact ⟨fewer, mid, .up hplace hfs, hgs⟩
  | @down links place f rest target hplace hf hshort hnext hrest ih =>
    intro fs gs heq
    cases fs with
    | nil =>
      obtain rfl : _ = gs := heq
      exact ⟨links, place, .done, .down hplace hf hshort hnext hrest⟩
    | cons g fs =>
      obtain ⟨rfl, hrest⟩ := List.cons.inj heq
      obtain ⟨fewer, mid, hfs, hgs⟩ := ih hrest
      exact ⟨fewer, mid, .down hplace hf hshort hnext hfs, hgs⟩
  | atLink _ _ _ _ hfollow => cases hfollow
  | @jump links place f rest link target hplace hf hshort hnext hfollow hrest ih =>
    intro fs gs heq
    cases fs with
    | nil =>
      obtain rfl : _ = gs := heq
      exact ⟨links + 1, place, .done, .jump hplace hf hshort hnext hfollow hrest⟩
    | cons g fs =>
      obtain ⟨rfl, rfl⟩ := List.cons.inj heq
      obtain ⟨fewer, mid, hfs, hgs⟩ := ih (List.append_assoc ..).symm
      exact ⟨fewer, mid, .jump hplace hf hshort hnext (by simp) hfs, hgs⟩

/-- Where a way leads to something, it also leads to something if a link at its end is not
followed. -/
theorem Way.unfollowed {d : Disk} {links : Nat} {place target : Location} {fs : List (List Char)}
    (h : d.Way true links place fs target) (htarget : (d.get? target).isSome = true) :
    ∃ found, d.Way false links place fs found ∧ (d.get? found).isSome = true := by
  induction h with
  | done => exact ⟨_, .done, htarget⟩
  | stay hplace hf _ ih => exact (ih htarget).imp fun _ hway => ⟨.stay hplace hf hway.1, hway.2⟩
  | up hplace _ ih => exact (ih htarget).imp fun _ hway => ⟨.up hplace hway.1, hway.2⟩
  | down hplace hf hshort hnext _ ih =>
    exact (ih htarget).imp fun _ hway => ⟨.down hplace hf hshort hnext hway.1, hway.2⟩
  | atLink _ _ _ _ hfollow => cases hfollow
  | @jump _ _ f rest _ _ hplace hf hshort hnext _ _ ih =>
    cases rest with
    | nil => exact ⟨_, .atLink hplace hf hshort hnext rfl, Option.isSome_of_eq_some hnext⟩
    | cons g rest =>
      exact (ih htarget).imp fun _ hway => ⟨.jump hplace hf hshort hnext rfl hway.1, hway.2⟩

/-! ### Fields that stay -/

section Moving

variable {d : Disk}

theorem resolveWith_moving {jump : Location → List (List Char) → Except Problem Location}
    (hjump : ∀ place more fs,
      jump place (more ++ (fs ++ [[]])) = jump place (more ++ (moving fs ++ [[]]))) :
    ∀ (place : Location) (fs : List (List Char)),
      d.resolveWith true jump place (fs ++ [[]]) = d.resolveWith true jump place (moving fs ++ [[]])
  | _, [] => rfl
  | place, f :: fs => by
    have ih := fun place => resolveWith_moving hjump place fs
    have hlink := fun place more => hjump place more fs
    by_cases hplace : d.get? place = some .directory
    · rw [List.cons_append, resolveWith_cons _ hplace]
      by_cases hstay : f = [] ∨ f = ['.']
      · rw [if_pos hstay, moving_cons_stay hstay, ih]
      · rw [moving_cons hstay, List.cons_append, resolveWith_cons _ hplace, if_neg hstay,
          if_neg hstay]
        simp only [ih, hlink, Bool.not_true, Bool.and_false, Bool.false_eq_true, if_false]
    · obtain ⟨g, gs, hg⟩ := List.exists_cons_of_ne_nil (show moving (f :: fs) ++ [[]] ≠ [] by simp)
      rw [hg, List.cons_append, resolveWith_cons_of_ne _ hplace, resolveWith_cons_of_ne _ hplace]

/-- Fields that stay are of no account on a way into a directory. -/
theorem resolve_moving : ∀ (links : Nat) (place : Location) (fs : List (List Char)),
    d.resolve true links place (fs ++ [[]]) = d.resolve true links place (moving fs ++ [[]])
  | 0, place, fs => resolveWith_moving (fun _ _ _ => rfl) place fs
  | links + 1, place, fs => by
    refine resolveWith_moving (fun place more fs => ?_) place fs
    rw [← List.append_assoc, ← List.append_assoc, resolve_moving links place (more ++ fs),
      resolve_moving links place (more ++ moving fs)]
    simp

end Moving

/-! ### Entering a directory -/

/-- Whether fields lead from a place into a directory. -/
def Enters (d : Disk) (start : Location) (fs : List (List Char)) (target : Location) : Prop :=
  d.resolve true linkLimit start (fs ++ [[]]) = .ok target

section Enters

variable {d : Disk} {start target : Location} {fs gs : List (List Char)}

theorem enters_iff : d.Enters start fs target ↔
    d.Way true linkLimit start fs target ∧ d.get? target = some .directory := by
  unfold Enters
  constructor
  · intro h
    have hway := resolve_eq_ok_iff.mp h
    exact ⟨hway.unslash rfl, hway.directory_of_slash rfl⟩
  · rintro ⟨hway, htarget⟩
    exact hway.resolve_append fun links => by rw [resolve_stay htarget (.inl rfl), resolve_nil]

theorem enters_congr (h : moving fs = moving gs) :
    d.Enters start fs target ↔ d.Enters start gs target := by
  unfold Enters
  rw [resolve_moving, h, ← resolve_moving]

/-- Whether a path leads into the directory at a place, however long its text is. -/
def LeadsInto (d : Disk) (p : Path) (place : Location) : Prop :=
  d.Enters (p.base d.cwd) p.body.2 place

theorem lookup_eq_directory_iff_leadsInto {p : Path} : d.lookup true p = .ok (target, .directory) ↔
    Readable p.text ∧ d.LeadsInto p target := by
  rw [lookup_eq_ok_iff, locate_eq_ok_iff, LeadsInto, enters_iff, resolve_eq_ok_iff, and_assoc]

/-- Paths that start at one place and take the same moves lead into the same directory. -/
theorem leadsInto_congr {p q : Path} (habs : p.isAbsolute = q.isAbsolute)
    (h : moving p.body.2 = moving q.body.2) : d.LeadsInto p target ↔ d.LeadsInto q target := by
  rw [LeadsInto, LeadsInto, Path.base, habs]
  exact enters_congr h

/-- The fields that open a way into a directory lead into a directory. -/
theorem Enters.opens (h : d.Enters start (fs ++ gs) target) : ∃ mid, d.Enters start fs mid := by
  obtain ⟨fewer, mid, hfs, hgs⟩ := (resolve_eq_ok_iff.mp h).split (List.append_assoc fs gs [[]])
  obtain ⟨g, rest, hrest⟩ := List.exists_cons_of_ne_nil (show gs ++ [[]] ≠ [] by simp)
  rw [hrest] at hgs
  exact ⟨mid, enters_iff.mpr ⟨hfs, hgs.directory⟩⟩

/-- A directory that is entered by a name stands in the directory before, or a link to it does. -/
theorem Enters.isSome_get? {f : List Char} {mid : Location} (h : d.Enters start (fs ++ [f]) target)
    (hf : NameField f) (hmid : d.Enters start fs mid) :
    (d.get? (mid ++ [String.ofList f])).isSome = true := by
  obtain ⟨fewer, other, hfs, hgs⟩ := (resolve_eq_ok_iff.mp h).split (List.append_assoc fs [f] [[]])
  obtain rfl : other = mid := by
    have hother := resolve_of_way hfs
    rw [resolve_of_way (enters_iff.mp hmid).1] at hother
    exact (Except.ok.inj hother).symm
  cases hgs with
  | stay _ hstay => exact absurd hstay (not_or.mpr ⟨hf.ne_nil, hf.ne_here⟩)
  | up => exact absurd rfl hf.ne_up
  | down _ _ _ _ hrest => exact Option.isSome_of_eq_some hrest.directory
  | jump _ _ _ hnext => exact Option.isSome_of_eq_some hnext

/-- A directory is there, be it behind a link or not. -/
theorem isOk_lookup_of_isDirectory {p : Path} (h : d.isDirectory p = true) :
    (d.lookup false p).isOk = true := by
  obtain ⟨place, hlookup⟩ := isDirectory_eq_true_iff.mp h
  obtain ⟨hreadable, henters⟩ := lookup_eq_directory_iff_leadsInto.mp hlookup
  obtain ⟨hway, hplace⟩ := enters_iff.mp henters
  obtain ⟨found, hfound, hsome⟩ := hway.unfollowed (Option.isSome_of_eq_some hplace)
  obtain ⟨entry, hentry⟩ := Option.isSome_iff_exists.mp hsome
  rw [lookup, locate_eq_ok_iff_way.mpr ⟨hreadable, hfound⟩]
  simp only [hentry]
  rfl

end Enters

end Disk
end FetchClients
