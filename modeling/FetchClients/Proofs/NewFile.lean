/-
# A disk with one more file

What a disk shows that has one more file than another. No way is gained or lost by
the file: a path leads to the same place, or it is stopped at the file where it was
stopped by nothing before (`Disk.GainsFile.locate`). So what stands for something
keeps doing so, and only paths that lead to the place of the file stand for more. A
walk finds the same sources then, unless it takes the new file for one
(`Scan.files_of_gainsFile`).

Key definitions: `Disk.GainsFile`, `Disk.SameOrStopped`, `Disk.Spelled`.
Key theorems: `Disk.GainsFile.locate`, `Disk.GainsFile.locate_iff`,
`Disk.locate_joinNames`, `Scan.files_of_gainsFile`.
-/
import FetchClients.Proofs.ConfigSearch
import FetchClients.Proofs.Shapes
import FetchClients.Proofs.Ways

namespace FetchClients

namespace Path

theorem toList_join_opens (p : Path) {name : String} (h : ProperName name) :
    p.text.toList <+: (p.join ⟨name⟩).text.toList := by
  rw [toList_join p h]
  split <;> exact List.prefix_append ..

theorem text_join_name_ne_empty (p : Path) {name : String} (h : ProperName name) :
    (p.join ⟨name⟩).text ≠ "" := by
  intro hempty
  have hname : name.toList ≠ [] := fun he => h.ne_empty (String.ext he)
  have hjoin := toList_join p h
  rw [hempty] at hjoin
  split at hjoin <;> simp [hname] at hjoin

end Path

namespace Disk

/-- A disk on which nothing but a file differs: nothing stood at its place, or by now the same file
does. -/
structure GainsFile (d e : Disk) (place : Location) (contents : Option String) : Prop where
  cwd : e.cwd = d.cwd
  other : ∀ q, q ≠ place → e.get? q = d.get? q
  file : (d.get? place = none ∧ e.get? place = some (.file contents)) ∨
    ∃ text, d.get? place = some (.file text) ∧ e.get? place = some (.file text)

/-- What is found the second time is the same, or the search is stopped by a file where there was
nothing the first time. -/
inductive SameOrStopped {α : Type} : Except Problem α → Except Problem α → Prop
  | same {x} : SameOrStopped x x
  | stopped : SameOrStopped (.error .missing) (.error .notDirectory)

theorem SameOrStopped.eq_ok_iff {α : Type} {x y : Except Problem α} (h : SameOrStopped x y) {a : α} :
    y = .ok a ↔ x = .ok a := by
  cases h <;> simp

theorem SameOrStopped.eq_of_ne {α : Type} {x y : Except Problem α} (h : SameOrStopped x y)
    (hne : x ≠ .error .missing) : y = x := by
  cases h with
  | same => rfl
  | stopped => exact absurd rfl hne

namespace GainsFile

variable {d e : Disk} {place : Location} {contents : Option String}
variable (h : d.GainsFile e place contents)
include h

theorem get?_place : ∃ text, e.get? place = some (.file text) := by
  rcases h.file with ⟨-, hfile⟩ | ⟨text, -, hfile⟩
  · exact ⟨contents, hfile⟩
  · exact ⟨text, hfile⟩

/-- What stands on the first disk stands on the second. -/
theorem get?_of_isSome {q : Location} (hsome : (d.get? q).isSome) : e.get? q = d.get? q := by
  by_cases heq : q = place
  · subst heq
    rcases h.file with ⟨hnone, -⟩ | ⟨text, hold, hnew⟩
    · simp [hnone] at hsome
    · rw [hold, hnew]
  · exact h.other q heq

theorem directory_iff {q : Location} :
    e.get? q = some .directory ↔ d.get? q = some .directory := by
  by_cases heq : q = place
  · subst heq
    rcases h.file with ⟨hold, hnew⟩ | ⟨text, hold, hnew⟩ <;> simp [hold, hnew]
  · rw [h.other q heq]

theorem link_iff {q : Location} {target : String} :
    e.get? q = some (.link target) ↔ d.get? q = some (.link target) := by
  by_cases heq : q = place
  · subst heq
    rcases h.file with ⟨hold, hnew⟩ | ⟨text, hold, hnew⟩ <;> simp [hold, hnew]
  · rw [h.other q heq]

/-! ### Where paths lead -/

theorem resolveWith (follow : Bool)
    {jump jump' : Location → List (List Char) → Except Problem Location}
    (hjump : ∀ start fs, SameOrStopped (jump start fs) (jump' start fs)) :
    ∀ (start : Location) (fs : List (List Char)),
      SameOrStopped (d.resolveWith follow jump start fs) (e.resolveWith follow jump' start fs)
  | start, [] => .same
  | start, f :: fs => by
    have ih := fun start => resolveWith follow hjump start fs
    by_cases hstart : d.get? start = some .directory
    · rw [resolveWith_cons _ hstart, resolveWith_cons _ (h.directory_iff.mpr hstart)]
      by_cases hstay : f = [] ∨ f = ['.']
      · rw [if_pos hstay, if_pos hstay]
        exact ih _
      · rw [if_neg hstay, if_neg hstay]
        by_cases hup : f = ['.', '.']
        · rw [if_pos hup, if_pos hup]
          exact ih _
        · rw [if_neg hup, if_neg hup]
          by_cases hlong : nameLimit < (String.ofList f).utf8ByteSize
          · rw [if_pos hlong, if_pos hlong]
            exact .same
          · rw [if_neg hlong, if_neg hlong]
            by_cases hlink : ∃ target, d.get? (start ++ [String.ofList f]) = some (.link target)
            · obtain ⟨target, hlink⟩ := hlink
              rw [hlink, h.link_iff.mpr hlink]
              dsimp only
              split
              · exact .same
              · exact hjump _ _
            · have hnone := fun target heq => hlink ⟨target, heq⟩
              split
              · rename_i target heq
                exact absurd heq (hnone target)
              · split
                · rename_i target heq
                  exact absurd (h.link_iff.mp heq) (hnone target)
                · exact ih _
    · rw [resolveWith_cons_of_ne _ hstart, resolveWith_cons_of_ne _ (h.directory_iff.not.mpr hstart)]
      by_cases heq : start = place
      · subst heq
        rcases h.file with ⟨hold, hnew⟩ | ⟨text, hold, hnew⟩
        · rw [hold, hnew]
          exact .stopped
        · rw [hold, hnew]
          exact .same
      · rw [h.other start heq]
        exact .same

theorem resolve (follow : Bool) : ∀ (links : Nat) (start : Location) (fs : List (List Char)),
    SameOrStopped (d.resolve follow links start fs) (e.resolve follow links start fs)
  | 0 => h.resolveWith follow fun _ _ => .same
  | links + 1 => h.resolveWith follow (resolve follow links)

/-- A path leads to the same place, or is stopped. -/
theorem locate (follow : Bool) (p : Path) :
    SameOrStopped (d.locate follow p) (e.locate follow p) := by
  unfold Disk.locate
  rw [h.cwd]
  split
  · exact .same
  · split
    · exact .same
    · split
      · exact .same
      · exact h.resolve ..

theorem locate_iff {follow : Bool} {p : Path} {q : Location} :
    e.locate follow p = .ok q ↔ d.locate follow p = .ok q :=
  (h.locate follow p).eq_ok_iff

/-! ### What paths stand for -/

/-- What a path stood for it stands for. -/
theorem lookup_of_lookup {p : Path} {q : Location} {entry : Entry}
    (hlookup : d.lookup true p = .ok (q, entry)) : e.lookup true p = .ok (q, entry) := by
  obtain ⟨hlocate, hget⟩ := lookup_eq_ok_iff.mp hlookup
  refine lookup_eq_ok_iff.mpr ⟨h.locate_iff.mpr hlocate, ?_⟩
  rw [h.get?_of_isSome (by simp [hget]), hget]

/-- What a path stands for is no other than before, unless it is the new file. -/
theorem lookup_back {p : Path} {q : Location} {entry : Entry}
    (hlookup : e.lookup true p = .ok (q, entry)) (hne : q ≠ place) :
    d.lookup true p = .ok (q, entry) := by
  obtain ⟨hlocate, hget⟩ := lookup_eq_ok_iff.mp hlookup
  exact lookup_eq_ok_iff.mpr ⟨h.locate_iff.mp hlocate, by rw [← h.other q hne, hget]⟩

theorem isDirectory (p : Path) : e.isDirectory p = d.isDirectory p := by
  rw [Bool.eq_iff_iff, isDirectory_eq_true_iff, isDirectory_eq_true_iff]
  simp only [lookup_eq_ok_iff, h.locate_iff, h.directory_iff]

theorem isFile_of_isFile {p : Path} (hfile : d.isFile p = true) : e.isFile p = true := by
  obtain ⟨q, text, hlookup⟩ := isFile_eq_true_iff.mp hfile
  exact isFile_eq_true_iff.mpr ⟨q, text, h.lookup_of_lookup hlookup⟩

theorem readText_of_isFile {p : Path} (hfile : d.isFile p = true) :
    e.readText p = d.readText p := by
  obtain ⟨q, text, hlookup⟩ := isFile_eq_true_iff.mp hfile
  rw [readText, readText, hlookup, h.lookup_of_lookup hlookup]

/-- Only the new file makes a path stand for something that stood for nothing. -/
theorem locate_of_has {p : Path} (hhas : e.has p = true) (hnone : d.has p = false) :
    e.locate true p = .ok place ∧ d.get? place = none := by
  obtain ⟨q, hlocate, hsome⟩ := has_eq_true_iff.mp hhas
  have hold : ¬ (d.get? q).isSome := fun hold => by
    rw [has_eq_true_iff.mpr ⟨q, h.locate_iff.mp hlocate, hold⟩] at hnone
    cases hnone
  have heq : q = place := by
    by_contra hne
    rw [h.other q hne] at hsome
    exact hold hsome
  exact ⟨heq ▸ hlocate, by simpa [heq] using hold⟩

theorem has_of_has {p : Path} (hhas : d.has p = true) : e.has p = true := by
  obtain ⟨q, hlocate, hsome⟩ := has_eq_true_iff.mp hhas
  exact has_eq_true_iff.mpr ⟨q, h.locate_iff.mpr hlocate, by rwa [h.get?_of_isSome hsome]⟩

theorem readText_place {p : Path} {text : String} (hlocate : e.locate true p = .ok place)
    (hnone : d.get? place = none) (hcontents : contents = some text) :
    e.readText p = .ok text := by
  have hfile : e.get? place = some (.file contents) := by
    rcases h.file with ⟨-, hfile⟩ | ⟨text, hold, -⟩
    · exact hfile
    · rw [hnone] at hold
      cases hold
  rw [readText, lookup_eq_ok_iff.mpr ⟨hlocate, hfile⟩, hcontents]

end GainsFile

/-! ### Names below a directory -/

/-- A place whose names a path can spell. -/
def Spelled (place : Location) : Prop :=
  ∀ n ∈ place, ProperName n ∧ n.utf8ByteSize ≤ nameLimit

instance (place : Location) : Decidable (Spelled place) :=
  inferInstanceAs (Decidable (∀ n ∈ place, ProperName n ∧ n.utf8ByteSize ≤ nameLimit))

theorem Spelled.base {place : Location} (h : Spelled place) (p : Path) : Spelled (p.base place) := by
  unfold Path.base
  split
  · exact fun n hn => absurd hn List.not_mem_nil
  · exact h

/-- A way leads to a place that can be spelled, if it starts at one. -/
theorem Way.spelled {d : Disk} {links : Nat} {place target : Location} {fs : List (List Char)}
    (h : d.Way true links place fs target) (hplace : Spelled place) (hslash : ∀ f ∈ fs, '/' ∉ f) :
    Spelled target := by
  induction h with
  | done => exact hplace
  | stay _ _ _ ih => exact ih hplace fun g hg => hslash g (List.mem_cons_of_mem _ hg)
  | up _ _ ih =>
    exact ih (fun n hn => hplace n (List.dropLast_subset _ hn))
      fun g hg => hslash g (List.mem_cons_of_mem _ hg)
  | @down _ place f fs _ _ hf hshort _ _ ih =>
    refine ih (fun n hn => ?_) fun g hg => hslash g (List.mem_cons_of_mem _ hg)
    rcases List.mem_append.mp hn with hn | hn
    · exact hplace n hn
    · rw [List.mem_singleton.mp hn]
      exact ⟨hf.properName (hslash f List.mem_cons_self), hshort⟩
  | atLink _ _ _ _ hfollow => cases hfollow
  | @jump _ place f fs link _ _ _ _ _ _ _ ih =>
    refine ih (hplace.base _) fun g hg => ?_
    rcases List.mem_append.mp hg with hg | hg
    · exact Path.not_slash_of_mem_body g hg
    · exact hslash g (List.mem_cons_of_mem _ hg)

theorem spelled_of_locate {d : Disk} (hcwd : Spelled d.cwd) {p : Path} {place : Location}
    (h : d.locate true p = .ok place) : Spelled place := by
  obtain ⟨-, hway⟩ := locate_eq_ok_iff_way.mp h
  exact hway.spelled (hcwd.base p) Path.not_slash_of_mem_body

/-- Everything above a place at which something can stand is a directory. -/
theorem Rooted.above {d : Disk} (hrooted : d.Rooted) : ∀ {names : List String} {place : Location},
    d.get? (place ++ names) = some .directory → d.get? place = some .directory := by
  intro names
  induction names using List.reverseRecOn with
  | nil =>
    intro place h
    rwa [List.append_nil] at h
  | append_singleton names name ih =>
    intro place h
    have hparent := hrooted _ (by rw [h]; rfl)
    rw [← List.append_assoc, List.dropLast_concat] at hparent
    exact ih hparent

theorem Readable.of_joinNames : ∀ {names : List String} {p : Path}, (∀ n ∈ names, ProperName n) →
    p.text ≠ "" → Readable (joinNames p names).text → Readable p.text
  | [], _, _, _, h => h
  | n :: names, p, hnames, hne, h => by
    obtain ⟨hn, hnames⟩ := List.forall_mem_cons.mp hnames
    exact .of_opens (of_joinNames hnames (Path.text_join_name_ne_empty p hn) h)
      (Path.toList_join_opens p hn) hne

section Down

variable {d : Disk} {root : Path} {above : Location}

/-- A name below a directory leads to that name in the directory. -/
theorem locate_join_name {name : String} (hroot : d.lookup true root = .ok (above, .directory))
    (hname : ProperName name) (hshort : name.utf8ByteSize ≤ nameLimit)
    (hlink : ∀ target, d.get? (above ++ [name]) ≠ some (.link target))
    (hreadable : Readable (root.join ⟨name⟩).text) :
    d.locate true (root.join ⟨name⟩) = .ok (above ++ [name]) := by
  obtain ⟨hlocate, hdirectory⟩ := lookup_eq_ok_iff.mp hroot
  obtain ⟨-, hway⟩ := locate_eq_ok_iff_way.mp hlocate
  obtain ⟨kept, hbody, hkept⟩ := Path.body_join_fields root (Path.not_isAbsolute_name hname.not_slash)
  have hdown : ∀ links, d.Way true links above [name.toList] (above ++ [name]) := by
    intro links
    have hstep := @Way.down d true links above name.toList [] (above ++ [name]) hdirectory
      (NameField.of_properName hname) (by simpa using hshort) (by simpa using hlink)
    exact hstep (by simpa using Way.done)
  have hbase : (root.join ⟨name⟩).base d.cwd = root.base d.cwd := by
    rw [Path.base, Path.base, Path.isAbsolute_join root hname]
  refine locate_eq_ok_iff_way.mpr ⟨hreadable, ?_⟩
  rw [hbase, hbody, Path.body_name hname.not_slash]
  rcases hkept with hkept | hkept
  · exact (hkept ▸ hway).trans hdown
  · exact (hkept ▸ hway).append hdown

/-- A name leads to that name in the working directory. -/
theorem eq_of_locate_name {name : String} (hname : ProperName name) {place : Location}
    (h : d.locate true ⟨name⟩ = .ok place)
    (hlink : ∀ target, d.get? (d.cwd ++ [name]) ≠ some (.link target)) : place = d.cwd ++ [name] := by
  obtain ⟨-, hway⟩ := locate_eq_ok_iff_way.mp h
  have hfield := NameField.of_properName hname
  have hbase : (Path.mk name).base d.cwd = d.cwd := by
    rw [Path.base, Path.not_isAbsolute_name hname.not_slash]
    rfl
  rw [hbase, Path.body_name hname.not_slash] at hway
  generalize hf : name.toList = f at hway hfield
  have hback : String.ofList f = name := by rw [← hf, String.ofList_toList]
  cases hway with
  | stay _ hstay _ => exact absurd hstay (not_or.mpr ⟨hfield.ne_nil, hfield.ne_here⟩)
  | up _ _ => exact absurd rfl hfield.ne_up
  | down _ _ _ _ hrest =>
    cases hrest
    rw [hback]
  | atLink _ _ _ _ hfollow => cases hfollow
  | jump _ _ _ hnext _ _ =>
    rw [hback] at hnext
    exact absurd hnext (hlink _)

/-- Names below a directory lead down through directories. -/
theorem locate_joinNames (hrooted : d.Rooted) : ∀ {names : List String} {root : Path}
    {above : Location}, names ≠ [] → Spelled names →
    d.lookup true root = .ok (above, .directory) → d.Landing (above ++ names) →
    Readable (joinNames root names).text → d.locate true (joinNames root names) = .ok (above ++ names)
  | [], _, _, hne, _, _, _, _ => absurd rfl hne
  | [name], root, above, _, hspelled, hroot, hlanding, hreadable => by
    obtain ⟨hname, hshort⟩ := hspelled name (by simp)
    exact locate_join_name hroot hname hshort hlanding.not_link hreadable
  | name :: next :: names, root, above, _, hspelled, hroot, hlanding, hreadable => by
    obtain ⟨⟨hname, hshort⟩, hrest⟩ := List.forall_mem_cons.mp hspelled
    obtain ⟨hlocate, -⟩ := lookup_eq_ok_iff.mp hroot
    have hdirectory : d.get? (above ++ [name]) = some .directory := by
      have hparent := hlanding.directory
      rw [List.append_cons, List.dropLast_append_cons] at hparent
      exact hrooted.above hparent
    have hjoin : Readable (root.join ⟨name⟩).text :=
      .of_joinNames (fun n hn => (hrest n hn).1) (Path.text_join_name_ne_empty root hname) hreadable
    have hnext := locate_join_name hroot hname hshort (by simp [hdirectory]) hjoin
    rw [List.append_cons]
    exact locate_joinNames hrooted (by simp) hrest (lookup_eq_ok_iff.mpr ⟨hnext, hdirectory⟩)
      (by rwa [List.append_cons] at hlanding) hreadable

end Down

end Disk

/-! ### Scans -/

namespace Scan

variable {d e : Disk} {place : Location} {contents : Option String}

theorem mem_walk_of_gainsFile (h : d.GainsFile e place contents) {root p : Path}
    (hp : p ∈ (d.walk root).found) : p ∈ (e.walk root).found := by
  obtain ⟨above, entry, hlookup, hp⟩ := Disk.mem_walk_iff_lookup.mp hp
  refine Disk.mem_walk_iff_lookup.mpr ⟨above, entry, h.lookup_of_lookup hlookup, hp.imp_right ?_⟩
  rintro ⟨rfl, names, hne, hsome, rfl⟩
  exact ⟨rfl, names, hne, by rwa [h.get?_of_isSome hsome], rfl⟩

/-- A source that a walk finds is one that it found before, unless it is the new file. -/
theorem mem_walk_before_gainsFile (h : d.GainsFile e place contents) (hrooted : d.Rooted)
    (hspelled : Disk.Spelled place) (hlanding : d.Landing place) {root p : Path}
    (hp : p ∈ (e.walk root).found) (hfile : e.isFile p = true)
    (hnot : e.locate true p ≠ .ok place) : p ∈ (d.walk root).found ∧ d.isFile p = true := by
  obtain ⟨q, text, hlookup⟩ := Disk.isFile_eq_true_iff.mp hfile
  obtain ⟨hlocate, -⟩ := Disk.lookup_eq_ok_iff.mp hlookup
  have hold := h.lookup_back hlookup fun heq => hnot (heq ▸ hlocate)
  refine ⟨?_, Disk.isFile_eq_true_iff.mpr ⟨q, text, hold⟩⟩
  obtain ⟨above, entry, hroot, hp⟩ := Disk.mem_walk_iff_lookup.mp hp
  rcases hp with rfl | ⟨rfl, names, hne, hsome, rfl⟩
  · exact Disk.mem_walk_iff_lookup.mpr ⟨q, _, hold, .inl rfl⟩
  · have habove : above ≠ place := by
      rintro rfl
      obtain ⟨text, hget⟩ := h.get?_place
      obtain ⟨-, hdirectory⟩ := Disk.lookup_eq_ok_iff.mp hroot
      rw [hget] at hdirectory
      cases hdirectory
    have hrootOld := h.lookup_back hroot habove
    -- the new file is not among the names, for they would lead to it
    have hother : above ++ names ≠ place := by
      rintro heq
      refine hnot (h.locate_iff.mpr ?_)
      rw [← heq] at hspelled hlanding ⊢
      exact Disk.locate_joinNames hrooted hne (fun n hn => hspelled n (List.mem_append_right _ hn))
        hrootOld hlanding (Disk.locate_eq_ok_iff_way.mp hlocate).1
    refine Disk.mem_walk_iff_lookup.mpr ⟨above, .directory, hrootOld, .inr ⟨rfl, names, hne, ?_, rfl⟩⟩
    rwa [← h.other _ hother]

/-- A scan without includes finds the same sources, unless it takes the new file for one. -/
theorem files_of_gainsFile (h : d.GainsFile e place contents) (hrooted : d.Rooted)
    (hspelled : Disk.Spelled place) (hlanding : d.Landing place) {base : Path} {options : ScanOptions}
    (hincludes : options.includes = [])
    (hnot : ∀ path ∈ (run e base options).files, e.locate true ⟨path⟩ ≠ .ok place) :
    (run e base options).files = (run d base options).files := by
  have hroots : ∀ disk : Disk, roots disk base options.includes = [base] := by
    intro disk
    rw [roots, hincludes]
    rfl
  have hmem : ∀ (disk : Disk) (text : String), text ∈ (run disk base options).files ↔
      ∃ p ∈ (disk.walk base).found,
        isSource disk (Ignores.ofOptions base options) p = true ∧ p.text = text := by
    intro disk text
    rw [mem_files_iff, hroots]
    simp
  have hsame : ∀ text, text ∈ (run e base options).files ↔ text ∈ (run d base options).files := by
    intro text
    constructor
    · intro htext
      obtain ⟨p, hp, hsource, rfl⟩ := (hmem e text).mp htext
      simp only [isSource, Bool.and_eq_true] at hsource
      obtain ⟨⟨hcovers, hfile⟩, hname⟩ := hsource
      obtain ⟨hfound, hold⟩ := mem_walk_before_gainsFile h hrooted hspelled hlanding hp hfile (hnot _ htext)
      exact (hmem d _).mpr ⟨p, hfound, by simp only [isSource, hcovers, hold, hname, Bool.and_self], rfl⟩
    · intro htext
      obtain ⟨p, hp, hsource, rfl⟩ := (hmem d text).mp htext
      simp only [isSource, Bool.and_eq_true] at hsource
      obtain ⟨⟨hcovers, hfile⟩, hname⟩ := hsource
      have hnew := h.isFile_of_isFile hfile
      exact (hmem e _).mpr ⟨p, mem_walk_of_gainsFile h hp,
        by simp only [isSource, hcovers, hnew, hname, Bool.and_self], rfl⟩
  unfold run at hsame ⊢
  exact Text.sorted_congr fun text => by simpa only [Text.mem_sorted] using hsame text

end Scan
end FetchClients
