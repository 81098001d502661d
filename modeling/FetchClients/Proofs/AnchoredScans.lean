/-
# Scans that new output cannot change

Nothing that a run adds is a source. So a scan whose roots are anchored finds the same
sources after a run as before it (`Scan.files_eq`), and none of its roots is missing if
it found a source at all (`Scan.skipped_eq_zero`). With the same configuration this is
the same project (`Project.load_of_addsOutput`).

Key definition: `Scan.isAnchored`.
Key theorems: `Scan.files_eq`, `Project.load_of_addsOutput`.
-/
import FetchClients.Proofs.AnchoredPatterns

namespace FetchClients

namespace Scan

/-- Whether an include leads nowhere but through directories that are there: a path that is
anchored, or a pattern that is. -/
def isAnchored (d : Disk) (base : Path) (text : String) : Bool :=
  if Glob.isGlob text then Glob.isAnchored d (base.join ⟨text⟩).text
  else decide (d.Anchored (base.join ⟨text⟩))

section Sources

variable {d last : Disk} {clients : List Client.Generated} (h : AddsOutput d last clients)
include h

/-! ### Roots -/

theorem mem_includeRoots_of_addsOutput {base root : Path} {text : String}
    (hroot : root ∈ includeRoots d base text) : root ∈ includeRoots last base text := by
  unfold includeRoots at hroot ⊢
  dsimp only at hroot ⊢
  split at hroot
  · rename_i hglob
    rw [if_pos hglob]
    split at hroot
    · rename_i was hwas
      obtain ⟨hmem, hdirectory⟩ := List.mem_filter.mp hroot
      obtain ⟨found, hfound, hmem⟩ := Glob.mem_expand_of_addsOutput h hwas hmem
      rw [hfound]
      exact List.mem_filter.mpr ⟨hmem, h.isDirectory_of_isDirectory hdirectory⟩
    · cases hroot
  · rename_i hglob
    rw [if_neg hglob]
    obtain ⟨hhas, hmem⟩ := List.mem_ite_nil_right.mp hroot
    exact List.mem_ite_nil_right.mpr ⟨h.has_of_has hhas, hmem⟩

/-- A root that was there was a root before. -/
theorem mem_includeRoots_back {base root : Path} {text : String}
    (hanchored : isAnchored d base text = true) (hroot : root ∈ includeRoots last base text)
    (hthere : (d.get? (root.locationFrom (.ofLocation d.cwd))).isSome = true) :
    d.Anchored root ∧ root ∈ includeRoots d base text := by
  unfold isAnchored at hanchored
  unfold includeRoots at hroot ⊢
  dsimp only at hroot ⊢
  split at hroot
  · rename_i hglob
    rw [if_pos hglob] at hanchored ⊢
    split at hroot
    · rename_i found hfound
      obtain ⟨hmem, hdirectory⟩ := List.mem_filter.mp hroot
      obtain ⟨hrootAnchored, was, hwas, hmem⟩ := Glob.mem_expand_back h hanchored hfound hmem hthere
      rw [hwas]
      exact ⟨hrootAnchored, List.mem_filter.mpr
        ⟨hmem, h.isDirectory_back hrootAnchored hdirectory hthere⟩⟩
    · cases hroot
  · rename_i hglob
    rw [if_neg hglob] at hanchored ⊢
    obtain ⟨hhas, hmem⟩ := List.mem_ite_nil_right.mp hroot
    obtain rfl := List.mem_singleton.mp hmem
    have hrootAnchored := of_decide_eq_true hanchored
    exact ⟨hrootAnchored, List.mem_ite_nil_right.mpr
      ⟨h.has_back hrootAnchored hhas hthere, hmem⟩⟩

theorem mem_roots_of_addsOutput {base root : Path} {includes : List String}
    (hroot : root ∈ roots d base includes) : root ∈ roots last base includes := by
  unfold roots at hroot ⊢
  split at hroot
  · rename_i hempty
    rwa [if_pos hempty]
  · rename_i hempty
    rw [if_neg hempty]
    obtain ⟨text, htext, hroot⟩ := List.mem_flatMap.mp hroot
    exact List.mem_flatMap.mpr ⟨text, htext, mem_includeRoots_of_addsOutput h hroot⟩

theorem mem_roots_back {base root : Path} {includes : List String} (hbase : d.Anchored base)
    (hanchored : ∀ text ∈ includes, isAnchored d base text = true)
    (hroot : root ∈ roots last base includes)
    (hthere : (d.get? (root.locationFrom (.ofLocation d.cwd))).isSome = true) :
    d.Anchored root ∧ root ∈ roots d base includes := by
  unfold roots at hroot ⊢
  split at hroot
  · rename_i hempty
    rw [if_pos hempty]
    obtain rfl := List.mem_singleton.mp hroot
    exact ⟨hbase, hroot⟩
  · rename_i hempty
    rw [if_neg hempty]
    obtain ⟨text, htext, hroot⟩ := List.mem_flatMap.mp hroot
    obtain ⟨hrootAnchored, hroot⟩ := mem_includeRoots_back h (hanchored text htext) hroot hthere
    exact ⟨hrootAnchored, List.mem_flatMap.mpr ⟨text, htext, hroot⟩⟩

/-! ### Walks -/

theorem mem_walk_of_addsOutput {root p : Path} (hp : p ∈ (d.walk root).found) :
    p ∈ (last.walk root).found := by
  obtain ⟨place, entry, hlookup, hp⟩ := Disk.mem_walk_iff_lookup.mp hp
  obtain ⟨hlocate, hget⟩ := Disk.lookup_eq_ok_iff.mp hlookup
  obtain ⟨now, hnow⟩ := Option.isSome_iff_exists.mp (h.isSome_get? (Option.isSome_of_eq_some hget))
  refine Disk.mem_walk_iff_lookup.mpr ⟨place, now, Disk.lookup_eq_ok_iff.mpr
    ⟨h.locate_kept hlocate, hnow⟩, hp.imp_right ?_⟩
  rintro ⟨rfl, names, hne, hsome, rfl⟩
  rw [h.directory place hget] at hnow
  exact ⟨(Option.some.inj hnow).symm, names, hne, h.isSome_get? hsome, rfl⟩

/-- What a walk finds that was there was found before, if its root is anchored. -/
theorem mem_walk_back {root p : Path} (hroot : d.Anchored root) (hp : p ∈ (last.walk root).found)
    (hthere : (d.get? (p.locationFrom (.ofLocation d.cwd))).isSome = true) :
    d.Anchored p ∧ p ∈ (d.walk root).found := by
  obtain ⟨place, entry, hlookup, hp⟩ := Disk.mem_walk_iff_lookup.mp hp
  have hplace := h.locationFrom_of_lookup hlookup
  rcases hp with rfl | ⟨rfl, names, hne, hsome, rfl⟩
  · rw [hplace] at hthere
    obtain ⟨was, hwas, -⟩ := h.lookup_back hroot hlookup hthere
    exact ⟨hroot, Disk.mem_walk_iff_lookup.mpr ⟨place, was, hwas, .inl rfl⟩⟩
  · have hproper : ∀ n ∈ names, ProperName n := by
      obtain ⟨entry, hentry⟩ := Option.isSome_iff_exists.mp hsome
      exact fun n hn => (h.tree.storedName hentry n (List.mem_append_right _ hn)).toProperName
    rw [Disk.locationFrom_joinNames _ _ hproper, hplace] at hthere
    have hrootThere := h.before.isSome_get?_opens hthere (List.prefix_append place names)
    obtain ⟨was, hwas, hiff⟩ := h.lookup_back hroot hlookup hrootThere
    exact ⟨hroot.joinNames hproper, Disk.mem_walk_iff_lookup.mpr
      ⟨place, was, hwas, .inr ⟨hiff.mpr rfl, names, hne, hthere, rfl⟩⟩⟩

/-! ### Sources -/

/-- A source after a run was there before: nothing that was added is named like one. -/
theorem isSome_get?_of_isSource {ignores : Ignores} {p : Path}
    (hsource : isSource last ignores p = true) :
    (d.get? (p.locationFrom (.ofLocation d.cwd))).isSome = true := by
  unfold isSource at hsource
  simp only [Bool.and_eq_true, Option.any_eq_true] at hsource
  obtain ⟨⟨-, hfile⟩, name, hname, hsourceName⟩ := hsource
  obtain ⟨place, contents, hlookup⟩ := Disk.isFile_eq_true_iff.mp hfile
  obtain ⟨-, hget⟩ := Disk.lookup_eq_ok_iff.mp hlookup
  obtain ⟨above, habove⟩ := Path.locationFrom_fileName? (.ofLocation d.cwd) hname
  have hplace := (h.locationFrom_of_lookup hlookup).symm.trans habove
  rw [habove, Option.isSome_iff_ne_none]
  intro hnone
  rw [hplace] at hget
  obtain ⟨-, -, hdirectory | hgenerated⟩ := h.fresh above name hnone (by simp [hget])
  · rw [hget] at hdirectory
    cases hdirectory
  · unfold isSourceName at hsourceName
    simp [hgenerated] at hsourceName

theorem isSource_back {ignores : Ignores} {p : Path} (hp : d.Anchored p)
    (hsource : isSource last ignores p = true) : isSource d ignores p = true := by
  have hthere := isSome_get?_of_isSource h hsource
  unfold isSource at hsource ⊢
  simp only [Bool.and_eq_true] at hsource ⊢
  obtain ⟨⟨hcovers, hfile⟩, hname⟩ := hsource
  obtain ⟨place, contents, hlookup⟩ := Disk.isFile_eq_true_iff.mp hfile
  rw [h.locationFrom_of_lookup hlookup] at hthere
  obtain ⟨was, hwas, hiff⟩ := h.lookup_back hp hlookup hthere
  obtain ⟨-, hget⟩ := Disk.lookup_eq_ok_iff.mp hwas
  refine ⟨⟨hcovers, ?_⟩, hname⟩
  cases was with
  | file contents => exact Disk.isFile_eq_true_iff.mpr ⟨place, contents, hwas⟩
  | link target => exact absurd hget (h.before.get?_ne_link place target)
  | directory => cases hiff.mp rfl

/-- A scan with anchored roots finds the same sources. -/
theorem files_eq {base : Path} {options : ScanOptions} (hbase : d.Anchored base)
    (hanchored : ∀ text ∈ options.includes, isAnchored d base text = true) :
    (run last base options).files = (run d base options).files := by
  unfold run
  refine Text.sorted_congr fun text => ?_
  simp only [List.mem_map, List.mem_filter, List.mem_flatMap]
  constructor
  · rintro ⟨p, ⟨⟨_, ⟨root, hroot, rfl⟩, hp⟩, hsource⟩, htext⟩
    have hthere := isSome_get?_of_isSource h hsource
    obtain ⟨names, -, -, hplace⟩ := Disk.exists_of_mem_walk h.tree hp
    rw [h.cwd] at hplace
    have hrootThere := h.before.isSome_get?_opens hthere ⟨names, hplace.symm⟩
    obtain ⟨hrootAnchored, hroot⟩ := mem_roots_back h hbase hanchored hroot hrootThere
    obtain ⟨hpAnchored, hp⟩ := mem_walk_back h hrootAnchored hp hthere
    exact ⟨p, ⟨⟨_, ⟨root, hroot, rfl⟩, hp⟩, isSource_back h hpAnchored hsource⟩, htext⟩
  · rintro ⟨p, ⟨⟨_, ⟨root, hroot, rfl⟩, hp⟩, hsource⟩, htext⟩
    have hnow : isSource last (.ofOptions base options) p = true := by
      unfold isSource at hsource ⊢
      simp only [Bool.and_eq_true] at hsource ⊢
      exact hsource.imp_left (And.imp_right h.isFile_of_isFile)
    exact ⟨p, ⟨⟨_, ⟨root, mem_roots_of_addsOutput h hroot, rfl⟩, mem_walk_of_addsOutput h hp⟩,
      hnow⟩, htext⟩

end Sources

/-- A root of includes is there. -/
theorem has_of_mem_includeRoots {d : Disk} {base root : Path} {text : String}
    (h : root ∈ includeRoots d base text) : d.has root = true := by
  unfold includeRoots at h
  dsimp only at h
  split at h
  · split at h
    · exact Disk.has_of_isDirectory (List.mem_filter.mp h).2
    · cases h
  · obtain ⟨hhas, hmem⟩ := List.mem_ite_nil_right.mp h
    rwa [List.mem_singleton.mp hmem]

theorem skipped_walk_eq_zero {d : Disk} {root : Path} (h : d.has root = true) :
    (d.walk root).skipped = 0 := by
  obtain ⟨place, hlocate, hsome⟩ := Disk.has_eq_true_iff.mp h
  obtain ⟨entry, hentry⟩ := Option.isSome_iff_exists.mp hsome
  rw [Disk.walk, Disk.lookup_eq_ok_iff.mpr ⟨hlocate, hentry⟩]
  cases entry <;> rfl

/-- A scan that finds anything has no missing roots. -/
theorem skipped_eq_zero {d : Disk} {base : Path} {options : ScanOptions} {text : String}
    (h : text ∈ (run d base options).files) : (run d base options).skipped = 0 := by
  obtain ⟨root, hroot, p, hp, -, -⟩ := mem_files_iff.mp h
  have hall : ∀ other ∈ roots d base options.includes, (d.walk other).skipped = 0 := by
    intro other hother
    refine skipped_walk_eq_zero ?_
    unfold roots at hroot hother
    split at hother
    · rename_i hempty
      -- the only root is the one that the source was found from
      rw [if_pos hempty] at hroot
      obtain rfl := List.mem_singleton.mp hroot
      obtain rfl := List.mem_singleton.mp hother
      obtain ⟨place, entry, hlookup, -⟩ := Disk.mem_walk_iff_lookup.mp hp
      rw [Disk.has, hlookup]
      rfl
    · obtain ⟨included, -, hother⟩ := List.mem_flatMap.mp hother
      exact has_of_mem_includeRoots hother
  unfold run
  dsimp only
  generalize roots d base options.includes = all at hall
  clear hroot h
  induction all with
  | nil => rfl
  | cons other all ih =>
    obtain ⟨hother, hall⟩ := List.forall_mem_cons.mp hall
    rw [List.map_cons, List.foldr_cons, hother, ih hall]

end Scan

/-- A project with anchored roots is the same after a run, if it has a source. -/
theorem Project.load_of_addsOutput {d last : Disk} {clients : List Client.Generated}
    (h : AddsOutput d last clients) {root : Path} {project : Project} {text : String}
    (hload : Project.load d root = .ok project) (hroot : d.Anchored root)
    (hanchored : ∀ text ∈ project.config.includes, Scan.isAnchored d root text = true)
    (htext : text ∈ project.files) : Project.load last root = .ok project := by
  obtain ⟨hconfig, hprojectRoot, hfiles, hskipped⟩ := Project.load_eq_ok_iff.mp hload
  have hsame : (Scan.run last root project.config.scanOptions).files =
      (Scan.run d root project.config.scanOptions).files := Scan.files_eq h hroot hanchored
  refine Project.load_eq_ok_iff.mpr
    ⟨(h.load_eq hroot).trans hconfig, hprojectRoot, hfiles.trans hsame.symm, ?_⟩
  rw [hfiles] at htext
  rw [hskipped, Scan.skipped_eq_zero htext, Scan.skipped_eq_zero (hsame ▸ htext)]

end FetchClients
