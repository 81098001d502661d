/-
# Disks that differ in the contents of files

What a path leads to, what a pattern stands for and what a scan finds depend on
which files and directories there are, and not on what the files hold. On two disks
of the same shape every path leads to the same place
(`Disk.SameShape.locate`), a search follows the same names
(`Glob.Search.mem_iff_of_sameShape`), and a scan lists the same sources
(`Scan.files_of_sameShape`).

Key definition: `Disk.SameShape`.
Key theorems: `Disk.SameShape.locate`, `Glob.Search.mem_iff_of_sameShape`,
`Scan.files_of_sameShape`.
-/
import FetchClients.Proofs.Sources

namespace FetchClients

theorem Text.sorted_congr {xs ys : List String} (h : ∀ x, x ∈ xs ↔ x ∈ ys) :
    sorted xs = sorted ys := by
  have hmem : ∀ x, x ∈ sorted xs ↔ x ∈ sorted ys := by
    intro x
    rw [mem_sorted, mem_sorted, h]
  have hperm : (sorted xs).Perm (sorted ys) :=
    (List.perm_ext_iff_of_nodup (nodup_sorted xs) (nodup_sorted ys)).mpr hmem
  exact hperm.eq_of_pairwise (fun _ _ _ _ hlt hgt => absurd hlt (String.lt_asymm hgt))
    (pairwise_sorted xs) (pairwise_sorted ys)

namespace Disk

/-! ### What stands on a disk -/

theorem isSome_get?_iff {d : Disk} {place : Location} (hne : place ≠ []) :
    (d.get? place).isSome = true ↔ ∃ entry, (place, entry) ∈ d.entries := by
  unfold get?
  rw [if_neg hne, Option.isSome_map, List.find?_isSome]
  constructor
  · rintro ⟨⟨other, entry⟩, hmem, heq⟩
    obtain rfl : other = place := by simpa using heq
    exact ⟨entry, hmem⟩
  · rintro ⟨entry, hmem⟩
    exact ⟨(place, entry), hmem, by simp⟩

/-- The paths below a root are spelled with the names that something stands at. -/
theorem mem_pathsBelow_iff {d : Disk} {root p : Path} {place : Location} :
    p ∈ d.pathsBelow root place ↔ ∃ names, names ≠ [] ∧
      (d.get? (place ++ names)).isSome = true ∧ p = joinNames root names := by
  unfold pathsBelow
  rw [List.mem_map]
  constructor
  · rintro ⟨⟨names, entry⟩, hbelow, rfl⟩
    obtain ⟨hne, hentry⟩ := mem_below_iff.mp hbelow
    exact ⟨names, hne, (isSome_get?_iff (by simp [hne])).mpr ⟨entry, hentry⟩, rfl⟩
  · rintro ⟨names, hne, hsome, rfl⟩
    obtain ⟨entry, hentry⟩ := (isSome_get?_iff (by simp [hne])).mp hsome
    exact ⟨(names, entry), mem_below_iff.mpr ⟨hne, hentry⟩, rfl⟩

/-- A walk finds its root, and what is spelled with the names below it if that is a directory. -/
theorem mem_walk_iff_lookup {d : Disk} {root p : Path} : p ∈ (d.walk root).found ↔
    ∃ place entry, d.lookup true root = .ok (place, entry) ∧ (p = root ∨ entry = .directory ∧
      ∃ names, names ≠ [] ∧ (d.get? (place ++ names)).isSome = true ∧ p = joinNames root names) := by
  unfold walk
  cases hlookup : d.lookup true root with
  | error problem => simp
  | ok found =>
    obtain ⟨place, entry⟩ := found
    cases entry <;> simp [walkFrom, mem_pathsBelow_iff]

/-- The names in a directory are those that something stands at. -/
theorem mem_names_iff {d : Disk} {place : Location} {name : String} :
    name ∈ d.names place ↔ (d.get? (place ++ [name])).isSome = true := by
  rw [isSome_get?_iff (by simp)]
  unfold names
  rw [List.mem_filterMap]
  constructor
  · rintro ⟨⟨below, entry⟩, hbelow, hname⟩
    obtain ⟨-, hentry⟩ := mem_below_iff.mp hbelow
    split at hname
    · rename_i only _ heq
      obtain ⟨rfl, rfl⟩ := Prod.mk.inj heq
      obtain rfl := Option.some.inj hname
      exact ⟨_, hentry⟩
    · cases hname
  · rintro ⟨entry, hentry⟩
    exact ⟨([name], entry), mem_below_iff.mpr ⟨by simp, hentry⟩, rfl⟩

/-! ### Disks of the same shape -/

/-- Two disks with the same files, links and directories; only the contents of files differ. -/
structure SameShape (d e : Disk) : Prop where
  cwd : e.cwd = d.cwd
  entry : ∀ place, e.get? place = d.get? place ∨
    ∃ a b, d.get? place = some (.file a) ∧ e.get? place = some (.file b)

namespace SameShape

variable {d e : Disk} (h : d.SameShape e)
include h

theorem symm : e.SameShape d where
  cwd := h.cwd.symm
  entry place := by
    rcases h.entry place with hsame | ⟨a, b, ha, hb⟩
    · exact .inl hsame.symm
    · exact .inr ⟨b, a, hb, ha⟩

theorem isSome_get? (place : Location) : (e.get? place).isSome = (d.get? place).isSome := by
  rcases h.entry place with hsame | ⟨a, b, ha, hb⟩
  · rw [hsame]
  · rw [ha, hb]
    rfl

theorem resolveWith (follow : Bool)
    (jump : Location → List (List Char) → Except Problem Location) :
    ∀ (place : Location) (fs : List (List Char)),
      e.resolveWith follow jump place fs = d.resolveWith follow jump place fs
  | place, [] => rfl
  | place, f :: fs => by
    have ih := fun place => resolveWith follow jump place fs
    unfold Disk.resolveWith
    rcases h.entry place with hsame | ⟨a, b, ha, hb⟩
    · rw [hsame, ih, ih]
      dsimp only
      rcases h.entry (place ++ [String.ofList f]) with hnext | ⟨a, b, ha, hb⟩
      · rw [hnext, ih]
      · simp only [ha, hb, ih]
    · rw [ha, hb]

theorem resolve (follow : Bool) : ∀ links : Nat, e.resolve follow links = d.resolve follow links
  | 0 => by
    funext place fs
    exact h.resolveWith follow _ place fs
  | links + 1 => by
    funext place fs
    unfold Disk.resolve
    rw [resolve follow links]
    exact h.resolveWith follow _ place fs

/-- A path leads to the same place. -/
theorem locate (follow : Bool) (p : Path) : e.locate follow p = d.locate follow p := by
  unfold Disk.locate
  rw [h.resolve, h.cwd]

/-- A path stands for the same, but for the contents of a file. -/
theorem lookup (follow : Bool) (p : Path) : e.lookup follow p = d.lookup follow p ∨
    ∃ place a b, d.lookup follow p = .ok (place, .file a) ∧
      e.lookup follow p = .ok (place, .file b) := by
  unfold Disk.lookup
  rw [h.locate]
  split
  · exact .inl rfl
  · rename_i place _
    rcases h.entry place with hsame | ⟨a, b, ha, hb⟩
    · rw [hsame]
      exact .inl rfl
    · rw [ha, hb]
      exact .inr ⟨place, a, b, rfl, rfl⟩

theorem isOk_lookup (follow : Bool) (p : Path) :
    (e.lookup follow p).isOk = (d.lookup follow p).isOk := by
  rcases h.lookup follow p with hsame | ⟨place, a, b, ha, hb⟩
  · rw [hsame]
  · rw [ha, hb]
    rfl

theorem isFile (p : Path) : e.isFile p = d.isFile p := by
  unfold Disk.isFile
  rcases h.lookup true p with hsame | ⟨place, a, b, ha, hb⟩
  · rw [hsame]
  · rw [ha, hb]

theorem isDirectory (p : Path) : e.isDirectory p = d.isDirectory p := by
  unfold Disk.isDirectory
  rcases h.lookup true p with hsame | ⟨place, a, b, ha, hb⟩
  · rw [hsame]
  · rw [ha, hb]

/-- A walk finds the same paths. -/
theorem mem_walk_iff {root p : Path} : p ∈ (e.walk root).found ↔ p ∈ (d.walk root).found := by
  unfold walk
  rcases h.lookup true root with hsame | ⟨place, a, b, ha, hb⟩
  · rw [hsame]
    split
    · rfl
    · unfold walkFrom
      split
      · simp only [List.mem_cons, mem_pathsBelow_iff, h.isSome_get?]
      · rfl
  · rw [ha, hb]
    rfl

end SameShape

end Disk

/-! ### Patterns -/

namespace Glob
namespace Search

variable {d e : Disk} (h : d.SameShape e) (directoriesOnly : Bool)
include h

theorem mem_names_of_sameShape {directory : Path} {name : String} :
    name ∈ names ⟨e, directoriesOnly⟩ directory ↔ name ∈ names ⟨d, directoriesOnly⟩ directory := by
  unfold names
  dsimp only
  rcases h.lookup true directory with hsame | ⟨place, a, b, ha, hb⟩
  · rw [hsame]
    cases hlookup : d.lookup true directory with
    | error problem => rfl
    | ok found =>
      obtain ⟨place, entry⟩ := found
      cases entry with
      | directory => simp only [Disk.mem_names_iff, h.isSome_get?]
      | file contents => rfl
      | link target => rfl
  · rw [ha, hb]

theorem result_of_sameShape (p : Path) :
    result ⟨e, directoriesOnly⟩ p = result ⟨d, directoriesOnly⟩ p := by
  unfold result
  rw [h.isDirectory]

/-- A search finds the same paths. -/
theorem mem_iff_of_sameShape : ∀ n : Nat,
    (∀ patterns directory p, p ∈ under ⟨e, directoriesOnly⟩ n patterns directory ↔
      p ∈ under ⟨d, directoriesOnly⟩ n patterns directory) ∧
    (∀ patterns next p, p ∈ onward ⟨e, directoriesOnly⟩ n patterns next ↔
      p ∈ onward ⟨d, directoriesOnly⟩ n patterns next) ∧
    ∀ patterns name next p, p ∈ visit ⟨e, directoriesOnly⟩ n patterns name next ↔
      p ∈ visit ⟨d, directoriesOnly⟩ n patterns name next
  | 0 => ⟨fun _ _ _ => by simp only [under], fun _ _ _ => by simp only [onward],
      fun _ _ _ _ => by simp only [visit]⟩
  | n + 1 => by
    obtain ⟨hunder, honward, hvisit⟩ := mem_iff_of_sameShape n
    refine ⟨fun patterns directory p => ?_, fun patterns next p => ?_,
      fun patterns name next p => ?_⟩
    · cases patterns with
      | nil => simp only [under]
      | cons pattern patterns =>
        unfold under
        split
        · simp only [h.isDirectory, h.isOk_lookup, List.mem_ite_nil_right, honward]
        · simp only [h.isDirectory, List.mem_ite_nil_right, List.mem_append, List.mem_flatMap,
            mem_names_of_sameShape h, honward, hvisit]
    · cases patterns with
      | nil => simp only [onward, result_of_sameShape h]
      | cons pattern patterns =>
        unfold onward
        exact hunder _ _ _
    · cases patterns with
      | nil => simp only [visit]
      | cons pattern patterns =>
        unfold visit
        split
        · dsimp only
          split
          · simp only [h.isDirectory, List.mem_ite_nil_right, List.mem_cons, hunder]
          · simp only [h.isDirectory, List.mem_ite_nil_right, List.mem_append, hunder, honward]
        · simp only [List.mem_ite_nil_right, honward]

end Search

/-- A pattern cannot be compiled, or it is searched for in the same way on every disk. -/
theorem expand_eq (pattern : String) : (∃ fault, ∀ d, expand d pattern = .error fault) ∨
    ∃ patterns start directoriesOnly n, ∀ d,
      expand d pattern = .ok (Search.under ⟨d, directoriesOnly⟩ n patterns start) := by
  unfold expand
  cases compile pattern with
  | error fault => exact .inl ⟨fault, fun _ => rfl⟩
  | ok tokens =>
    dsimp only
    cases compileParts (if (if pattern.toList.head? = some '/' then pattern.toList.tail
        else pattern.toList).isEmpty then [[]]
      else parts (if pattern.toList.head? = some '/' then pattern.toList.tail
        else pattern.toList)) with
    | error fault => exact .inl ⟨fault, fun _ => rfl⟩
    | ok patterns => exact .inr ⟨patterns, _, _, _, fun _ => rfl⟩

end Glob

/-! ### Scans -/

namespace Scan

variable {d e : Disk} (h : d.SameShape e)
include h

theorem mem_includeRoots_of_sameShape {base root : Path} {text : String} :
    root ∈ includeRoots e base text ↔ root ∈ includeRoots d base text := by
  unfold includeRoots
  dsimp only
  have hhas : e.has (base.join ⟨text⟩) = d.has (base.join ⟨text⟩) := h.isOk_lookup true _
  rw [hhas]
  split
  · rcases Glob.expand_eq (base.join ⟨text⟩).text with
      ⟨fault, hfault⟩ | ⟨patterns, start, directoriesOnly, n, hexpand⟩
    · rw [hfault, hfault]
    · obtain ⟨hunder, -, -⟩ := Glob.Search.mem_iff_of_sameShape h directoriesOnly n
      rw [hexpand, hexpand]
      simp only [List.mem_filter, hunder, h.isDirectory]
  · rfl

theorem mem_roots_of_sameShape {base root : Path} {includes : List String} :
    root ∈ roots e base includes ↔ root ∈ roots d base includes := by
  unfold roots
  split
  · rfl
  · simp only [List.mem_flatMap, mem_includeRoots_of_sameShape h]

/-- A scan lists the same sources. -/
theorem files_of_sameShape (base : Path) (options : ScanOptions) :
    (run e base options).files = (run d base options).files := by
  have hsource : ∀ ignores p, isSource e ignores p = isSource d ignores p := by
    intro ignores p
    rw [isSource, isSource, h.isFile]
  unfold run
  refine Text.sorted_congr fun text => ?_
  simp only [List.mem_map, List.mem_filter, List.mem_flatMap, hsource]
  constructor
  · rintro ⟨p, ⟨⟨_, ⟨root, hroot, rfl⟩, hp⟩, hsource⟩, htext⟩
    exact ⟨p, ⟨⟨_, ⟨root, (mem_roots_of_sameShape h).mp hroot, rfl⟩, h.mem_walk_iff.mp hp⟩, hsource⟩,
      htext⟩
  · rintro ⟨p, ⟨⟨_, ⟨root, hroot, rfl⟩, hp⟩, hsource⟩, htext⟩
    exact ⟨p, ⟨⟨_, ⟨root, (mem_roots_of_sameShape h).mpr hroot, rfl⟩, h.mem_walk_iff.mpr hp⟩,
      hsource⟩, htext⟩

end Scan

end FetchClients
