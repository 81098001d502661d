/-
# Scans of one tree from two places

Without includes a scan finds what is below its base directory. Whether it lists a
file there depends on the names that lead to it from the base, for ignores without
wildcards too, and on the text of its path, which starts with that of the base: a
text can be too long, and patterns are compared with the whole of it
(`Scan.mem_places_iff_admits`). So two scans of one tree list the same files exactly
if their texts are admitted alike (`Scan.places_congr_iff`): always without
patterns (`Scan.places_congr_of_paths`), but not with a pattern for a directory that
one of the bases lies in (`Scan.not_places_congr_ancestor`).

Key definitions: `ScanOptions.Drops`, `Scan.Eligible`, `Scan.Admits`.
Key theorems: `Disk.isFile_joinNames_iff`, `Scan.mem_places_iff_admits`,
`Scan.places_congr_iff`.
-/
import FetchClients.Proofs.AnchoredScans
import FetchClients.Proofs.IgnoredPaths

namespace FetchClients

namespace Path

/-- The last name behind a path is its file name. -/
theorem fileName?_joinNames (p : Path) {names : List String} (hne : names ≠ [])
    (hnames : ∀ n ∈ names, ProperName n) :
    (Disk.joinNames p names).fileName? = names.getLast? := by
  obtain ⟨front, last, rfl⟩ : ∃ front last, names = front ++ [last] :=
    ⟨_, _, (List.dropLast_concat_getLast hne).symm⟩
  rw [fileName?, Disk.components_joinNames p hnames]
  simp

end Path

namespace Disk

/-- A directory is no file, so a file below it has names. -/
theorem ne_nil_of_file {d : Disk} {root : Path} {place : Location} {names : List String}
    {contents : Option String} (hroot : d.lookup true root = .ok (place, .directory))
    (hget : d.get? (place ++ names) = some (.file contents)) : names ≠ [] := by
  rintro rfl
  obtain ⟨-, hdirectory⟩ := lookup_eq_ok_iff.mp hroot
  rw [List.append_nil, hdirectory] at hget
  cases hget

section Tree

variable {d : Disk} (h : d.IsTree)
include h

theorem Passes.join {p : Path} {name : String} (hname : ProperName name) (hp : d.Passes p)
    (hget : d.get? (p.locationFrom (.ofLocation d.cwd) ++ [name]) = some .directory) :
    d.Passes (p.join ⟨name⟩) := by
  intro cs hcs
  rw [Path.base, Path.isAbsolute_join p hname]
  rw [Path.steps_join p hname] at hcs
  rcases List.prefix_concat_iff.mp hcs with rfl | hcs
  · rw [Path.fold_append]
    rw [locationFrom_cwd h] at hget
    exact hget
  · exact hp cs hcs

/-- Names that lead to a directory from a path that goes through directories give such a path. -/
theorem Passes.joinNames : ∀ {p : Path} {names : List String}, d.Passes p →
    d.get? (p.locationFrom (.ofLocation d.cwd) ++ names) = some .directory →
    d.Passes (joinNames p names)
  | _, [], hp, _ => hp
  | p, n :: names, hp, hget => by
    have hn : ProperName n := (h.storedName hget n (by simp)).toProperName
    have hnext : d.get? (p.locationFrom (.ofLocation d.cwd) ++ [n]) = some .directory :=
      h.get?_prefix hget _ ((List.prefix_append_right_inj _).mpr (by simp))
    refine @Passes.joinNames (p.join ⟨n⟩) names (Passes.join h hn hp hnext) ?_
    rw [Path.locationFrom_join p _ hn, List.append_assoc]
    exact hget

/-- Names below a directory stand for a file if there is one, and if the text of the path can be
looked at. -/
theorem isFile_joinNames_iff {root : Path} {place : Location} {names : List String}
    (hroot : d.lookup true root = .ok (place, .directory)) (hnames : ∀ n ∈ names, ProperName n) :
    d.isFile (joinNames root names) = true ↔ Readable (joinNames root names).text ∧
      ∃ contents, d.get? (place ++ names) = some (.file contents) := by
  have hplace := locationFrom_of_lookup h hroot
  have hbelow : (joinNames root names).locationFrom (.ofLocation d.cwd) = place ++ names := by
    rw [locationFrom_joinNames _ root hnames, hplace]
  rw [isFile_eq_true_iff]
  constructor
  · rintro ⟨target, contents, hlookup⟩
    obtain ⟨hlocate, hget⟩ := lookup_eq_ok_iff.mp hlookup
    obtain ⟨hreadable, -⟩ := locate_eq_ok_iff.mp hlocate
    rw [← locationFrom_of_lookup h hlookup, hbelow] at hget
    exact ⟨hreadable, contents, hget⟩
  · rintro ⟨hreadable, contents, hget⟩
    obtain ⟨-, -, hpasses⟩ := (lookup_eq_directory_iff h).mp hroot
    have hne : names ≠ [] := ne_nil_of_file hroot hget
    obtain ⟨front, last, rfl⟩ : ∃ front last, names = front ++ [last] :=
      ⟨_, _, (List.dropLast_concat_getLast hne).symm⟩
    have hstored : StoredName last := h.storedName hget last (by simp)
    have hparent := h.get?_dropLast hget
    rw [← List.append_assoc, List.dropLast_concat, ← hplace] at hparent
    have hjoin : joinNames root (front ++ [last]) = (joinNames root front).join ⟨last⟩ := by
      simp [Disk.joinNames]
    have hlocate := locate_join h (Passes.joinNames h hpasses hparent) hstored.toProperName
      hstored.short (hjoin ▸ hreadable)
    rw [← locationFrom_cwd h, ← Path.locationFrom_join _ _ hstored.toProperName, ← hjoin,
      hbelow] at hlocate
    exact ⟨_, contents, lookup_eq_ok_iff.mpr ⟨hlocate, hget⟩⟩

end Tree

end Disk

/-- Whether an ignore without wildcards covers names below the base directory. -/
def ScanOptions.Drops (options : ScanOptions) (names : List String) : Prop :=
  ∃ text ∈ options.ignores, Glob.isGlob text = false ∧
    (Path.mk text).inner <+: names.map Component.name

namespace Scan

/-- Whether names below a place lead to a file that is named like a source and that no ignore without
wildcards covers. -/
structure Eligible (d : Disk) (place : Location) (options : ScanOptions) (names : List String) :
    Prop where
  file : ∃ contents, d.get? (place ++ names) = some (.file contents)
  named : names.getLast?.any isSourceName = true
  kept : ¬ options.Drops names

/-- Whether the text of names below a base directory can be looked at, and no pattern stands for
it. -/
def Admits (base : Path) (options : ScanOptions) (names : List String) : Prop :=
  Disk.Readable (Disk.joinNames base names).text ∧
    ∀ pattern ∈ (Ignores.ofOptions base options).patterns,
      Glob.accepts pattern (Disk.joinNames base names).text.toList = false

instance (base : Path) (options : ScanOptions) (names : List String) :
    Decidable (Admits base options names) :=
  inferInstanceAs (Decidable (_ ∧ ∀ pattern ∈ _, _))

/-- Relative ignores without wildcards cover names below a base directory wherever that is. -/
theorem covers_joinNames_iff {base : Path} {options : ScanOptions} {names : List String}
    (hbase : base.text ≠ "") (hnames : ∀ n ∈ names, ProperName n)
    (hrelative : ∀ text ∈ options.ignores, (Path.mk text).isAbsolute = false) :
    (Ignores.ofOptions base options).covers (Disk.joinNames base names) = false ↔
      ¬ options.Drops names ∧ ∀ pattern ∈ (Ignores.ofOptions base options).patterns,
        Glob.accepts pattern (Disk.joinNames base names).text.toList = false := by
  have hpaths : (Ignores.ofOptions base options).paths.any
      (·.isComponentPrefix (Disk.joinNames base names)) = true ↔ options.Drops names := by
    simp only [Ignores.ofOptions, List.any_eq_true, List.mem_map, List.mem_filter,
      Bool.not_eq_true']
    constructor
    · rintro ⟨_, ⟨text, ⟨htext, hglob⟩, rfl⟩, hopens⟩
      rw [Path.isComponentPrefix_iff, Path.components_join_relative hbase (hrelative text htext),
        Disk.components_joinNames base hnames, List.prefix_append_right_inj] at hopens
      exact ⟨text, htext, hglob, hopens⟩
    · rintro ⟨text, htext, hglob, hopens⟩
      refine ⟨_, ⟨text, ⟨htext, hglob⟩, rfl⟩, ?_⟩
      rwa [Path.isComponentPrefix_iff, Path.components_join_relative hbase (hrelative text htext),
        Disk.components_joinNames base hnames, List.prefix_append_right_inj]
  unfold Ignores.covers
  rw [Bool.or_eq_false_iff, ← Bool.not_eq_true, hpaths, List.any_eq_false]
  simp only [Bool.not_eq_true]

section Tree

variable {d : Disk} (h : d.IsTree) {base : Path} {place : Location} {options : ScanOptions}
  (hbase : d.lookup true base = .ok (place, .directory)) (hincludes : options.includes = [])
  (hrelative : ∀ text ∈ options.ignores, (Path.mk text).isAbsolute = false)
include h hbase hincludes hrelative

/-- A scan of all that is below its base lists a file by its names below the base and by its text. -/
theorem mem_places_iff_admits {names : List String} :
    place ++ names ∈ places d (run d base options) ↔
      Eligible d place options names ∧ Admits base options names := by
  obtain ⟨hreadable, -, -⟩ := (Disk.lookup_eq_directory_iff h).mp hbase
  have hplace := Disk.locationFrom_of_lookup h hbase
  have hroots : roots d base options.includes = [base] := by rw [hincludes]; rfl
  rw [mem_places_iff, hroots]
  simp only [List.mem_singleton, exists_eq_left]
  constructor
  · rintro ⟨p, hp, hpPlace⟩
    obtain ⟨hfound, hsource⟩ := List.mem_filter.mp hp
    obtain ⟨below, hbelow, rfl, hbelowPlace⟩ := Disk.exists_of_mem_walk h hfound
    rw [hbelowPlace, hplace, List.append_right_inj] at hpPlace
    subst hpPlace
    unfold isSource at hsource
    simp only [Bool.and_eq_true, Bool.not_eq_true'] at hsource
    obtain ⟨⟨hcovers, hfile⟩, hname⟩ := hsource
    obtain ⟨hshort, contents, hget⟩ := (Disk.isFile_joinNames_iff h hbase hbelow).mp hfile
    obtain ⟨hkept, hpatterns⟩ :=
      (covers_joinNames_iff hreadable.ne_empty hbelow hrelative).mp hcovers
    rw [Path.fileName?_joinNames base (Disk.ne_nil_of_file hbase hget) hbelow] at hname
    exact ⟨⟨⟨contents, hget⟩, hname, hkept⟩, hshort, hpatterns⟩
  · rintro ⟨⟨⟨contents, hget⟩, hname, hkept⟩, hshort, hpatterns⟩
    have hnames : ∀ n ∈ names, ProperName n := fun n hn =>
      (h.storedName hget n (List.mem_append_right _ hn)).toProperName
    have hne := Disk.ne_nil_of_file hbase hget
    refine ⟨Disk.joinNames base names, List.mem_filter.mpr ⟨?_, ?_⟩, ?_⟩
    · exact Disk.mem_walk_iff_lookup.mpr ⟨place, .directory, hbase,
        .inr ⟨rfl, names, hne, by rw [hget]; rfl, rfl⟩⟩
    · have hfile := (Disk.isFile_joinNames_iff h hbase hnames).mpr ⟨hshort, contents, hget⟩
      have hcovers := (covers_joinNames_iff hreadable.ne_empty hnames hrelative).mpr
        ⟨hkept, hpatterns⟩
      rw [isSource, hcovers, hfile, Path.fileName?_joinNames base hne hnames, hname]
      rfl
    · rw [Disk.locationFrom_joinNames _ base hnames, hplace]

end Tree

section Trees

variable {d d' : Disk} (h : d.IsTree) (h' : d'.IsTree) {base base' : Path} {place place' : Location}
  {options : ScanOptions} (hbase : d.lookup true base = .ok (place, .directory))
  (hbase' : d'.lookup true base' = .ok (place', .directory))
  (hsame : ∀ names, d'.get? (place' ++ names) = d.get? (place ++ names))
  (hincludes : options.includes = [])
  (hrelative : ∀ text ∈ options.ignores, (Path.mk text).isAbsolute = false)
include h h' hbase hbase' hsame hincludes hrelative

/-- Two scans of one tree from two bases agree on a file if it is admitted from both bases or from
neither. -/
theorem mem_places_congr_iff (names : List String) :
    (place ++ names ∈ places d (run d base options) ↔
        place' ++ names ∈ places d' (run d' base' options)) ↔
      (Eligible d place options names →
        (Admits base options names ↔ Admits base' options names)) := by
  have heligible : Eligible d' place' options names ↔ Eligible d place options names := by
    constructor
    · rintro ⟨hfile, hnamed, hkept⟩
      exact ⟨hsame names ▸ hfile, hnamed, hkept⟩
    · rintro ⟨hfile, hnamed, hkept⟩
      exact ⟨(hsame names).symm ▸ hfile, hnamed, hkept⟩
  rw [mem_places_iff_admits h hbase hincludes hrelative,
    mem_places_iff_admits h' hbase' hincludes hrelative, heligible]
  exact and_congr_right_iff

/-- Two scans of one tree from two bases list the same files below them exactly if each file that is
eligible is admitted from both bases or from neither. -/
theorem places_congr_iff :
    (∀ names, place ++ names ∈ places d (run d base options) ↔
        place' ++ names ∈ places d' (run d' base' options)) ↔
      ∀ names, Eligible d place options names →
        (Admits base options names ↔ Admits base' options names) :=
  forall_congr' (mem_places_congr_iff h h' hbase hbase' hsame hincludes hrelative)

/-- Without patterns two scans of one tree list the same files if their texts can be looked at. -/
theorem places_congr_of_paths (hpaths : ∀ text ∈ options.ignores, Glob.isGlob text = false)
    (htests : options.ignoreTestFiles = false)
    (hreadable : ∀ names, Eligible d place options names →
      Disk.Readable (Disk.joinNames base names).text ∧
        Disk.Readable (Disk.joinNames base' names).text) (names : List String) :
    place ++ names ∈ places d (run d base options) ↔
      place' ++ names ∈ places d' (run d' base' options) := by
  have hpatterns : ∀ from_, (Ignores.ofOptions from_ options).patterns = [] := by
    intro from_
    have hnone : options.ignores.filter Glob.isGlob = [] :=
      List.filter_eq_nil_iff.mpr fun text htext => by simp [hpaths text htext]
    simp [Ignores.ofOptions, hnone, htests, Ignores.compiled]
  refine (mem_places_congr_iff h h' hbase hbase' hsame hincludes hrelative names).mpr
    fun heligible => ?_
  obtain ⟨hshort, hshort'⟩ := hreadable names heligible
  simp only [Admits, hpatterns, List.not_mem_nil, false_implies, implies_true, and_true, hshort,
    hshort']

end Trees

/-- A disk with one tree in the working directory and below another directory. -/
def copiedApp : Disk :=
  ⟨[(["project"], .directory), (["project", "app"], .directory),
    (["project", "app", "a.ts"], .file (some "")), (["project", "node_modules"], .directory),
    (["project", "node_modules", "app"], .directory),
    (["project", "node_modules", "app", "a.ts"], .file (some ""))], ["project"]⟩

theorem get?_copiedApp (names : List String) :
    copiedApp.get? (["project", "node_modules", "app"] ++ names) =
      copiedApp.get? (["project", "app"] ++ names) := by
  by_cases hnil : names = []
  · subst hnil
    rfl
  · by_cases hfile : ["a.ts"] = names
    · subst hfile
      rfl
    · simp [Disk.get?, copiedApp, Ne.symm hnil, hfile]

/-- A pattern for a directory hides a tree in that directory, and not the same tree beside it. -/
theorem not_places_congr_ancestor : copiedApp.IsTree ∧
    copiedApp.lookup true ⟨"app"⟩ = .ok (["project", "app"], .directory) ∧
    copiedApp.lookup true ⟨"node_modules/app"⟩ =
      .ok (["project", "node_modules", "app"], .directory) ∧
    (∀ names, copiedApp.get? (["project", "node_modules", "app"] ++ names) =
      copiedApp.get? (["project", "app"] ++ names)) ∧
    (Path.mk "**/node_modules/**").isAbsolute = false ∧
    ¬ ∀ names, ["project", "app"] ++ names ∈
          places copiedApp (run copiedApp ⟨"app"⟩ ⟨[], ["**/node_modules/**"], false⟩) ↔
        ["project", "node_modules", "app"] ++ names ∈
          places copiedApp
            (run copiedApp ⟨"node_modules/app"⟩ ⟨[], ["**/node_modules/**"], false⟩) := by
  refine ⟨by decide, by decide +kernel, by decide +kernel, get?_copiedApp, by decide, fun hsame => ?_⟩
  have hfound : ["project", "app"] ++ ["a.ts"] ∈
      places copiedApp (run copiedApp ⟨"app"⟩ ⟨[], ["**/node_modules/**"], false⟩) := by
    decide +kernel
  have hhidden : ["project", "node_modules", "app"] ++ ["a.ts"] ∉
      places copiedApp
        (run copiedApp ⟨"node_modules/app"⟩ ⟨[], ["**/node_modules/**"], false⟩) := by
    decide +kernel
  exact hhidden ((hsame ["a.ts"]).mp hfound)

/-- A pattern for a directory that no base lies in hides the same below two bases. -/
theorem places_congr_dist : copiedApp.IsTree ∧ ∀ names, ["project", "app"] ++ names ∈
      places copiedApp (run copiedApp ⟨"app"⟩ ⟨[], ["api", "**/dist/**"], false⟩) ↔
    ["project", "node_modules", "app"] ++ names ∈
      places copiedApp
        (run copiedApp ⟨"./node_modules/app"⟩ ⟨[], ["api", "**/dist/**"], false⟩) := by
  have htree : copiedApp.IsTree := by decide
  refine ⟨htree, (@places_congr_iff copiedApp copiedApp htree htree ⟨"app"⟩ ⟨"./node_modules/app"⟩
    ["project", "app"] ["project", "node_modules", "app"] ⟨[], ["api", "**/dist/**"], false⟩
    (by decide +kernel) (by decide +kernel) get?_copiedApp rfl (by decide)).mpr ?_⟩
  rintro names ⟨⟨contents, hget⟩, -, -⟩
  have hmem := Disk.IsTree.mem_of_get? hget (by simp)
  obtain ⟨rfl, -⟩ : names = ["a.ts"] ∧ contents = some "" := by simpa [copiedApp] using hmem
  have hadmits : Admits ⟨"app"⟩ ⟨[], ["api", "**/dist/**"], false⟩ ["a.ts"] ∧
      Admits ⟨"./node_modules/app"⟩ ⟨[], ["api", "**/dist/**"], false⟩ ["a.ts"] := by
    decide +kernel
  exact iff_of_true hadmits.1 hadmits.2

end Scan
end FetchClients
