/-
# What a scan finds

A scan lists a text exactly when it is the path of a source: a root, or a path that is
reached from one by going down into directories, that leads to a file with the name of
a source and is not ignored (`Scan.mem_files_iff_isFound`). Links are not gone down
into, the root apart. What is ignored is passed over by itself: a file below an ignored
directory is listed if it is not ignored. So the list does not depend on the order in
which includes, ignores or the entries of the disk are given.

Key definitions: `Disk.IsLinkedTree`, `Disk.Reaches`, `Glob.StandsFor`, `Scan.IsRoot`,
`Scan.IsIgnored`, `NamesSource`, `Scan.IsFound`.
Key theorems: `Disk.mem_walk_iff_reaches`, `Path.extension?_eq_some_iff`,
`Scan.mem_files_iff_isFound`, `Scan.files_eq_of_perm`.
-/
import FetchClients.Proofs.Relocation
import FetchClients.Proofs.Shapes

namespace FetchClients

/-! ### Walks -/

namespace Disk

/-- A tree of files, directories and links that is seen from one of its directories: nothing stands
at a place twice, and each entry stands in a directory that is there. -/
structure IsLinkedTree (d : Disk) : Prop where
  nodup : (d.entries.map Prod.fst).Nodup
  named : ∀ e ∈ d.entries, ∀ n ∈ e.1, StoredName n
  parent : ∀ e ∈ d.entries, d.get? e.1.dropLast = some .directory
  cwd : d.get? d.cwd = some .directory

instance (d : Disk) : Decidable d.IsLinkedTree :=
  decidable_of_iff
    ((d.entries.map Prod.fst).Nodup ∧ (∀ e ∈ d.entries, ∀ n ∈ e.1, StoredName n) ∧
      (∀ e ∈ d.entries, d.get? e.1.dropLast = some .directory) ∧ d.get? d.cwd = some .directory)
    ⟨fun ⟨hnodup, hnamed, hparent, hcwd⟩ => ⟨hnodup, hnamed, hparent, hcwd⟩,
      fun h => ⟨h.nodup, h.named, h.parent, h.cwd⟩⟩

theorem IsLinkedTree.rooted {d : Disk} (h : d.IsLinkedTree) : d.Rooted := by
  intro place hplace
  by_cases hne : place = []
  · simp [get?, hne]
  · obtain ⟨entry, hentry⟩ := (isSome_get?_iff hne).mp hplace
    exact h.parent _ hentry

theorem IsLinkedTree.storedName {d : Disk} (h : d.IsLinkedTree) {place : Location}
    (hplace : (d.get? place).isSome = true) : ∀ n ∈ place, StoredName n := by
  intro n hn
  have hne : place ≠ [] := fun he => by simp [he] at hn
  obtain ⟨entry, hentry⟩ := (isSome_get?_iff hne).mp hplace
  exact h.named _ hentry n hn

/-- The paths that are reached from a root, with the places where they stand: the root, wherever it
leads, and each name in a directory that is reached. A link that is reached is no directory. -/
inductive Reaches (d : Disk) (root : Path) : Path → Location → Prop
  | root {place : Location} {entry : Entry} :
      d.lookup true root = .ok (place, entry) → Reaches d root root place
  | down {p : Path} {place : Location} {name : String} :
      Reaches d root p place → d.get? place = some .directory →
      (d.get? (place ++ [name])).isSome = true → Reaches d root (p.join ⟨name⟩) (place ++ [name])

/-- Names that lead down from a directory reach what stands there. -/
theorem Reaches.of_names {d : Disk} (h : d.Rooted) {root : Path} {place : Location}
    (hroot : d.lookup true root = .ok (place, .directory)) {names : List String}
    (hsome : (d.get? (place ++ names)).isSome = true) :
    d.Reaches root (joinNames root names) (place ++ names) := by
  induction names using List.reverseRecOn with
  | nil =>
    rw [List.append_nil]
    exact .root hroot
  | append_singleton names name ih =>
    rw [← List.append_assoc] at hsome ⊢
    have hdirectory := h _ hsome
    rw [List.dropLast_concat] at hdirectory
    have hjoin : joinNames root (names ++ [name]) = (joinNames root names).join ⟨name⟩ := by
      simp [joinNames]
    rw [hjoin]
    exact .down (ih (by rw [hdirectory]; rfl)) hdirectory hsome

/-- What is reached is the root with names behind it, and only a directory has names behind it. -/
theorem Reaches.exists_names {d : Disk} {root p : Path} {target : Location}
    (h : d.Reaches root p target) : ∃ place entry names, d.lookup true root = .ok (place, entry) ∧
      p = joinNames root names ∧ target = place ++ names ∧
      (names = [] ∨ entry = .directory ∧ (d.get? target).isSome = true) := by
  induction h with
  | @root place entry hroot => exact ⟨place, entry, [], hroot, rfl, by simp, .inl rfl⟩
  | @down p target name _ hdirectory hsome ih =>
    obtain ⟨place, entry, names, hroot, rfl, rfl, hnames⟩ := ih
    refine ⟨place, entry, names ++ [name], hroot, by simp [joinNames], by simp, .inr ⟨?_, hsome⟩⟩
    rcases hnames with rfl | ⟨hentry, -⟩
    · obtain ⟨-, hget⟩ := lookup_eq_ok_iff.mp hroot
      rw [List.append_nil, hget] at hdirectory
      exact Option.some.inj hdirectory
    · exact hentry

/-- A walk finds what is reached from its root. -/
theorem mem_walk_iff_reaches {d : Disk} (h : d.Rooted) {root p : Path} :
    p ∈ (d.walk root).found ↔ ∃ place, d.Reaches root p place := by
  rw [mem_walk_iff_lookup]
  constructor
  · rintro ⟨place, entry, hroot, rfl | ⟨rfl, names, -, hsome, rfl⟩⟩
    · exact ⟨place, .root hroot⟩
    · exact ⟨_, .of_names h hroot hsome⟩
  · rintro ⟨_, hreaches⟩
    obtain ⟨place, entry, names, hroot, rfl, rfl, hnames⟩ := hreaches.exists_names
    refine ⟨place, entry, hroot, ?_⟩
    by_cases hnil : names = []
    · exact .inl (by simp [hnil, joinNames])
    · obtain ⟨hentry, hsome⟩ := hnames.resolve_left hnil
      exact .inr ⟨hentry, names, hnil, hsome, rfl⟩

theorem get?_eq_some_iff_of_nodup {d : Disk} (h : (d.entries.map Prod.fst).Nodup) {place : Location}
    (hne : place ≠ []) {entry : Entry} : d.get? place = some entry ↔ (place, entry) ∈ d.entries := by
  constructor
  · exact fun hget => IsTree.mem_of_get? hget hne
  · intro hmem
    obtain ⟨other, hother⟩ :=
      Option.isSome_iff_exists.mp ((isSome_get?_iff hne).mpr ⟨entry, hmem⟩)
    have hsame := List.inj_on_of_nodup_map h (IsTree.mem_of_get? hother hne) hmem rfl
    rw [hother, (Prod.mk.inj hsame).2]

/-- The order of the entries of a disk is of no account. -/
theorem sameShape_of_perm {d e : Disk} (h : (d.entries.map Prod.fst).Nodup) (hcwd : e.cwd = d.cwd)
    (hperm : e.entries.Perm d.entries) : d.SameShape e where
  cwd := hcwd
  entry place := by
    by_cases hne : place = []
    · exact .inl (by simp [get?, hne])
    · have hnodup : (e.entries.map Prod.fst).Nodup := (hperm.map Prod.fst).nodup_iff.mpr h
      refine .inl (Option.ext fun entry => ?_)
      rw [get?_eq_some_iff_of_nodup hnodup hne, get?_eq_some_iff_of_nodup h hne, hperm.mem_iff]

end Disk

/-! ### Names of sources -/

namespace Path

/-- The extension of a name is what stands behind its last dot, if something stands in front of
that. -/
theorem cutExtension_eq_some_iff {name extension : List Char} :
    (cutExtension name).2 = some extension ↔
      ∃ stem, stem ≠ [] ∧ name = stem ++ '.' :: extension ∧ '.' ∉ extension := by
  unfold cutExtension
  constructor
  · intro h
    split at h
    · cases h
    · cases h
    · rename_i after before hne hcut
      obtain ⟨hname, hnot⟩ := Text.cutAt?_eq_some hcut
      obtain rfl := Option.some.inj h
      refine ⟨before.reverse, fun hnil => hne ?_ , ?_, by simpa using hnot⟩
      · simpa using hnil
      · rw [← List.reverse_reverse name, hname]
        simp
  · rintro ⟨stem, hstem, rfl, hnot⟩
    have hcut : Text.cutAt? '.' (stem ++ '.' :: extension).reverse =
        some (extension.reverse, stem.reverse) := by
      rw [List.reverse_append, List.reverse_cons, List.append_assoc]
      exact Text.cutAt?_append_cons _ (by simpa using hnot)
    rw [hcut]
    split
    · simp_all
    · simp_all
    · rename_i heq
      cases heq
      simp

theorem extension?_name {name : String} (h : ProperName name) :
    (Path.mk name).extension? = (cutExtension name.toList).2.map String.ofList := by
  have hjoin : (Path.mk "").join ⟨name⟩ = ⟨name⟩ := by
    simp [join, not_isAbsolute_name h.not_slash]
  rw [extension?, ← hjoin, fileName?_join _ h]
  rfl

theorem properName_of_fileName? {p : Path} {name : String} (h : p.fileName? = some name) :
    ProperName name := by
  obtain ⟨parent, -, hcomponents⟩ := exists_parent? h
  exact properName_of_mem (p := p) (by simp [hcomponents])

/-- The extension of a name, in texts. -/
theorem extension?_eq_some_iff {name extension : String} (h : ProperName name)
    (hdot : '.' ∉ extension.toList) :
    (Path.mk name).extension? = some extension ↔
      ∃ stem, stem ≠ "" ∧ name = stem ++ ("." ++ extension) := by
  rw [extension?_name h, Option.map_eq_some_iff]
  constructor
  · rintro ⟨text, htext, rfl⟩
    obtain ⟨stem, hstem, hname, -⟩ := cutExtension_eq_some_iff.mp htext
    refine ⟨String.ofList stem, by simpa using hstem, String.ext ?_⟩
    simp [hname]
  · rintro ⟨stem, hstem, rfl⟩
    refine ⟨extension.toList, cutExtension_eq_some_iff.mpr ⟨stem.toList, ?_, ?_, hdot⟩, by simp⟩
    · simpa using hstem
    · simp

end Path

/-- A name with the extension of a script, that is neither that of a declaration file nor that of a
generated one. -/
structure NamesSource (name : String) : Prop where
  extension : ∃ stem, stem ≠ "" ∧ (name = stem ++ ".ts" ∨ name = stem ++ ".tsx")
  not_declarations : ∀ stem, name ≠ stem ++ ".d.ts"
  not_generated : ∀ stem, name ≠ stem ++ "_gen.ts"

theorem endsWith_iff {name suffix : String} :
    name.endsWith suffix = true ↔ ∃ stem, name = stem ++ suffix := by
  have hlist : name.endsWith suffix = true ↔ suffix.toList <:+ name.toList := by
    simpa using @String.Slice.endsWith_string_iff suffix name.toSlice
  rw [hlist]
  constructor
  · rintro ⟨stem, hstem⟩
    exact ⟨String.ofList stem, String.ext (by simp [hstem])⟩
  · rintro ⟨stem, rfl⟩
    exact ⟨stem.toList, by simp⟩

theorem isSourceName_iff {name : String} (h : ProperName name) :
    isSourceName name = true ↔ NamesSource name := by
  have hts := @Path.extension?_eq_some_iff name "ts" h (by decide)
  have htsx := @Path.extension?_eq_some_iff name "tsx" h (by decide)
  have hextension : (∃ stem, stem ≠ "" ∧ (name = stem ++ ".ts" ∨ name = stem ++ ".tsx")) ↔
      (Path.mk name).extension? = some "ts" ∨ (Path.mk name).extension? = some "tsx" := by
    rw [hts, htsx, ← exists_or]
    simp only [← and_or_left]
    rfl
  have hdeclarations := @endsWith_iff name ".d.ts"
  have hgenerated := @endsWith_iff name Client.fileSuffix
  unfold isSourceName
  simp only [Bool.and_eq_true, Bool.or_eq_true, decide_eq_true_eq, Bool.not_eq_true',
    ← Bool.not_eq_true, hdeclarations, hgenerated, ← hextension, not_exists]
  constructor
  · rintro ⟨⟨hnotDeclarations, hnotGenerated⟩, hname⟩
    exact ⟨hname, hnotDeclarations, hnotGenerated⟩
  · rintro ⟨hname, hnotDeclarations, hnotGenerated⟩
    exact ⟨⟨hnotDeclarations, hnotGenerated⟩, hname⟩

/-! ### Patterns -/

namespace Glob

/-- The texts that tokens stand for: one character for a token of one, any text for `*`, and for `**`
nothing, or a text up to a slash, or all of it. -/
inductive Fills : List Token → List Char → Prop
  | done : Fills [] []
  | one {t : Token} {ts : List Token} {c : Char} {cs : List Char} :
      t.accepts c = true → Fills ts cs → Fills (t :: ts) (c :: cs)
  | text {ts : List Token} {cs : List Char} (front : List Char) :
      Fills ts cs → Fills (.anyText :: ts) (front ++ cs)
  | noFolders {ts : List Token} {cs : List Char} : Fills ts cs → Fills (.anyFolders :: ts) cs
  | folders {ts : List Token} {cs : List Char} (front : List Char) :
      Fills ts cs → Fills (.anyFolders :: ts) (front ++ '/' :: cs)
  | allFolders {ts : List Token} (cs : List Char) : Fills ts [] → Fills (.anyFolders :: ts) cs

theorem mem_suffixes_iff : ∀ {text rest : List Char}, rest ∈ suffixes text ↔ rest <:+ text
  | [], rest => by simp [suffixes]
  | c :: cs, rest => by simp [suffixes, mem_suffixes_iff, List.suffix_cons_iff]

theorem mem_belowSlashes_iff : ∀ {text rest : List Char},
    rest ∈ belowSlashes text ↔ rest = [] ∨ '/' :: rest <:+ text
  | [], rest => by simp [belowSlashes]
  | c :: cs, rest => by
    by_cases hc : c = '/'
    · subst hc
      simp only [belowSlashes, if_true, List.mem_cons, mem_belowSlashes_iff, List.suffix_cons_iff,
        List.cons.injEq, true_and]
      tauto
    · simp only [belowSlashes, if_neg hc, mem_belowSlashes_iff, List.suffix_cons_iff,
        List.cons.injEq, Ne.symm hc, false_and, false_or]

theorem fills_anyText_iff {ts : List Token} {text : List Char} :
    Fills (.anyText :: ts) text ↔ ∃ rest, rest <:+ text ∧ Fills ts rest := by
  constructor
  · intro h
    cases h with
    | one ht _ => cases ht
    | text front hrest => exact ⟨_, List.suffix_append front _, hrest⟩
  · rintro ⟨rest, ⟨front, rfl⟩, hrest⟩
    exact .text front hrest

theorem fills_anyFolders_iff {ts : List Token} {text : List Char} :
    Fills (.anyFolders :: ts) text ↔
      Fills ts text ∨ ∃ rest, (rest = [] ∨ '/' :: rest <:+ text) ∧ Fills ts rest := by
  constructor
  · intro h
    cases h with
    | one ht _ => cases ht
    | noFolders hrest => exact .inl hrest
    | folders front hrest => exact .inr ⟨_, .inr (List.suffix_append front _), hrest⟩
    | allFolders _ hrest => exact .inr ⟨[], .inl rfl, hrest⟩
  · rintro (hrest | ⟨rest, rfl | ⟨front, rfl⟩, hrest⟩)
    · exact .noFolders hrest
    · exact .allFolders text hrest
    · exact .folders front hrest

/-- A token for one character stands for no other text. -/
theorem fills_one_iff {t : Token} {ts : List Token} {text : List Char} (htext : t ≠ .anyText)
    (hfolders : t ≠ .anyFolders) :
    Fills (t :: ts) text ↔ ∃ c cs, text = c :: cs ∧ t.accepts c = true ∧ Fills ts cs := by
  constructor
  · intro h
    cases h with
    | one ht hrest => exact ⟨_, _, rfl, ht, hrest⟩
    | text => exact absurd rfl htext
    | noFolders | folders | allFolders => exact absurd rfl hfolders
  · rintro ⟨c, cs, rfl, ht, hrest⟩
    exact .one ht hrest

theorem accepts_iff_fills : ∀ {ts : List Token} {text : List Char},
    accepts ts text = true ↔ Fills ts text
  | [], text => by
    rw [accepts, List.isEmpty_iff]
    constructor
    · rintro rfl
      exact .done
    · rintro ⟨⟩
      rfl
  | t :: ts, text => by
    have ih := @accepts_iff_fills ts
    by_cases htext : t = .anyText
    · subst htext
      rw [accepts, fills_anyText_iff]
      simp only [List.any_eq_true, mem_suffixes_iff, ih]
    · by_cases hfolders : t = .anyFolders
      · subst hfolders
        rw [accepts, fills_anyFolders_iff]
        simp only [List.any_eq_true, List.mem_cons, mem_belowSlashes_iff, ih, or_and_right,
          exists_or, exists_eq_left]
      · rw [fills_one_iff htext hfolders]
        cases text with
        | nil => cases t <;> simp_all [accepts]
        | cons c cs => cases t <;> simp_all [accepts]

/-- Whether a text is a pattern that stands for another text. -/
def StandsFor (pattern text : String) : Prop :=
  ∃ tokens, compile pattern = .ok tokens ∧ Fills tokens text.toList

end Glob

/-! ### Scans -/

/-- The options of a scan in which nothing is ignored. -/
def ScanOptions.unfiltered (options : ScanOptions) : ScanOptions :=
  { options with ignores := [], ignoreTestFiles := false }

namespace Scan

/-- The roots of a scan: the base if there are no includes, and else what the includes lead to. A
root of a pattern is spelled as the search for the pattern spells it. -/
inductive IsRoot (d : Disk) (base : Path) (includes : List String) : Path → Prop
  | base : includes = [] → IsRoot d base includes base
  | path {text : String} :
      text ∈ includes → Glob.isGlob text = false → d.has (base.join ⟨text⟩) = true →
      IsRoot d base includes (base.join ⟨text⟩)
  | pattern {text : String} {paths : List Path} {root : Path} :
      text ∈ includes → Glob.isGlob text = true →
      Glob.expand d (base.join ⟨text⟩).text = .ok paths → root ∈ paths →
      d.isDirectory root = true → IsRoot d base includes root

/-- The paths that are passed over: at or below an ignored path, and those that an ignored pattern
stands for, or the pattern of a test file if these are not wanted. -/
inductive IsIgnored (base : Path) (options : ScanOptions) (p : Path) : Prop
  | path {text : String} :
      text ∈ options.ignores → Glob.isGlob text = false →
      (base.join ⟨text⟩).components <+: p.components → IsIgnored base options p
  | pattern {text : String} :
      text ∈ options.ignores → Glob.isGlob text = true → Glob.StandsFor text p.text →
      IsIgnored base options p
  | test {text : String} :
      options.ignoreTestFiles = true → text ∈ testPatterns → Glob.StandsFor text p.text →
      IsIgnored base options p

/-- The paths of the sources of a project. -/
structure IsFound (d : Disk) (base : Path) (options : ScanOptions) (p : Path) : Prop where
  reached : ∃ root, IsRoot d base options.includes root ∧ ∃ place, d.Reaches root p place
  file : ∃ place contents, d.lookup true p = .ok (place, .file contents)
  named : ∃ name, p.fileName? = some name ∧ NamesSource name
  kept : ¬ IsIgnored base options p

theorem mem_includeRoots_iff {d : Disk} {base root : Path} {text : String} :
    root ∈ includeRoots d base text ↔
      Glob.isGlob text = false ∧ d.has (base.join ⟨text⟩) = true ∧ root = base.join ⟨text⟩ ∨
      Glob.isGlob text = true ∧ ∃ paths, Glob.expand d (base.join ⟨text⟩).text = .ok paths ∧
        root ∈ paths ∧ d.isDirectory root = true := by
  unfold includeRoots
  cases hglob : Glob.isGlob text with
  | false =>
    cases hhas : d.has (base.join ⟨text⟩) <;> simp [hhas]
  | true =>
    cases hexpand : Glob.expand d (base.join ⟨text⟩).text <;> simp [hexpand]

theorem mem_roots_iff_isRoot {d : Disk} {base root : Path} {includes : List String} :
    root ∈ roots d base includes ↔ IsRoot d base includes root := by
  have hnil : includes.isEmpty = true ↔ includes = [] := List.isEmpty_iff
  unfold roots
  constructor
  · intro hroot
    split at hroot
    · rename_i hempty
      obtain rfl := List.mem_singleton.mp hroot
      exact .base (hnil.mp hempty)
    · obtain ⟨text, htext, hroot⟩ := List.mem_flatMap.mp hroot
      rcases mem_includeRoots_iff.mp hroot with
        ⟨hglob, hhas, rfl⟩ | ⟨hglob, paths, hexpand, hpaths, hdirectory⟩
      · exact .path htext hglob hhas
      · exact .pattern htext hglob hexpand hpaths hdirectory
  · intro hroot
    cases hroot with
    | base hincludes => simp [hincludes]
    | path htext hglob hhas =>
      rw [if_neg fun hempty => List.ne_nil_of_mem htext (hnil.mp hempty)]
      exact List.mem_flatMap.mpr ⟨_, htext, mem_includeRoots_iff.mpr (.inl ⟨hglob, hhas, rfl⟩)⟩
    | pattern htext hglob hexpand hpaths hdirectory =>
      rw [if_neg fun hempty => List.ne_nil_of_mem htext (hnil.mp hempty)]
      exact List.mem_flatMap.mpr ⟨_, htext,
        mem_includeRoots_iff.mpr (.inr ⟨hglob, _, hexpand, hpaths, hdirectory⟩)⟩

/-- Some of the patterns that are compiled accept a text if one of them stands for it. -/
theorem any_compiled_iff {patterns : List String} {text : String} :
    (Ignores.compiled patterns).any (Glob.accepts · text.toList) = true ↔
      ∃ pattern ∈ patterns, Glob.StandsFor pattern text := by
  simp only [Ignores.compiled, List.any_eq_true, List.mem_filterMap, Glob.StandsFor,
    ← Glob.accepts_iff_fills]
  constructor
  · rintro ⟨tokens, ⟨pattern, hpattern, hcompile⟩, haccepts⟩
    refine ⟨pattern, hpattern, tokens, ?_, haccepts⟩
    cases hresult : Glob.compile pattern <;> simp_all [Except.toOption]
  · rintro ⟨pattern, hpattern, tokens, hcompile, haccepts⟩
    exact ⟨tokens, ⟨pattern, hpattern, by simp [hcompile, Except.toOption]⟩, haccepts⟩

theorem covers_iff_isIgnored {base p : Path} {options : ScanOptions} :
    (Ignores.ofOptions base options).covers p = true ↔ IsIgnored base options p := by
  have hpaths : (Ignores.ofOptions base options).paths.any (·.isComponentPrefix p) = true ↔
      ∃ text ∈ options.ignores, Glob.isGlob text = false ∧
        (base.join ⟨text⟩).components <+: p.components := by
    simp only [Ignores.ofOptions, List.any_eq_true, List.mem_map, List.mem_filter,
      Bool.not_eq_true', Path.isComponentPrefix_iff]
    constructor
    · rintro ⟨_, ⟨text, ⟨htext, hglob⟩, rfl⟩, hopens⟩
      exact ⟨text, htext, hglob, hopens⟩
    · rintro ⟨text, htext, hglob, hopens⟩
      exact ⟨_, ⟨text, ⟨htext, hglob⟩, rfl⟩, hopens⟩
  have hpatterns : (Ignores.ofOptions base options).patterns.any
      (Glob.accepts · p.text.toList) = true ↔
        (∃ text ∈ options.ignores, Glob.isGlob text = true ∧ Glob.StandsFor text p.text) ∨
        options.ignoreTestFiles = true ∧ ∃ text ∈ testPatterns, Glob.StandsFor text p.text := by
    rw [Ignores.ofOptions, List.any_append, Bool.or_eq_true, any_compiled_iff]
    refine or_congr (by simp [and_assoc]) ?_
    cases options.ignoreTestFiles
    · simp
    · simpa using any_compiled_iff
  unfold Ignores.covers
  rw [Bool.or_eq_true, hpaths, hpatterns]
  constructor
  · rintro (⟨text, htext, hglob, hopens⟩ | ⟨text, htext, hglob, hstands⟩ | ⟨htests, text, htext, hstands⟩)
    · exact .path htext hglob hopens
    · exact .pattern htext hglob hstands
    · exact .test htests htext hstands
  · intro hignored
    cases hignored with
    | path htext hglob hopens => exact .inl ⟨_, htext, hglob, hopens⟩
    | pattern htext hglob hstands => exact .inr (.inl ⟨_, htext, hglob, hstands⟩)
    | test htests htext hstands => exact .inr (.inr ⟨htests, _, htext, hstands⟩)

theorem isSource_iff {d : Disk} {base p : Path} {options : ScanOptions} :
    isSource d (.ofOptions base options) p = true ↔
      ¬ IsIgnored base options p ∧ (∃ place contents, d.lookup true p = .ok (place, .file contents)) ∧
        ∃ name, p.fileName? = some name ∧ NamesSource name := by
  have hnamed : p.fileName?.any isSourceName = true ↔
      ∃ name, p.fileName? = some name ∧ NamesSource name := by
    rw [Option.any_eq_true]
    exact exists_congr fun name => and_congr_right fun hname =>
      isSourceName_iff (Path.properName_of_fileName? hname)
  rw [isSource, Bool.and_eq_true, Bool.and_eq_true, Bool.not_eq_true', ← Bool.not_eq_true,
    covers_iff_isIgnored, Disk.isFile_eq_true_iff, hnamed, and_assoc]

/-- A scan lists the paths of sources, and no others. -/
theorem mem_files_iff_isFound {d : Disk} (h : d.Rooted) {base : Path} {options : ScanOptions}
    {text : String} : text ∈ (run d base options).files ↔ IsFound d base options ⟨text⟩ := by
  rw [mem_files_iff]
  simp only [mem_roots_iff_isRoot, Disk.mem_walk_iff_reaches h, isSource_iff]
  constructor
  · rintro ⟨root, hroot, p, hreached, ⟨hkept, hfile, hnamed⟩, rfl⟩
    exact ⟨⟨root, hroot, hreached⟩, hfile, hnamed, hkept⟩
  · rintro ⟨⟨root, hroot, hreached⟩, hfile, hnamed, hkept⟩
    exact ⟨root, hroot, ⟨text⟩, hreached, ⟨hkept, hfile, hnamed⟩, rfl⟩

theorem not_isIgnored_unfiltered {base p : Path} {options : ScanOptions} :
    ¬ IsIgnored base options.unfiltered p := by
  intro h
  cases h with
  | path htext | pattern htext => exact absurd htext List.not_mem_nil
  | test htests => exact absurd htests Bool.false_ne_true

/-- Only what is ignored is left out. -/
theorem isFound_iff_unfiltered {d : Disk} {base p : Path} {options : ScanOptions} :
    IsFound d base options p ↔
      IsFound d base options.unfiltered p ∧ ¬ IsIgnored base options p :=
  ⟨fun h => ⟨⟨h.reached, h.file, h.named, not_isIgnored_unfiltered⟩, h.kept⟩,
    fun ⟨h, hkept⟩ => ⟨h.reached, h.file, h.named, hkept⟩⟩

/-! ### Order -/

section Order

variable {d : Disk} {base p : Path} {options order : ScanOptions}

theorem IsRoot.of_perm {includes others : List String} (hperm : includes.Perm others)
    (h : IsRoot d base includes p) : IsRoot d base others p := by
  cases h with
  | base hincludes => exact .base (hincludes ▸ hperm.symm).eq_nil
  | path htext hglob hhas => exact .path (hperm.mem_iff.mp htext) hglob hhas
  | pattern htext hglob hexpand hpaths hdirectory =>
    exact .pattern (hperm.mem_iff.mp htext) hglob hexpand hpaths hdirectory

theorem IsIgnored.of_perm (hperm : options.ignores.Perm order.ignores)
    (htests : options.ignoreTestFiles = order.ignoreTestFiles) (h : IsIgnored base options p) :
    IsIgnored base order p := by
  cases h with
  | path htext hglob hopens => exact .path (hperm.mem_iff.mp htext) hglob hopens
  | pattern htext hglob hstands => exact .pattern (hperm.mem_iff.mp htext) hglob hstands
  | test hwanted htext hstands => exact .test (htests ▸ hwanted) htext hstands

variable (hincludes : options.includes.Perm order.includes)
  (hignores : options.ignores.Perm order.ignores)
  (htests : options.ignoreTestFiles = order.ignoreTestFiles)
include hincludes hignores htests

theorem IsFound.of_perm (h : IsFound d base options p) : IsFound d base order p where
  reached := by
    obtain ⟨root, hroot, hreached⟩ := h.reached
    exact ⟨root, hroot.of_perm hincludes, hreached⟩
  file := h.file
  named := h.named
  kept hignored := h.kept (hignored.of_perm hignores.symm htests.symm)

/-- A scan lists the same for includes and ignores in another order, on a disk with its entries in
another order. -/
theorem files_eq_of_perm {e : Disk} (h : d.IsLinkedTree) (hcwd : e.cwd = d.cwd)
    (hentries : e.entries.Perm d.entries) : (run e base order).files = (run d base options).files := by
  have hmem : ∀ text, text ∈ (run d base order).files ↔ text ∈ (run d base options).files := by
    intro text
    rw [mem_files_iff_isFound h.rooted, mem_files_iff_isFound h.rooted]
    exact ⟨.of_perm hincludes.symm hignores.symm htests.symm, .of_perm hincludes hignores htests⟩
  rw [files_of_sameShape (Disk.sameShape_of_perm h.nodup hcwd hentries)]
  unfold run at hmem ⊢
  simp only [Text.mem_sorted] at hmem
  exact Text.sorted_congr hmem

end Order

/-- A scan is sound and complete: it lists the paths of sources and no others, what it ignores hides
nothing else, and the order of includes, ignores and entries is of no account. -/
theorem files_sound_and_complete {d : Disk} (h : d.IsLinkedTree) (base : Path)
    (options : ScanOptions) :
    (∀ text, text ∈ (run d base options).files ↔ IsFound d base options ⟨text⟩) ∧
      (∀ text, text ∈ (run d base options).files ↔
        text ∈ (run d base options.unfiltered).files ∧ ¬ IsIgnored base options ⟨text⟩) ∧
      ∀ (e : Disk) (order : ScanOptions), e.cwd = d.cwd → e.entries.Perm d.entries →
        options.includes.Perm order.includes → options.ignores.Perm order.ignores →
        options.ignoreTestFiles = order.ignoreTestFiles →
        (run e base order).files = (run d base options).files := by
  refine ⟨fun text => mem_files_iff_isFound h.rooted, fun text => ?_, ?_⟩
  · rw [mem_files_iff_isFound h.rooted, mem_files_iff_isFound h.rooted]
    exact isFound_iff_unfiltered
  · intro e order hcwd hentries hincludes hignores htests
    exact files_eq_of_perm hincludes hignores htests h hcwd hentries

/-- A tree with a link to a source and one to a directory of sources. -/
def linkedSources : Disk where
  entries := [
    (["lib"], .directory),
    (["lib", "user.ts"], .file none),
    (["src"], .directory),
    (["src", "gen"], .directory),
    (["src", "gen", "api.ts"], .file none),
    (["src", "lib"], .link "../lib"),
    (["src", "user.ts"], .link "../lib/user.ts")]
  cwd := []

/-- A linked source is found and a source in an ignored directory, but none in a linked directory. -/
theorem files_sound_and_complete_linked : linkedSources.IsLinkedTree ∧
    IsFound linkedSources ⟨"."⟩ ⟨["src"], ["*/gen"], true⟩ ⟨"./src/user.ts"⟩ ∧
    IsFound linkedSources ⟨"."⟩ ⟨["src"], ["*/gen"], true⟩ ⟨"./src/gen/api.ts"⟩ ∧
    ¬ IsFound linkedSources ⟨"."⟩ ⟨["src"], ["*/gen"], true⟩ ⟨"./src/lib/user.ts"⟩ := by
  have htree : linkedSources.IsLinkedTree := by decide +kernel
  have hfiles : (run linkedSources ⟨"."⟩ ⟨["src"], ["*/gen"], true⟩).files =
      ["./src/gen/api.ts", "./src/user.ts"] := by decide +kernel
  obtain ⟨hfound, -, -⟩ := files_sound_and_complete htree ⟨"."⟩ ⟨["src"], ["*/gen"], true⟩
  rw [hfiles] at hfound
  exact ⟨htree, (hfound _).mp (by simp), (hfound _).mp (by simp),
    fun h => absurd ((hfound _).mpr h) (by simp)⟩

end Scan
end FetchClients
