/-
# Sources that are found from more than one root

A scan keeps a text once, and the text of a source is that of the root it was
found from with names behind it (`Disk.exists_of_mem_walk`). So a source below two
roots is kept once only if both roots spell its path alike: if one root lies in
the other, its text has to be the text of the outer root with the names between
the two behind it, up to a slash at the end. The sources of a scan are different
files exactly when this holds for all roots that share a source
(`Scan.nodup_places_iff`).

Key definitions: `Path.front`, `Scan.sourcesBelow`, `Scan.places`, `Scan.Share`.
Key theorems: `Disk.front_joinNames_iff`, `Disk.exists_of_mem_walk`,
`Scan.nodup_places_iff`.
-/
import FetchClients.Proofs.Places
import FetchClients.Scan
import Mathlib.Data.List.Nodup

namespace FetchClients

namespace Path

/-- What stands in front of a name below a path: the text of the path up to a slash. -/
def front (p : Path) : List Char :=
  if p.text.toList = [] ∨ p.text.toList.getLast? = some '/' then p.text.toList
  else p.text.toList ++ ['/']

theorem toList_join_eq_front (p : Path) {name : String} (h : ProperName name) :
    (p.join ⟨name⟩).text.toList = p.front ++ name.toList := by
  rw [toList_join p h, front]
  split <;> simp

/-- Only paths with the same front are the same with a name below them. -/
theorem front_join_iff {p q : Path} {name : String} (h : ProperName name) :
    (p.join ⟨name⟩).front = (q.join ⟨name⟩).front ↔ p.front = q.front := by
  have hname : name.toList ≠ [] := fun he => h.ne_empty (String.ext he)
  have hfront : ∀ r : Path, (r.join ⟨name⟩).front = r.front ++ (name.toList ++ ['/']) := by
    intro r
    have htext := toList_join_eq_front r h
    have hlast : name.toList.getLast? ≠ some '/' := fun he =>
      h.not_slash (List.mem_of_getLast? he)
    have hend : ¬ (r.front ++ name.toList = [] ∨
        (r.front ++ name.toList).getLast? = some '/') := by
      rw [List.getLast?_append_of_ne_nil _ hname]
      simp [hname, hlast]
    rw [front, htext, if_neg hend, List.append_assoc]
  rw [hfront, hfront, List.append_left_inj]

theorem body_of_slash {p : Path} (h : p.text.toList.getLast? = some '/') :
    ∃ kept, p.body.2 = kept ++ [[]] := by
  obtain ⟨inner, htext, hinner⟩ := exists_inner p
  rw [body_eq_of_toList htext hinner]
  rcases List.eq_nil_or_concat inner with rfl | ⟨before, last, rfl⟩
  · exact ⟨[], rfl⟩
  · rw [List.concat_eq_append] at htext ⊢
    rw [htext, ← List.append_assoc, List.getLast?_concat] at h
    obtain rfl := Option.some.inj h
    exact ⟨Text.fields '/' before, Text.fields_append_sep before []⟩

end Path

namespace Disk

/-- Only paths with the same front are the same with names below them. -/
theorem front_joinNames_iff : ∀ {p q : Path} {names : List String}, (∀ n ∈ names, ProperName n) →
    ((joinNames p names).front = (joinNames q names).front ↔ p.front = q.front)
  | _, _, [], _ => Iff.rfl
  | p, q, n :: names, h => by
    obtain ⟨hn, hnames⟩ := List.forall_mem_cons.mp h
    have ih := @front_joinNames_iff (p.join ⟨n⟩) (q.join ⟨n⟩) names hnames
    exact ih.trans (Path.front_join_iff hn)

/-- Names below a path are its last components. -/
theorem components_joinNames : ∀ (p : Path) {names : List String}, (∀ n ∈ names, ProperName n) →
    (joinNames p names).components = p.components ++ names.map .name
  | p, [], _ => by simp [joinNames]
  | p, n :: names, h => by
    obtain ⟨hn, hnames⟩ := List.forall_mem_cons.mp h
    have ih := components_joinNames (p.join ⟨n⟩) hnames
    rw [Path.components_join p hn, List.append_assoc] at ih
    exact ih

theorem locationFrom_joinNames (cwd p : Path) {names : List String}
    (h : ∀ n ∈ names, ProperName n) :
    (joinNames p names).locationFrom cwd = p.locationFrom cwd ++ names :=
  Path.locationFrom_append cwd (components_joinNames p h)

theorem mem_below_iff {d : Disk} {place : Location} {names : List String} {entry : Entry} :
    (names, entry) ∈ d.below place ↔ names ≠ [] ∧ (place ++ names, entry) ∈ d.entries := by
  unfold below
  rw [List.mem_filterMap]
  constructor
  · rintro ⟨⟨other, found⟩, hmem, hmatch⟩
    dsimp only at hmatch
    split at hmatch
    · rename_i name rest hrest
      cases hmatch
      rw [List.isPrefixOf?_eq_some_iff_append_eq.mp hrest]
      exact ⟨List.cons_ne_nil _ _, hmem⟩
    · cases hmatch
  · rintro ⟨hne, hmem⟩
    obtain ⟨name, rest, rfl⟩ := List.exists_cons_of_ne_nil hne
    refine ⟨_, hmem, ?_⟩
    have hrest : place.isPrefixOf? (place ++ name :: rest) = some (name :: rest) :=
      List.isPrefixOf?_eq_some_iff_append_eq.mpr rfl
    simp only [hrest]

section Tree

variable {d : Disk} (h : d.IsTree)
include h

/-- What a walk finds is the root with names behind it, at these names below the root. -/
theorem exists_of_mem_walk {root p : Path} (hp : p ∈ (d.walk root).found) :
    ∃ names, (∀ n ∈ names, ProperName n) ∧ p = joinNames root names ∧
      p.locationFrom (.ofLocation d.cwd) = root.locationFrom (.ofLocation d.cwd) ++ names := by
  suffices hnames : ∃ names, (∀ n ∈ names, ProperName n) ∧ p = joinNames root names by
    obtain ⟨names, hproper, rfl⟩ := hnames
    exact ⟨names, hproper, rfl, locationFrom_joinNames _ root hproper⟩
  unfold walk at hp
  split at hp
  · simp at hp
  · unfold walkFrom at hp
    split at hp
    · rename_i place
      rcases List.mem_cons.mp hp with rfl | hp
      · exact ⟨[], by simp, rfl⟩
      · unfold pathsBelow at hp
        obtain ⟨⟨names, entry⟩, hbelow, rfl⟩ := List.mem_map.mp hp
        refine ⟨names, fun n hn => ?_, rfl⟩
        obtain ⟨-, hentry⟩ := mem_below_iff.mp hbelow
        exact (h.named _ hentry n (List.mem_append_right _ hn)).toProperName
    · rw [List.mem_singleton.mp hp]
      exact ⟨[], by simp, rfl⟩

/-- The text of a path that leads to a file has no slash at its end. -/
theorem front_of_isFile {p : Path} (hfile : d.isFile p = true) :
    p.front = p.text.toList ++ ['/'] := by
  obtain ⟨place, contents, hlookup⟩ := isFile_eq_true_iff.mp hfile
  obtain ⟨hlocate, hget⟩ := lookup_eq_ok_iff.mp hlookup
  obtain ⟨hreadable, hresolve⟩ := locate_eq_ok_iff.mp hlocate
  have hempty : p.text.toList ≠ [] := fun he => hreadable.ne_empty (String.ext he)
  have hslash : p.text.toList.getLast? ≠ some '/' := by
    intro hlast
    obtain ⟨kept, hkept⟩ := Path.body_of_slash hlast
    rw [hkept, resolve_append_eq_ok_iff h] at hresolve
    obtain ⟨mid, -, hend⟩ := hresolve
    rw [resolve_cons_eq_ok_iff h, along, if_pos rfl, resolve_nil] at hend
    obtain ⟨hdirectory, -, hsame⟩ := hend
    rw [Except.ok.inj hsame, hget] at hdirectory
    cases hdirectory
  rw [Path.front, if_neg (by simp [hempty, hslash])]

end Tree

end Disk

namespace Scan

/-- The sources that are found from a root. -/
def sourcesBelow (d : Disk) (ignores : Ignores) (root : Path) : List Path :=
  (d.walk root).found.filter (isSource d ignores)

/-- The places of the sources of a scan. -/
def places (d : Disk) (scan : Scan) : List Location :=
  scan.files.map fun text => (Path.mk text).locationFrom (.ofLocation d.cwd)

/-- Whether a source is found from two roots. -/
def Share (d : Disk) (ignores : Ignores) (outer inner : Path) : Prop :=
  ∃ p ∈ sourcesBelow d ignores outer, ∃ q ∈ sourcesBelow d ignores inner,
    p.locationFrom (.ofLocation d.cwd) = q.locationFrom (.ofLocation d.cwd)

theorem mem_files_iff_sourcesBelow {d : Disk} {base : Path} {options : ScanOptions} {text : String} :
    text ∈ (run d base options).files ↔ ∃ root ∈ roots d base options.includes,
      Path.mk text ∈ sourcesBelow d (.ofOptions base options) root := by
  rw [mem_files_iff]
  constructor
  · rintro ⟨root, hroot, p, hp, hsource, rfl⟩
    exact ⟨root, hroot, List.mem_filter.mpr ⟨hp, hsource⟩⟩
  · rintro ⟨root, hroot, hp⟩
    obtain ⟨hp, hsource⟩ := List.mem_filter.mp hp
    exact ⟨root, hroot, _, hp, hsource, rfl⟩

/-- A source is a file, and none that is named like a generated one. -/
theorem fileName?_of_mem_files {d : Disk} {base : Path} {options : ScanOptions} {text : String}
    (h : text ∈ (run d base options).files) : d.isFile ⟨text⟩ = true ∧
      ∃ name, (Path.mk text).fileName? = some name ∧
        name.endsWith Client.fileSuffix = false := by
  obtain ⟨_, _, p, _, hsource, rfl⟩ := mem_files_iff.mp h
  unfold isSource at hsource
  simp only [Bool.and_eq_true, Option.any_eq_true] at hsource
  obtain ⟨⟨-, hfile⟩, name, hname, hsourceName⟩ := hsource
  refine ⟨hfile, name, hname, ?_⟩
  unfold isSourceName at hsourceName
  simp only [Bool.and_eq_true, Bool.not_eq_true'] at hsourceName
  exact hsourceName.1.2

section Tree

variable {d : Disk} (h : d.IsTree) {ignores : Ignores}
include h

theorem front_of_mem_sourcesBelow {root p : Path} (hp : p ∈ sourcesBelow d ignores root) :
    p.front = p.text.toList ++ ['/'] := by
  obtain ⟨-, hsource⟩ := List.mem_filter.mp hp
  unfold isSource at hsource
  simp only [Bool.and_eq_true] at hsource
  exact Disk.front_of_isFile h hsource.1.2

/-- A source that is found from a root and from one in it has one text exactly when the roots are
spelled alike. -/
theorem text_eq_iff {outer inner p q : Path} {names : List String}
    (hinner : inner.locationFrom (.ofLocation d.cwd) =
      outer.locationFrom (.ofLocation d.cwd) ++ names)
    (hp : p ∈ sourcesBelow d ignores outer) (hq : q ∈ sourcesBelow d ignores inner)
    (hsame : p.locationFrom (.ofLocation d.cwd) = q.locationFrom (.ofLocation d.cwd)) :
    p.text = q.text ↔ inner.front = (Disk.joinNames outer names).front := by
  obtain ⟨below, -, hpBelow, hpPlace⟩ := Disk.exists_of_mem_walk h (List.mem_filter.mp hp).1
  obtain ⟨more, hmore, hqMore, hqPlace⟩ := Disk.exists_of_mem_walk h (List.mem_filter.mp hq).1
  have hsplit : below = names ++ more := by
    rw [hpPlace, hqPlace, hinner, List.append_assoc] at hsame
    exact List.append_cancel_left hsame
  have hpText : p = Disk.joinNames (Disk.joinNames outer names) more := by
    rw [hpBelow, hsplit, Disk.joinNames, List.foldl_append]
    rfl
  have hfronts : p.front = q.front ↔ inner.front = (Disk.joinNames outer names).front := by
    rw [hpText, hqMore, Disk.front_joinNames_iff hmore]
    exact eq_comm
  rw [← hfronts, front_of_mem_sourcesBelow h hp, front_of_mem_sourcesBelow h hq,
    List.append_left_inj, String.toList_inj]

end Tree

/-- The roots of includes without wildcards are those that are there. -/
theorem mem_roots_iff {d : Disk} {base root : Path} {includes : List String} (hne : includes ≠ [])
    (hglob : ∀ text ∈ includes, Glob.isGlob text = false) :
    root ∈ roots d base includes ↔
      ∃ text ∈ includes, root = base.join ⟨text⟩ ∧ d.has root = true := by
  have hempty : ¬ includes.isEmpty = true := by simpa using hne
  rw [roots, if_neg hempty, List.mem_flatMap]
  refine exists_congr fun text => and_congr_right fun htext => ?_
  rw [includeRoots, hglob text htext, if_neg Bool.false_ne_true]
  cases hhas : d.has (base.join ⟨text⟩) with
  | false =>
    simp only [Bool.false_eq_true, if_false, List.not_mem_nil, false_iff, not_and]
    rintro rfl
    simp [hhas]
  | true =>
    rw [if_pos rfl, List.mem_singleton]
    constructor
    · rintro rfl
      exact ⟨rfl, hhas⟩
    · exact fun hroot => hroot.1

/-- A file in a root is a source that is found from it if its name is that of a source. -/
theorem join_mem_sourcesBelow {d : Disk} (h : d.IsTree) {ignores : Ignores} {root : Path}
    {name : String} {contents : Option String} (hdirectory : d.isDirectory root = true)
    (hget : d.get? (root.locationFrom (.ofLocation d.cwd) ++ [name]) = some (.file contents))
    (hreadable : Disk.Readable (root.join ⟨name⟩).text) (hname : isSourceName name = true)
    (hcovers : ignores.covers (root.join ⟨name⟩) = false) :
    root.join ⟨name⟩ ∈ sourcesBelow d ignores root := by
  have hstored : Disk.StoredName name := h.storedName hget name (by simp)
  obtain ⟨place, hlookup⟩ := Disk.isDirectory_eq_true_iff.mp hdirectory
  have hplace := Disk.locationFrom_of_lookup h hlookup
  have hentry : ([name], .file contents) ∈ d.below place := by
    rw [Disk.mem_below_iff, ← hplace]
    exact ⟨List.cons_ne_nil _ _, Disk.IsTree.mem_of_get? hget (by simp)⟩
  have hfound : root.join ⟨name⟩ ∈ (d.walk root).found := by
    have hwalk : d.walk root = ⟨root :: d.pathsBelow root place, 0⟩ := by
      rw [Disk.walk, hlookup]
      rfl
    rw [hwalk]
    exact List.mem_cons_of_mem _ (List.mem_map.mpr ⟨_, hentry, rfl⟩)
  have hfile : d.isFile (root.join ⟨name⟩) = true := by
    obtain ⟨-, -, hpasses⟩ := (Disk.lookup_eq_directory_iff h).mp hlookup
    have hlocate := Disk.locate_join h hpasses hstored.toProperName hstored.short hreadable
    rw [← Disk.locationFrom_cwd h] at hlocate
    exact Disk.isFile_eq_true_iff.mpr ⟨_, contents, Disk.lookup_eq_ok_iff.mpr ⟨hlocate, hget⟩⟩
  have hfileName : (root.join ⟨name⟩).fileName? = some name := by
    rw [Path.fileName?, Path.components_eq, Path.steps_join _ hstored.toProperName]
    simp
  refine List.mem_filter.mpr ⟨hfound, ?_⟩
  rw [isSource, hcovers, hfile, hfileName]
  simpa using hname

/-- The sources of a scan are different files exactly when, of any two roots that share a source, the
inner one is spelled as the outer one with the names between them. -/
theorem nodup_places_iff {d : Disk} {base : Path} {options : ScanOptions} (h : d.IsTree) :
    (places d (run d base options)).Nodup ↔
      ∀ outer ∈ roots d base options.includes, ∀ inner ∈ roots d base options.includes,
        ∀ names, inner.locationFrom (.ofLocation d.cwd) =
            outer.locationFrom (.ofLocation d.cwd) ++ names →
          Share d (.ofOptions base options) outer inner →
            inner.front = (Disk.joinNames outer names).front := by
  have hfiles : (run d base options).files.Nodup := Text.nodup_sorted _
  rw [places, List.nodup_map_iff_inj_on hfiles]
  constructor
  · rintro hinj outer houter inner hinner names hplace ⟨p, hp, q, hq, hsame⟩
    have hpFiles := mem_files_iff_sourcesBelow.mpr ⟨outer, houter, hp⟩
    have hqFiles := mem_files_iff_sourcesBelow.mpr ⟨inner, hinner, hq⟩
    exact (text_eq_iff h hplace hp hq hsame).mp (hinj _ hpFiles _ hqFiles hsame)
  · intro hspelled s hs t ht hsame
    obtain ⟨root, hroot, hp⟩ := mem_files_iff_sourcesBelow.mp hs
    obtain ⟨other, hother, hq⟩ := mem_files_iff_sourcesBelow.mp ht
    obtain ⟨below, -, -, hpPlace⟩ := Disk.exists_of_mem_walk h (List.mem_filter.mp hp).1
    obtain ⟨more, -, -, hqPlace⟩ := Disk.exists_of_mem_walk h (List.mem_filter.mp hq).1
    have heq := hsame
    rw [hpPlace, hqPlace] at heq
    -- one of the two roots lies in the other
    rcases List.append_eq_append_iff.mp heq with ⟨names, hplace, -⟩ | ⟨names, hplace, -⟩
    · exact (text_eq_iff h hplace hp hq hsame).mpr
        (hspelled root hroot other hother names hplace ⟨_, hp, _, hq, hsame⟩)
    · exact ((text_eq_iff h hplace hq hp hsame.symm).mpr
        (hspelled other hother root hroot names hplace ⟨_, hq, _, hp, hsame.symm⟩)).symm

/-- A disk with a source in a directory of the working directory and one in a directory of that. -/
def twoSources : Disk :=
  ⟨[(["project"], .directory), (["project", "src"], .directory),
    (["project", "src", "user.ts"], .file (some "")), (["project", "src", "api"], .directory),
    (["project", "src", "api", "order.ts"], .file (some ""))], ["project"]⟩

/-- A directory that is included twice, once with a `.` in front, gives a source twice. -/
theorem not_nodup_places_twice :
    twoSources.IsTree ∧
      ¬ (places twoSources (run twoSources ⟨"."⟩ ⟨["src", "./src"], [], false⟩)).Nodup := by
  have htree : twoSources.IsTree := by decide
  have hmem : ∀ text ∈ ["src", "./src"],
      (((Path.mk ".").join ⟨text⟩).join ⟨"user.ts"⟩).text ∈
        (run twoSources ⟨"."⟩ ⟨["src", "./src"], [], false⟩).files := by
    intro text htext
    have hroot : ∀ text ∈ ["src", "./src"],
        Disk.Readable ((Path.mk ".").join ⟨text⟩).text ∧
          twoSources.Passes ((Path.mk ".").join ⟨text⟩) ∧
          ((Path.mk ".").join ⟨text⟩).locationFrom (.ofLocation twoSources.cwd) =
            ["project", "src"] ∧
          Disk.Readable (((Path.mk ".").join ⟨text⟩).join ⟨"user.ts"⟩).text := by decide
    obtain ⟨hreadable, hpasses, hplace, hbelow⟩ := hroot text htext
    have hdirectory := (Disk.isDirectory_iff htree).mpr ⟨hreadable, hpasses⟩
    have hroots : (Path.mk ".").join ⟨text⟩ ∈ roots twoSources ⟨"."⟩ ["src", "./src"] :=
      (mem_roots_iff (by simp) (by decide)).mpr
        ⟨text, htext, rfl, Disk.has_of_isDirectory hdirectory⟩
    refine mem_files_iff_sourcesBelow.mpr ⟨_, hroots, ?_⟩
    exact join_mem_sourcesBelow htree hdirectory (by rw [hplace]; rfl) hbelow (by decide +kernel) rfl
  refine ⟨htree, fun hnodup => ?_⟩
  have heq := List.inj_on_of_nodup_map hnodup (hmem "src" (by simp)) (hmem "./src" (by simp))
    (by decide)
  exact absurd heq (by decide)

/-- A directory and one in it that is spelled alike give each source once. -/
theorem nodup_places_nested :
    twoSources.IsTree ∧
      (places twoSources (run twoSources ⟨"."⟩ ⟨["src", "src/api"], [], false⟩)).Nodup := by
  have htree : twoSources.IsTree := by decide
  refine ⟨htree, (nodup_places_iff htree).mpr fun outer houter inner hinner names hplace _ => ?_⟩
  have hroot : ∀ root ∈ roots twoSources ⟨"."⟩ ["src", "src/api"],
      root ∈ ["src", "src/api"].map fun text => (Path.mk ".").join ⟨text⟩ := by
    intro root hmem
    obtain ⟨text, htext, rfl, -⟩ := (mem_roots_iff (by simp) (by decide)).mp hmem
    exact List.mem_map.mpr ⟨text, htext, rfl⟩
  have hspelled : ∀ outer ∈ ["src", "src/api"].map fun text => (Path.mk ".").join ⟨text⟩,
      ∀ inner ∈ ["src", "src/api"].map fun text => (Path.mk ".").join ⟨text⟩,
        outer.locationFrom (.ofLocation twoSources.cwd) <+:
            inner.locationFrom (.ofLocation twoSources.cwd) →
          inner.front = (Disk.joinNames outer ((inner.locationFrom (.ofLocation twoSources.cwd)).drop
            (outer.locationFrom (.ofLocation twoSources.cwd)).length)).front := by decide
  have hnames : names = (inner.locationFrom (.ofLocation twoSources.cwd)).drop
      (outer.locationFrom (.ofLocation twoSources.cwd)).length := by
    rw [hplace, List.drop_left]
  rw [hnames]
  exact hspelled outer (hroot outer houter) inner (hroot inner hinner) ⟨names, hplace.symm⟩

end Scan
end FetchClients
