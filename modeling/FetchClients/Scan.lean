/-
# Finding the sources of a project

The sources are found below the base directory or below the includes that lie
in it. An include or ignore with a wildcard is a pattern, any other is a path.
A source is a TypeScript file that is neither a declaration file nor a generated
one. What an ignore covers is passed over.

Key definitions: `ScanOptions`, `Scan`, `isSourceName`, `Scan.roots`,
`Ignores.covers`, `Scan.run`.
Key theorem: `Scan.mem_files_iff`.
-/
import FetchClients.Client.Name
import FetchClients.Disk.Walk
import FetchClients.Glob.Expand

namespace FetchClients

/-- Where sources are looked for, what is passed over, and whether tests are. -/
structure ScanOptions where
  includes : List String
  ignores : List String
  ignoreTestFiles : Bool
deriving DecidableEq, Repr

/-- The patterns of test files. -/
def testPatterns : List String :=
  ["**/*.test.tsx", "**/*.test.ts", "**/*.spec.tsx", "**/*.spec.ts", "**/__tests__/**"]

/-- Whether a file name is that of a source. -/
def isSourceName (name : String) : Bool :=
  !name.endsWith ".d.ts" && !name.endsWith Client.fileSuffix &&
    ((Path.mk name).extension? = some "ts" || (Path.mk name).extension? = some "tsx")

/-- What is passed over: all below some paths, and all that some patterns stand for. -/
structure Ignores where
  paths : List Path
  patterns : List (List Glob.Token)
deriving DecidableEq, Repr

namespace Ignores

/-- The patterns among texts; a text that cannot be compiled is left out. -/
def compiled (texts : List String) : List (List Glob.Token) :=
  texts.filterMap fun text => (Glob.compile text).toOption

/-- The ignores of a scan; paths are taken from the base directory. -/
def ofOptions (base : Path) (options : ScanOptions) : Ignores where
  paths := (options.ignores.filter (!Glob.isGlob ·)).map fun text => base.join ⟨text⟩
  patterns := compiled (options.ignores.filter Glob.isGlob) ++
    if options.ignoreTestFiles then compiled testPatterns else []

/-- Whether a path is passed over. -/
def covers (ignores : Ignores) (p : Path) : Bool :=
  ignores.paths.any (·.isComponentPrefix p) ||
    ignores.patterns.any fun pattern => Glob.accepts pattern p.text.toList

end Ignores

/-- The sources that were found, in order, and how many paths could not be looked at. -/
structure Scan where
  files : List String
  skipped : Nat
deriving DecidableEq, Repr

namespace Scan

/-- The paths that an include leads to. -/
def includeRoots (d : Disk) (base : Path) (text : String) : List Path :=
  let p := base.join ⟨text⟩
  if Glob.isGlob text then
    match Glob.expand d p.text with
    | .ok paths => paths.filter d.isDirectory
    | .error _ => []
  else if d.has p then [p] else []

/-- The paths below which sources are looked for. -/
def roots (d : Disk) (base : Path) (includes : List String) : List Path :=
  if includes.isEmpty then [base] else includes.flatMap (includeRoots d base)

/-- Whether a path that was found is a source. -/
def isSource (d : Disk) (ignores : Ignores) (p : Path) : Bool :=
  !ignores.covers p && d.isFile p && p.fileName?.any isSourceName

/-- The sources of a project. -/
def run (d : Disk) (base : Path) (options : ScanOptions) : Scan :=
  let walks := (roots d base options.includes).map d.walk
  let ignores := Ignores.ofOptions base options
  let sources := (walks.flatMap (·.found)).filter (isSource d ignores)
  ⟨Text.sorted (sources.map Path.text), walks.foldr (fun w skipped => w.skipped + skipped) 0⟩

theorem mem_files_iff {d : Disk} {base : Path} {options : ScanOptions} {text : String} :
    text ∈ (run d base options).files ↔
      ∃ root ∈ roots d base options.includes, ∃ p ∈ (d.walk root).found,
        isSource d (Ignores.ofOptions base options) p = true ∧ p.text = text := by
  simp only [run, Text.mem_sorted, List.mem_map, List.mem_filter, List.mem_flatMap]
  constructor
  · rintro ⟨p, ⟨⟨walk, ⟨root, hroot, rfl⟩, hp⟩, hsource⟩, htext⟩
    exact ⟨root, hroot, p, hp, hsource, htext⟩
  · rintro ⟨root, hroot, p, hp, hsource, htext⟩
    exact ⟨p, ⟨⟨_, ⟨root, hroot, rfl⟩, hp⟩, hsource⟩, htext⟩

end Scan
end FetchClients
