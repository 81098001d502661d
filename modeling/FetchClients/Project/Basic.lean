/-
# A project

A project is a directory with its configuration and the sources that were found
in it. Every source has an outline, unless it cannot be read or parsed.

Key definitions: `Project`, `Project.load`, `Project.outputDir`,
`SourceFault`, `outlineOf`, `Project.outlines`.
-/
import FetchClients.Config.Load
import FetchClients.Outline.Extract
import FetchClients.Scan

namespace FetchClients

/-- Why a source has no outline. -/
inductive SourceFault where
  | unreadable (path : String) (problem : Problem)
  | malformed (failure : TypeScript.Failure)
deriving DecidableEq, Repr

namespace SourceFault

/-- What went wrong, in words. -/
def summary : SourceFault → String
  | unreadable path _ => "Failed to read " ++ path
  | malformed failure => failure.message

/-- What went wrong and why, in words. -/
def message : SourceFault → String
  | unreadable path problem => "Failed to read " ++ path ++ ": " ++ problem.message
  | malformed failure => failure.message

end SourceFault

/-- The outline of the source at a path. -/
def outlineOf (d : Disk) (path : String) : Except SourceFault FileOutline :=
  match d.readText ⟨path⟩ with
  | .error problem => .error (.unreadable path problem)
  | .ok text =>
    match FileOutline.ofSource path text with
    | .error failure => .error (.malformed failure)
    | .ok file => .ok file

/-- A directory with its configuration and its sources. -/
structure Project where
  root : Path
  config : Config
  configPath : Option Path
  files : List String
  skipped : Nat
deriving DecidableEq, Repr

namespace Project

/-- The project in a directory. -/
def load (d : Disk) (root : Path) : Except Config.LoadFault Project :=
  match Config.load d root with
  | .error fault => .error fault
  | .ok ⟨config, path⟩ =>
    let scan := Scan.run d root ⟨config.includes, config.ignores, config.ignoreTestFiles⟩
    .ok ⟨root, config, path, scan.files, scan.skipped⟩

/-- The directory that the configuration sets for clients, taken from the root of the project. -/
def outputDir (p : Project) : Option Path :=
  p.config.outputDir.map fun dir => p.root.join ⟨dir⟩

/-- The sources, each with its outline or the fault that it has none for. -/
def outlines (p : Project) (d : Disk) : List (String × Except SourceFault FileOutline) :=
  p.files.map fun path => (path, outlineOf d path)

end Project
end FetchClients
