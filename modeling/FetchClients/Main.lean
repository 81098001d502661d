/-
# The command

The part of the disk that a command line speaks of is read into a value, the
program runs on it, and what it added or replaced is written back. Colours are
used on a terminal, unless the environment forbids them.

Key definitions: `Shell.loadBelow`, `Shell.store`, `main`.
-/
import FetchClients.Program

namespace FetchClients
namespace Shell

/-- What was read of the disk, and the places below which all was read. -/
structure Loaded where
  disk : Disk
  whole : List Location

/-- What stands at a name in a directory. Only the contents of wanted files are read, and a link is
taken to lead where it leads in the end, or to itself if it leads nowhere. -/
def entryAt (wanted : Location → Bool) (directory : Location) (name : String) :
    IO (Option Entry) := do
  let path := IO.FS.DirEntry.path ⟨(Path.ofLocation directory).text, name⟩
  try
    match (← path.symlinkMetadata).type with
    | .dir => return some .directory
    | .symlink =>
      let target ← try IO.FS.realPath path catch _ => pure path
      return some (.link target.toString)
    | .file =>
      if wanted (directory ++ [name]) then
        return some (.file (String.fromUTF8? (← IO.FS.readBinFile path)))
      else return some (.file none)
    | .other => return some (.file none)
  catch _ => return none

/-- Reads what stands at a name in a directory. -/
def loadName (wanted : Location → Bool) (directory : Location) (name : String) (l : Loaded) :
    IO Loaded := do
  match ← entryAt wanted directory name with
  | some entry => return { l with disk := l.disk.put (directory ++ [name]) entry }
  | none => return l

/-- Reads what makes a directory the top of a project. -/
def loadMarks (wanted : Location → Bool) (directory : Location) (l : Loaded) : IO Loaded := do
  let l ← loadName wanted directory Config.fileName l
  loadName wanted directory Config.repositoryName l

/-- Reads the directories that names lead through, and what makes them tops of projects. -/
def loadThrough (wanted : Location → Bool) (above : Location) (l : Loaded) :
    List String → IO Loaded
  | [] => loadMarks wanted above l
  | name :: names => do
    let l ← loadMarks wanted above l
    let l ← loadName wanted above name l
    loadThrough wanted (above ++ [name]) l names

/-- Reads all that is below a place, and below every place that a link there leads to. -/
partial def loadBelow (wanted : Location → Bool) (place : Location) (l : Loaded) : IO Loaded := do
  if l.whole.contains place then return l
  let mut l ← loadThrough wanted [] { l with whole := place :: l.whole } place
  match l.disk.get? place with
  | some .directory =>
    let names ← try
        let found ← (IO.FS.DirEntry.path ⟨(Path.ofLocation place).text, "."⟩).readDir
        pure (found.toList.map (·.fileName))
      catch _ => pure []
    for name in names do
      l ← loadName wanted place name l
      match l.disk.get? (place ++ [name]) with
      | some .directory => l ← loadBelow wanted (place ++ [name]) l
      | some (.link target) => l ← loadBelow wanted ((Path.mk target).locationFrom ⟨"/"⟩) l
      | _ => pure ()
    return l
  | some (.link target) => loadBelow wanted ((Path.mk target).locationFrom ⟨"/"⟩) l
  | _ => return l

/-- The paths that a request speaks of. -/
def mentioned : CommandLine.Request → List Path
  | .run (.generate options) => options.sourceRoot.toList ++ options.outputDir.toList
  | .run (.inspect file _) => [file]
  | _ => []

/-- The part of the disk that a request speaks of. -/
def load (request : CommandLine.Request) : IO Disk := do
  let cwd : Path := ⟨(← IO.currentDir).toString⟩
  let here := cwd.locationFrom ⟨"/"⟩
  let named := (mentioned request).map (·.locationFrom cwd)
  let wanted (place : Location) : Bool :=
    named.contains place || place.getLast?.any fun name =>
      name = Config.fileName || isSourceName name
  let mut l : Loaded := ⟨⟨[], here⟩, []⟩
  for place in here :: named do
    l ← loadBelow wanted place l
  return l.disk

/-- Writes what one disk has and the other had not. -/
def store (before after : Disk) : IO Unit := do
  for (place, entry) in after.entries.reverse do
    if before.get? place ≠ some entry then
      let path := (Path.ofLocation place).text
      match entry with
      | .directory => IO.FS.createDirAll path
      | .file contents => IO.FS.writeFile path (contents.getD "")
      | .link _ => pure ()

/-- Shows how a run ended. -/
def printEnding : Program.Ending → IO Unit
  | .finished _ out warnings => do
    IO.print out
    IO.eprint warnings
  | .help text => IO.print text
  | .version text => IO.print text
  | .refused _ => IO.eprint ("error: the arguments are not understood\n\n" ++
      "For more information, try '--help'.\n")
  | .fatal message => IO.eprintln ("Error: " ++ message)

end Shell
end FetchClients

open FetchClients in
/-- Runs the program on the disk and exits with its code. -/
def main (arguments : List String) : IO UInt32 := do
  let terminal ← (← IO.getStdout).isTty
  let plain ← IO.getEnv "NO_COLOR"
  let before ← Shell.load (CommandLine.parse arguments)
  let (after, ending) := Program.run (terminal && plain.isNone) before arguments
  Shell.store before after
  Shell.printEnding ending
  return UInt32.ofNat ending.exitCode
