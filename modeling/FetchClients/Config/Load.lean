/-
# The configuration of a directory

The configuration file of a directory is its own or that of the nearest
directory above it, up to the first that holds a repository. The directories
above a path are those that its text names.

Key definitions: `Config.fileName`, `Config.find?`, `Config.load`,
`Config.LoadFault`.
-/
import FetchClients.Config.Read
import FetchClients.Disk.Resolve

namespace FetchClients
namespace Config

/-- The name of every configuration file. -/
def fileName : String := ".stubgenrc.json"

/-- The name of what makes a directory the top of a repository. -/
def repositoryName : String := ".git"

/-- The first configuration file in some directories, before the first top of a repository that has
none. -/
def findIn (d : Disk) : List Path → Option Path
  | [] => none
  | directory :: directories =>
    let file := directory.join ⟨fileName⟩
    if d.has file then some file
    else if d.has (directory.join ⟨repositoryName⟩) then none
    else findIn d directories

/-- The configuration file of a directory. -/
def find? (d : Disk) (start : Path) : Option Path :=
  findIn d start.ancestors

/-- Why there is no configuration. -/
inductive LoadFault where
  | unreadable (path : Path) (problem : Problem)
  | malformed (path : Path) (text : String) (fault : Json.Fault)
  | unusable (fault : ConfigFault)
deriving DecidableEq, Repr

/-- The fault in words. -/
def LoadFault.message : LoadFault → String
  | unreadable path problem =>
    "Failed to read config file: " ++ Text.quoted path.text ++ ": " ++ problem.message
  | malformed path text fault =>
    "Failed to parse config file: " ++ Text.quoted path.text ++ ": " ++ fault.message text
  | unusable fault => fault.message

/-- A configuration and the file it is from, if it is not the default. -/
structure Loaded where
  config : Config
  path : Option Path
deriving DecidableEq, Repr

/-- The configuration of a directory. -/
def load (d : Disk) (start : Path) : Except LoadFault Loaded :=
  match find? d start with
  | none => .ok ⟨default, none⟩
  | some path =>
    match d.readText path with
    | .error problem => .error (.unreadable path problem)
    | .ok text =>
      match read text with
      | .error fault => .error (.malformed path text fault)
      | .ok config =>
        match config.fault? with
        | some fault => .error (.unusable fault)
        | none => .ok ⟨config, some path⟩

end Config
end FetchClients
