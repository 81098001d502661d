/-
# All that is below a path

A walk finds its root and all that is below it. Links are found but not
followed, except the root. A root that stands for nothing is passed over.

Key definitions: `Disk.Walk`, `Disk.walk`, `Disk.listing`.
-/
import FetchClients.Disk.Resolve
import FetchClients.Text.Sorted

namespace FetchClients
namespace Disk

/-- What a walk finds, and how many paths it had to pass over. -/
structure Walk where
  found : List Path
  skipped : Nat
deriving DecidableEq, Repr

/-- A path with names below it. -/
def joinNames (p : Path) (names : List String) : Path :=
  names.foldl (fun p name => p.join ⟨name⟩) p

/-- The paths below a root that stands for a place. -/
def pathsBelow (d : Disk) (root : Path) (place : Location) : List Path :=
  (d.below place).map fun (names, _) => joinNames root names

/-- A walk from a root that was found. -/
def walkFrom (d : Disk) (root : Path) : Location × Entry → Walk
  | (place, .directory) => ⟨root :: d.pathsBelow root place, 0⟩
  | _ => ⟨[root], 0⟩

/-- All that is found from a root. -/
def walk (d : Disk) (root : Path) : Walk :=
  match d.lookup true root with
  | .error _ => ⟨[], 1⟩
  | .ok found => d.walkFrom root found

/-- Everything below the working directory in order, with a slash after each directory. -/
def listing (d : Disk) : List String :=
  Text.sorted ((d.below d.cwd).map fun (names, entry) =>
    String.intercalate "/" names ++ if entry = .directory then "/" else "")

end Disk
end FetchClients
