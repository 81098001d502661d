/-
# Files and directories

A disk is a list of places with what stands there: a file, a link that stands
for another path, or a directory. The root is always a directory. A program sees
a disk from a working directory.

Key definitions: `Entry`, `Disk`, `Disk.get?`, `Disk.put`, `Disk.removeBelow`,
`Problem`.
Key theorems: `Disk.get?_put_self`, `Disk.get?_put_of_ne`.
-/
import FetchClients.Path.Lexical

namespace FetchClients

/-- What can stand at a place. The contents of a file are a text, or else none. -/
inductive Entry where
  | file (contents : Option String)
  | link (target : String)
  | directory
deriving DecidableEq, Repr

/-- Places with what stands there, and the working directory. -/
structure Disk where
  entries : List (Location × Entry)
  cwd : Location
deriving DecidableEq, Repr

/-- Why something cannot be done with a path. -/
inductive Problem where
  | missing
  | notDirectory
  | isDirectory
  | alreadyExists
  | tooManyLinks
  | nameTooLong
  | zeroInName
  | notText
deriving DecidableEq, Repr

/-- The problem in words. -/
def Problem.message : Problem → String
  | missing => "No such file or directory (os error 2)"
  | notDirectory => "Not a directory (os error 20)"
  | isDirectory => "Is a directory (os error 21)"
  | alreadyExists => "File exists (os error 17)"
  | tooManyLinks => "Too many levels of symbolic links (os error 40)"
  | nameTooLong => "File name too long (os error 36)"
  | zeroInName => "file name contained an unexpected NUL byte"
  | notText => "stream did not contain valid UTF-8"

namespace Disk

/-- What stands at a place. -/
def get? (d : Disk) (place : Location) : Option Entry :=
  if place = [] then some .directory
  else (d.entries.find? (·.1 = place)).map Prod.snd

/-- The disk with something else at a place. -/
def put (d : Disk) (place : Location) (entry : Entry) : Disk :=
  { d with entries := (place, entry) :: d.entries.filter (·.1 ≠ place) }

/-- The disk without what stands at a place and below it. -/
def removeBelow (d : Disk) (place : Location) : Disk :=
  { d with entries := d.entries.filter fun e => !place.isPrefixOf e.1 }

/-- What stands below a place, with the names that lead there. -/
def below (d : Disk) (place : Location) : List (List String × Entry) :=
  d.entries.filterMap fun (other, entry) =>
    match place.isPrefixOf? other with
    | some (name :: names) => some (name :: names, entry)
    | _ => none

/-- The names in a directory. -/
def names (d : Disk) (place : Location) : List String :=
  (d.below place).filterMap fun
    | ([name], _) => some name
    | _ => none

theorem get?_put_self {d : Disk} {place : Location} {entry : Entry} (h : place ≠ []) :
    (d.put place entry).get? place = some entry := by
  simp [get?, put, h]

theorem get?_put_of_ne {d : Disk} {place other : Location} {entry : Entry} (h : other ≠ place) :
    (d.put place entry).get? other = d.get? other := by
  by_cases hroot : other = []
  · simp [get?, hroot]
  · have hfind : (d.entries.filter (·.1 ≠ place)).find? (·.1 = other) =
        d.entries.find? (·.1 = other) := by
      induction d.entries with
      | nil => rfl
      | cons e es ih =>
        by_cases he : e.1 = place
        · simp [he, Ne.symm h, ← ih]
        · simp [he, List.find?_cons, ← ih]
    simp only [get?, hroot, if_false, put, List.find?_cons, Ne.symm h, decide_false]
    rw [hfind]

end Disk
end FetchClients
