/-
# Changing a disk

A directory is made only where nothing stands and in a directory that is there;
making one with all that lead to it may stop halfway. A file is written where
its path leads, and replaces a file that is there.

Key definitions: `Disk.makeDirectory`, `Disk.makeDirectories`, `Disk.writeFile`,
`Disk.makeLink`, `Disk.remove`.
-/
import FetchClients.Disk.Resolve

namespace FetchClients
namespace Disk

/-- The fields of a path without empty ones at the end. -/
def trimmedFields (p : Path) : Bool × List (List Char) :=
  let (rooted, fields) := p.body
  (rooted, (fields.reverse.dropWhile (· = [])).reverse)

/-- The place of a new name: the directory that the other fields lead to, and the last field. -/
def newPlace (d : Disk) (p : Path) : Except Problem Location :=
  if p.text.toList.contains (Char.ofNat 0) then .error .zeroInName
  else if p.text.isEmpty then .error .missing
  else if pathLimit < p.text.utf8ByteSize then .error .nameTooLong
  else
    let (rooted, fields) := trimmedFields p
    let start := if rooted then [] else d.cwd
    match fields.getLast? with
    | none => .error .alreadyExists
    | some name =>
      match d.resolve true linkLimit start (fields.dropLast ++ [[]]) with
      | .error problem => .error problem
      | .ok place =>
        if name = ['.'] ∨ name = ['.', '.'] then .error .alreadyExists
        else
          let name := String.ofList name
          if nameLimit < name.utf8ByteSize then .error .nameTooLong
          else if (d.get? (place ++ [name])).isSome then .error .alreadyExists
          else .ok (place ++ [name])

/-- Makes one directory. -/
def makeDirectory (d : Disk) (p : Path) : Except Problem Disk :=
  (d.newPlace p).map fun place => d.put place .directory

/-- Makes the first of some paths, each of which is the parent of the one before, after those that
it needs. -/
def makeChain (d : Disk) : List Path → Disk × Option Problem
  | [] => (d, none)
  | p :: parents =>
    match d.makeDirectory p with
    | .ok made => (made, none)
    | .error .missing =>
      match d.makeChain parents with
      | (made, some problem) => (made, some problem)
      | (made, none) =>
        match made.makeDirectory p with
        | .ok final => (final, none)
        | .error problem =>
          (made, if problem = .alreadyExists ∧ made.isDirectory p then none else some problem)
    | .error problem =>
      (d, if problem = .alreadyExists ∧ d.isDirectory p then none else some problem)

/-- Makes a directory with all that lead to it; a path of no names is there already. -/
def makeDirectories (d : Disk) (p : Path) : Disk × Option Problem :=
  d.makeChain (p.ancestors.takeWhile fun q => !q.text.isEmpty && q.parent?.isSome)

/-- Writes a text to a file. -/
def writeFile (d : Disk) (p : Path) (contents : Option String) : Except Problem Disk :=
  match d.locate true p with
  | .error problem => .error problem
  | .ok place =>
    if d.get? place = some .directory then .error .isDirectory
    else .ok (d.put place (.file contents))

/-- Makes a link to a path. -/
def makeLink (d : Disk) (p : Path) (target : String) : Except Problem Disk :=
  (d.newPlace p).map fun place => d.put place (.link target)

/-- Removes what a path stands for, and all that is below it. A link is removed itself. -/
def remove (d : Disk) (p : Path) : Except Problem Disk :=
  (d.lookup false p).map fun (place, _) => d.removeBelow place

end Disk
end FetchClients
