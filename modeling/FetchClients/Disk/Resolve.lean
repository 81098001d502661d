/-
# What a path stands for

A path is followed name by name from the root or the working directory. What is
followed further must be a directory; `..` leads to the directory above, and a
link is replaced by the path it stands for, at most forty times. The last name
may lead to a place where nothing stands.

Key definitions: `Disk.resolve`, `Disk.locate`, `Disk.has`, `Disk.isFile`,
`Disk.isDirectory`, `Disk.readText`.
Key theorem: `Disk.resolve_eq`.
-/
import FetchClients.Disk.Basic

namespace FetchClients
namespace Disk

/-- How many links are followed on one path. -/
def linkLimit : Nat := 40

/-- How many bytes a name may have. -/
def nameLimit : Nat := 255

/-- How many bytes a path may have. -/
def pathLimit : Nat := 4095

/-- The place where fields lead from a place, with what becomes of a link and the fields after it; a
link in the last field is followed only if `follow`. -/
def resolveWith (d : Disk) (follow : Bool)
    (jump : Location → List (List Char) → Except Problem Location) (place : Location) :
    List (List Char) → Except Problem Location
  | [] => .ok place
  | field :: fields =>
    match d.get? place with
    | none => .error .missing
    | some (.file _) | some (.link _) => .error .notDirectory
    | some .directory =>
      if field = [] ∨ field = ['.'] then resolveWith d follow jump place fields
      else if field = ['.', '.'] then resolveWith d follow jump place.dropLast fields
      else
        let name := String.ofList field
        let next := place ++ [name]
        if nameLimit < name.utf8ByteSize then .error .nameTooLong
        else match d.get? next with
          | some (.link target) =>
            if fields.isEmpty && !follow then .ok next
            else
              let (rooted, more) := (Path.mk target).body
              jump (if rooted then [] else place) (more ++ fields)
          | _ => resolveWith d follow jump next fields

/-- The place where fields lead from a place, over no more than so many links. -/
def resolve (d : Disk) (follow : Bool) :
    Nat → Location → List (List Char) → Except Problem Location
  | 0 => d.resolveWith follow fun _ _ => .error .tooManyLinks
  | links + 1 => d.resolveWith follow (d.resolve follow links)

/-- What becomes of a link if so many can be followed. -/
def jump (d : Disk) (follow : Bool) :
    Nat → Location → List (List Char) → Except Problem Location
  | 0, _, _ => .error .tooManyLinks
  | links + 1, place, fields => d.resolve follow links place fields

theorem resolve_eq (d : Disk) (follow : Bool) (links : Nat) :
    d.resolve follow links = d.resolveWith follow (d.jump follow links) := by
  cases links <;> rfl

@[simp] theorem resolve_nil (d : Disk) (follow : Bool) (links : Nat) (place : Location) :
    d.resolve follow links place [] = .ok place := by
  rw [resolve_eq, resolveWith]

/-- The place that a path leads to. -/
def locate (d : Disk) (follow : Bool) (p : Path) : Except Problem Location :=
  if p.text.toList.contains (Char.ofNat 0) then .error .zeroInName
  else if p.text.isEmpty then .error .missing
  else if pathLimit < p.text.utf8ByteSize then .error .nameTooLong
  else
    let (rooted, fields) := p.body
    d.resolve follow linkLimit (if rooted then [] else d.cwd) fields

/-- What a path stands for. -/
def lookup (d : Disk) (follow : Bool) (p : Path) : Except Problem (Location × Entry) :=
  match d.locate follow p with
  | .error problem => .error problem
  | .ok place =>
    match d.get? place with
    | some entry => .ok (place, entry)
    | none => .error .missing

/-- Whether a path stands for anything. -/
def has (d : Disk) (p : Path) : Bool :=
  (d.lookup true p).isOk

/-- Whether a path stands for a file. -/
def isFile (d : Disk) (p : Path) : Bool :=
  match d.lookup true p with
  | .ok (_, .file _) => true
  | _ => false

/-- Whether a path stands for a directory. -/
def isDirectory (d : Disk) (p : Path) : Bool :=
  match d.lookup true p with
  | .ok (_, .directory) => true
  | _ => false

/-- The text of a file. -/
def readText (d : Disk) (p : Path) : Except Problem String :=
  match d.lookup true p with
  | .error problem => .error problem
  | .ok (_, .file (some contents)) => .ok contents
  | .ok (_, .file none) => .error .notText
  | .ok (_, _) => .error .isDirectory

end Disk
end FetchClients
