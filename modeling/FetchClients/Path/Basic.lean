/-
# Paths as texts

A path is its text, kept as it was written. What the text means is its
components: the root if the text starts with `/`, then the fields between the
slashes, without empty ones and without `.` (a `.` that opens a relative path
counts). The parent of a path is the text up to the component before the last.

Key definitions: `Path`, `Component`, `Path.components`, `Path.parent?`,
`Path.ancestors`, `Path.fileName?`, `Path.stem?`, `Path.extension?`, `Path.join`.
-/
import FetchClients.Text.Basic

namespace FetchClients

/-- A path, as its text. -/
structure Path where
  text : String
deriving DecidableEq, Repr, Inhabited

/-- One step that a path takes. -/
inductive Component where
  | root
  | here
  | up
  | name (text : String)
deriving DecidableEq, Repr

namespace Component

/-- The text that a component stands for. -/
def text : Component → String
  | root => "/"
  | here => "."
  | up => ".."
  | name t => t

end Component

namespace Path

instance : ToString Path := ⟨Path.text⟩

/-- Whether a field between slashes is a component; a `.` only where the path opens with it. -/
def fieldNames (opening : Bool) (field : List Char) : Bool :=
  match field with
  | [] => false
  | ['.'] => opening
  | _ => true

/-- The component that a field names. -/
def componentOf (field : List Char) : Component :=
  if field = ['.'] then .here
  else if field = ['.', '.'] then .up
  else .name (String.ofList field)

/-- A path's fields between slashes, after the slash of the root if it has one. -/
def body (p : Path) : Bool × List (List Char) :=
  match p.text.toList with
  | '/' :: rest => (true, Text.fields '/' rest)
  | text => (false, Text.fields '/' text)

/-- A path that starts at the root. -/
def isAbsolute (p : Path) : Bool := p.body.1

/-- The components that fields name. -/
def fieldComponents (opening : Bool) : List (List Char) → List Component
  | [] => []
  | f :: fs =>
    if fieldNames opening f then componentOf f :: fieldComponents false fs
    else fieldComponents false fs

/-- The steps of a path, from its start. -/
def components (p : Path) : List Component :=
  let (rooted, fields) := p.body
  if rooted then .root :: fieldComponents false fields else fieldComponents true fields

/-- The fields up to the last that is a component. -/
def trimFields (opening : Bool) : List (List Char) → List (List Char)
  | [] => []
  | f :: fs =>
    match trimFields false fs with
    | [] => if fieldNames opening f then [f] else []
    | kept => f :: kept

/-- The path with the given fields. -/
def ofFields (rooted : Bool) (fields : List (List Char)) : Path :=
  let rest := Text.joinWith ['/'] fields
  ⟨String.ofList (if rooted then '/' :: rest else rest)⟩

/-- The path before the last component, if that is not the root. -/
def parent? (p : Path) : Option Path :=
  let (rooted, fields) := p.body
  match trimFields (!rooted) fields with
  | [] => none
  | kept => some (ofFields rooted (trimFields (!rooted) kept.dropLast))

/-- A path and those before it, up to a bound on their number. -/
def ancestorsUpTo : Nat → Path → List Path
  | 0, _ => []
  | n + 1, p =>
    match p.parent? with
    | some parent => p :: ancestorsUpTo n parent
    | none => [p]

/-- A path, its parent, the parent of that, and so on. -/
def ancestors (p : Path) : List Path :=
  p.ancestorsUpTo (p.text.length + 1)

/-- The last component, if it is a name. -/
def fileName? (p : Path) : Option String :=
  match p.components.getLast? with
  | some (.name n) => some n
  | _ => none

/-- A name cut at its last dot; a name that only starts with a dot is not cut. -/
def cutExtension (name : List Char) : List Char × Option (List Char) :=
  match Text.cutAt? '.' name.reverse with
  | none => (name, none)
  | some (_, []) => (name, none)
  | some (after, before) => (before.reverse, some after.reverse)

/-- The file name without its extension. -/
def stem? (p : Path) : Option String :=
  p.fileName?.map fun n => String.ofList (cutExtension n.toList).1

/-- What follows the last dot of the file name. -/
def extension? (p : Path) : Option String :=
  p.fileName?.bind fun n => (cutExtension n.toList).2.map String.ofList

/-- A path below another; an absolute path stands for itself. -/
def join (base p : Path) : Path :=
  if p.isAbsolute then p
  else if base.text.isEmpty || base.text.toList.getLast? = some '/' then ⟨base.text ++ p.text⟩
  else ⟨base.text ++ "/" ++ p.text⟩

/-- Whether the components of `p` open the components of `q`. -/
def isComponentPrefix (p q : Path) : Bool :=
  p.components.isPrefixOf q.components

/-- Two texts are the same path if they take the same steps. -/
def sameSteps (p q : Path) : Bool := p.components = q.components

end Path
end FetchClients
