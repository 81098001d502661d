/-
# Outlines of source files

What the program keeps of a source file: the file with its annotations, its
type declarations in the order they are found, and the annotated members of
each declaration.

Key definitions: `TypeExpr`, `Param`, `Member`, `TypeDecl`, `TypeOutline`,
`SourceFile`, `FileOutline`.
Key theorem: `TypeExpr.plainName?_eq_some_iff`.
-/
import FetchClients.Annotation
import FetchClients.Path.Basic

namespace FetchClients

/-- A type: a named type with its arguments, or the text of any other type. -/
inductive TypeExpr where
  | named (name : String) (args : List TypeExpr)
  | other (text : String)
deriving Repr, Inhabited

namespace TypeExpr

mutual

/-- The type as one line: `Map<string, number[]>`. -/
def render : TypeExpr → String
  | named name [] => name
  | named name (arg :: args) => name ++ "<" ++ render arg ++ renderMore args ++ ">"
  | other text => text

/-- Further arguments, each after a comma. -/
def renderMore : List TypeExpr → String
  | [] => ""
  | arg :: args => ", " ++ render arg ++ renderMore args

end

/-- The name of a named type without arguments. -/
def plainName? : TypeExpr → Option String
  | named name [] => some name
  | _ => none

/-- The argument of `wrapper<T>`, if the type is that wrapper with one argument. -/
def argOf? (wrapper : String) : TypeExpr → Option TypeExpr
  | named name [arg] => if name = wrapper then some arg else none
  | _ => none

theorem plainName?_eq_some_iff {t : TypeExpr} {name : String} :
    t.plainName? = some name ↔ t = named name [] := by
  cases t with
  | other text => simp [plainName?]
  | named n args => cases args <;> simp [plainName?]

theorem argOf?_eq_some_iff {wrapper : String} {t arg : TypeExpr} :
    t.argOf? wrapper = some arg ↔ t = named wrapper [arg] := by
  unfold argOf?
  split
  · rename_i name a
    by_cases h : name = wrapper <;> simp [h]
  · rename_i hne
    constructor
    · simp
    · rintro rfl
      exact absurd rfl (hne _ _)

end TypeExpr

/-- A parameter of a method. -/
structure Param where
  name : String
  type : Option TypeExpr
deriving Repr, Inhabited

/-- What kind of member a declaration has, with its types. -/
inductive MemberKind where
  | property (type : Option TypeExpr)
  | method (params : List Param) (returns : Option TypeExpr)
deriving Repr, Inhabited

/-- A property or method. The name is its text in the source. -/
structure Member where
  name : String
  kind : MemberKind
  optional : Bool
  line : Nat
deriving Repr, Inhabited

/-- Whether a member is a method. -/
def Member.isMethod (m : Member) : Bool :=
  match m.kind with
  | .method .. => true
  | .property _ => false

/-- The kinds of declaration that are kept. -/
inductive DeclKind where
  | interface
  | typeAlias
  | classDecl
deriving DecidableEq, Repr, Inhabited

/-- A declared type and the line it starts on. -/
structure TypeDecl where
  name : String
  kind : DeclKind
  line : Nat
deriving DecidableEq, Repr, Inhabited

/-- A declared type with its annotations and its annotated members. -/
structure TypeOutline where
  decl : Annotated TypeDecl
  fields : List (Annotated Member)
deriving Repr

/-- A source file: its path, and the module that other files import it as. -/
structure SourceFile where
  path : String
  module : String
deriving DecidableEq, Repr, Inhabited

/-- A file is imported by its name without the extension. -/
def SourceFile.ofPath (path : String) : SourceFile :=
  ⟨path, ((Path.mk path).stem?).getD ""⟩

/-- A file with its annotations and its declarations. -/
structure FileOutline where
  file : Annotated SourceFile
  types : List TypeOutline
deriving Repr

/-- The outline of a file in which nothing was found. -/
def FileOutline.empty (path : String) : FileOutline :=
  ⟨⟨SourceFile.ofPath path, []⟩, []⟩

end FetchClients
