/-
# The outline of a source

Every type declaration of a source is recorded with its doc comments, wherever
it stands, unless it stands inside another one. Of its members those with an
annotation are kept: the members of its body, and for an alias the members of
the type literals that its type is built from.

Key definitions: `TypeScript.Tree.nearest`, `TypeScript.Tree.declarations`,
`TypeScript.Tree.members`, `TypeScript.Tree.typeExpr`, `FileOutline.ofModule`,
`FileOutline.ofSource`.
Key theorems: `TypeScript.Tree.sizeOf_lt_of_mem_parts`, `TypeScript.Tree.nearest_eq`.
-/
import FetchClients.Outline.Basic
import FetchClients.Outline.DocBlock
import FetchClients.TypeScript.Parse

namespace FetchClients
namespace TypeScript

/-- A type declaration: where its doc comments end, and the trees that its members are found in. -/
structure Declaration where
  name : String
  kind : DeclKind
  place : Mark
  body : List Tree
deriving Inhabited, Repr

namespace Tree

theorem sizeOf_lt_of_mem_parts {t p : Tree} (h : p ∈ t.parts) : sizeOf p < sizeOf t := by
  have list {ts : List Tree} (h : p ∈ ts) : sizeOf p < sizeOf ts := List.sizeOf_lt_of_mem h
  have option {o : Option Tree} (h : p ∈ o.toList) : sizeOf p < sizeOf o := by
    cases o with
    | none => simp at h
    | some q => simp only [Option.toList_some, List.mem_singleton] at h; subst h; simp
  cases t <;>
    simp only [parts, List.mem_append, List.mem_cons, List.not_mem_nil, or_false] at h <;>
    grind

mutual

/-- What a search finds in a tree: `pick` decides for a tree what is found there, or else the
search goes on in its parts. -/
def nearest {α : Type} (pick : Tree → Option (List α)) (t : Tree) : List α :=
  match pick t with
  | some found => found
  | none =>
    match t with
    | node _ parts | sealed _ parts => nearestAll pick parts
    | reference _ _ args => nearestAll pick args
    | property _ key value type decorators =>
      nearestAll pick key ++ nearestIn pick value ++ nearestIn pick type ++ nearestAll pick decorators
    | method _ true key params returns others =>
      nearestAll pick key ++ nearestAll pick params ++ nearestAll pick others ++ nearestIn pick returns
    | method _ false key params returns others =>
      nearestAll pick key ++ nearestAll pick params ++ nearestIn pick returns ++ nearestAll pick others
    | interface _ _ heritage members => nearestAll pick heritage ++ nearestAll pick members
    | typeAlias _ _ params type => nearestAll pick params ++ nearest pick type
    | .class _ _ decorators members heritage =>
      nearestAll pick decorators ++ nearestAll pick members ++ nearestAll pick heritage
    | exported _ declaration => nearest pick declaration
    | binding _ _ type => nearestIn pick type
    | pattern _ parts type => nearestAll pick parts ++ nearestIn pick type
    | rest _ argument type => nearest pick argument ++ nearestIn pick type
    | initialized _ target value => nearest pick target ++ nearest pick value
    | parameter _ decorators target => nearestAll pick decorators ++ nearest pick target
    | arrow _ params body typeParams returns =>
      nearestAll pick params ++ nearest pick body ++ nearestAll pick typeParams ++ nearestIn pick returns

/-- What a search finds in trees, one after another. -/
def nearestAll {α : Type} (pick : Tree → Option (List α)) : List Tree → List α
  | [] => []
  | t :: ts => nearest pick t ++ nearestAll pick ts

/-- What a search finds in a tree that may be absent. -/
def nearestIn {α : Type} (pick : Tree → Option (List α)) : Option Tree → List α
  | none => []
  | some t => nearest pick t

end

theorem nearestAll_eq {α : Type} (pick : Tree → Option (List α)) : ∀ ts : List Tree,
    nearestAll pick ts = ts.flatMap (nearest pick)
  | [] => by simp [nearestAll]
  | t :: ts => by simp [nearestAll, nearestAll_eq pick ts]

theorem nearestIn_eq {α : Type} (pick : Tree → Option (List α)) (t : Option Tree) :
    nearestIn pick t = t.toList.flatMap (nearest pick) := by
  cases t <;> simp [nearestIn]

/-- A search goes on in all parts of a tree in which nothing is picked. -/
theorem nearest_eq {α : Type} (pick : Tree → Option (List α)) (t : Tree) :
    t.nearest pick = match pick t with
      | some found => found
      | none => t.parts.flatMap (nearest pick) := by
  rw [nearest.eq_def]
  cases pick t with
  | some found => rfl
  | none =>
    cases t with
    | method _ inClass => cases inClass <;> simp [parts, nearestAll_eq, nearestIn_eq]
    | _ => simp [parts, nearestAll_eq, nearestIn_eq]

/-- A tree as a declaration whose doc comments stand above `place`. -/
def declaredAt? (place : Mark) : Tree → Option Declaration
  | interface _ name _ members => some ⟨name, .interface, place, members⟩
  | typeAlias _ name _ type => some ⟨name, .typeAlias, place, [type]⟩
  | .class _ (some name) _ members _ => some ⟨name, .classDecl, place, members⟩
  | _ => none

/-- A tree as a declaration; an exported one has its doc comments above the `export`. -/
def declaration? : Tree → Option Declaration
  | exported span declared => declared.declaredAt? span.start
  | t => t.declaredAt? t.span.start

/-- The declarations in a tree that do not stand inside another one. -/
def declarations (t : Tree) : List Declaration :=
  t.nearest fun t => t.declaration?.map fun d => [d]

/-- What a search for members finds in a tree: a member counts, and what belongs to another
declaration does not. -/
def ownMembers? : Tree → Option (List Tree)
  | t@(property ..) | t@(method ..) => some [t]
  | sealed .. | interface .. | typeAlias .. | .class .. => some []
  | _ => none

/-- The members in a tree that belong to the declaration around it. -/
def members (t : Tree) : List Tree :=
  t.nearest ownMembers?

mutual

/-- A type as it is kept: a named type in parts, any other as its text. -/
def typeExpr (source : List Char) : Tree → TypeExpr
  | reference _ name args => .named name (typeExprs source args)
  | t => .other (t.span.text source)

/-- Types as they are kept. -/
def typeExprs (source : List Char) : List Tree → List TypeExpr
  | [] => []
  | t :: ts => typeExpr source t :: typeExprs source ts

end

/-- A parameter of a signature. A pattern is kept as its text, with its type. -/
def signatureParam (source : List Char) : Tree → Param
  | binding _ name type => ⟨name, type.map (typeExpr source)⟩
  | pattern span _ type => ⟨span.text source, type.map (typeExpr source)⟩
  | rest _ argument type => ⟨argument.span.text source, type.map (typeExpr source)⟩
  | t => ⟨t.span.text source, none⟩

/-- A parameter of a method with a body. Decorators and default values are left out, and a pattern
is kept as its text alone. -/
def classParam (source : List Char) : Tree → Param
  | binding _ name type => ⟨name, type.map (typeExpr source)⟩
  | initialized _ target _ => classParam source target
  | parameter _ _ target => classParam source target
  | t => ⟨t.span.text source, none⟩

/-- A member as it is kept, if the tree is one. -/
def member? (source : List Char) : Tree → Option (MemberHead × MemberKind)
  | property head _ _ type _ => some (head, .property (type.map (typeExpr source)))
  | method head inClass _ params returns _ =>
    let param := if inClass then classParam source else signatureParam source
    some (head, .method (params.map param) (returns.map (typeExpr source)))
  | _ => none

end Tree

namespace Module

/-- The texts of the doc comments of what stands at a place. -/
def docAt (m : Module) (place : Mark) : List String :=
  (docBlock (m.commentsAt place) place.line).map Comment.literal

/-- A member with its annotations, if the tree is one. -/
def field? (m : Module) (t : Tree) : Option (Annotated Member) :=
  (t.member? m.source).map fun (head, kind) =>
    let member : Member := ⟨head.name.text m.source, kind, head.optional, head.span.start.line⟩
    Annotated.ofComments member (m.docAt head.span.start)

/-- The annotated members among the members of trees. -/
def fields (m : Module) (body : List Tree) : List (Annotated Member) :=
  ((body.flatMap Tree.members).filterMap m.field?).filter fun field => !field.annotations.isEmpty

/-- A declaration with its annotations and its annotated members. -/
def typeOutline (m : Module) (d : Declaration) : TypeOutline :=
  ⟨Annotated.ofComments ⟨d.name, d.kind, d.place.line⟩ (m.docAt d.place), m.fields d.body⟩

/-- The doc comments of the file. -/
def fileDoc (m : Module) : List Comment :=
  match m.items with
  | [] => fileDocBlock m.firstComments none
  | item :: _ =>
    fileDocBlock (m.commentsAt item.span.start) (item.declaration?.map fun d => d.place.line)

end Module

end TypeScript

namespace FileOutline

open TypeScript (Failure Module Tree)

/-- The outline of the file at a path that a source was read from. -/
def ofModule (path : String) (m : Module) : FileOutline :=
  ⟨Annotated.ofComments (SourceFile.ofPath path) (m.fileDoc.map TypeScript.Comment.literal),
    (m.items.flatMap Tree.declarations).map m.typeOutline⟩

/-- The outline of the file at a path with a source, which may hold elements if the path says so. -/
def ofSource (path source : String) : Except Failure FileOutline :=
  (Module.parse (path.endsWith ".tsx") source).map (ofModule path)

end FileOutline
end FetchClients
