/-
# Outlines as JSON

A node with annotations is an object of the node, its annotations and what the
node holds. A member says its kind among its own entries, and a type is an
object of one entry, named after its form.

Key definitions: `TypeExpr.toJson`, `Member.toJson`, `FileOutline.toJson`.
-/
import FetchClients.Json.Value
import FetchClients.Outline.Basic

namespace FetchClients

/-- An annotation as JSON. -/
def Annotation.toJson (a : Annotation) : Json :=
  .obj [("key", .str a.key), ("value", .str a.value)]

namespace TypeExpr

mutual

/-- A type as JSON. -/
def toJson : TypeExpr → Json
  | named name args =>
    .obj [("named", .obj [("name", .str name), ("args", .arr (argsToJson args))])]
  | other text => .obj [("other", .str text)]

/-- Arguments as JSON. -/
def argsToJson : List TypeExpr → List Json
  | [] => []
  | arg :: args => arg.toJson :: argsToJson args

end

end TypeExpr

/-- A parameter as JSON. -/
def Param.toJson (p : Param) : Json :=
  .obj [("name", .str p.name), ("type_expr", .ofOption TypeExpr.toJson p.type)]

/-- The entries that tell what kind of member it is. -/
def MemberKind.entries : MemberKind → List (String × Json)
  | property type =>
    [("kind", .str "property"), ("type_expr", .ofOption TypeExpr.toJson type)]
  | method params returns =>
    [("kind", .str "method"), ("params", .arr (params.map Param.toJson)),
      ("returns", .ofOption TypeExpr.toJson returns)]

/-- A member as JSON. -/
def Member.toJson (m : Member) : Json :=
  .obj (("name", .str m.name) :: m.kind.entries ++
    [("optional", .bool m.optional), ("line", .nat m.line)])

/-- The name of a kind of declaration. -/
def DeclKind.label : DeclKind → String
  | .interface => "interface"
  | .typeAlias => "type-alias"
  | .classDecl => "class"

/-- A declaration as JSON. -/
def TypeDecl.toJson (d : TypeDecl) : Json :=
  .obj [("name", .str d.name), ("kind", .str d.kind.label), ("line", .nat d.line)]

/-- The entries of a node and its annotations. -/
def Annotated.entries {α : Type} (f : α → Json) (a : Annotated α) : List (String × Json) :=
  [("node", f a.node), ("annotations", .arr (a.annotations.map Annotation.toJson))]

/-- A declaration with its members as JSON. -/
def TypeOutline.toJson (t : TypeOutline) : Json :=
  .obj (t.decl.entries TypeDecl.toJson ++
    [("fields", .arr (t.fields.map fun field => .obj (field.entries Member.toJson)))])

/-- A file as JSON. -/
def SourceFile.toJson (s : SourceFile) : Json :=
  .obj [("path", .str s.path), ("module", .str s.module)]

/-- The outline of a file as JSON. -/
def FileOutline.toJson (o : FileOutline) : Json :=
  .obj (o.file.entries SourceFile.toJson ++ [("types", .arr (o.types.map TypeOutline.toJson))])

end FetchClients
