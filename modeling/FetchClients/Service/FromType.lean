/-
# From a declaration to a service

A marked declaration is a service if the name it is given is an identifier and
every method is sound; properties are passed over. The methods are checked in
order, each by its name, its path, its request and its response, and the first
fault rejects the declaration.

Key definitions: `Method.ofMember`, `Service.ofType`, `Candidate`,
`FileOutline.candidates`.
-/
import FetchClients.Outline.Basic
import FetchClients.Service.Basic
import FetchClients.Text.Blank

namespace FetchClients

/-- A text without the blanks at its ends. -/
def trimmed (text : String) : String :=
  String.ofList (Text.trim text.toList)

/-- The named type of the first parameter. -/
def requestType? (params : List Param) : Option String :=
  params.head?.bind fun p => p.type.bind TypeExpr.plainName?

/-- The named type that is promised. -/
def responseType? (returns : Option TypeExpr) : Option String :=
  returns.bind fun t => (t.argOf? "Promise").bind TypeExpr.plainName?

namespace Method

/-- The path that an annotation gives, or else the method's name below the root. -/
def pathOf (keys : Keys) (field : Annotated Member) : String :=
  match field.get? keys.path with
  | some a => trimmed a.value
  | none => "/" ++ field.node.name

/-- The method that a field with these parameters and this return type is. -/
def ofField (keys : Keys) (field : Annotated Member) (params : List Param)
    (returns : Option TypeExpr) : Except ServiceFault Method :=
  let name := field.node.name
  let path := pathOf keys field
  if !isIdentifier name then .error (.invalidMethodName name)
  else if !isMethodPath path then .error (.invalidPath name path)
  else match requestType? params, responseType? returns with
    | none, _ => .error (.invalidParams name)
    | some _, none => .error (.invalidReturn name)
    | some request, some response => .ok ⟨name, path, request, response⟩

/-- The methods among fields, or the fault of the first that has one. -/
def ofFields (keys : Keys) : List (Annotated Member) → Except ServiceFault (List Method)
  | [] => .ok []
  | field :: fields =>
    match field.node.kind with
    | .property _ => ofFields keys fields
    | .method params returns =>
      match ofField keys field params returns with
      | .error fault => .error fault
      | .ok method =>
        match ofFields keys fields with
        | .error fault => .error fault
        | .ok methods => .ok (method :: methods)

end Method

namespace Service

/-- The name that an annotation gives, or else the name of the type. -/
def nameOf (keys : Keys) (type : TypeOutline) : Except ServiceFault String :=
  match type.decl.get? keys.serviceName with
  | none => .ok type.decl.node.name
  | some a =>
    if isIdentifier (trimmed a.value) then .ok (trimmed a.value)
    else .error (.invalidServiceName (trimmed a.value))

/-- The service that a declaration in a module is, or the first fault that rejects it. -/
def ofType (module : String) (type : TypeOutline) (keys : Keys) : Except ServiceFault Service :=
  match nameOf keys type with
  | .error fault => .error fault
  | .ok name =>
    match Method.ofFields keys type.fields with
    | .error fault => .error fault
    | .ok methods => .ok ⟨module, type.decl.node.name, name, methods⟩

end Service

/-- A marked declaration with the service it is, or its fault. -/
structure Candidate where
  type : TypeOutline
  result : Except ServiceFault Service

/-- The marked declarations of a file, in order. -/
def FileOutline.candidates (file : FileOutline) (keys : Keys) : List Candidate :=
  (file.types.filter (·.decl.has keys.marker)).map fun type =>
    ⟨type, Service.ofType file.file.node.module type keys⟩

end FetchClients
