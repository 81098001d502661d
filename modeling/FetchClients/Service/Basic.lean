/-
# Services

A service is a declared type whose methods can all be called over HTTP: each
takes a request of a named type and promises a response of a named type. The
names of services and methods are identifiers and the paths are absolute, so
that each can stand in generated code as it is.

Key definitions: `Keys`, `Method`, `Service`, `ServiceFault`, `isIdentifier`,
`isMethodPath`, `Service.imports`.
Key theorem: `Service.mem_imports`.
-/
import FetchClients.Text.Basic
import FetchClients.Text.Sorted

namespace FetchClients

/-- The annotation keys that mark a service and set its name and its methods' paths. -/
structure Keys where
  marker : String
  serviceName : String
  path : String
deriving DecidableEq, Repr, Inhabited

/-- A method of a service, with the path that is added to the client's endpoint. -/
structure Method where
  name : String
  path : String
  requestType : String
  responseType : String
deriving DecidableEq, Repr, Inhabited

/-- A service: the type it implements, the module that declares it, and its methods. -/
structure Service where
  module : String
  interface : String
  name : String
  methods : List Method
deriving DecidableEq, Repr, Inhabited

/-- Why a marked declaration is not a service. -/
inductive ServiceFault where
  | invalidParams (method : String)
  | invalidReturn (method : String)
  | invalidServiceName (name : String)
  | invalidMethodName (name : String)
  | invalidPath (method path : String)
  | duplicateOutput (path other : String)
deriving DecidableEq, Repr, Inhabited

namespace ServiceFault

/-- What is wrong, in words. -/
def message : ServiceFault → String
  | invalidParams method =>
    "method '" ++ method ++ "' must take a request of a named type as its first parameter"
  | invalidReturn method =>
    "method '" ++ method ++ "' must return Promise<T> where T is a named response type"
  | invalidServiceName name => "invalid service name \"" ++ name ++ "\": expected an identifier"
  | invalidMethodName name => "invalid method name " ++ name ++ ": expected an identifier"
  | invalidPath method path =>
    "invalid path \"" ++ path ++ "\" on method '" ++ method ++
      "': expected an absolute path like /" ++ method
  | duplicateOutput path other =>
    "output file " ++ path ++ " is also generated for service '" ++ other ++ "'"

end ServiceFault

/-- An ASCII letter, `_` or `$`. -/
def isNameStart (c : Char) : Bool :=
  c.isAlpha || c = '_' || c = '$'

/-- An ASCII letter or digit, `_` or `$`. -/
def isNamePart (c : Char) : Bool :=
  c.isAlphanum || c = '_' || c = '$'

/-- Whether a text is an ASCII identifier. -/
def isIdentifier (text : String) : Bool :=
  match text.toList with
  | [] => false
  | c :: cs => isNameStart c && cs.all isNamePart

/-- A character that a method's path may hold. -/
def isPathPart (c : Char) : Bool :=
  c.isAlphanum || "_-./~:\x7b\x7d".toList.contains c

/-- Whether a text is an absolute path of plain characters. -/
def isMethodPath (text : String) : Bool :=
  match text.toList with
  | '/' :: cs => cs.all isPathPart
  | _ => false

namespace Service

/-- The request and response types of the methods, sorted and each once. -/
def imports (s : Service) : List String :=
  Text.sorted (s.methods.flatMap fun m => [m.requestType, m.responseType])

/-- The name of the generated class. -/
def className (s : Service) : String :=
  s.name ++ "Gen"

/-- The imported names are the types of the methods. -/
theorem mem_imports {s : Service} {name : String} :
    name ∈ s.imports ↔ ∃ m ∈ s.methods, name = m.requestType ∨ name = m.responseType := by
  simp [imports, Text.mem_sorted]

end Service
end FetchClients
