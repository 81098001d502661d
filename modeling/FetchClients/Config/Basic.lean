/-
# The configuration

What a project can set: where its sources are, what is passed over, the keys of
the annotations that are read, and where clients are written. Every setting has
a default. The patterns of a valid configuration can be compiled and its keys
can stand in an annotation.

Key definitions: `Config`, `Config.default`, `Config.toJson`, `Config.fault?`,
`Config.keys`.
-/
import FetchClients.Glob.Pattern
import FetchClients.Json.Value
import FetchClients.Service.Basic
import FetchClients.Text.Blank

namespace FetchClients

/-- The settings of a project. -/
structure Config where
  includes : List String
  ignores : List String
  ignoreTestFiles : Bool
  markerKey : String
  serviceNameKey : String
  pathKey : String
  outputDir : Option String
deriving DecidableEq, Repr

/-- Why a configuration cannot be used. -/
inductive ConfigFault where
  | invalidPattern (setting pattern : String) (fault : Glob.Fault)
  | invalidKey (setting key : String)
deriving DecidableEq, Repr

/-- The fault in words. -/
def ConfigFault.message : ConfigFault → String
  | invalidPattern setting pattern fault =>
    "Invalid glob pattern in '" ++ setting ++ "': \"" ++ pattern ++ "\": " ++ fault.message
  | invalidKey setting key => "Invalid annotation key in '" ++ setting ++ "': \"" ++ key ++ "\""

namespace Config

/-- The settings of a project that sets nothing. -/
def default : Config where
  includes := []
  ignores := ["**/node_modules/**"]
  ignoreTestFiles := true
  markerKey := "HttpClient"
  serviceNameKey := "ServiceName"
  pathKey := "Path"
  outputDir := none

/-- The keys of the annotations that are read. -/
def keys (c : Config) : Keys := ⟨c.markerKey, c.serviceNameKey, c.pathKey⟩

/-- The settings as JSON; an output directory that is not set is left out. -/
def toJson (c : Config) : Json :=
  .obj ([("includes", .arr (c.includes.map .str)), ("ignores", .arr (c.ignores.map .str)),
    ("ignoreTestFiles", .bool c.ignoreTestFiles), ("markerKey", .str c.markerKey),
    ("serviceNameKey", .str c.serviceNameKey), ("pathKey", .str c.pathKey)] ++
    (c.outputDir.map fun dir => ("outputDir", Json.str dir)).toList)

/-- The fault of a pattern, if it is to be read as one and cannot be. -/
def patternFault? (setting pattern : String) : Option ConfigFault :=
  if Glob.isGlob pattern then
    match Glob.compile pattern with
    | .ok _ => none
    | .error fault => some (.invalidPattern setting pattern fault)
  else none

/-- Whether a key can be that of an annotation: it is not empty and has no blanks. -/
def isKey (key : String) : Bool :=
  !key.isEmpty && !key.toList.any Text.isBlank

/-- The fault of a key, if it cannot be that of an annotation. -/
def keyFault? (setting key : String) : Option ConfigFault :=
  if isKey key then none else some (.invalidKey setting key)

/-- The first fault of the settings, if there is one. -/
def fault? (c : Config) : Option ConfigFault :=
  (c.ignores.findSome? (patternFault? "ignores")).or <|
  (c.includes.findSome? (patternFault? "includes")).or <|
  (keyFault? "markerKey" c.markerKey).or <|
  (keyFault? "serviceNameKey" c.serviceNameKey).or <|
  keyFault? "pathKey" c.pathKey

theorem isKey_eq_true_iff {key : String} :
    isKey key = true ↔ key ≠ "" ∧ ∀ c ∈ key.toList, Text.isBlank c = false := by
  simp [isKey]

end Config
end FetchClients
