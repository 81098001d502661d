/-
# Reading a configuration

A configuration is read from an object, in which unknown fields are passed over
and none may be there twice, or from a list of the settings in their order. What
is left out has its default.

Key definitions: `Config.Field`, `Config.Settings`, `Config.read`.
-/
import FetchClients.Config.Basic
import FetchClients.Json.Reader

namespace FetchClients
namespace Config

/-- What can be set. -/
inductive Field where
  | includes
  | ignores
  | ignoreTestFiles
  | markerKey
  | serviceNameKey
  | pathKey
  | outputDir
deriving DecidableEq, Repr

namespace Field

/-- The fields in their order. -/
def all : List Field :=
  [includes, ignores, ignoreTestFiles, markerKey, serviceNameKey, pathKey, outputDir]

/-- How a field is written. -/
def name : Field → String
  | includes => "includes"
  | ignores => "ignores"
  | ignoreTestFiles => "ignoreTestFiles"
  | markerKey => "markerKey"
  | serviceNameKey => "serviceNameKey"
  | pathKey => "pathKey"
  | outputDir => "outputDir"

/-- The field with a name. -/
def ofName? (text : String) : Option Field :=
  all.find? fun field => field.name = text

end Field

/-- The settings that a text makes. -/
structure Settings where
  includes : Option (List String)
  ignores : Option (List String)
  ignoreTestFiles : Option Bool
  markerKey : Option String
  serviceNameKey : Option String
  pathKey : Option String
  outputDir : Option (Option String)
deriving DecidableEq, Repr

namespace Settings

/-- The settings of an empty text. -/
def none : Settings :=
  ⟨.none, .none, .none, .none, .none, .none, .none⟩

/-- Whether a field is set. -/
def has (s : Settings) : Field → Bool
  | .includes => s.includes.isSome
  | .ignores => s.ignores.isSome
  | .ignoreTestFiles => s.ignoreTestFiles.isSome
  | .markerKey => s.markerKey.isSome
  | .serviceNameKey => s.serviceNameKey.isSome
  | .pathKey => s.pathKey.isSome
  | .outputDir => s.outputDir.isSome

/-- The settings with a field that is read. -/
def readField (s : Settings) : Field → Json.Reader Settings
  | .includes => return { s with includes := some (← Json.listOf Json.text) }
  | .ignores => return { s with ignores := some (← Json.listOf Json.text) }
  | .ignoreTestFiles => return { s with ignoreTestFiles := some (← Json.flag) }
  | .markerKey => return { s with markerKey := some (← Json.text) }
  | .serviceNameKey => return { s with serviceNameKey := some (← Json.text) }
  | .pathKey => return { s with pathKey := some (← Json.text) }
  | .outputDir => return { s with outputDir := some (← Json.optional Json.text) }

/-- The configuration that settings make. -/
def config (s : Settings) : Config where
  includes := s.includes.getD default.includes
  ignores := s.ignores.getD default.ignores
  ignoreTestFiles := s.ignoreTestFiles.getD default.ignoreTestFiles
  markerKey := s.markerKey.getD default.markerKey
  serviceNameKey := s.serviceNameKey.getD default.serviceNameKey
  pathKey := s.pathKey.getD default.pathKey
  outputDir := s.outputDir.getD default.outputDir

/-- Reads the entry that a key opens. -/
def readEntry (s : Settings) (key : String) : Json.Reader Settings := do
  match Field.ofName? key with
  | some field =>
    if s.has field then Json.failRepeated key
    else
      Json.colon
      s.readField field
  | .none =>
    Json.colon
    Json.skipValue
    return s

/-- Reads the entries of an object and its end; the bound is on their number. -/
def readEntries : Nat → Bool → Settings → Json.Reader Settings
  | 0, _, s => pure s
  | n + 1, first, s => do
    match ← Json.nextKey first with
    | some key => readEntries n false (← s.readEntry key)
    | .none =>
      Json.advance
      return s

/-- Reads the fields of a list in order, as many as there are. -/
def readList : Bool → List Field → Settings → Json.Reader Settings
  | _, [], s => pure s
  | first, field :: fields, s => do
    if ← Json.moreItems first then
      readList false fields (← s.readField field)
    else return s

/-- Reads settings. -/
def read : Json.Reader Settings := do
  match ← Json.peekPart with
  | .none => Json.failNext .endInValue
  | some '\x7b' =>
    Json.advance
    readEntries ((← get).length + 1) true none
  | some '[' =>
    Json.advance
    let s ← readList true Field.all none
    Json.listEnd
    return s
  | some _ => Json.mismatch "struct Config"

end Settings

/-- The configuration that a text makes. -/
def read (text : String) : Except Json.Fault Config :=
  (Json.complete Settings.read text).map Settings.config

end Config
end FetchClients
