/-
# The command line

A command line names a command and gives its options and operands. An option is
written with its long name or its letter; letters may share one dash. An option
with a value takes it from behind an `=` or from the next argument that does not
look like an option. Nothing may be given twice, and after `--` there are only
operands. An option takes effect only when the next one is read, so of two
faults the one that shows first is reported.

Key definitions: `CommandLine.Parameter`, `CommandLine.Command`,
`CommandLine.Request`, `CommandLine.parse`.
-/
import FetchClients.CommandLine.Help
import FetchClients.Project.Generate

namespace FetchClients
namespace CommandLine

/-- Why a command line is refused. -/
inductive Refusal where
  | unknownArgument
  | invalidSubcommand
  | missingRequiredArgument
  | invalidValue
  | argumentConflict
  | tooManyValues
deriving DecidableEq, Repr

/-- What a command does. -/
inductive Command where
  | generate (options : GenerateOptions)
  | inspect (file : Path) (verbose : Bool)
  | init
deriving DecidableEq, Repr

/-- What a command line asks for. -/
inductive Request where
  | run (command : Command)
  | nothing
  | help (topic : Topic)
  | version
  | refuse (refusal : Refusal)
deriving DecidableEq, Repr

/-- What can be given to a command. -/
inductive Parameter where
  | sourceRoot
  | outputDir
  | dryRun
  | verbose
  | help
  | file
deriving DecidableEq, Repr

namespace Parameter

/-- Whether a parameter has a value. -/
def takesValue : Parameter → Bool
  | sourceRoot | outputDir | file => true
  | dryRun | verbose | help => false

/-- The long name of an option. -/
def long? : Parameter → Option String
  | sourceRoot => some "source-root"
  | outputDir => some "output-dir"
  | dryRun => some "dry-run"
  | verbose => some "verbose"
  | help => some "help"
  | file => none

/-- The letter of an option. -/
def letter? : Parameter → Option Char
  | verbose => some 'v'
  | help => some 'h'
  | _ => none

end Parameter

/-- A command: what help there is on it, its options, and whether it has a file as operand. -/
structure Usage where
  topic : Topic
  options : List Parameter
  takesFile : Bool

/-- What was read of a command line: the parameters that were given with their values, the last of
them if it has not yet taken effect, and whether only operands follow. -/
structure Given where
  settled : List (Parameter × String)
  pending : Option (Parameter × Option String)
  operandsOnly : Bool
  fileSeen : Bool

namespace Given

/-- Nothing yet. -/
def empty : Given := ⟨[], none, false, false⟩

/-- Whether a parameter took effect. -/
def has (g : Given) (p : Parameter) : Bool :=
  g.settled.any (·.1 = p)

/-- The value of a parameter. -/
def value? (g : Given) (p : Parameter) : Option String :=
  (g.settled.find? (·.1 = p)).map (·.2)

/-- Puts a parameter into effect, once and with a value that is not empty. -/
def put (g : Given) (p : Parameter) (value : String) : Except Refusal Given :=
  if g.has p then .error .argumentConflict
  else if p.takesValue && value.isEmpty then .error .invalidValue
  else .ok { g with settled := (p, value) :: g.settled, pending := none }

/-- Puts the last parameter into effect. -/
def settle (g : Given) : Except Refusal Given :=
  match g.pending with
  | none => .ok g
  | some (_, none) => .error .invalidValue
  | some (p, some value) => { g with pending := none }.put p value

end Given

/-- Where reading an argument leads: on, or to a request for help. -/
inductive Next where
  | more (given : Given)
  | help

/-- Reads an option without a value. -/
def readFlag (g : Given) (p : Parameter) : Except Refusal Next :=
  match g.settle with
  | .error refusal => .error refusal
  | .ok g => if p = .help then .ok .help else (g.put p "").map .more

/-- Reads an option by its long name, with what stands behind an `=`. -/
def readLong (u : Usage) (g : Given) (name : String) (value : Option String) :
    Except Refusal Next :=
  match u.options.find? (·.long? = some name), value with
  | none, _ => .error .unknownArgument
  | some p, none =>
    if p.takesValue then
      g.settle.map fun g => .more { g with pending := some (p, none) }
    else readFlag g p
  | some p, some value =>
    if p.takesValue then
      match g.settle with
      | .error refusal => .error refusal
      | .ok g => (g.put p value).map .more
    else .error .tooManyValues

/-- Reads options by their letters. -/
def readLetters (u : Usage) (g : Given) : List Char → Except Refusal Next
  | [] => .ok (.more g)
  | c :: cs =>
    match u.options.find? (·.letter? = some c) with
    | none => .error .unknownArgument
    | some p =>
      match readFlag g p with
      | .error refusal => .error refusal
      | .ok .help => .ok .help
      | .ok (.more g) => readLetters u g cs

/-- Reads an operand. -/
def readOperand (u : Usage) (g : Given) (text : String) : Except Refusal Next :=
  if u.takesFile && !g.fileSeen then
    g.settle.map fun g => .more { g with pending := some (.file, some text), fileSeen := true }
  else .error .unknownArgument

/-- A long option without its dashes, cut at the first `=`. -/
def cutLong (body : List Char) : String × Option String :=
  match Text.cutAt? '=' body with
  | some (name, value) => (String.ofList name, some (String.ofList value))
  | none => (String.ofList body, none)

/-- Reads one argument. -/
def readArgument (u : Usage) (g : Given) (text : String) : Except Refusal Next :=
  if g.operandsOnly then readOperand u g text
  else match text.toList with
    | ['-', '-'] => .ok (.more { g with operandsOnly := true })
    | '-' :: '-' :: body =>
      let (name, value) := cutLong body
      readLong u g name value
    | '-' :: c :: cs => readLetters u g (c :: cs)
    | _ =>
      match g.pending with
      | some (p, none) => .ok (.more { g with pending := some (p, some text) })
      | _ => readOperand u g text

/-- Reads the arguments of a command, and makes a request of what was given. -/
def readArguments (u : Usage) (finish : Given → Request) (g : Given) : List String → Request
  | [] =>
    match g.settle with
    | .error refusal => .refuse refusal
    | .ok g => finish g
  | text :: texts =>
    match readArgument u g text with
    | .error refusal => .refuse refusal
    | .ok .help => .help u.topic
    | .ok (.more g) => readArguments u finish g texts

/-- The parameters of `generate`. -/
def generateUsage : Usage :=
  ⟨.generate, [.sourceRoot, .verbose, .outputDir, .dryRun, .help], false⟩

/-- The parameters of `inspect`. -/
def inspectUsage : Usage := ⟨.inspect, [.verbose, .help], true⟩

/-- The parameters of `init`. -/
def initUsage : Usage := ⟨.init, [.help], false⟩

/-- The request that `generate` makes. -/
def generateRequest (g : Given) : Request :=
  .run (.generate ⟨(g.value? .sourceRoot).map Path.mk, (g.value? .outputDir).map Path.mk,
    g.has .dryRun, g.has .verbose⟩)

/-- The request that `inspect` makes. -/
def inspectRequest (g : Given) : Request :=
  match g.value? .file with
  | some file => .run (.inspect ⟨file⟩ (g.has .verbose))
  | none => .refuse .missingRequiredArgument

/-- The request for help on a command, which has no commands of its own. -/
def helpRequest : List String → Request
  | [] => .help .program
  | text :: texts =>
    match Topic.ofCommand? text, texts with
    | some topic, [] => .help topic
    | _, _ => .refuse .invalidSubcommand

/-- Reads the letters of options before a command; each of them is a request. -/
def letterRequest (c : Char) : Request :=
  if c = 'h' then .help .program
  else if c = 'V' then .version
  else .refuse .unknownArgument

/-- Reads a long option before a command, which is a request. -/
def longRequest (body : List Char) : Request :=
  match cutLong body with
  | ("help", none) => .help .program
  | ("version", none) => .version
  | ("help", some _) | ("version", some _) => .refuse .tooManyValues
  | _ => .refuse .unknownArgument

/-- What a command line asks for. -/
def parse : List String → Request
  | [] => .nothing
  | "generate" :: texts => readArguments generateUsage generateRequest .empty texts
  | "inspect" :: texts => readArguments inspectUsage inspectRequest .empty texts
  | "init" :: texts => readArguments initUsage (fun _ => .run .init) .empty texts
  | "help" :: texts => helpRequest texts
  | "--" :: texts =>
    match texts with
    | [] => .nothing
    | text :: _ =>
      if (Topic.ofCommand? text).isSome then .refuse .unknownArgument
      else .refuse .invalidSubcommand
  | text :: _ =>
    match text.toList with
    | '-' :: '-' :: body => longRequest body
    | '-' :: c :: _ => letterRequest c
    | _ => .refuse .invalidSubcommand

end CommandLine
end FetchClients
