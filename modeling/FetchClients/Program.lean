/-
# The program

A command line and a disk make an ending: a report on the two streams, a help
text, a refusal, or a fatal fault. Only `generate` and `init` change the disk.

Key definitions: `Program.Ending`, `Program.init`, `Program.inspect`,
`Program.run`, `Program.Ending.exitCode`.
-/
import FetchClients.CommandLine.Parse
import FetchClients.Report.Basic

namespace FetchClients
namespace Program

/-- How a run of the program ends. -/
inductive Ending where
  | finished (clean : Bool) (out warnings : String)
  | help (text : String)
  | version (text : String)
  | refused (refusal : CommandLine.Refusal)
  | fatal (message : String)
deriving DecidableEq, Repr

/-- The exit code: nothing wrong, issues, or no run at all. -/
def Ending.exitCode : Ending → Nat
  | finished true .. | help _ | version _ => 0
  | finished false .. => 1
  | refused _ | fatal _ => 2

/-- An ending with a report. -/
def finish (colours clean : Bool) (output : Report.Output) : Ending :=
  .finished clean (Report.renderLines colours output.lines)
    (Report.renderLines colours output.warnings)

theorem exitCode_finish (colours clean : Bool) (output : Report.Output) :
    (finish colours clean output).exitCode = if clean then 0 else 1 := by
  cases clean <;> rfl

/-- Writes the default configuration into the working directory, unless there is one. -/
def init (colours : Bool) (d : Disk) : Disk × Ending :=
  let path : Path := ⟨Config.fileName⟩
  if d.has path then (d, .fatal (Config.fileName ++ " already exists"))
  else match d.writeFile path (some Config.default.toJson.pretty) with
    | .error problem =>
      (d, .fatal ("Failed to write " ++ Config.fileName ++ ": " ++ problem.message))
    | .ok d => (d, finish colours true (Report.ofInit path.text))

/-- Prints the outline of a source. -/
def inspect (colours : Bool) (d : Disk) (file : Path) (verbose : Bool) : Ending :=
  match d.readText file with
  | .error problem => .fatal (SourceFault.unreadable file.text problem).message
  | .ok text =>
    let result := FileOutline.ofSource file.text text
    finish colours result.isOk (Report.ofInspection file.text result verbose)

/-- Generates clients. -/
def generate (colours : Bool) (d : Disk) (options : GenerateOptions) : Disk × Ending :=
  match FetchClients.generate d options with
  | (d, .error fault) => (d, .fatal fault.message)
  | (d, .ok generation) =>
    (d, finish colours (Issue.errorCount generation.issues = 0)
      (Report.ofGeneration generation options.verbose))

/-- Runs the program. -/
def run (colours : Bool) (d : Disk) (arguments : List String) : Disk × Ending :=
  match CommandLine.parse arguments with
  | .nothing => (d, .finished true CommandLine.Topic.program.text "")
  | .help topic => (d, .help topic.text)
  | .version => (d, .version CommandLine.versionText)
  | .refuse refusal => (d, .refused refusal)
  | .run (.generate options) => generate colours d options
  | .run (.inspect file verbose) => (d, inspect colours d file verbose)
  | .run .init => init colours d

end Program
end FetchClients
