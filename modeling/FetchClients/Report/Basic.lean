/-
# What a run reports

The issues of a run are listed by file and line with their number, then the
clients, then what was done in all. Warnings go to a stream of their own.

Key definitions: `Report.Output`, `Report.issueLines`, `Report.ofGeneration`,
`Report.ofInspection`, `Report.ofInit`.
-/
import FetchClients.Outline.Json
import FetchClients.Project.Generate
import FetchClients.Report.Styled

namespace FetchClients
namespace Report

/-- The lines that a run writes, and those of its warnings. -/
structure Output where
  lines : List (List Piece)
  warnings : List (List Piece)
deriving DecidableEq, Repr

open Piece

/-- A number with what it counts. -/
def count (n : Nat) (one many : String) : String :=
  toString n ++ " " ++ if n = 1 then one else many

/-- The mark of a success. -/
def successMark : Piece := coloured .green "✓"

/-- The mark of a failure. -/
def failureMark : Piece := coloured .red "✘"

/-! ### Issues -/

/-- Whether an issue stands before another, or at the same place: by file, then by line, and the
whole file first. -/
def notAfter (a b : Issue) : Bool :=
  if a.file = b.file then
    match a.line?, b.line? with
    | none, _ => true
    | some _, none => false
    | some m, some n => m ≤ n
  else a.file < b.file

/-- The name of a severity in a report. -/
def severityPiece : Severity → Piece
  | .error => both .bold .red Severity.error.label
  | .warning => both .bold .yellow Severity.warning.label

/-- Where an issue is. -/
def location (i : Issue) : String :=
  i.file ++ match i.line? with
    | some line => ":" ++ toString line
    | none => ""

/-- The lines of one issue. -/
def issueLines (i : Issue) : List (List Piece) :=
  [[severityPiece i.severity, plain (": " ++ i.message ++ "  "), both .dim .cyan i.rule.label],
    [plain "  ", coloured .blue "-->", plain (" " ++ location i)]] ++
  (i.note?.map fun note =>
    [plain "   ", coloured .blue "=", plain " ", shown .bold "note:",
      plain (" " ++ note)]).toList ++
  [[]]

/-- The line that counts issues. -/
def totalLine (issues : List Issue) : List Piece :=
  let errors := Issue.errorCount issues
  let warnings := issues.length - errors
  [failureMark, plain (" " ++ toString issues.length ++ " problems (" ++ toString errors ++ " "),
    coloured .red (if errors = 1 then "error" else "errors"),
    plain (", " ++ toString warnings ++ " "),
    coloured .yellow (if warnings = 1 then "warning" else "warnings"), plain ")"]

/-- The lines of all issues. -/
def allIssueLines (issues : List Issue) : List (List Piece) :=
  if issues.isEmpty then []
  else (issues.mergeSort notAfter).flatMap issueLines ++ [totalLine issues]

/-! ### Warnings -/

/-- What a warning opens with. -/
def warningMark : Piece := both .bold .yellow "warning:"

/-- The warning about sources that could not be parsed, which details make needless. -/
def parseWarning (issues : List Issue) (verbose : Bool) : List (List Piece) :=
  let n := (issues.filter fun i => i.rule = .parseError).length
  if n = 0 || verbose then []
  else [[warningMark, plain (" " ++ toString n ++ " file(s) could not be parsed (use "),
    coloured .cyan "-v", plain " for details)"]]

/-- The warning about paths that could not be looked at. -/
def skippedWarning (n : Nat) (verbose : Bool) : List (List Piece) :=
  if n = 0 then []
  else [[warningMark, plain (" " ++ toString n ++ " path(s) skipped due to access errors" ++
    if verbose then "" else " (use -v for details)")]]

/-! ### Runs -/

/-- The line of one client. -/
def clientLine (dryRun : Bool) (client : Client.Generated) : List Piece :=
  [if dryRun then both .bold .yellow "Would generate" else both .bold .green "Generated",
    plain (" " ++ client.path.text ++ " "), shown .dim "from", plain " ",
    shown .dim (client.source ++ " (" ++ client.service ++ ")")]

/-- What a run did in all. -/
def generationTotal (g : Generation) : String :=
  let files := count g.scanned "source file" "source files"
  let clients := count g.clients.length "client" "clients"
  if g.dryRun then
    "Scanned " ++ files ++ " - " ++ clients ++ " would be generated (dry run, nothing written)"
  else "Scanned " ++ files ++ " - generated " ++ clients

/-- The report of a run that generates clients. -/
def ofGeneration (g : Generation) (verbose : Bool) : Output where
  lines := allIssueLines g.issues ++ g.clients.map (clientLine g.dryRun) ++
    [[successMark, plain " ", coloured .green (generationTotal g)]]
  warnings := skippedWarning g.skipped verbose ++ parseWarning g.issues verbose

/-- The report of a source: its outline, or the issue that it cannot be parsed. -/
def ofInspection (path : String) (result : Except TypeScript.Failure FileOutline) (verbose : Bool) :
    Output :=
  match result with
  | .ok file => ⟨[[plain file.toJson.pretty]], []⟩
  | .error failure =>
    let issues := [Issue.unreadable path failure.message]
    ⟨allIssueLines issues, parseWarning issues verbose⟩

/-- The report of a new configuration file. -/
def ofInit (path : String) : Output :=
  ⟨[[successMark, plain " ", coloured .green ("Created " ++ path)]], []⟩

end Report
end FetchClients
