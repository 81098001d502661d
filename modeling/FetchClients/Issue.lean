/-
# Issues of a run

What a run of `generate` finds wrong without stopping: a file that cannot be
read or parsed, or a marked declaration that is not a service.

Key definitions: `Issue`, `Issue.rule`, `Issue.message`, `Issue.line?`,
`Issue.note?`, `Issue.errorCount`.
Key theorem: `Issue.errorCount_eq_length`.
-/
import FetchClients.Service.Basic

namespace FetchClients

/-- How grave an issue is. -/
inductive Severity where
  | error
  | warning
deriving DecidableEq, Repr

/-- The name of a severity. -/
def Severity.label : Severity → String
  | error => "error"
  | warning => "warning"

/-- The rules that issues break. -/
inductive Rule where
  | parseError
  | invalidService
deriving DecidableEq, Repr

/-- The name of a rule. -/
def Rule.label : Rule → String
  | parseError => "parse-error"
  | invalidService => "invalid-service"

/-- One thing found wrong in a file. -/
inductive Issue where
  | unreadable (file error : String)
  | invalidService (file : String) (line : Nat) (typeName : String) (fault : ServiceFault)
deriving DecidableEq, Repr

namespace Issue

/-- Every issue is an error. -/
def severity (_ : Issue) : Severity := .error

/-- The rule that is broken. -/
def rule : Issue → Rule
  | unreadable .. => .parseError
  | invalidService .. => .invalidService

/-- The file it is found in. -/
def file : Issue → String
  | unreadable file _ => file
  | invalidService file .. => file

/-- The line it is found on, unless it is the whole file's. -/
def line? : Issue → Option Nat
  | unreadable .. => none
  | invalidService _ line .. => some line

/-- What is wrong, in words. -/
def message : Issue → String
  | unreadable _ error => error
  | invalidService _ _ _ fault => fault.message

/-- What to add in a note. -/
def note? : Issue → Option String
  | unreadable .. => none
  | invalidService _ _ typeName _ => some ("in declaration of " ++ typeName)

/-- How many issues are errors. -/
def errorCount (issues : List Issue) : Nat :=
  (issues.filter fun i => i.severity = .error).length

theorem errorCount_eq_length (issues : List Issue) : errorCount issues = issues.length := by
  simp [errorCount, severity]

end Issue
end FetchClients
