/-
# Comments of a source

A comment keeps its text without markers and the lines it starts and ends on.

Key definitions: `Comment`, `Comment.literal`.
-/

namespace FetchClients
namespace TypeScript

/-- The two ways to write a comment. -/
inductive CommentKind where
  | line
  | block
deriving DecidableEq, Repr, Inhabited

/-- A comment: its kind, the text between its markers, and its first and last line. -/
structure Comment where
  kind : CommentKind
  text : String
  firstLine : Nat
  lastLine : Nat
deriving DecidableEq, Repr, Inhabited

/-- The comment with its markers. -/
def Comment.literal (c : Comment) : String :=
  match c.kind with
  | .line => "//" ++ c.text
  | .block => "/*" ++ c.text ++ "*/"

end TypeScript
end FetchClients
