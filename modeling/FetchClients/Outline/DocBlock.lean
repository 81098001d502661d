/-
# Doc comments

The comments above a node fall into runs, which blank lines divide. The last
run is the node's doc if no blank line stands between the two. The first run of
a file is the doc of the file, unless it is the only one and is already the doc
of the declaration that the file opens with.

Key definitions: `runs`, `abuts`, `docBlock`, `fileDocBlock`.
-/
import FetchClients.TypeScript.Comment

namespace FetchClients

open TypeScript (Comment)

/-- Comments in pieces, cut wherever a blank line stands between two neighbours. -/
def runs (comments : List Comment) : List (List Comment) :=
  comments.splitBy fun a b => b.firstLine ≤ a.lastLine + 1

/-- Whether no blank line stands between a run and a line below it. -/
def abuts (run : List Comment) (line : Nat) : Bool :=
  match run.getLast? with
  | some last => line ≤ last.lastLine + 1
  | none => false

/-- The doc comments of a node on a line, out of the comments above it. -/
def docBlock (comments : List Comment) (line : Nat) : List Comment :=
  match (runs comments).getLast? with
  | some run => if abuts run line then run else []
  | none => []

/-- The doc comments of a file, out of the comments above its first item. If the item is a
declaration, its line is given. -/
def fileDocBlock (comments : List Comment) (declLine : Option Nat) : List Comment :=
  match runs comments, declLine with
  | [], _ => []
  | [run], some line => if abuts run line then [] else run
  | run :: _, _ => run

end FetchClients
