/-
# Gaps between tokens

Blanks and comments stand between tokens. A comment belongs to the token after
it, or else to the token before it and then documents nothing. It belongs to
the token before it if it starts on the line where that token ends, unless an
operator awaits its second operand there; a block comment does so only after a
token that closes something, or in front of a `;`.

Key definitions: `Gap`, `Gap.scan`, `Gap.leading`.
-/
import FetchClients.TypeScript.Comment
import FetchClients.TypeScript.Token

namespace FetchClients
namespace TypeScript

/-- What was found in a gap: whether it breaks the line, and its comments, the last one first,
each with whether it belongs to the token after it. -/
structure Gap where
  broken : Bool
  comments : List (Bool × Comment)
  cursor : Cursor
deriving Inhabited

namespace Gap

/-- What is being read in a gap. -/
inductive Mode where
  | blank
  | line (start : Mark) (leading : Bool) (text : List Char)
  | block (start : Mark) (leading : Bool) (text : List Char)

/-- Whether a `;` comes next, after blanks. -/
def semicolonNext : List Char → Bool
  | [] => false
  | c :: cs => if isSpace c || isLineEnd c then semicolonNext cs else c = ';'

/-- Whether a line comment after this token documents what follows. -/
def lineLeads (previous : Option TokenKind) (broken : Bool) : Bool :=
  broken || (previous.any TokenKind.isOperator)

/-- Whether a block comment after this token documents what follows. -/
def blockLeads (previous : Option TokenKind) (broken : Bool) : Bool :=
  broken || !(previous.any TokenKind.keepsBlockComment)

/-- A finished comment; the text is reversed. -/
def finished (kind : CommentKind) (start stop : Mark) (text : List Char) : Comment :=
  ⟨kind, String.ofList text.reverse, start.line, stop.line⟩

/-- The marker that opens a comment at the start of a text, by its length. -/
def openedComment (broken : Bool) (text : List Char) : Option (CommentKind × Nat) :=
  if text.take 2 = ['/', '/'] then some (.line, 2)
  else if text.take 2 = ['/', '*'] then some (.block, 2)
  else if text.take 4 = ['<', '!', '-', '-'] then some (.line, 4)
  else if broken && text.take 3 = ['-', '-', '>'] then some (.line, 3)
  else none

/-- Reads a gap to its end, passing over the first `skip` characters. A block comment that is
never closed is no comment. -/
def scan (previous : Option TokenKind) (skip : Nat) (mode : Mode) (broken : Bool)
    (comments : List (Bool × Comment)) (m : Mark) : List Char → Gap
  | [] =>
    match mode with
    | .line start leading text =>
      ⟨broken, (leading, finished .line start m text) :: comments, ⟨m, []⟩⟩
    | _ => ⟨broken, comments, ⟨m, []⟩⟩
  | c :: cs =>
    let after := m.after c cs
    if skip ≠ 0 then scan previous (skip - 1) mode broken comments after cs
    else match mode with
    | .line start leading text =>
      if isLineEnd c then
        scan previous 0 .blank true ((leading, finished .line start m text) :: comments) after cs
      else scan previous 0 (.line start leading (c :: text)) broken comments after cs
    | .block start leading text =>
      if c = '*' && cs.head? = some '/' then
        let stop : Mark := ⟨m.offset + 2, m.line⟩
        let comment := (leading && !semicolonNext (cs.drop 1), finished .block start stop text)
        scan previous 1 .blank broken (comment :: comments) after cs
      else
        scan previous 0 (.block start leading (c :: text)) (broken || isLineEnd c) comments after cs
    | .blank =>
      if isSpace c then scan previous 0 .blank broken comments after cs
      else if isLineEnd c then scan previous 0 .blank true comments after cs
      else match openedComment broken (c :: cs) with
        | some (.line, n) =>
          scan previous (n - 1) (.line m (lineLeads previous broken) []) broken comments after cs
        | some (.block, n) =>
          scan previous (n - 1) (.block m (blockLeads previous broken) []) broken comments after cs
        | none => ⟨broken, comments, ⟨m, c :: cs⟩⟩

/-- The gap after a token. -/
def after (previous : Option TokenKind) (c : Cursor) : Gap :=
  scan previous 0 .blank previous.isNone [] c.mark c.rest

/-- The comments that belong to the token after the gap, in order. -/
def leading (g : Gap) : List Comment :=
  (g.comments.filter (·.1)).reverse.map (·.2)

end Gap

end TypeScript
end FetchClients
