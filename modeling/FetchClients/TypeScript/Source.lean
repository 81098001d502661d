/-
# Places in a source text

A mark is a place between two characters: how many characters are before it,
and its line. A line ends at a line feed, at a carriage return, or at the two
together; a break that ends the source starts no further line. Reading moves a
cursor over the text that is left.

Key definitions: `Mark`, `Span`, `Cursor`, `Cursor.advance`.
Key theorem: `Cursor.rest_advance`.
-/

namespace FetchClients
namespace TypeScript

/-- A place in a source: the characters before it, and its line, counted from 1. -/
structure Mark where
  offset : Nat
  line : Nat
deriving DecidableEq, Repr, Inhabited

/-- A piece of a source, from one place to another. -/
structure Span where
  start : Mark
  stop : Mark
deriving DecidableEq, Repr, Inhabited

/-- The place where every source starts. -/
def Mark.origin : Mark := ⟨0, 1⟩

/-- Whether a line ends with a character that stands before `rest`. -/
def endsLine (c : Char) (rest : List Char) : Bool :=
  c = '\n' || (c = '\r' && rest.head? ≠ some '\n')

/-- The place after a character that stands before `rest`. No line starts where the source ends. -/
def Mark.after (m : Mark) (c : Char) (rest : List Char) : Mark :=
  if endsLine c rest && !rest.isEmpty then ⟨m.offset + 1, m.line + 1⟩ else ⟨m.offset + 1, m.line⟩

/-- Where reading stands: a place and the text after it. -/
structure Cursor where
  mark : Mark
  rest : List Char
deriving DecidableEq, Inhabited

namespace Cursor

/-- The cursor some characters further on. -/
def advance : Nat → Cursor → Cursor
  | 0, c => c
  | _ + 1, ⟨m, []⟩ => ⟨m, []⟩
  | n + 1, ⟨m, c :: cs⟩ => advance n ⟨m.after c cs, cs⟩

/-- Advancing drops as many characters as it is told. -/
theorem rest_advance : ∀ (n : Nat) (c : Cursor), (c.advance n).rest = c.rest.drop n
  | 0, _ => rfl
  | _ + 1, ⟨_, []⟩ => rfl
  | n + 1, ⟨m, c :: cs⟩ => by
    simp only [advance, List.drop_succ_cons]
    exact rest_advance n ⟨m.after c cs, cs⟩

end Cursor

/-- The text of a span in a source. -/
def Span.text (span : Span) (source : List Char) : String :=
  String.ofList ((source.drop span.start.offset).take (span.stop.offset - span.start.offset))

/-- A line break for the language: it ends a `//` comment and a statement. -/
def isLineEnd (c : Char) : Bool :=
  c = '\n' || c = '\r' || c.toNat = 0x2028 || c.toNat = 0x2029

/-- A blank of the language that does not end a line. -/
def isSpace (c : Char) : Bool :=
  let n := c.toNat
  n == 0x09 || n == 0x0B || n == 0x0C || n == 0x20 || n == 0xA0 || n == 0x1680 ||
    (0x2000 ≤ n && n ≤ 0x200A) || n == 0x202F || n == 0x205F || n == 0x3000 || n == 0xFEFF

/-- How many characters at the start of a text satisfy a test. -/
def countWhile (p : Char → Bool) : List Char → Nat
  | [] => 0
  | c :: cs => if p c then countWhile p cs + 1 else 0

end TypeScript
end FetchClients
