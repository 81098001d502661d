/-
# Glob patterns

A pattern is a list of tokens. `?` stands for any character, `*` for any text,
`[..]` and `[!..]` for a character in a set or outside it, and `**`, which must
fill the place between two slashes, for nothing or for any text that ends with a
slash or with the whole. All other characters stand for themselves. A slash is
an ordinary character for every token but `**`.

Key definitions: `Glob.Token`, `Glob.compile`, `Glob.accepts`, `Glob.isGlob`.
Key theorems: `Glob.literal?_eq_some_iff`, `Glob.accepts_literal_iff`.
-/
import FetchClients.Text.Basic

namespace FetchClients
namespace Glob

/-- Whether a text is to be read as a pattern: only `*` and `?` make it one. -/
def isGlob (text : String) : Bool :=
  text.toList.any fun c => c = '*' || c = '?'

/-- The characters from one to another. -/
structure Range where
  first : Char
  last : Char
deriving DecidableEq, Repr

/-- Whether a range holds a character. -/
def Range.contains (r : Range) (c : Char) : Bool :=
  r.first ≤ c && c ≤ r.last

/-- A part of a pattern. -/
inductive Token where
  | char (c : Char)
  | anyChar
  | within (ranges : List Range)
  | outside (ranges : List Range)
  | anyText
  | anyFolders
deriving DecidableEq, Repr

/-- Why a text is no pattern. -/
inductive Cause where
  | invalidRange
  | manyStars
  | partialFolders
deriving DecidableEq, Repr

/-- Why a text is no pattern, and how many characters are before the place where that shows. -/
structure Fault where
  cause : Cause
  position : Nat
deriving DecidableEq, Repr

/-- The cause in words. -/
def Cause.message : Cause → String
  | invalidRange => "invalid range pattern"
  | manyStars => "wildcards are either regular `*` or recursive `**`"
  | partialFolders => "recursive wildcards must form a single path component"

/-- The fault in words. -/
def Fault.message (f : Fault) : String :=
  "Pattern syntax error near position " ++ toString f.position ++ ": " ++ f.cause.message

/-- The ranges that a set is written with; a `-` between two characters makes them the ends of a
range. -/
def ranges : List Char → List Range
  | first :: '-' :: last :: cs => ⟨first, last⟩ :: ranges cs
  | c :: cs => ⟨c, c⟩ :: ranges cs
  | [] => []

/-- The set that a text after a `[` opens with, and how many characters it takes up with its end.
A `]` that stands first is in the set. -/
def set? : List Char → Option (Token × Nat)
  | '!' :: c :: cs =>
    (Text.cutAt? ']' cs).map fun (inner, _) => (.outside (ranges (c :: inner)), inner.length + 3)
  | '!' :: [] => none
  | c :: cs =>
    (Text.cutAt? ']' cs).map fun (inner, _) => (.within (ranges (c :: inner)), inner.length + 2)
  | [] => none

/-- The tokens of a text that stands behind `position` characters of a pattern, the last of which
is a slash if `atStart` and the text does not open the pattern. -/
def tokens (atStart : Bool) (position : Nat) : List Char → Except Fault (List Token)
  | [] => .ok []
  | '?' :: cs => (tokens false (position + 1) cs).map (.anyChar :: ·)
  | '*' :: '*' :: '*' :: _ => .error ⟨.manyStars, position + 2⟩
  | '*' :: '*' :: cs =>
    if !atStart then .error ⟨.partialFolders, position - 1⟩
    else match cs with
      | [] => .ok [.anyFolders]
      | '/' :: rest => (tokens true (position + 3) rest).map (.anyFolders :: ·)
      | _ => .error ⟨.partialFolders, position + 2⟩
  | '*' :: cs => (tokens false (position + 1) cs).map (.anyText :: ·)
  | '[' :: cs =>
    match set? cs with
    | some (set, length) =>
      (tokens false (position + 1 + length) (cs.drop length)).map (set :: ·)
    | none => .error ⟨.invalidRange, position⟩
  | c :: cs => (tokens (c = '/') (position + 1) cs).map (.char c :: ·)
termination_by text => text.length
decreasing_by all_goals (simp only [List.length_drop, List.length_cons]; omega)

/-- The tokens of a pattern. -/
def compile (pattern : String) : Except Fault (List Token) :=
  tokens true 0 pattern.toList

/-- A text and all that is left of it after one character, after two, and so on. -/
def suffixes : List Char → List (List Char)
  | [] => [[]]
  | c :: cs => (c :: cs) :: suffixes cs

/-- What is left of a text after each slash, and after the whole. -/
def belowSlashes : List Char → List (List Char)
  | [] => [[]]
  | c :: cs => if c = '/' then cs :: belowSlashes cs else belowSlashes cs

/-- Whether a token for one character stands for this one. -/
def Token.accepts (t : Token) (c : Char) : Bool :=
  match t with
  | char d => c = d
  | anyChar => true
  | within ranges => ranges.any (·.contains c)
  | outside ranges => !ranges.any (·.contains c)
  | anyText | anyFolders => false

/-- Whether a pattern stands for the whole of a text. -/
def accepts : List Token → List Char → Bool
  | [], text => text.isEmpty
  | .anyText :: ts, text => (suffixes text).any (accepts ts)
  | .anyFolders :: ts, text => (text :: belowSlashes text).any (accepts ts)
  | _ :: _, [] => false
  | t :: ts, c :: cs => t.accepts c && accepts ts cs

/-- The only text that a pattern stands for, if all its tokens are characters. -/
def literal? : List Token → Option (List Char)
  | [] => some []
  | .char c :: ts => (literal? ts).map (c :: ·)
  | _ :: _ => none

/-- Whether a pattern goes down into folders. -/
def isRecursive (pattern : List Token) : Bool :=
  pattern.contains .anyFolders

theorem literal?_eq_some_iff : ∀ {ts : List Token} {text : List Char},
    literal? ts = some text ↔ ts = text.map .char
  | [], text => by cases text <;> simp [literal?]
  | t :: ts, text => by
    cases t <;> cases text <;> simp [literal?]
    constructor
    · rintro ⟨hrest, rfl⟩
      exact ⟨rfl, literal?_eq_some_iff.1 hrest⟩
    · rintro ⟨rfl, hts⟩
      exact ⟨literal?_eq_some_iff.2 hts, rfl⟩

theorem accepts_literal_iff : ∀ {text other : List Char},
    accepts (text.map .char) other = true ↔ other = text
  | [], other => by simp [accepts]
  | c :: cs, [] => by simp [accepts]
  | c :: cs, d :: ds => by simp [accepts, Token.accepts, accepts_literal_iff]

end Glob
end FetchClients
