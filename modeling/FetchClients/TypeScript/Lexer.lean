/-
# Reading tokens

One token is read at a time, after the gap in front of it. Strings that are not
closed end at the line's end, and a `/` is only a sign here: where an operand
is wanted, the regular expression or the next part of a template is read again
from its first character.

Key definitions: `Lexer.readKind`, `Token.read`, `Token.readRegex`,
`Token.readTemplate`, `Token.readOperator`, `Token.readJsxText`.
-/
import FetchClients.Text.IdentifierChars
import FetchClients.TypeScript.Gap

namespace FetchClients
namespace TypeScript
namespace Lexer

/-- The value of a digit in base sixteen. -/
def hexValue? (c : Char) : Option Nat :=
  if c.isDigit then some (c.toNat - 48)
  else if 'a' ≤ c && c ≤ 'f' then some (c.toNat - 87)
  else if 'A' ≤ c && c ≤ 'F' then some (c.toNat - 55)
  else none

/-- How many digits in base sixteen a text starts with, and their value. -/
def hexRun (count value : Nat) : List Char → Nat × Nat
  | [] => (count, value)
  | c :: cs =>
    match hexValue? c with
    | some d => hexRun (count + 1) (value * 16 + d) cs
    | none => (count, value)

/-- The code point that an escape names after its `\u`, and the escape's length. -/
def unicodeEscape (text : List Char) : Except Fault (Nat × Nat) :=
  if text.head? = some '\x7b' then
    let (count, value) := hexRun 0 0 (text.drop 1)
    if count = 0 then .error (.badEscape "1-6 hex characters")
    else if 0x10FFFF < value then
      .error (.badEscape "1-6 hex characters in the range 0 to 10FFFF.")
    else if (text.drop (count + 1)).head? = some '\x7d' then .ok (value, count + 2)
    else .error .badUnicodeEscape
  else
    let (count, value) := hexRun 0 0 (text.take 4)
    if count = 4 then .ok (value, 4) else .error (.badEscape "4 hex characters")

/-- The characters of a word with its escapes decoded, its length, and whether it has escapes. The
first `skip` characters belong to an escape that was read already. -/
def readWord (skip : Nat) : List Char → Except Fault (List Char × Nat × Bool)
  | [] => .ok ([], 0, false)
  | c :: cs =>
    if skip ≠ 0 then
      (readWord (skip - 1) cs).map fun (name, length, escaped) => (name, length + 1, escaped)
    else if c = '\\' && cs.head? = some 'u' then
      match unicodeEscape (cs.drop 1) with
      | .error fault => .error fault
      | .ok (value, count) =>
        (readWord (count + 1) cs).map fun (name, length, _) =>
          (Char.ofNat value :: name, length + 1, true)
    else if Text.isIdentifierPart c then
      (readWord 0 cs).map fun (name, length, escaped) => (c :: name, length + 1, escaped)
    else .ok ([], 0, false)

/-- A word token. -/
def word (text : List Char) : TokenKind × Nat :=
  match readWord 0 text with
  | .error fault => (.bad fault, 1)
  | .ok (name, length, escaped) =>
    let name := String.ofList name
    if escaped && reservedWords.contains name then (.bad (.escapedKeyword name), length)
    else (.word name, length)

/-- The length of a string after its quote. A string ends at its quote, or before a line break. -/
def stringLength (quote : Char) (skip count : Nat) : List Char → Except Fault Nat
  | [] => .ok count
  | c :: cs =>
    if skip ≠ 0 then stringLength quote (skip - 1) (count + 1) cs
    else if c = quote then .ok (count + 1)
    else if c = '\n' || c = '\r' then .ok count
    else if c = '\\' then
      match cs.head? with
      | some 'u' =>
        match unicodeEscape (cs.drop 1) with
        | .error fault => .error fault
        | .ok _ => stringLength quote 1 (count + 1) cs
      | some 'x' =>
        if (hexRun 0 0 ((cs.drop 1).take 2)).1 = 2 then stringLength quote 1 (count + 1) cs
        else .error (.badEscape "2 hex characters")
      | some '\r' =>
        stringLength quote (if (cs.drop 1).head? = some '\n' then 2 else 1) (count + 1) cs
      | _ => stringLength quote 1 (count + 1) cs
    else stringLength quote 0 (count + 1) cs

/-- A string token. -/
def string (quote : Char) (text : List Char) : TokenKind × Nat :=
  match stringLength quote 0 0 text with
  | .error fault => (.bad fault, text.length + 1)
  | .ok count =>
    let body := text.take count
    let value := if body.getLast? = some quote then body.dropLast else body
    (.string (String.ofList value), count + 1)

/-- How many digits of a number system, or dividing `_`, a text starts with. -/
def digitsLength (radix : Nat) (text : List Char) : Nat :=
  countWhile (fun c => c = '_' || (hexValue? c).any (· < radix)) text

/-- A number token of a given length, unless a word follows at once. -/
def endNumber (kind : TokenKind) (length : Nat) (text : List Char) : TokenKind × Nat :=
  match (text.drop length).head? with
  | some c =>
    if Text.isIdentifierStart c then (.bad .identifierAfterNumber, length) else (kind, length)
  | none => (kind, length)

/-- A number token in another system than the decimal. -/
def radixNumber (radix : Nat) (text : List Char) : TokenKind × Nat :=
  let digits := digitsLength radix (text.drop 2)
  if digits = 0 then (.bad (.digitExpected radix), 2)
  else if (text.drop (digits + 2)).head? = some 'n' then endNumber .bigint (digits + 3) text
  else endNumber .number (digits + 2) text

/-- A decimal number token: digits, a fraction, an exponent. -/
def decimalNumber (text : List Char) : TokenKind × Nat :=
  let whole := digitsLength 10 text
  if whole ≠ 0 && (text.drop whole).head? = some 'n' then endNumber .bigint (whole + 1) text
  else
    let fraction :=
      if (text.drop whole).head? = some '.' then digitsLength 10 (text.drop (whole + 1)) + 1 else 0
    let mantissa := whole + fraction
    match text.drop mantissa with
    | e :: rest =>
      if e = 'e' || e = 'E' then
        let sign := if rest.head? = some '+' || rest.head? = some '-' then 1 else 0
        let digits := digitsLength 10 (rest.drop sign)
        if digits = 0 then (.bad .exponentExpected, mantissa + 1 + sign)
        else endNumber .number (mantissa + 1 + sign + digits) text
      else endNumber .number mantissa text
    | [] => (.number, mantissa)

/-- A number token. -/
def number (text : List Char) : TokenKind × Nat :=
  match text.take 2 with
  | ['0', 'x'] | ['0', 'X'] => radixNumber 16 text
  | ['0', 'o'] | ['0', 'O'] => radixNumber 8 text
  | ['0', 'b'] | ['0', 'B'] => radixNumber 2 text
  | _ => decimalNumber text

/-- The length of a template part, with the backquote or the opening of a substitution that ends
it, and whether it is the last part. -/
def templateLength (skip count : Nat) : List Char → Option (Bool × Nat)
  | [] => none
  | c :: cs =>
    if skip ≠ 0 then templateLength (skip - 1) (count + 1) cs
    else if c = '`' then some (true, count + 1)
    else if c = '$' && cs.head? = some '\x7b' then some (false, count + 2)
    else if c = '\\' then templateLength 1 (count + 1) cs
    else templateLength 0 (count + 1) cs

/-- The length of a regular expression after its first slash, with its closing slash. -/
def regexLength (inClass escaped : Bool) (count : Nat) : List Char → Option Nat
  | [] => none
  | c :: cs =>
    if isLineEnd c then none
    else if escaped then regexLength inClass false (count + 1) cs
    else if c = '/' && !inClass then some (count + 1)
    else regexLength (if c = '[' then true else if c = ']' then false else inClass) (c = '\\')
      (count + 1) cs

/-- The signs, with a longer one before those that it starts with. -/
def signs : List (List Char × String) :=
  ["...", "===", "!==", "**=", "&&=", "||=", "??=", "=>", "==", "!=", "++", "--", "+=", "-=", "**",
    "*=", "/=", "%=", "&&", "&=", "||", "|=", "??", "^=", "?.", "</", "\x7b", "\x7d", "(", ")", "[",
    "]", ";", ",", "~", ":", "@", "#", ".", "?", "<", ">", "=", "!", "+", "-", "*", "/", "%", "&",
    "|", "^"].map fun text => (text.toList, text)

/-- The longer signs that start with `<` or `>`. -/
def angleSigns : List (List Char × String) :=
  [">>>=", "<<=", ">>=", ">>>", "<<", ">>", "<=", ">="].map fun text => (text.toList, text)

/-- Whether a sign may be read in front of the text after it. -/
def signFits (text : String) (after : List Char) : Bool :=
  match text, after.head? with
  | "?.", some c => !c.isDigit
  | "</", some c => c ≠ '/' && c ≠ '*'
  | _, _ => true

/-- The first sign of a table that a text starts with. -/
def sign? (table : List (List Char × String)) (text : List Char) : Option (String × Nat) :=
  (table.find? fun (chars, name) =>
    chars.isPrefixOf text && signFits name (text.drop chars.length)).map
      fun (chars, name) => (name, chars.length)

/-- A character as a fault shows it. -/
def shownChar (c : Char) : String :=
  if c.toNat < 32 || c.toNat = 127 then
    "'\\u\x7b" ++ String.ofList (Nat.toDigits 16 c.toNat) ++ "\x7d'"
  else "'" ++ String.singleton c ++ "'"

/-- The kind and length of the token that a text starts with. -/
def readKind (text : List Char) : TokenKind × Nat :=
  match text with
  | [] => (.eof, 0)
  | c :: cs =>
    if Text.isIdentifierStart c || (c = '\\' && cs.head? = some 'u') then word text
    else if c.isDigit || (c = '.' && cs.head?.any Char.isDigit) then number text
    else if c = '"' || c = '\'' then string c cs
    else if c = '`' then
      match templateLength 0 0 cs with
      | some (closed, count) => (.template closed, count + 1)
      | none => (.bad .unterminatedTemplate, text.length)
    else match sign? signs text with
      | some (name, length) => (.sign name, length)
      | none => (.bad (.strayCharacter (shownChar c)), 1)

end Lexer

namespace Token

/-- The token of a kind and length at a cursor. -/
def at_ (c : Cursor) (afterBreak : Bool) (kind : TokenKind) (length : Nat) : Token :=
  let stop := c.advance length
  ⟨kind, c.mark, stop.mark, afterBreak, stop.rest⟩

/-- The token after a gap. -/
def afterGap (g : Gap) : Token :=
  let (kind, length) := Lexer.readKind g.cursor.rest
  at_ g.cursor g.broken kind length

/-- Reads the regular expression that starts where the slash `t` does, in front of `text`. -/
def readRegex (t : Token) (text : List Char) : Token :=
  match Lexer.regexLength false false 0 (text.drop 1) with
  | none => at_ ⟨t.start, text⟩ t.afterBreak (.bad .unterminatedRegex) text.length
  | some count =>
    let flags := countWhile Text.isIdentifierPart (text.drop (count + 1))
    at_ ⟨t.start, text⟩ t.afterBreak .regex (count + 1 + flags)

/-- Reads the part of a template after the brace `t` that ends a substitution. -/
def readTemplate (t : Token) : Token :=
  match Lexer.templateLength 0 0 t.rest with
  | none => { t with kind := .bad .unterminatedTemplate, rest := [] }
  | some (closed, count) =>
    let stop := Cursor.advance count ⟨t.stop, t.rest⟩
    { t with kind := .templateEnd closed, stop := stop.mark, rest := stop.rest }

/-- Reads the longest operator that starts with the angle bracket `t`. -/
def readOperator (t : Token) : Token :=
  match t.kind with
  | .sign "<" | .sign ">" =>
    let angle := match t.kind with
      | .sign ">" => '>'
      | _ => '<'
    match Lexer.sign? Lexer.angleSigns (angle :: t.rest) with
    | some (name, length) =>
      let stop := Cursor.advance (length - 1) ⟨t.stop, t.rest⟩
      { t with kind := .sign name, stop := stop.mark, rest := stop.rest }
    | none => t
  | _ => t

/-- Reads the text of an element up to a brace or an angle bracket. -/
def readJsxText (c : Cursor) : Token :=
  match countWhile (fun c => c ≠ '<' && c ≠ '\x7b') c.rest with
  | 0 => at_ c false (Lexer.readKind c.rest).1 (Lexer.readKind c.rest).2
  | n => at_ c false .jsxText n

end Token

end TypeScript
end FetchClients
