/-
# Faults of a JSON text

What is wrong with a JSON text, and how many of its bytes were not yet read when
that showed. The place in words is a line and the bytes of that line before it.

Key definitions: `Json.Cause`, `Json.Fault`, `Json.Fault.message`.
-/

namespace FetchClients
namespace Json

/-- What is wrong with a text. -/
inductive Cause where
  | endInValue
  | endInList
  | endInObject
  | endInString
  | colonExpected
  | listEndExpected
  | objectEndExpected
  | wordExpected
  | valueExpected
  | invalidEscape
  | invalidNumber
  | numberTooLarge
  | loneSurrogate
  | unpairedSurrogate
  | controlCharacter
  | keyExpected
  | trailingComma
  | trailingCharacters
  | mismatch (found wanted : String)
  | repeatedField (name : String)
deriving DecidableEq, Repr

/-- What is wrong, in words. -/
def Cause.message : Cause → String
  | endInValue => "EOF while parsing a value"
  | endInList => "EOF while parsing a list"
  | endInObject => "EOF while parsing an object"
  | endInString => "EOF while parsing a string"
  | colonExpected => "expected `:`"
  | listEndExpected => "expected `,` or `]`"
  | objectEndExpected => "expected `,` or `\x7d`"
  | wordExpected => "expected ident"
  | valueExpected => "expected value"
  | invalidEscape => "invalid escape"
  | invalidNumber => "invalid number"
  | numberTooLarge => "number out of range"
  | loneSurrogate => "lone leading surrogate in hex escape"
  | unpairedSurrogate => "unexpected end of hex escape"
  | controlCharacter => "control character (\\u0000-\\u001F) found while parsing a string"
  | keyExpected => "key must be a string"
  | trailingComma => "trailing comma"
  | trailingCharacters => "trailing characters"
  | mismatch found wanted => "invalid type: " ++ found ++ ", expected " ++ wanted
  | repeatedField name => "duplicate field `" ++ name ++ "`"

/-- What is wrong and how many bytes were left. -/
structure Fault where
  cause : Cause
  left : Nat
deriving DecidableEq, Repr

/-- How many bytes a text takes up. -/
def byteCount (text : List Char) : Nat :=
  text.foldr (fun c bytes => c.utf8Size + bytes) 0

/-- The line and the column after so many bytes of a text, from a line and a column on. -/
def placeAfter (bytes line column : Nat) : List Char → Nat × Nat
  | [] => (line, column)
  | c :: cs =>
    if bytes < c.utf8Size then (line, column + bytes)
    else if c = '\n' then placeAfter (bytes - 1) (line + 1) 0 cs
    else placeAfter (bytes - c.utf8Size) line (column + c.utf8Size) cs

/-- The fault of a text in words, with its place. -/
def Fault.message (f : Fault) (text : String) : String :=
  let (line, column) := placeAfter (byteCount text.toList - f.left) 1 0 text.toList
  f.cause.message ++ " at line " ++ toString line ++ " column " ++ toString column

end Json
end FetchClients
