/-
# JSON values and their text

JSON as it is written: objects keep the order of their entries and numbers are
natural. The text has one entry a line, indented by two spaces.

Key definitions: `Json`, `Json.quote`, `Json.pretty`.
Key theorem: `Json.escape_ne_quote`.
-/

namespace FetchClients

/-- A JSON value whose objects keep the order of their entries. -/
inductive Json where
  | null
  | bool (value : Bool)
  | nat (value : Nat)
  | str (text : String)
  | arr (items : List Json)
  | obj (entries : List (String × Json))
deriving Inhabited

namespace Json

/-- A digit of a code point in base sixteen. -/
def hexDigit (n : Nat) : Char :=
  if n < 10 then Char.ofNat (48 + n) else Char.ofNat (87 + n)

/-- How a character stands between quotes: only the quote, the backslash and the controls below
the space are escaped. -/
def escape (c : Char) : List Char :=
  if c = '"' then ['\\', '"']
  else if c = '\\' then ['\\', '\\']
  else if c = '\n' then ['\\', 'n']
  else if c = '\r' then ['\\', 'r']
  else if c = '\t' then ['\\', 't']
  else if c.toNat = 8 then ['\\', 'b']
  else if c.toNat = 12 then ['\\', 'f']
  else if c.toNat < 32 then
    ['\\', 'u', '0', '0', hexDigit (c.toNat / 16), hexDigit (c.toNat % 16)]
  else [c]

/-- A text between quotes. -/
def quote (text : String) : List Char :=
  '"' :: (text.toList.flatMap escape ++ ['"'])

/-- A line break and the blanks of a depth. -/
def indent (depth : Nat) : List Char :=
  '\n' :: List.replicate (2 * depth) ' '

mutual

/-- The text of a value that stands at a depth. -/
def write (depth : Nat) : Json → List Char
  | null => "null".toList
  | bool true => "true".toList
  | bool false => "false".toList
  | nat n => (toString n).toList
  | str s => quote s
  | arr [] => "[]".toList
  | arr (item :: items) =>
    '[' :: (indent (depth + 1) ++ write (depth + 1) item ++ writeItems depth items)
  | obj [] => ['\x7b', '\x7d']
  | obj ((key, value) :: entries) =>
    '\x7b' :: (indent (depth + 1) ++ quote key ++ [':', ' '] ++ write (depth + 1) value ++
      writeEntries depth entries)

/-- Further items of an array and its end. -/
def writeItems (depth : Nat) : List Json → List Char
  | [] => indent depth ++ [']']
  | item :: items => ',' :: (indent (depth + 1) ++ write (depth + 1) item ++ writeItems depth items)

/-- Further entries of an object and its end. -/
def writeEntries (depth : Nat) : List (String × Json) → List Char
  | [] => indent depth ++ ['\x7d']
  | (key, value) :: entries =>
    ',' :: (indent (depth + 1) ++ quote key ++ [':', ' '] ++ write (depth + 1) value ++
      writeEntries depth entries)

end

/-- The text of a value, one entry a line. -/
def pretty (value : Json) : String :=
  String.ofList (write 0 value)

/-- A text or null. -/
def ofOption {α : Type} (f : α → Json) : Option α → Json
  | none => null
  | some a => f a

/-- An escaped character never starts with the quote that would end the text. -/
theorem escape_ne_quote (c : Char) : (escape c).head? ≠ some '"' := by
  unfold escape
  repeat' split
  all_goals simp_all

end Json
end FetchClients
