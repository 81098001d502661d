/-
# Quoted texts

A text between double quotes in which every character can be seen: a quote and a
backslash stand behind a backslash, the common controls have letters, and every
other character without a shape of its own is given by its code point.

Key definitions: `Text.quoted`, `Text.quotePart`.
-/
import FetchClients.Text.Plain

namespace FetchClients
namespace Text

/-- A number in base sixteen. -/
def hexText (n : Nat) : List Char :=
  Nat.toDigits 16 n

/-- How a character stands between quotes. -/
def quotePart (c : Char) : List Char :=
  if c = '"' then ['\\', '"']
  else if c = '\\' then ['\\', '\\']
  else if c = '\n' then ['\\', 'n']
  else if c = '\r' then ['\\', 'r']
  else if c = '\t' then ['\\', 't']
  else if c.toNat = 0 then ['\\', '0']
  else if isPlain c then [c]
  else ['\\', 'u', '\x7b'] ++ hexText c.toNat ++ ['\x7d']

/-- A text between quotes. -/
def quoted (text : String) : String :=
  String.ofList ('"' :: text.toList.flatMap quotePart ++ ['"'])

end Text
end FetchClients
