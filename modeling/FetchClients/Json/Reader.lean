/-
# Reading JSON for a purpose

A text is read straight into the data it is read for, so that the first fault in
the order of the text is reported, whether the text is malformed there or the
value is not of the kind that was wanted. Values that nobody asked for are
passed over; their texts are checked less strictly.

Key definitions: `Json.Reader`, `Json.text`, `Json.flag`, `Json.listOf`,
`Json.optional`, `Json.skipValue`, `Json.mismatch`, `Json.complete`.
-/
import FetchClients.Decimal.Shortest
import FetchClients.Json.Fault
import FetchClients.Text.Quoted

namespace FetchClients
namespace Json

/-- Reads something from the front of a text and leaves the rest, or fails. -/
abbrev Reader (α : Type) := StateT (List Char) (Except Fault) α

/-- Fails before the next character. -/
def fail {α : Type} (cause : Cause) : Reader α :=
  fun rest => .error ⟨cause, byteCount rest⟩

/-- Fails one byte further on, if there is one. -/
def failNext {α : Type} (cause : Cause) : Reader α :=
  fun rest => .error ⟨cause, byteCount rest - 1⟩

/-- Whether a character may stand between the parts of a text. -/
def isBlank (c : Char) : Bool :=
  c = ' ' || c = '\n' || c = '\t' || c = '\r'

/-- The next character, which is not read. -/
def peek : Reader (Option Char) := fun rest => .ok (rest.head?, rest)

/-- Reads one character. -/
def advance : Reader Unit := fun rest => .ok ((), rest.tail)

/-- Reads blanks and looks at the character after them. -/
def peekPart : Reader (Option Char) := fun rest =>
  let rest := rest.dropWhile isBlank
  .ok (rest.head?, rest)

/-! ### Words and numbers -/

/-- Reads the rest of a word. -/
def word : List Char → Reader Unit
  | [] => pure ()
  | c :: cs => do
    match ← peek with
    | none => fail .endInValue
    | some d =>
      if d = c then
        advance
        word cs
      else failNext .wordExpected

/-- Reads digits. -/
def digits : Reader (List Char) := fun rest =>
  .ok (rest.takeWhile Char.isDigit, rest.dropWhile Char.isDigit)

/-- A number as it is told apart: a natural number, a negative one, or one with a fraction, an
exponent or too many digits. -/
inductive Number where
  | natural (value : Nat)
  | negative (magnitude : Nat)
  | float (value : Float)

/-- The greatest number that is kept in whole digits. -/
def wholeLimit : Nat := Nat.pow 2 64 - 1

/-- The magnitude of the least negative number that is kept in whole digits. -/
def negativeLimit : Nat := Nat.pow 2 63

/-- The greatest exponent that is read. -/
def exponentLimit : Nat := Nat.pow 2 31 - 1

/-- As many leading digits as make a number within the limit, with how many those are. -/
def withinLimit (value count : Nat) : List Char → Nat × Nat
  | [] => (value, count)
  | c :: cs =>
    let next := 10 * value + (c.toNat - '0'.toNat)
    if wholeLimit < next then (value, count) else withinLimit next (count + 1) cs

/-- A number times a power of ten, which is applied in steps of at most 308. Nothing if it is too
large. -/
def scaledFloat? : Nat → Float → Int → Option Float
  | 0, _, _ => none
  | n + 1, value, power =>
    if power.natAbs ≤ 308 then
      let scale := Float.ofScientific 1 false power.natAbs
      let result := if 0 ≤ power then value * scale else value / scale
      if result.isInf then none else some result
    else if value == 0 then some value
    else if 0 ≤ power then none
    else scaledFloat? n (value / Float.ofScientific 1 false 308) (power + 308)

/-- The float of a significand times a power of ten. -/
def floatOf (negative : Bool) (significand : Nat) (power : Int) : Reader Number :=
  match scaledFloat? (power.natAbs / 308 + 2) (Float.ofNat significand) power with
  | some value => pure (.float (if negative then -value else value))
  | none => fail .numberTooLarge

/-- As many leading digits as make an exponent within the limit, and whether that is all. -/
def exponentWithin (value count : Nat) : List Char → Nat × Nat × Bool
  | [] => (value, count, true)
  | c :: cs =>
    let next := 10 * value + (c.toNat - '0'.toNat)
    if exponentLimit < next then (value, count + 1, false) else exponentWithin next (count + 1) cs

/-- The greatest and the least power of ten that is told apart. -/
def clampPower (power : Int) : Int :=
  max (-Int.ofNat exponentLimit - 1) (min power exponentLimit)

/-- Reads an exponent after its letter. -/
def exponent (negative : Bool) (significand : Nat) (power : Int) : Reader Number := do
  advance
  let down ← do
    match ← peek with
    | some '+' => advance; pure false
    | some '-' => advance; pure true
    | _ => pure false
  match ← peek with
  | none => fail .endInValue
  | some c =>
    if !c.isDigit then failNext .invalidNumber
    else
      let rest ← get
      let (value, count, whole) := exponentWithin 0 0 (rest.takeWhile Char.isDigit)
      set (rest.drop count)
      if whole then
        let change : Int := if down then -value else value
        floatOf negative significand (clampPower (power + change))
      else if significand ≠ 0 && !down then fail .numberTooLarge
      else
        let _ ← digits
        pure (.float (if negative then -0.0 else 0.0))

/-- Reads what may follow the digits of a number with a fraction. -/
def afterFraction (negative : Bool) (significand : Nat) (power : Int) : Reader Number := do
  match ← peek with
  | some 'e' | some 'E' => exponent negative significand power
  | _ => floatOf negative significand power

/-- Reads a fraction after its point; digits beyond the limit of the significand do not count. -/
def fraction (negative : Bool) (significand : Nat) (power : Int) : Reader Number := do
  advance
  let cs ← digits
  if cs.isEmpty then
    match ← peek with
    | some _ => failNext .invalidNumber
    | none => fail .endInValue
  else
    let (value, count) := withinLimit significand 0 cs
    afterFraction negative value (power - count)

/-- Reads what may follow the whole digits of a number. -/
def afterDigits (negative : Bool) (cs : List Char) : Reader Number := do
  let (value, count) := withinLimit 0 0 cs
  let surplus : Int := cs.length - count
  match ← peek with
  | some '.' => fraction negative value surplus
  | some 'e' | some 'E' => exponent negative value surplus
  | _ =>
    if surplus ≠ 0 then floatOf negative value surplus
    else if !negative then pure (.natural value)
    else if value = 0 || negativeLimit < value then
      pure (.float (-(Float.ofNat value)))
    else pure (.negative value)

/-- Reads a number after its sign. -/
def number (negative : Bool) : Reader Number := do
  match ← peek with
  | none => fail .endInValue
  | some '0' =>
    advance
    match ← peek with
    | some c => if c.isDigit then failNext .invalidNumber else afterDigits negative ['0']
    | none => afterDigits negative ['0']
  | some c => if c.isDigit then do afterDigits negative (← digits) else failNext .invalidNumber

/-- Passes over an exponent after its letter. -/
def skipExponent : Reader Unit := do
  advance
  match ← peek with
  | some '+' | some '-' => advance
  | _ => pure ()
  match ← peek with
  | none => fail .invalidNumber
  | some c =>
    if c.isDigit then
      let _ ← digits
    else failNext .invalidNumber

/-- Passes over a number after its sign. -/
def skipNumber : Reader Unit := do
  match ← peek with
  | none => fail .invalidNumber
  | some '0' =>
    advance
    match ← peek with
    | some c => if c.isDigit then failNext .invalidNumber
    | none => pure ()
  | some c =>
    if c.isDigit then
      let _ ← digits
    else failNext .invalidNumber
  match ← peek with
  | some '.' =>
    advance
    if (← digits).isEmpty then failNext .invalidNumber
    match ← peek with
    | some 'e' | some 'E' => skipExponent
    | _ => pure ()
  | some 'e' | some 'E' => skipExponent
  | _ => pure ()

/-! ### Strings -/

/-- The value of a digit in base sixteen. -/
def hexValue? (c : Char) : Option Nat :=
  if c.isDigit then some (c.toNat - '0'.toNat)
  else if 'a' ≤ c ∧ c ≤ 'f' then some (c.toNat - 'a'.toNat + 10)
  else if 'A' ≤ c ∧ c ≤ 'F' then some (c.toNat - 'A'.toNat + 10)
  else none

/-- The number that four digits in base sixteen at the front of a text make. -/
def fourHex (rest : List Char) : Except Fault Nat :=
  match rest.take 4 |>.mapM hexValue? with
  | some [a, b, c, d] => .ok (((a * 16 + b) * 16 + c) * 16 + d)
  | _ =>
    if byteCount rest < 4 then .error ⟨.endInString, 0⟩
    else .error ⟨.invalidEscape, byteCount rest - 4⟩

/-- Whether a number is the first half of a character in sixteen-bit units. -/
def isLeading (n : Nat) : Bool := 0xD800 ≤ n && n ≤ 0xDBFF

/-- Whether a number is the second half of a character in sixteen-bit units. -/
def isTrailing (n : Nat) : Bool := 0xDC00 ≤ n && n ≤ 0xDFFF

/-- The character of an escape by code point after its `u`, and how many characters that takes; one
outside the first plane is written as two halves. -/
def unicodeEscape (rest : List Char) : Except Fault (Char × Nat) := do
  let n ← fourHex rest
  let after := rest.drop 4
  if isTrailing n then .error ⟨.loneSurrogate, byteCount after⟩
  else if !isLeading n then pure (Char.ofNat n, 4)
  else match after with
    | [] => .error ⟨.endInString, 0⟩
    | ['\\'] => .error ⟨.endInString, 0⟩
    | '\\' :: 'u' :: second =>
      let m ← fourHex second
      if isTrailing m then pure (Char.ofNat ((n - 0xD800) * 1024 + (m - 0xDC00) + 65536), 10)
      else .error ⟨.loneSurrogate, byteCount (second.drop 4)⟩
    | '\\' :: other => .error ⟨.unpairedSurrogate, byteCount other - 1⟩
    | other => .error ⟨.unpairedSurrogate, byteCount other - 1⟩

/-- The character that a letter after a backslash stands for. -/
def shortEscape? (c : Char) : Option Char :=
  match c with
  | '"' => some '"'
  | '\\' => some '\\'
  | '/' => some '/'
  | 'b' => some (Char.ofNat 8)
  | 'f' => some (Char.ofNat 12)
  | 'n' => some '\n'
  | 'r' => some '\r'
  | 't' => some '\t'
  | _ => none

/-- The character of an escape after its backslash, and how many characters that takes. Where the
text is passed over, the halves of characters are not matched. -/
def escaped (strict : Bool) (rest : List Char) : Except Fault (Char × Nat) :=
  match rest with
  | [] => .error ⟨.endInString, 0⟩
  | 'u' :: code =>
    if strict then (unicodeEscape code).map fun (c, length) => (c, length + 1)
    else (fourHex code).map fun n => (Char.ofNat n, 5)
  | c :: _ =>
    match shortEscape? c with
    | some d => .ok (d, 1)
    | none => .error ⟨.invalidEscape, byteCount rest - 1⟩

/-- The characters of a string after its first quote, and the rest behind its last. -/
def stringRest (strict : Bool) : List Char → Except Fault (List Char × List Char)
  | [] => .error ⟨.endInString, 0⟩
  | '"' :: rest => .ok ([], rest)
  | '\\' :: rest =>
    match escaped strict rest with
    | .error fault => .error fault
    | .ok (c, length) =>
      (stringRest strict (rest.drop length)).map fun (cs, rest) => (c :: cs, rest)
  | c :: rest =>
    if c.toNat < 32 then .error ⟨.controlCharacter, byteCount rest + if strict then 0 else 1⟩
    else (stringRest strict rest).map fun (cs, rest) => (c :: cs, rest)
termination_by text => text.length
decreasing_by all_goals (simp only [List.length_drop, List.length_cons]; omega)

/-- Reads a string after its first quote. -/
def string : Reader String := fun rest =>
  (stringRest true rest).map fun (cs, rest) => (String.ofList cs, rest)

/-- Passes over a string after its first quote. -/
def skipString : Reader Unit := fun rest =>
  (stringRest false rest).map fun (_, rest) => ((), rest)

/-! ### Values that nobody asked for -/

mutual

/-- Passes over a value; the bound is on the values and commas in it. -/
def skipValueUpTo : Nat → Reader Unit
  | 0 => fail .endInValue
  | n + 1 => do
    match ← peekPart with
    | none => failNext .endInValue
    | some 'n' => advance; word ['u', 'l', 'l']
    | some 't' => advance; word ['r', 'u', 'e']
    | some 'f' => advance; word ['a', 'l', 's', 'e']
    | some '-' => advance; skipNumber
    | some '"' => advance; skipString
    | some '[' =>
      advance
      match ← peekPart with
      | none => failNext .endInList
      | some ']' => advance
      | some _ => skipItems n
    | some '\x7b' =>
      advance
      match ← peekPart with
      | none => failNext .endInObject
      | some '\x7d' => advance
      | some _ => skipEntries n
    | some c => if c.isDigit then skipNumber else failNext .valueExpected

/-- Passes over the items of a list and its end. -/
def skipItems : Nat → Reader Unit
  | 0 => fail .endInList
  | n + 1 => do
    skipValueUpTo n
    match ← peekPart with
    | some ',' => advance; skipItems n
    | some ']' => advance
    | some _ => failNext .listEndExpected
    | none => failNext .endInList

/-- Passes over the entries of an object and its end. -/
def skipEntries : Nat → Reader Unit
  | 0 => fail .endInObject
  | n + 1 => do
    match ← peekPart with
    | some '"' => advance
    | some _ => failNext .keyExpected
    | none => failNext .endInObject
    skipString
    match ← peekPart with
    | some ':' => advance
    | some _ => failNext .colonExpected
    | none => failNext .endInObject
    skipValueUpTo n
    match ← peekPart with
    | some ',' => advance; skipEntries n
    | some '\x7d' => advance
    | some _ => failNext .objectEndExpected
    | none => failNext .endInObject

end

/-- Passes over a value. -/
def skipValue : Reader Unit := do
  skipValueUpTo (2 * (← get).length + 2)

/-! ### Values of a kind -/

/-- How a number is named in a fault. -/
def Number.shown : Number → String
  | natural value => "integer `" ++ toString value ++ "`"
  | negative magnitude => "integer `-" ++ toString magnitude ++ "`"
  | float value => "floating point `" ++ floatText value ++ "`"

/-- Fails because the value that follows is of another kind than wanted. A value that is not a list
or an object is read first. -/
def mismatch {α : Type} (wanted : String) : Reader α := do
  match ← peek with
  | some 'n' => advance; word ['u', 'l', 'l']; fail (.mismatch "null" wanted)
  | some 't' => advance; word ['r', 'u', 'e']; fail (.mismatch "boolean `true`" wanted)
  | some 'f' => advance; word ['a', 'l', 's', 'e']; fail (.mismatch "boolean `false`" wanted)
  | some '-' =>
    advance
    let n ← number true
    fail (.mismatch n.shown wanted)
  | some '"' =>
    advance
    let s ← string
    fail (.mismatch ("string " ++ Text.quoted s) wanted)
  | some '[' => fail (.mismatch "sequence" wanted)
  | some '\x7b' => fail (.mismatch "map" wanted)
  | some c =>
    if c.isDigit then do
      let n ← number false
      fail (.mismatch n.shown wanted)
    else failNext .valueExpected
  | none => failNext .valueExpected

/-- Reads a string. -/
def text : Reader String := do
  match ← peekPart with
  | none => failNext .endInValue
  | some '"' => advance; string
  | some _ => mismatch "a string"

/-- Reads `true` or `false`. -/
def flag : Reader Bool := do
  match ← peekPart with
  | none => failNext .endInValue
  | some 't' => advance; word ['r', 'u', 'e']; pure true
  | some 'f' => advance; word ['a', 'l', 's', 'e']; pure false
  | some _ => mismatch "a boolean"

/-- Reads `null` or a value. -/
def optional {α : Type} (value : Reader α) : Reader (Option α) := do
  match ← peekPart with
  | some 'n' => advance; word ['u', 'l', 'l']; pure none
  | _ => return some (← value)

/-- Whether another item of a list follows; a comma before it is read, which only the first item
does without. -/
def moreItems (first : Bool) : Reader Bool := do
  match ← peekPart with
  | none => failNext .endInList
  | some ']' => pure false
  | some ',' =>
    if first then pure true
    else
      advance
      match ← peekPart with
      | some ']' => failNext .trailingComma
      | some _ => pure true
      | none => failNext .endInValue
  | some _ => if first then pure true else failNext .listEndExpected

/-- Reads the end of a list. -/
def listEnd : Reader Unit := do
  match ← peekPart with
  | some ']' => advance
  | some ',' =>
    advance
    match ← peekPart with
    | some ']' => failNext .trailingComma
    | _ => failNext .trailingCharacters
  | some _ => failNext .trailingCharacters
  | none => failNext .endInList

/-- Reads items up to the end of a list, which is not read; the bound is on their number. -/
def itemsUpTo {α : Type} (item : Reader α) : Nat → Bool → Reader (List α)
  | 0, _ => pure []
  | n + 1, first => do
    if ← moreItems first then
      let a ← item
      return a :: (← itemsUpTo item n false)
    else return []

/-- Reads a list of items. -/
def listOf {α : Type} (item : Reader α) : Reader (List α) := do
  match ← peekPart with
  | none => failNext .endInValue
  | some '[' =>
    advance
    let items ← itemsUpTo item ((← get).length + 1) true
    listEnd
    return items
  | some _ => mismatch "a sequence"

/-- The key of the entry that follows, if one does; a comma before it is read, which only the first
entry does without. -/
def nextKey (first : Bool) : Reader (Option String) := do
  match ← peekPart with
  | none => failNext .endInObject
  | some '\x7d' => pure none
  | some '"' =>
    if first then
      advance
      return some (← string)
    else failNext .objectEndExpected
  | some ',' =>
    if first then failNext .keyExpected
    else
      advance
      match ← peekPart with
      | some '"' =>
        advance
        return some (← string)
      | some '\x7d' => failNext .trailingComma
      | some _ => failNext .keyExpected
      | none => failNext .endInValue
  | some _ => if first then failNext .keyExpected else failNext .objectEndExpected

/-- Reads the colon between a key and its value. -/
def colon : Reader Unit := do
  match ← peekPart with
  | some ':' => advance
  | some _ => failNext .colonExpected
  | none => failNext .endInObject

/-- Fails because a field is there twice. That shows behind the repeated key, or behind the object
if that ends there. -/
def failRepeated {α : Type} (name : String) : Reader α := do
  match ← peekPart with
  | some '\x7d' => advance
  | _ => pure ()
  fail (.repeatedField name)

/-- Reads a whole text. -/
def complete {α : Type} (value : Reader α) (text : String) : Except Fault α :=
  let whole : Reader α := do
    let a ← value
    match ← peekPart with
    | some _ => failNext .trailingCharacters
    | none => pure a
  (whole.run text.toList).map Prod.fst

end Json
end FetchClients
