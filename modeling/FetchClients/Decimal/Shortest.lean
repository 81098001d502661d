/-
# The shortest decimal of a binary number

A binary floating-point number stands for all reals that round to it. Its
shortest decimal is the one with the fewest digits among those reals, and of two
such the nearer. The text writes it out in full where the point is at most a few
places away from the digits, and with a power of ten elsewhere.

Key definitions: `Binary`, `Binary.ofFloat`, `Binary.shortest`, `Binary.text`.
-/

namespace FetchClients

/-- The number `significand * 2 ^ exponent`. The reals that round to it reach half as far down if
`narrow`. -/
structure Binary where
  significand : Nat
  exponent : Int
  narrow : Bool
deriving DecidableEq, Repr

namespace Binary

/-- The magnitude of a finite float. -/
def ofFloat (x : Float) : Binary :=
  let bits := x.toBits.toNat
  let biased : Nat := bits / Nat.pow 2 52 % Nat.pow 2 11
  let fraction := bits % Nat.pow 2 52
  if biased = 0 then ⟨fraction, -1074, false⟩
  else ⟨Nat.pow 2 52 + fraction, (biased : Int) - 1075, fraction == 0 && biased != 1⟩

/-- A number as a fraction of natural numbers, and four times its significand among fractions of
the same scale. -/
def scaled (b : Binary) (power : Int) : Nat × Nat :=
  (Nat.pow 2 (b.exponent - 2).toNat * Nat.pow 10 (-power).toNat,
    Nat.pow 2 (2 - b.exponent).toNat * Nat.pow 10 power.toNat)

/-- Whether `digits * 10 ^ power` rounds to the number. -/
def isNear (b : Binary) (digits : Nat) (power : Int) : Bool :=
  let (unit, grid) := b.scaled power
  let low := (4 * b.significand - if b.narrow then 1 else 2) * unit
  let high := (4 * b.significand + 2) * unit
  let point := digits * grid
  if b.significand % 2 = 0 then low ≤ point && point ≤ high else low < point && point < high

/-- The digits of the number that are left of the given power of ten. -/
def digitsAbove (b : Binary) (power : Int) : Nat :=
  let (unit, grid) := b.scaled power
  4 * b.significand * unit / grid

/-- Whether the number is less than halfway, halfway or more than halfway from `digits` to the next
point of the grid. -/
def fromHalfway (b : Binary) (digits : Nat) (power : Int) : Ordering :=
  let (unit, grid) := b.scaled power
  compare (8 * b.significand * unit) ((2 * digits + 1) * grid)

/-- The point of a grid that rounds to the number, if there is one; of two the nearer, and of two as
near the even one. -/
def onGrid? (b : Binary) (power : Int) : Option Nat :=
  let below := b.digitsAbove power
  match b.isNear below power, b.isNear (below + 1) power with
  | false, false => none
  | true, false => some below
  | false, true => some (below + 1)
  | true, true =>
    match b.fromHalfway below power with
    | .lt => some below
    | .gt => some (below + 1)
    | .eq => some (if below % 2 = 0 then below else below + 1)

/-- The power of ten of the first digit, found downwards from a bound. -/
def leadingPower (b : Binary) : Nat → Int → Int
  | 0, power => power
  | n + 1, power => if b.digitsAbove power = 0 then leadingPower b n (power - 1) else power

/-- The first hit among grids that get finer. -/
def shortestFrom (b : Binary) : Nat → Int → Nat × Int
  | 0, power => (b.digitsAbove power, power)
  | n + 1, power =>
    match b.onGrid? power with
    | some digits => (digits, power)
    | none => shortestFrom b n (power - 1)

/-- Digits without the zeros at their end, each of which raises the power of ten. -/
def withoutZeros : Nat → Nat × Int → Nat × Int
  | 0, d => d
  | n + 1, (digits, power) =>
    if digits % 10 = 0 then withoutZeros n (digits / 10, power + 1) else (digits, power)

/-- The shortest decimal, as digits and the power of ten of the last of them. -/
def shortest (b : Binary) : Nat × Int :=
  withoutZeros 20 (b.shortestFrom 17 (b.leadingPower 640 309))

/-- Digits with the point behind the first `whole` of them. -/
def positional (digits : List Char) (whole : Int) : List Char :=
  if whole ≤ 0 then '0' :: '.' :: List.replicate (-whole).toNat '0' ++ digits
  else
    let front := digits.take whole.toNat ++ List.replicate (whole.toNat - digits.length) '0'
    let back := digits.drop whole.toNat
    front ++ '.' :: if back.isEmpty then ['0'] else back

/-- Digits with the point behind the first of them and a power of ten. -/
def scientific (digits : List Char) (power : Int) : List Char :=
  let mark := if power < 0 then ['e', '-'] else ['e', '+']
  let front := match digits with
    | c :: d :: ds => c :: '.' :: d :: ds
    | ds => ds
  front ++ mark ++ Nat.toDigits 10 power.natAbs

/-- The shortest decimal as text: in full where the first digit's power of ten is from -5 to 15. -/
def text (b : Binary) : List Char :=
  if b.significand = 0 then "0.0".toList
  else
    let (number, last) := b.shortest
    let digits := Nat.toDigits 10 number
    let power := last + digits.length - 1
    if -5 ≤ power ∧ power ≤ 15 then positional digits (power + 1) else scientific digits power

end Binary

/-- A finite float as its shortest decimal. -/
def floatText (x : Float) : String :=
  let sign := if x.toBits.toNat / Nat.pow 2 63 = 1 then ['-'] else []
  String.ofList (sign ++ (Binary.ofFloat x).text)

end FetchClients
