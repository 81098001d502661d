/-
# Reading the texts of a JSON value

A reader leaves what follows the text that it reads. So each reader is described by
what it does with a text of its value and any rest: `Json.string` makes the string
again, however its characters are written, `Json.listOf` the list, and `Json.skipValue`
passes over any value, whose nesting is bounded by nothing.

Key theorems: `Json.stringRest_of_spellsChars`, `Json.skipNumber_of_isMagnitude`,
`Json.skipValue_of_spells`, `Json.reads_listOf`.
-/
import FetchClients.Json.Reader
import FetchClients.Proofs.JsonSpelling
import Mathlib.Data.List.Forall2

namespace FetchClients
namespace Json

variable {α β : Type}

/-! ### Steps -/

/-- After a step that succeeds the next one reads the rest. -/
theorem bind_of_ok {m : Reader α} {f : α → Reader β} {text rest : List Char} {a : α}
    (h : m text = .ok (a, rest)) : (m >>= f) text = f a rest := by
  show (m text >>= fun p => f p.1 p.2) = _
  rw [h]
  rfl

/-- Texts that the first step does not tell apart are read alike. -/
theorem bind_congr_text {m : Reader α} {f : α → Reader β} {text other : List Char}
    (h : m text = m other) : (m >>= f) text = (m >>= f) other := by
  show (m text >>= fun p => f p.1 p.2) = (m other >>= fun p => f p.1 p.2)
  rw [h]

theorem peek_cons (c : Char) (rest : List Char) : peek (c :: rest) = .ok (some c, c :: rest) := rfl

theorem advance_cons (c : Char) (rest : List Char) : advance (c :: rest) = .ok ((), rest) := rfl

theorem isBlank_of_isGap {gap : List Char} (h : IsGap gap) {c : Char} (hc : c ∈ gap) :
    isBlank c = true := by
  simpa [isBlank, or_assoc] using h c hc

/-- Blanks in front do not count where the next part is looked at. -/
theorem peekPart_append {gap : List Char} (h : IsGap gap) (text : List Char) :
    peekPart (gap ++ text) = peekPart text := by
  simp only [peekPart, List.dropWhile_append_of_pos fun c hc => isBlank_of_isGap h hc]

theorem peekPart_cons {c : Char} (h : isBlank c = false) (rest : List Char) :
    peekPart (c :: rest) = .ok (some c, c :: rest) := by
  simp [peekPart, h]

theorem peekPart_gap_cons {gap : List Char} (hgap : IsGap gap) {c : Char} (h : isBlank c = false)
    (rest : List Char) : peekPart (gap ++ c :: rest) = .ok (some c, c :: rest) := by
  rw [peekPart_append hgap, peekPart_cons h]

theorem peekPart_gap {gap : List Char} (hgap : IsGap gap) : peekPart gap = .ok (none, []) := by
  have h := peekPart_append hgap []
  rwa [List.append_nil] at h

theorem peekPart_bind_append {f : Option Char → Reader β} {gap : List Char} (h : IsGap gap)
    (text : List Char) : (peekPart >>= f) (gap ++ text) = (peekPart >>= f) text :=
  bind_congr_text (peekPart_append h text)

theorem word_append : ∀ cs rest : List Char, word cs (cs ++ rest) = .ok ((), rest)
  | [], _ => rfl
  | c :: cs, rest => by
    rw [word, List.cons_append, bind_of_ok (peek_cons c _)]
    simp only [if_true]
    rw [bind_of_ok (advance_cons c _)]
    exact word_append cs rest

/-! ### Strings -/

theorem hexValue?_of_isHexDigit {n : Nat} {digit : Char} (h : IsHexDigit n digit) :
    hexValue? digit = some n := by
  have hlower : ∀ m < 16, "0123456789abcdef".toList[m]?.bind hexValue? = some m := by decide
  have hupper : ∀ m < 16, "0123456789ABCDEF".toList[m]?.bind hexValue? = some m := by decide
  rcases h with h | h
  · have hvalue := hlower n (List.getElem?_eq_some_iff.mp h).1
    rwa [h, Option.bind_some] at hvalue
  · have hvalue := hupper n (List.getElem?_eq_some_iff.mp h).1
    rwa [h, Option.bind_some] at hvalue

theorem fourHex_of_spellsCode {n : Nat} {digits : List Char} (h : SpellsCode n digits)
    (rest : List Char) : fourHex (digits ++ rest) = .ok n := by
  cases h with
  | digits ha hb hc hd =>
    simp [fourHex, hexValue?_of_isHexDigit ha, hexValue?_of_isHexDigit hb,
      hexValue?_of_isHexDigit hc, hexValue?_of_isHexDigit hd]

theorem length_of_spellsCode {n : Nat} {digits : List Char} (h : SpellsCode n digits) :
    digits.length = 4 := by
  cases h
  rfl

/-- No character has the number of a half. -/
theorem isHalf_toNat (c : Char) : isLeading c.toNat = false ∧ isTrailing c.toNat = false := by
  have hvalid : c.toNat < 0xD800 ∨ 0xDFFF < c.toNat ∧ c.toNat < 0x110000 := c.valid
  simp only [isLeading, isTrailing, Bool.and_eq_false_iff, decide_eq_false_iff_not]
  omega

variable {c : Char} {cs text part rest : List Char}

theorem escaped_letter {letter : Char} (h : (letter, c) ∈ letterForms) (strict : Bool)
    (rest : List Char) : escaped strict (letter :: rest) = .ok (c, 1) := by
  simp only [letterForms, List.mem_cons, List.not_mem_nil, or_false, Prod.mk.injEq] at h
  rcases h with ⟨rfl, rfl⟩ | ⟨rfl, rfl⟩ | ⟨rfl, rfl⟩ | ⟨rfl, rfl⟩ | ⟨rfl, rfl⟩ | ⟨rfl, rfl⟩ |
    ⟨rfl, rfl⟩ | ⟨rfl, rfl⟩ <;> rfl

theorem escaped_code {digits : List Char} (h : SpellsCode c.toNat digits) (rest : List Char) :
    escaped true ('u' :: (digits ++ rest)) = .ok (c, 5) := by
  obtain ⟨hleading, htrailing⟩ := isHalf_toNat c
  simp [escaped, unicodeEscape, fourHex_of_spellsCode h, hleading, htrailing, bind, Except.bind,
    Except.map, pure, Except.pure]

theorem escaped_halves {m n : Nat} {leading trailing : List Char}
    (hleading : SpellsCode (0xD800 + m) leading) (htrailing : SpellsCode (0xDC00 + n) trailing)
    (hn : n < 0x400) (hc : c.toNat = 0x10000 + m * 0x400 + n) (rest : List Char) :
    escaped true ('u' :: (leading ++ '\\' :: 'u' :: (trailing ++ rest))) = .ok (c, 11) := by
  have hbound : c.toNat < 0x110000 := by
    rcases c.valid with h | h
    · exact Nat.lt_trans h (by decide)
    · exact h.2
  have hfirst : isTrailing (0xD800 + m) = false ∧ isLeading (0xD800 + m) = true := by
    simp only [isLeading, isTrailing, Bool.and_eq_false_iff, Bool.and_eq_true,
      decide_eq_false_iff_not, decide_eq_true_eq]
    omega
  have hsecond : isTrailing (0xDC00 + n) = true := by
    simp only [isTrailing, Bool.and_eq_true, decide_eq_true_eq]
    omega
  have hchar : Char.ofNat ((0xD800 + m - 0xD800) * 1024 + (0xDC00 + n - 0xDC00) + 65536) = c := by
    have hvalue : (0xD800 + m - 0xD800) * 1024 + (0xDC00 + n - 0xDC00) + 65536 = c.toNat := by omega
    rw [hvalue, Char.ofNat_toNat]
  have hafter : (leading ++ '\\' :: 'u' :: (trailing ++ rest)).drop 4 =
      '\\' :: 'u' :: (trailing ++ rest) := List.drop_left' (length_of_spellsCode hleading)
  simp only [escaped, unicodeEscape, fourHex_of_spellsCode hleading, hafter, hfirst,
    fourHex_of_spellsCode htrailing, hsecond, hchar, bind, Except.bind, pure, Except.pure, if_true,
    Bool.not_true, Bool.false_eq_true, if_false, Except.map]

/-- A character is read however it is written. -/
theorem stringRest_of_spellsChar (h : SpellsChar c part) (rest : List Char) :
    stringRest true (part ++ rest) =
      (stringRest true rest).map fun (cs, rest) => (c :: cs, rest) := by
  cases h with
  | plain hquote hbackslash hcontrol =>
    rw [List.singleton_append, stringRest.eq_4 _ _ _ hquote hbackslash]
    rw [if_neg (by omega)]
  | letter h =>
    simp only [List.cons_append, List.nil_append]
    rw [stringRest, escaped_letter h]
    rfl
  | code h =>
    simp only [List.cons_append]
    rw [stringRest, escaped_code h]
    simp [length_of_spellsCode h]
  | @halves _ m n leading trailing hleading htrailing hn hc =>
    have hsplit : 'u' :: (leading ++ '\\' :: 'u' :: (trailing ++ rest)) =
        ('u' :: (leading ++ '\\' :: 'u' :: trailing)) ++ rest := by simp
    have hlength : ('u' :: (leading ++ '\\' :: 'u' :: trailing)).length = 11 := by
      simp [length_of_spellsCode hleading, length_of_spellsCode htrailing]
    simp only [List.cons_append, List.append_assoc]
    rw [stringRest, escaped_halves hleading htrailing hn hc]
    simp only [hsplit, List.drop_left' hlength]

/-- **A string is read however it is written.** -/
theorem stringRest_of_spellsChars (h : SpellsChars cs text) (rest : List Char) :
    stringRest true (text ++ '"' :: rest) = .ok (cs, rest) := by
  induction h with
  | nil => rw [List.nil_append, stringRest]
  | cons hc _ ih =>
    rw [List.append_assoc, stringRest_of_spellsChar hc, ih]
    rfl

theorem string_of_spellsChars {s : String} (h : SpellsChars s.toList text) (rest : List Char) :
    string (text ++ '"' :: rest) = .ok (s, rest) := by
  rw [string, stringRest_of_spellsChars h]
  simp [Except.map]

/-- Where a string is passed over, each code counts for itself. -/
theorem stringRest_false_code {n : Nat} {digits : List Char} (h : SpellsCode n digits)
    (rest : List Char) : stringRest false ('\\' :: 'u' :: (digits ++ rest)) =
      (stringRest false rest).map fun (cs, rest) => (Char.ofNat n :: cs, rest) := by
  have hcode : escaped false ('u' :: (digits ++ rest)) = .ok (Char.ofNat n, 5) := by
    simp [escaped, fourHex_of_spellsCode h, Except.map]
  rw [stringRest, hcode]
  simp [length_of_spellsCode h]

theorem exists_stringRest_false {tail : List Char} (h : SpellsChar c part)
    (hrest : stringRest false rest = .ok (cs, tail)) :
    ∃ more, stringRest false (part ++ rest) = .ok (more, tail) := by
  cases h with
  | plain hquote hbackslash hcontrol =>
    rw [List.singleton_append, stringRest.eq_4 _ _ _ hquote hbackslash, if_neg (by omega), hrest]
    exact ⟨_, rfl⟩
  | letter h =>
    simp only [List.cons_append, List.nil_append]
    rw [stringRest, escaped_letter h]
    simp only [List.drop_one, List.tail_cons, hrest]
    exact ⟨_, rfl⟩
  | code h =>
    simp only [List.cons_append]
    rw [stringRest_false_code h, hrest]
    exact ⟨_, rfl⟩
  | halves hleading htrailing =>
    simp only [List.cons_append, List.append_assoc]
    rw [stringRest_false_code hleading, stringRest_false_code htrailing, hrest]
    exact ⟨_, rfl⟩

theorem skipString_of_spellsChars (h : SpellsChars cs text) (rest : List Char) :
    skipString (text ++ '"' :: rest) = .ok ((), rest) := by
  obtain ⟨more, hmore⟩ : ∃ more, stringRest false (text ++ '"' :: rest) = .ok (more, rest) := by
    induction h with
    | nil => exact ⟨[], by rw [List.nil_append, stringRest]⟩
    | cons hc _ ih =>
      obtain ⟨more, hmore⟩ := ih
      rw [List.append_assoc]
      exact exists_stringRest_false hc hmore
  rw [skipString, hmore]
  rfl

/-! ### Numbers -/

/-- A rest that does not go on with a number. -/
def EndsNumber (rest : List Char) : Prop :=
  ∀ c ∈ rest.head?, c.isDigit = false ∧ c ≠ '.' ∧ c ≠ 'e' ∧ c ≠ 'E'

/-- A rest that does not go on with digits. -/
def EndsDigits (rest : List Char) : Prop :=
  ∀ c ∈ rest.head?, c.isDigit = false

theorem digits_append (h : ∀ c ∈ text, c.isDigit = true) (hrest : EndsDigits rest) :
    digits (text ++ rest) = .ok (text, rest) := by
  have htake : rest.takeWhile Char.isDigit = [] ∧ rest.dropWhile Char.isDigit = rest := by
    cases rest with
    | nil => exact ⟨rfl, rfl⟩
    | cons c rest => simp [hrest c rfl]
  simp only [digits, List.takeWhile_append_of_pos h, List.dropWhile_append_of_pos h, htake,
    List.append_nil]

theorem EndsNumber.endsDigits (h : EndsNumber rest) : EndsDigits rest :=
  fun c hc => (h c hc).1

theorem peek_eq (rest : List Char) : peek rest = .ok (rest.head?, rest) := rfl

/-- Passes over the digits of an exponent behind its sign. -/
def skipExponentDigits : Reader Unit := do
  match ← peek with
  | none => fail .invalidNumber
  | some c =>
    if c.isDigit then
      let _ ← digits
    else failNext .invalidNumber

theorem skipExponentDigits_of_isDigits (h : IsDigits text) (hrest : EndsDigits rest) :
    skipExponentDigits (text ++ rest) = .ok ((), rest) := by
  obtain ⟨d, ds, rfl, hd⟩ := exists_digit_of_isDigits h
  rw [skipExponentDigits, List.cons_append, bind_of_ok (peek_cons d _)]
  simp only [hd, if_true]
  rw [← List.cons_append, bind_of_ok (digits_append h.2 hrest)]
  rfl

theorem ne_of_isDigit {c d : Char} (h : c.isDigit = true) (hd : d.isDigit = false) : c ≠ d := by
  rintro rfl
  simp [hd] at h

theorem skipExponent_of_isDigits {e : Char} {sign : List Char} (h : IsDigits text)
    (hsign : sign = [] ∨ sign = ['+'] ∨ sign = ['-']) (hrest : EndsDigits rest) :
    skipExponent (e :: (sign ++ text ++ rest)) = .ok ((), rest) := by
  have hdigits := skipExponentDigits_of_isDigits h hrest
  rw [skipExponent, bind_of_ok (advance_cons e _)]
  rcases hsign with rfl | rfl | rfl
  · obtain ⟨d, ds, rfl, hd⟩ := exists_digit_of_isDigits h
    have hplus : d ≠ '+' := ne_of_isDigit hd (by decide)
    have hminus : d ≠ '-' := ne_of_isDigit hd (by decide)
    rw [List.nil_append, List.cons_append, bind_of_ok (peek_cons d _)]
    simp only [↓Char.isValue, Option.some.injEq, hplus, imp_self, hminus]
    exact hdigits
  · exact hdigits
  · exact hdigits

/-- Passes over what may follow the whole part of a number. -/
def skipAfterWhole : Reader Unit := do
  match ← peek with
  | some '.' =>
    advance
    if (← digits).isEmpty then failNext .invalidNumber
    match ← peek with
    | some 'e' | some 'E' => skipExponent
    | _ => pure ()
  | some 'e' | some 'E' => skipExponent
  | _ => pure ()

theorem endsDigits_of_isExponent (h : IsExponent text) (hrest : EndsNumber rest) :
    EndsDigits (text ++ rest) := by
  rcases h with rfl | ⟨e, sign, digits, rfl | rfl, -, -, rfl⟩
  · exact hrest.endsDigits
  · simp [EndsDigits]
  · simp [EndsDigits]

theorem endsDigits_of_isFraction {exponent : List Char} (h : IsFraction text)
    (hexponent : IsExponent exponent) (hrest : EndsNumber rest) :
    EndsDigits (text ++ (exponent ++ rest)) := by
  rcases h with rfl | ⟨digits, -, rfl⟩
  · rw [List.nil_append]
    exact endsDigits_of_isExponent hexponent hrest
  · simp [EndsDigits]

theorem skipAfterWhole_of_isExponent (h : IsExponent text) (hrest : EndsNumber rest) :
    skipAfterWhole (text ++ rest) = .ok ((), rest) := by
  rw [skipAfterWhole, bind_of_ok (peek_eq _)]
  rcases h with rfl | ⟨e, sign, digits, he, hsign, hdigits, rfl⟩
  · rw [List.nil_append]
    cases hhead : rest.head? with
    | none => rfl
    | some c =>
      obtain ⟨-, hpoint, he, hE⟩ := hrest c hhead
      simp only [↓Char.isValue, Option.some.injEq, hpoint, he, hE, imp_self]
      rfl
  · have hskip := skipExponent_of_isDigits hdigits hsign hrest.endsDigits (e := e)
    rcases he with rfl | rfl <;> exact hskip

theorem skipAfterWhole_of_isFraction {exponent : List Char} (h : IsFraction text)
    (hexponent : IsExponent exponent) (hrest : EndsNumber rest) :
    skipAfterWhole (text ++ (exponent ++ rest)) = .ok ((), rest) := by
  rcases h with rfl | ⟨ds, hds, rfl⟩
  · rw [List.nil_append]
    exact skipAfterWhole_of_isExponent hexponent hrest
  · have hdigits := digits_append hds.2 (endsDigits_of_isExponent hexponent hrest)
    have hempty : ds.isEmpty = false := by simp [hds.1]
    rw [skipAfterWhole, List.cons_append, bind_of_ok (peek_cons '.' _)]
    refine (bind_of_ok (advance_cons '.' _)).trans ?_
    rw [bind_of_ok hdigits, hempty]
    refine (bind_of_ok (peek_eq _)).trans ?_
    rcases hexponent with rfl | ⟨e, sign, more, he, hsign, hmore, rfl⟩
    · rw [List.nil_append]
      cases hhead : rest.head? with
      | none => rfl
      | some c =>
        obtain ⟨-, -, he, hE⟩ := hrest c hhead
        simp only [↓Char.isValue, Option.some.injEq, he, hE, imp_self]
        rfl
    · have hskip := skipExponent_of_isDigits hmore hsign hrest.endsDigits (e := e)
      rcases he with rfl | rfl <;> exact hskip

/-- A number is passed over up to its end. -/
theorem skipNumber_of_isMagnitude (h : IsMagnitude text) (hrest : EndsNumber rest) :
    skipNumber (text ++ rest) = .ok ((), rest) := by
  obtain ⟨hwhole, hfraction, hexponent⟩ := h
  have hafter := skipAfterWhole_of_isFraction hfraction hexponent hrest
  have hends := endsDigits_of_isFraction hfraction hexponent hrest
  rw [List.append_assoc, List.append_assoc]
  rcases hwhole with rfl | ⟨hdigits, hzero⟩
  · rw [skipNumber, List.cons_append, bind_of_ok (peek_cons '0' _)]
    refine (bind_of_ok (advance_cons '0' _)).trans ((bind_of_ok (peek_eq _)).trans ?_)
    rw [List.nil_append]
    cases hhead : (_ ++ (_ ++ rest)).head? with
    | none => exact hafter
    | some c =>
      simp only [hends c hhead]
      exact hafter
  · obtain ⟨d, ds, rfl, hd⟩ := exists_digit_of_isDigits hdigits
    have hne : d ≠ '0' := by simpa using hzero
    rw [skipNumber, List.cons_append, bind_of_ok (peek_cons d _)]
    simp only [hd, if_true]
    refine (bind_of_ok (digits_append hdigits.2 hends)).trans ?_
    exact hafter

/-! ### Values that nobody asked for -/

variable {gap : List Char} {n : Nat}

theorem skipValueUpTo_append (h : IsGap gap) (n : Nat) (text : List Char) :
    skipValueUpTo (n + 1) (gap ++ text) = skipValueUpTo (n + 1) text := by
  rw [skipValueUpTo]
  exact peekPart_bind_append h text

theorem skipItems_append (h : IsGap gap) (n : Nat) (text : List Char) :
    skipItems (n + 2) (gap ++ text) = skipItems (n + 2) text := by
  rw [skipItems]
  exact bind_congr_text (skipValueUpTo_append h n text)

theorem skipEntries_append (h : IsGap gap) (n : Nat) (text : List Char) :
    skipEntries (n + 1) (gap ++ text) = skipEntries (n + 1) text := by
  rw [skipEntries]
  exact peekPart_bind_append h text

theorem endsNumber_cons {c : Char} (h : (c.isDigit || ".eE".toList.contains c) = false)
    (rest : List Char) : EndsNumber (c :: rest) := by
  intro d hd
  obtain rfl : c = d := by simpa using hd
  simpa [and_assoc] using h

theorem EndsNumber.append (hgap : IsGap gap) (hrest : EndsNumber rest) :
    EndsNumber (gap ++ rest) := by
  cases gap with
  | nil => exact hrest
  | cons c gap =>
    refine endsNumber_cons ?_ _
    rcases hgap c (by simp) with rfl | rfl | rfl | rfl <;> decide

theorem not_isBlank_of_startsValue {c : Char} (h : startsValue c = true) : isBlank c = false := by
  refine Bool.eq_false_iff.mpr fun hblank => ?_
  simp only [isBlank, Bool.or_eq_true, decide_eq_true_eq] at hblank
  rcases hblank with ((rfl | rfl) | rfl) | rfl <;> exact absurd h (by decide)

theorem ne_of_startsValue {c d : Char} (h : startsValue c = true) (hd : startsValue d = false) :
    c ≠ d := by
  rintro rfl
  simp [hd] at h

/-- A reader of any value passes over a part of a text, given as many steps as it has characters. -/
def Passed : Phrase → List Char → Prop
  | .value _, text => ∀ n rest, text.length ≤ n → EndsNumber rest →
      skipValueUpTo n (text ++ rest) = .ok ((), rest)
  | .spaced _, text => ∀ n rest, text.length ≤ n → EndsNumber rest →
      ∃ gap, IsGap gap ∧ skipValueUpTo n (text ++ rest) = .ok ((), gap ++ rest)
  | .items _, text => ∀ n rest, text.length < n →
      skipItems n (text ++ ']' :: rest) = .ok ((), rest)
  | .entries _, text => ∀ n rest, text.length < n →
      skipEntries n (text ++ '\x7d' :: rest) = .ok ((), rest)

variable {v : Document}

theorem passed_of_succ (hne : text ≠ [])
    (h : ∀ n rest, text.length ≤ n + 1 → EndsNumber rest →
      skipValueUpTo (n + 1) (text ++ rest) = .ok ((), rest)) : Passed (.value v) text := by
  intro n rest hn hrest
  cases n with
  | zero => exact absurd (List.length_eq_zero_iff.mp (Nat.le_zero.mp hn)) hne
  | succ n => exact h n rest hn hrest

theorem passed_null : Passed (.value .null) "null".toList := by
  refine passed_of_succ (by decide) fun n rest _ _ => ?_
  rw [skipValueUpTo]
  exact (bind_of_ok (peekPart_cons rfl _)).trans
    ((bind_of_ok (advance_cons 'n' _)).trans (word_append ['u', 'l', 'l'] rest))

theorem passed_bool (b : Bool) : Passed (.value (.bool b)) (toString b).toList := by
  refine passed_of_succ (by cases b <;> decide) fun n rest _ _ => ?_
  rw [skipValueUpTo]
  cases b with
  | true =>
    exact (bind_of_ok (peekPart_cons rfl _)).trans
      ((bind_of_ok (advance_cons 't' _)).trans (word_append ['r', 'u', 'e'] rest))
  | false =>
    exact (bind_of_ok (peekPart_cons rfl _)).trans
      ((bind_of_ok (advance_cons 'f' _)).trans (word_append ['a', 'l', 's', 'e'] rest))

theorem passed_number {literal : List Char} (h : IsNumber literal) :
    Passed (.value (.number literal)) literal := by
  cases h with
  | positive h =>
    obtain ⟨c, more, rfl, hc⟩ := exists_first_of_isMagnitude h
    have hne : ∀ d, d.isDigit = false → c ≠ d := fun d => ne_of_isDigit hc
    have hblank : isBlank c = false := not_isBlank_of_startsValue (by simp [startsValue, hc])
    refine passed_of_succ (by simp) fun n rest _ hrest => ?_
    rw [skipValueUpTo, List.cons_append, bind_of_ok (peekPart_cons hblank _)]
    simp only [↓Char.isValue, hne 'n' rfl, hne 't' rfl, hne 'f' rfl, hne '-' rfl, hne '"' rfl,
      hne '[' rfl, hne '\x7b' rfl, imp_self, hc, if_true]
    exact skipNumber_of_isMagnitude h hrest
  | negative h =>
    refine passed_of_succ (by simp) fun n rest _ hrest => ?_
    rw [skipValueUpTo]
    exact (bind_of_ok (peekPart_cons rfl _)).trans
      ((bind_of_ok (advance_cons '-' _)).trans (skipNumber_of_isMagnitude h hrest))

theorem passed_str {s : String} (h : SpellsString s text) : Passed (.value (.str s)) text := by
  obtain ⟨h⟩ := h
  refine passed_of_succ (by simp) fun n rest _ _ => ?_
  rw [skipValueUpTo]
  refine (bind_of_ok (peekPart_cons rfl _)).trans ((bind_of_ok (advance_cons '"' _)).trans ?_)
  simpa using skipString_of_spellsChars h rest

theorem passed_spaced {before after : List Char} (hbefore : IsGap before) (hne : text ≠ [])
    (h : Passed (.value v) text) (hafter : IsGap after) :
    Passed (.spaced v) (before ++ (text ++ after)) := by
  intro n rest hn hrest
  have hlength : 0 < text.length := List.length_pos_iff.mpr hne
  simp only [List.length_append] at hn
  obtain ⟨n, rfl⟩ : ∃ m, n = m + 1 := ⟨n - 1, by omega⟩
  refine ⟨after, hafter, ?_⟩
  rw [List.append_assoc, skipValueUpTo_append hbefore, List.append_assoc]
  exact h (n + 1) _ (by omega) (hrest.append hafter)

theorem passed_noItems (h : IsGap gap) : Passed (.value (.arr [])) ('[' :: (gap ++ [']'])) := by
  refine passed_of_succ (by simp) fun n rest _ _ => ?_
  rw [skipValueUpTo]
  refine (bind_of_ok (peekPart_cons rfl _)).trans ((bind_of_ok (advance_cons '[' _)).trans ?_)
  rw [List.append_eq, List.append_assoc, List.singleton_append,
    bind_of_ok (peekPart_gap_cons h rfl rest)]
  exact advance_cons ']' rest

theorem passed_arr {vs : List Document} (hvs : Spells (.items vs) text)
    (h : Passed (.items vs) text) : Passed (.value (.arr vs)) ('[' :: (text ++ [']'])) := by
  refine passed_of_succ (by simp) fun n rest hn _ => ?_
  obtain ⟨gap, c, more, hgap, rfl, hc⟩ := hvs.exists_first_of_items
  have hne : c ≠ ']' := ne_of_startsValue hc (by decide)
  have hskip := h n rest (by simp at hn ⊢; omega)
  rw [skipValueUpTo]
  refine (bind_of_ok (peekPart_cons rfl _)).trans ((bind_of_ok (advance_cons '[' _)).trans ?_)
  simp only [List.append_eq, List.append_assoc, List.cons_append, List.nil_append] at hskip ⊢
  rw [bind_of_ok (peekPart_gap_cons hgap (not_isBlank_of_startsValue hc) _)]
  obtain ⟨n, rfl⟩ : ∃ m, n = m + 2 := ⟨n - 2, by simp at hn; omega⟩
  rw [skipItems_append hgap] at hskip
  simp only [↓Char.isValue]
  exact hskip

theorem passed_noEntries (h : IsGap gap) :
    Passed (.value (.obj [])) ('\x7b' :: (gap ++ ['\x7d'])) := by
  refine passed_of_succ (by simp) fun n rest _ _ => ?_
  rw [skipValueUpTo]
  refine (bind_of_ok (peekPart_cons rfl _)).trans ((bind_of_ok (advance_cons '\x7b' _)).trans ?_)
  rw [List.append_eq, List.append_assoc, List.singleton_append,
    bind_of_ok (peekPart_gap_cons h rfl rest)]
  exact advance_cons '\x7d' rest

theorem passed_obj {es : List (String × Document)} (hes : Spells (.entries es) text)
    (h : Passed (.entries es) text) :
    Passed (.value (.obj es)) ('\x7b' :: (text ++ ['\x7d'])) := by
  refine passed_of_succ (by simp) fun n rest hn _ => ?_
  obtain ⟨gap, more, hgap, rfl⟩ := hes.exists_first_of_entries
  have hskip := h n rest (by simp at hn ⊢; omega)
  rw [skipValueUpTo]
  refine (bind_of_ok (peekPart_cons rfl _)).trans
    ((bind_of_ok (advance_cons '\x7b' _)).trans ?_)
  simp only [List.append_eq, List.append_assoc, List.cons_append, List.nil_append] at hskip ⊢
  rw [bind_of_ok (peekPart_gap_cons hgap rfl _)]
  obtain ⟨n, rfl⟩ : ∃ m, n = m + 1 := ⟨n - 1, by simp at hn; omega⟩
  rw [skipEntries_append hgap] at hskip
  exact hskip

theorem passed_lastItem (h : Passed (.spaced v) text) : Passed (.items [v]) text := by
  intro n rest hn
  obtain ⟨n, rfl⟩ : ∃ m, n = m + 1 := ⟨n - 1, by omega⟩
  obtain ⟨gap, hgap, hskip⟩ := h n (']' :: rest) (by omega) (endsNumber_cons (by decide) _)
  rw [skipItems, bind_of_ok hskip, bind_of_ok (peekPart_gap_cons hgap rfl _)]
  exact advance_cons ']' rest

theorem passed_item {vs : List Document} {more : List Char} (h : Passed (.spaced v) text)
    (hmore : Passed (.items vs) more) : Passed (.items (v :: vs)) (text ++ ',' :: more) := by
  intro n rest hn
  simp only [List.length_append, List.length_cons] at hn
  obtain ⟨n, rfl⟩ : ∃ m, n = m + 1 := ⟨n - 1, by omega⟩
  obtain ⟨gap, hgap, hskip⟩ :=
    h n (',' :: (more ++ ']' :: rest)) (by omega) (endsNumber_cons (by decide) _)
  rw [List.append_assoc, List.cons_append, skipItems, bind_of_ok hskip,
    bind_of_ok (peekPart_gap_cons hgap rfl _)]
  exact (bind_of_ok (advance_cons ',' _)).trans (hmore n rest (by omega))

/-- Passes over what may follow an entry. -/
def skipAfterEntry (n : Nat) : Reader Unit := do
  match ← peekPart with
  | some ',' => advance; skipEntries n
  | some '\x7d' => advance
  | some _ => failNext .objectEndExpected
  | none => failNext .endInObject

theorem skipEntries_of_spellsKey {key : String} (h : SpellsKey key text) (n : Nat)
    (rest : List Char) : skipEntries (n + 1) (text ++ ':' :: rest) =
      (skipValueUpTo n >>= fun _ => skipAfterEntry n) rest := by
  obtain ⟨hbefore, ⟨hkey⟩, hafter⟩ := h
  simp only [List.append_assoc, List.cons_append, List.nil_append]
  rw [skipEntries, bind_of_ok (peekPart_gap_cons hbefore rfl _)]
  refine (bind_of_ok (advance_cons '"' _)).trans ?_
  refine (bind_of_ok (skipString_of_spellsChars hkey _)).trans ?_
  rw [bind_of_ok (peekPart_gap_cons hafter rfl rest)]
  exact bind_of_ok (advance_cons ':' rest)

theorem passed_lastEntry {key : String} {opening : List Char} (hkey : SpellsKey key opening)
    (h : Passed (.spaced v) text) : Passed (.entries [(key, v)]) (opening ++ ':' :: text) := by
  intro n rest hn
  simp only [List.length_append, List.length_cons] at hn
  obtain ⟨n, rfl⟩ : ∃ m, n = m + 1 := ⟨n - 1, by omega⟩
  obtain ⟨gap, hgap, hskip⟩ := h n ('\x7d' :: rest) (by omega) (endsNumber_cons (by decide) _)
  rw [List.append_assoc, List.cons_append, skipEntries_of_spellsKey hkey, bind_of_ok hskip,
    skipAfterEntry, bind_of_ok (peekPart_gap_cons hgap rfl _)]
  exact advance_cons '\x7d' rest

theorem passed_entry {key : String} {es : List (String × Document)} {opening more : List Char}
    (hkey : SpellsKey key opening) (h : Passed (.spaced v) text)
    (hmore : Passed (.entries es) more) :
    Passed (.entries ((key, v) :: es)) (opening ++ ':' :: (text ++ ',' :: more)) := by
  intro n rest hn
  simp only [List.length_append, List.length_cons] at hn
  obtain ⟨n, rfl⟩ : ∃ m, n = m + 1 := ⟨n - 1, by omega⟩
  obtain ⟨gap, hgap, hskip⟩ :=
    h n (',' :: (more ++ '\x7d' :: rest)) (by omega) (endsNumber_cons (by decide) _)
  simp only [List.append_assoc, List.cons_append]
  rw [skipEntries_of_spellsKey hkey, bind_of_ok hskip, skipAfterEntry,
    bind_of_ok (peekPart_gap_cons hgap rfl _)]
  exact (bind_of_ok (advance_cons ',' _)).trans (hmore n rest (by omega))

/-- Every part of a text is passed over, by induction on how it is spelled. -/
theorem passed_of_spells {phrase : Phrase} (h : Spells phrase text) : Passed phrase text := by
  induction h with
  | null => exact passed_null
  | bool b => exact passed_bool b
  | number h => exact passed_number h
  | str h => exact passed_str h
  | noItems h => exact passed_noItems h
  | arr h ih => exact passed_arr h ih
  | noEntries h => exact passed_noEntries h
  | obj h ih => exact passed_obj h ih
  | spaced hbefore h hafter ih =>
    -- A value is not empty, so there is a step left for the blanks in front of it.
    obtain ⟨c, more, rfl, -⟩ := h.exists_first
    exact passed_spaced hbefore (by simp) ih hafter
  | lastItem _ ih => exact passed_lastItem ih
  | item _ _ ih ihmore => exact passed_item ih ihmore
  | lastEntry hkey _ ih => exact passed_lastEntry hkey ih
  | entry hkey _ _ ih ihmore => exact passed_entry hkey ih ihmore

/-- **Any value is passed over,** up to blanks behind it. -/
theorem skipValue_of_spells (h : Spells (.spaced v) text) (hrest : EndsNumber rest) :
    ∃ gap, IsGap gap ∧ skipValue (text ++ rest) = .ok ((), gap ++ rest) := by
  obtain ⟨gap, hgap, hskip⟩ :=
    passed_of_spells h (2 * (text ++ rest).length + 2) rest (by simp; omega) hrest
  exact ⟨gap, hgap, hskip⟩

/-! ### Values of a kind -/

/-- A reader of a kind of value reads it with the blanks around it, and leaves what follows. -/
def Reads (reader : Reader α) (v : Document) (a : α) : Prop :=
  ∀ text rest, Spells (.spaced v) text →
    ∃ gap, IsGap gap ∧ reader (text ++ rest) = .ok (a, gap ++ rest)

theorem reads_text (s : String) : Reads Json.text (.str s) s := by
  intro text rest h
  cases h with
  | spaced hbefore h hafter =>
    cases h with
    | str h =>
      obtain ⟨h⟩ := h
      refine ⟨_, hafter, ?_⟩
      simp only [List.append_assoc, List.cons_append, List.nil_append]
      rw [Json.text, bind_of_ok (peekPart_gap_cons hbefore rfl _)]
      exact (bind_of_ok (advance_cons '"' _)).trans (string_of_spellsChars h _)

theorem reads_flag (b : Bool) : Reads flag (.bool b) b := by
  intro text rest h
  cases h with
  | @spaced _ before _ after hbefore h hafter =>
    cases h with
    | bool =>
      refine ⟨_, hafter, ?_⟩
      rw [List.append_assoc, List.append_assoc]
      cases b with
      | true =>
        exact (bind_of_ok (peekPart_gap_cons hbefore rfl _)).trans
          ((bind_of_ok (advance_cons 't' _)).trans
            (bind_of_ok (word_append ['r', 'u', 'e'] (after ++ rest))))
      | false =>
        exact (bind_of_ok (peekPart_gap_cons hbefore rfl _)).trans
          ((bind_of_ok (advance_cons 'f' _)).trans
            (bind_of_ok (word_append ['a', 'l', 's', 'e'] (after ++ rest))))

theorem reads_optional_text (s : String) : Reads (optional Json.text) (.str s) (some s) := by
  intro text rest h
  obtain ⟨gap, hgap, htext⟩ := reads_text s text rest h
  refine ⟨gap, hgap, ?_⟩
  cases h with
  | spaced hbefore h hafter =>
    cases h with
    | str h =>
      obtain ⟨h⟩ := h
      simp only [List.append_assoc, List.cons_append, List.nil_append] at htext ⊢
      rw [optional, bind_of_ok (peekPart_gap_cons hbefore rfl _)]
      refine bind_of_ok ?_
      rwa [Json.text, peekPart_bind_append hbefore] at htext

/-! ### Lists -/

/-- The blanks in front of a value do not count. -/
theorem Spells.exists_stripped (h : Spells (.spaced v) text) :
    ∃ gap c more, IsGap gap ∧ text = gap ++ c :: more ∧ startsValue c = true ∧
      Spells (.spaced v) (c :: more) := by
  cases h with
  | spaced hbefore h hafter =>
    obtain ⟨c, more, rfl, hc⟩ := h.exists_first
    exact ⟨_, c, _, hbefore, rfl, hc, .spaced isGap_nil h hafter⟩

theorem moreItems_first {c : Char} (hgap : IsGap gap) (hc : startsValue c = true)
    (rest : List Char) : moreItems true (gap ++ c :: rest) = .ok (true, c :: rest) := by
  -- The branches of the reader that `c` does not take are ruled out by these two.
  have hend : c ≠ ']' := ne_of_startsValue hc (by decide)
  have hcomma : c ≠ ',' := ne_of_startsValue hc (by decide)
  rw [moreItems, bind_of_ok (peekPart_gap_cons hgap (not_isBlank_of_startsValue hc) _)]
  simp only [if_true]
  rfl

theorem moreItems_next {c : Char} {after : List Char} (hgap : IsGap gap) (hafter : IsGap after)
    (hc : startsValue c = true) (rest : List Char) :
    moreItems false (gap ++ ',' :: (after ++ c :: rest)) = .ok (true, c :: rest) := by
  have hend : c ≠ ']' := ne_of_startsValue hc (by decide)
  rw [moreItems, bind_of_ok (peekPart_gap_cons hgap rfl _)]
  refine (bind_of_ok (advance_cons ',' _)).trans ?_
  rw [bind_of_ok (peekPart_gap_cons hafter (not_isBlank_of_startsValue hc) _)]
  simp only
  rfl

theorem moreItems_end (hgap : IsGap gap) (first : Bool) (rest : List Char) :
    moreItems first (gap ++ ']' :: rest) = .ok (false, ']' :: rest) := by
  rw [moreItems, bind_of_ok (peekPart_gap_cons hgap rfl _)]
  rfl

theorem itemsUpTo_end {item : Reader α} (hgap : IsGap gap) (n : Nat) (first : Bool)
    (rest : List Char) :
    itemsUpTo item (n + 1) first (gap ++ ']' :: rest) = .ok ([], ']' :: rest) := by
  rw [itemsUpTo, bind_of_ok (moreItems_end hgap first rest)]
  rfl

/-- The items of a text are read one after the other, wherever the reader is led to the first. -/
theorem itemsUpTo_of_spells {item : Reader α} {vs : List Document} {as : List α}
    (h : List.Forall₂ (Reads item) vs as) : ∀ {first text n rest input},
    Spells (.items vs) text → text.length < n →
      moreItems first input = moreItems true (text ++ ']' :: rest) →
      itemsUpTo item n first input = .ok (as, ']' :: rest) := by
  induction h with
  | nil => intro _ _ _ _ _ h; cases h
  | @cons v a vs as hitem hitems ih =>
    intro first text n rest input h hn hinput
    obtain ⟨n, rfl⟩ : ∃ m, n = m + 1 := ⟨n - 1, by omega⟩
    cases h with
    | lastItem h =>
      obtain ⟨before, c, more, hbefore, rfl, hc, hstripped⟩ := h.exists_stripped
      obtain ⟨after, hafter, hread⟩ := hitem _ (']' :: rest) hstripped
      obtain ⟨⟩ := hitems
      rw [List.append_assoc, List.cons_append, moreItems_first hbefore hc] at hinput
      simp only [List.length_append, List.length_cons] at hn
      obtain ⟨n, rfl⟩ : ∃ m, n = m + 1 := ⟨n - 1, by omega⟩
      rw [itemsUpTo, bind_of_ok hinput]
      refine (bind_of_ok hread).trans ?_
      rw [bind_of_ok (itemsUpTo_end hafter n false rest)]
      rfl
    | @item _ _ text more h hmore =>
      obtain ⟨before, c, front, hbefore, rfl, hc, hstripped⟩ := h.exists_stripped
      obtain ⟨after, hafter, hread⟩ := hitem _ (',' :: (more ++ ']' :: rest)) hstripped
      obtain ⟨next, d, back, hnext, rfl, hd⟩ := hmore.exists_first_of_items
      simp only [List.append_assoc, List.cons_append] at hinput hread
      rw [moreItems_first hbefore hc] at hinput
      -- Behind the comma the reader finds what it finds in front of a first item.
      have hthat : moreItems false (after ++ ',' :: (next ++ d :: (back ++ ']' :: rest))) =
          moreItems true ((next ++ d :: back) ++ ']' :: rest) := by
        rw [moreItems_next hafter hnext hd, List.append_assoc, List.cons_append,
          moreItems_first hnext hd]
      have hlength : (next ++ d :: back).length < n := by
        simp only [List.length_append, List.length_cons] at hn ⊢
        omega
      have hstep := ih hmore hlength hthat
      rw [itemsUpTo, bind_of_ok hinput]
      refine (bind_of_ok hread).trans ?_
      rw [bind_of_ok hstep]
      rfl

theorem listEnd_cons (rest : List Char) : listEnd (']' :: rest) = .ok ((), rest) := by
  rw [listEnd, bind_of_ok (peekPart_cons rfl _)]
  exact advance_cons ']' rest

/-- A list is read when its items are. -/
theorem reads_listOf {item : Reader α} {vs : List Document} {as : List α}
    (h : List.Forall₂ (Reads item) vs as) : Reads (listOf item) (.arr vs) as := by
  intro text rest hspells
  obtain ⟨before, inner, after, hbefore, hafter, rfl, hitems⟩ :
      ∃ before inner after, IsGap before ∧ IsGap after ∧
        text = before ++ '[' :: (inner ++ ']' :: after) ∧
        itemsUpTo item ((inner ++ ']' :: (after ++ rest)).length + 1) true
          (inner ++ ']' :: (after ++ rest)) = .ok (as, ']' :: (after ++ rest)) := by
    cases hspells with
    | @spaced _ before _ after hbefore hvalue hafter =>
      cases hvalue with
      | @noItems gap hgap =>
        obtain ⟨⟩ := h
        exact ⟨before, gap, after, hbefore, hafter, by simp, itemsUpTo_end hgap _ true _⟩
      | @arr _ inner hvs =>
        have hlength : inner.length < (inner ++ ']' :: (after ++ rest)).length + 1 := by
          rw [List.length_append]
          omega
        exact ⟨before, inner, after, hbefore, hafter, by simp,
          itemsUpTo_of_spells h hvs hlength rfl⟩
  refine ⟨after, hafter, ?_⟩
  simp only [List.append_assoc, List.cons_append]
  rw [listOf, bind_of_ok (peekPart_gap_cons hbefore rfl _)]
  refine (bind_of_ok (advance_cons '[' _)).trans ((bind_of_ok rfl).trans ?_)
  rw [bind_of_ok hitems, bind_of_ok (listEnd_cons _)]
  rfl

theorem reads_listOf_text (ss : List String) :
    Reads (listOf Json.text) (.arr (ss.map .str)) ss :=
  reads_listOf (List.forall₂_map_left_iff.mpr (List.forall₂_same.mpr fun s _ => reads_text s))

/-! ### Entries -/

theorem nextKey_first {key : String} (h : SpellsKey key text) (rest : List Char) :
    ∃ gap, IsGap gap ∧ nextKey true (text ++ rest) = .ok (some key, gap ++ rest) := by
  obtain ⟨hbefore, ⟨hkey⟩, hafter⟩ := h
  refine ⟨_, hafter, ?_⟩
  simp only [List.append_assoc, List.cons_append, List.nil_append]
  rw [nextKey, bind_of_ok (peekPart_gap_cons hbefore rfl _)]
  refine (bind_of_ok (advance_cons '"' _)).trans ?_
  rw [bind_of_ok (string_of_spellsChars hkey _)]
  rfl

/-- Behind a comma the next key is read like the first. -/
theorem nextKey_next {next : List Char} (hgap : IsGap gap) (hnext : IsGap next)
    (rest : List Char) :
    nextKey false (gap ++ ',' :: (next ++ '"' :: rest)) = nextKey true (next ++ '"' :: rest) := by
  rw [nextKey, bind_of_ok (peekPart_gap_cons hgap rfl _)]
  refine (bind_of_ok (advance_cons ',' _)).trans ?_
  rw [nextKey, bind_of_ok (peekPart_gap_cons hnext rfl _),
    bind_of_ok (peekPart_gap_cons hnext rfl _)]
  rfl

theorem nextKey_end (hgap : IsGap gap) (first : Bool) (rest : List Char) :
    nextKey first (gap ++ '\x7d' :: rest) = .ok (none, '\x7d' :: rest) := by
  rw [nextKey, bind_of_ok (peekPart_gap_cons hgap rfl _)]
  rfl

theorem colon_of_gap (hgap : IsGap gap) (rest : List Char) :
    colon (gap ++ ':' :: rest) = .ok ((), rest) := by
  rw [colon, bind_of_ok (peekPart_gap_cons hgap rfl _)]
  exact advance_cons ':' rest

/-- A value with blanks behind it can be a whole text. -/
theorem complete_of_ok {value : Reader α} {a : α} {whole : String} (hgap : IsGap gap)
    (h : value whole.toList = .ok (a, gap)) : complete value whole = .ok a := by
  simp only [complete, StateT.run]
  rw [bind_of_ok h, bind_of_ok (peekPart_gap hgap)]
  rfl

end Json
end FetchClients
