/-
# Literals of a script

What a string literal and a template literal of a script denote, and where they
end. A text denotes its 16-bit code units. A string literal ends at the first
quote that no backslash escapes, and not at a line break; a template literal
ends at such a backquote, and `$\x7b` opens a substitution in it. Characters
that are live in neither way stand for themselves (`Script.string?_append`,
`Script.template?_append`), and these are all that identifiers and method paths
are made of (`ne_of_isNamePart`, `ne_of_isPathPart`). No other text stands for
itself in a string (`Script.string?_append_iff`).

Key definitions: `Script.codeUnits`, `Script.units`, `Script.string?`,
`Script.Part`, `Script.template?`, `Script.value`.
Key theorems: `Script.string?_append`, `Script.string?_append_iff`,
`Script.template?_append`, `Script.template?_substitution`.
-/
import FetchClients.Service.Basic
import FetchClients.TypeScript.Lexer

namespace FetchClients

theorem Text.cutAt?_append {sep : Char} {after : List Char} : ∀ {before : List Char},
    sep ∉ before → cutAt? sep (before ++ sep :: after) = some (before, after)
  | [], _ => by simp [cutAt?]
  | c :: before, h => by
    simp only [List.mem_cons, not_or] at h
    obtain ⟨hc, hbefore⟩ := h
    simp [cutAt?, Ne.symm hc, cutAt?_append hbefore]

namespace Script

/-! ### Code units -/

/-- The code units of a code point: one, or two surrogates. -/
def codeUnits (point : Nat) : List Nat :=
  if point < 0x10000 then [point]
  else [0xD800 + (point - 0x10000) / 0x400, 0xDC00 + (point - 0x10000) % 0x400]

/-- The code units of a text. -/
def units (text : List Char) : List Nat :=
  text.flatMap fun c => codeUnits c.toNat

@[simp] theorem units_nil : units [] = [] := rfl

@[simp] theorem units_cons (c : Char) (text : List Char) :
    units (c :: text) = codeUnits c.toNat ++ units text := rfl

/-! ### Escapes -/

/-- The letters that stand for control characters after a backslash. -/
def controlEscapes : List (Char × Nat) :=
  [('b', 8), ('t', 9), ('n', 10), ('v', 11), ('f', 12), ('r', 13)]

/-- The line ends of a script. -/
def isLineEnd (c : Char) : Bool :=
  c = '\n' || c = '\r' || c = Char.ofNat 0x2028 || c = Char.ofNat 0x2029

/-- What an escape denotes after its backslash, and its length. An escaped line end denotes nothing,
and the escapes by octal digits are none. -/
def escape? : List Char → Option (List Nat × Nat)
  | [] => none
  | c :: cs =>
    if c = 'x' then
      let run := TypeScript.Lexer.hexRun 0 0 (cs.take 2)
      if run.1 = 2 then some ([run.2], 3) else none
    else if c = 'u' then
      (TypeScript.Lexer.unicodeEscape cs).toOption.map fun point => (codeUnits point.1, point.2 + 1)
    else if c = '0' && !cs.head?.any Char.isDigit then some ([0], 1)
    else if c.isDigit then none
    else if c = '\r' && cs.head? = some '\n' then some ([], 2)
    else if isLineEnd c then some ([], 1)
    else some (((controlEscapes.lookup c).map ([·])).getD (codeUnits c.toNat), 1)

/-! ### Strings -/

/-- What a string literal denotes, read after its opening quote, and the text after its closing
quote. The first `skip` characters belong to an escape that was read already. -/
def string? (skip : Nat) : List Char → Option (List Nat × List Char)
  | [] => none
  | c :: cs =>
    if skip ≠ 0 then string? (skip - 1) cs
    else if c = '"' then some ([], cs)
    else if c = '\n' ∨ c = '\r' then none
    else if c = '\\' then
      (escape? cs).bind fun e => (string? e.2 cs).map fun r => (e.1 ++ r.1, r.2)
    else (string? 0 cs).map fun r => (codeUnits c.toNat ++ r.1, r.2)

/-- A text without quotes, backslashes and line breaks stands for itself in a string. -/
theorem string?_append {rest : List Char} : ∀ {text : List Char},
    (∀ c ∈ text, c ≠ '"' ∧ c ≠ '\\' ∧ c ≠ '\n' ∧ c ≠ '\r') →
      string? 0 (text ++ '"' :: rest) = some (units text, rest)
  | [], _ => rfl
  | c :: text, h => by
    obtain ⟨hquote, hbackslash, hline, hreturn⟩ := h c (by simp)
    have ih := @string?_append rest text fun d hd => h d (by simp [hd])
    simp [string?, hquote, hbackslash, hline, hreturn, ih]

theorem codeUnits_length_pos (point : Nat) : 0 < (codeUnits point).length := by
  unfold codeUnits
  split <;> simp

theorem codeUnits_length_le (point : Nat) : (codeUnits point).length ≤ 2 := by
  unfold codeUnits
  split <;> simp

theorem units_cut (text : List Char) (n : Nat) :
    units text = units (text.take n) ++ units (text.drop n) := by
  unfold units
  rw [← List.flatMap_append, List.take_append_drop]

/-- A text has no more characters than code units. -/
theorem length_le_units : ∀ text : List Char, text.length ≤ (units text).length
  | [] => Nat.le_refl _
  | c :: text => by
    have ih := length_le_units text
    have hc := codeUnits_length_pos c.toNat
    rw [units_cons, List.length_append, List.length_cons]
    omega

/-- An escape by code point has a digit at least. -/
theorem length_unicodeEscape {text : List Char} {point : Nat × Nat}
    (h : TypeScript.Lexer.unicodeEscape text = .ok point) : 0 < point.2 ∧ text ≠ [] := by
  have hne : text ≠ [] := by
    rintro rfl
    simp [TypeScript.Lexer.unicodeEscape, TypeScript.Lexer.hexRun] at h
  refine ⟨?_, hne⟩
  unfold TypeScript.Lexer.unicodeEscape at h
  dsimp only at h
  split at h
  · split at h
    · cases h
    · split at h
      · cases h
      · split at h
        · cases h
          exact Nat.succ_pos _
        · cases h
  · split at h
    · cases h
      exact Nat.succ_pos _
    · cases h

/-- An escape denotes no more code units than its letters do without the backslash. -/
theorem length_escape? {cs : List Char} {e : List Nat × Nat} (h : escape? cs = some e) :
    e.1.length ≤ (units (cs.take e.2)).length := by
  cases cs with
  | nil => cases h
  | cons c cs =>
    have hone : 0 < (codeUnits c.toNat).length := codeUnits_length_pos _
    unfold escape? at h
    dsimp only at h
    -- two hex digits
    split at h
    · split at h
      · cases h
        simp only [List.take_succ_cons, units_cons, List.length_append, List.length_singleton]
        omega
      · cases h
    -- a code point
    split at h
    · obtain ⟨point, hpoint, rfl⟩ := Option.map_eq_some_iff.mp h
      have hok : TypeScript.Lexer.unicodeEscape cs = .ok point := by
        cases hread : TypeScript.Lexer.unicodeEscape cs with
        | error fault => simp [hread, Except.toOption] at hpoint
        | ok other => simpa [hread, Except.toOption] using hpoint
      obtain ⟨hpos, hne⟩ := length_unicodeEscape hok
      have hlength := List.length_pos_iff.mpr hne
      have htwo := codeUnits_length_le point.1
      have hunits := length_le_units (cs.take point.2)
      rw [List.length_take] at hunits
      simp only [List.take_succ_cons, units_cons, List.length_append]
      omega
    -- a zero
    split at h
    · cases h
      simpa using Nat.succ_le_of_lt hone
    -- another digit
    split at h
    · cases h
    -- a line end of two characters or of one
    split at h
    · cases h
      simp
    split at h
    · cases h
      simp
    -- a control character, or the letter itself
    cases h
    cases controlEscapes.lookup c with
    | none => simp
    | some value => simpa using Nat.succ_le_of_lt hone

/-- A string that is read ends at a quote, and denotes no more code units than stand in it. -/
theorem string?_eq_some {rest : List Char} : ∀ {skip : Nat} {text : List Char} {denoted : List Nat},
    string? skip text = some (denoted, rest) →
      ∃ body, text = body ++ '"' :: rest ∧ skip ≤ body.length ∧
        denoted.length ≤ (units (body.drop skip)).length
  | _, [], _, h => by cases h
  | skip + 1, c :: cs, denoted, h => by
    rw [string?, if_pos (Nat.succ_ne_zero skip)] at h
    obtain ⟨body, rfl, hbody, hlength⟩ := string?_eq_some h
    exact ⟨c :: body, rfl, Nat.succ_le_succ hbody, hlength⟩
  | 0, c :: cs, denoted, h => by
    rw [string?, if_neg (by simp)] at h
    split at h
    · rename_i hquote
      cases h
      exact ⟨[], by rw [hquote]; rfl, by simp, by simp⟩
    split at h
    · cases h
    split at h
    · obtain ⟨e, hescape, h⟩ := Option.bind_eq_some_iff.mp h
      obtain ⟨r, hread, hr⟩ := Option.map_eq_some_iff.mp h
      cases hr
      obtain ⟨body, rfl, hbody, hlength⟩ := string?_eq_some hread
      have hshort := length_escape? hescape
      rw [List.take_append_of_le_length hbody] at hshort
      refine ⟨c :: body, rfl, Nat.zero_le _, ?_⟩
      rw [List.drop_zero, units_cons, units_cut body e.2]
      simp only [List.length_append]
      omega
    · obtain ⟨r, hread, hr⟩ := Option.map_eq_some_iff.mp h
      cases hr
      obtain ⟨body, rfl, -, hlength⟩ := string?_eq_some hread
      refine ⟨c :: body, rfl, Nat.zero_le _, ?_⟩
      rw [List.drop_zero] at hlength ⊢
      rw [units_cons, List.length_append, List.length_append]
      omega

/-- A text stands for itself in a string only if it has no quotes, backslashes and line breaks: an
escape denotes less than it is written with. -/
theorem string?_append_iff {rest : List Char} : ∀ {text : List Char},
    string? 0 (text ++ '"' :: rest) = some (units text, rest) ↔
      ∀ c ∈ text, c ≠ '"' ∧ c ≠ '\\' ∧ c ≠ '\n' ∧ c ≠ '\r'
  | [] => by simp [string?]
  | c :: text => by
    refine ⟨fun h => ?_, string?_append⟩
    rw [List.cons_append, string?, if_neg (by simp)] at h
    split at h
    · -- the string would end too early
      have hlength := congrArg List.length (Prod.mk.inj (Option.some.inj h)).2
      simp at hlength
      omega
    rename_i hquote
    split at h
    · cases h
    rename_i hline
    rw [not_or] at hline
    split at h
    · -- the escape would have to denote all that it is written with
      obtain ⟨e, hescape, h⟩ := Option.bind_eq_some_iff.mp h
      obtain ⟨⟨denoted, after⟩, hread, hr⟩ := Option.map_eq_some_iff.mp h
      obtain ⟨hdenoted, rfl⟩ := Prod.mk.inj hr
      obtain ⟨body, hsplit, hbody, hlength⟩ := string?_eq_some hread
      obtain rfl : text = body := List.append_cancel_right hsplit
      have hshort := length_escape? hescape
      rw [List.take_append_of_le_length hbody] at hshort
      have hone := codeUnits_length_pos c.toNat
      have hall := congrArg List.length hdenoted
      rw [units_cons, units_cut text e.2] at hall
      simp only [List.length_append] at hall
      omega
    · rename_i hbackslash
      obtain ⟨⟨denoted, after⟩, hread, hr⟩ := Option.map_eq_some_iff.mp h
      obtain ⟨hdenoted, rfl⟩ := Prod.mk.inj hr
      obtain rfl : denoted = units text := List.append_cancel_left hdenoted
      exact List.forall_mem_cons.mpr ⟨⟨hquote, hbackslash, hline⟩, string?_append_iff.mp hread⟩

example : string? 0 "a\\x42\\u\x7b1F600\x7d\\\n\", b\"".toList =
    some ([97, 66, 0xD83D, 0xDE00], ", b\"".toList) := by decide

/-! ### Templates -/

/-- What a template literal consists of. -/
inductive Part where
  | plain (c : Char)
  | escape (value : List Nat)
  | substitution (expression : List Char)
deriving DecidableEq, Repr

/-- What a template denotes if its substitutions denote what `eval` says. -/
def value (eval : List Char → List Nat) (parts : List Part) : List Nat :=
  parts.flatMap fun
    | .plain c => codeUnits c.toNat
    | .escape value => value
    | .substitution expression => eval expression

/-- The expression that ends a substitution's brace, if it is identifiers joined by dots. -/
def reference? (text : List Char) : Option (List Char) :=
  (Text.cutAt? '\x7d' text).bind fun cut =>
    if (Text.fields '.' cut.1).all fun name => isIdentifier (String.ofList name) then some cut.1
    else none

/-- The parts of a template literal, read after its opening backquote, and the text after its
closing one. Line breaks are read as line feeds. The first `skip` characters were read already. -/
def template? (skip : Nat) : List Char → Option (List Part × List Char)
  | [] => none
  | c :: cs =>
    if skip ≠ 0 then template? (skip - 1) cs
    else if c = '`' then some ([], cs)
    else if c = '$' ∧ cs.head? = some '\x7b' then
      (reference? (cs.drop 1)).bind fun e =>
        (template? (e.length + 2) cs).map fun r => (.substitution e :: r.1, r.2)
    else if c = '\\' then
      (escape? cs).bind fun e => (template? e.2 cs).map fun r => (.escape e.1 :: r.1, r.2)
    else if c = '\r' then
      if cs.head? = some '\n' then template? 0 cs
      else (template? 0 cs).map fun r => (.plain '\n' :: r.1, r.2)
    else (template? 0 cs).map fun r => (.plain c :: r.1, r.2)

theorem template?_skip {rest : List Char} : ∀ text : List Char,
    template? text.length (text ++ rest) = template? 0 rest
  | [] => rfl
  | c :: text => by simp [template?, template?_skip text]

/-- A text without backquotes, backslashes, carriage returns and braces stands for itself in a
template, unless a brace follows that its last `$` would open. -/
theorem template?_append {rest : List Char} (hrest : rest.head? ≠ some '\x7b') :
    ∀ {text : List Char}, (∀ c ∈ text, c ≠ '`' ∧ c ≠ '\\' ∧ c ≠ '\r' ∧ c ≠ '\x7b') →
      template? 0 (text ++ rest) =
        (template? 0 rest).map fun r => (text.map .plain ++ r.1, r.2)
  | [], _ => by simp
  | c :: text, h => by
    obtain ⟨hbackquote, hbackslash, hreturn, -⟩ := h c (by simp)
    have ih := @template?_append rest hrest text fun d hd => h d (by simp [hd])
    have hbrace : (text ++ rest).head? ≠ some '\x7b' := by
      cases text with
      | nil => exact hrest
      | cons d text => simpa using (h d (by simp)).2.2.2
    have hopens : ¬ (c = '$' ∧ (text ++ rest).head? = some '\x7b') := fun ho => hbrace ho.2
    rw [List.cons_append, template?, if_neg (by simp), if_neg hbackquote, if_neg hopens,
      if_neg hbackslash, if_neg hreturn, ih]
    simp [Function.comp_def]

/-- A substitution of identifiers joined by dots is read up to its brace. -/
theorem template?_substitution {names rest : List Char} (hbrace : '\x7d' ∉ names)
    (hnames : ∀ name ∈ Text.fields '.' names, isIdentifier (String.ofList name)) :
    template? 0 ('$' :: '\x7b' :: (names ++ '\x7d' :: rest)) =
      (template? 0 rest).map fun r => (.substitution names :: r.1, r.2) := by
  have hread : reference? (names ++ '\x7d' :: rest) = some names := by
    rw [reference?, Text.cutAt?_append hbrace]
    simpa using hnames
  have hskip : template? (names.length + 2) ('\x7b' :: (names ++ '\x7d' :: rest)) =
      template? 0 rest := by
    simpa using @template?_skip rest ('\x7b' :: (names ++ ['\x7d']))
  rw [template?, if_neg (by simp), if_neg (by decide), if_pos (by simp), List.drop_one,
    List.tail_cons, hread, Option.bind_some, hskip]

example : template? 0 "$a$\x7bb.c\x7d\\n` d`".toList =
    some ([.plain '$', .plain 'a', .substitution "b.c".toList, .escape [10]], " d`".toList) := by
  decide

end Script

/-! ### Characters of names and paths -/

theorem ne_of_isNamePart {c d : Char} (hc : isNamePart c = true) (hd : isNamePart d = false) :
    c ≠ d := by
  rintro rfl
  exact absurd hc (by simp [hd])

theorem ne_of_isPathPart {c d : Char} (hc : isPathPart c = true) (hd : isPathPart d = false) :
    c ≠ d := by
  rintro rfl
  exact absurd hc (by simp [hd])

theorem isNamePart_of_isNameStart {c : Char} (h : isNameStart c = true) : isNamePart c = true := by
  simp only [isNameStart, isNamePart, Char.isAlphanum, Bool.or_eq_true] at h ⊢
  rcases h with (h | h) | h <;> simp [h]

/-- An identifier consists of the characters of names. -/
theorem isNamePart_of_isIdentifier {text : String} (h : isIdentifier text) :
    ∀ c ∈ text.toList, isNamePart c = true := by
  unfold isIdentifier at h
  split at h
  · cases h
  · rename_i c cs heq
    obtain ⟨hstart, hparts⟩ := Bool.and_eq_true_iff.mp h
    simpa [heq] using ⟨isNamePart_of_isNameStart hstart, List.all_eq_true.mp hparts⟩

/-- A method path consists of the characters of paths. -/
theorem isPathPart_of_isMethodPath {text : String} (h : isMethodPath text) :
    ∀ c ∈ text.toList, isPathPart c = true := by
  unfold isMethodPath at h
  split at h
  · rename_i cs heq
    simpa [heq] using ⟨by decide, List.all_eq_true.mp h⟩
  · cases h

end FetchClients
