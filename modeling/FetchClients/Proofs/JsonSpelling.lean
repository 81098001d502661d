/-
# The texts of a JSON value

A value has many texts: between its parts stand any blanks, a character of a string
stands for itself or behind a backslash, and a number has a fraction or an exponent.
`Spells` is the grammar of all these texts, one rule for each form. What the program
writes is one of them (`Json.spells_write`).

Key definitions: `Json.Document`, `Json.SpellsChar`, `Json.SpellsString`,
`Json.IsNumber`, `Json.Spells`.
Key theorems: `Json.Spells.exists_first`, `Json.spells_write`.
-/
import FetchClients.Json.Value
import Mathlib.Tactic.SplitIfs

namespace FetchClients
namespace Json

/-! ### Values -/

/-- A JSON value as any text can hold it. A number is kept as it is written. -/
inductive Document where
  | null
  | bool (value : Bool)
  | number (literal : List Char)
  | str (text : String)
  | arr (items : List Document)
  | obj (entries : List (String × Document))

mutual

/-- A value whose numbers are natural, as one with any numbers. -/
def toDocument : Json → Document
  | null => .null
  | bool value => .bool value
  | nat value => .number (toString value).toList
  | str text => .str text
  | arr items => .arr (itemsToDocuments items)
  | obj entries => .obj (entriesToDocuments entries)

/-- The items of an array as values. -/
def itemsToDocuments : List Json → List Document
  | [] => []
  | item :: items => item.toDocument :: itemsToDocuments items

/-- The entries of an object with values. -/
def entriesToDocuments : List (String × Json) → List (String × Document)
  | [] => []
  | (key, value) :: entries => (key, value.toDocument) :: entriesToDocuments entries

end

theorem itemsToDocuments_eq_map : ∀ items : List Json, itemsToDocuments items = items.map toDocument
  | [] => by simp [itemsToDocuments]
  | item :: items => by simp [itemsToDocuments, itemsToDocuments_eq_map items]

theorem entriesToDocuments_eq_map : ∀ entries : List (String × Json),
    entriesToDocuments entries = entries.map fun entry => (entry.1, entry.2.toDocument)
  | [] => by simp [entriesToDocuments]
  | (key, value) :: entries => by simp [entriesToDocuments, entriesToDocuments_eq_map entries]

/-! ### Strings -/

/-- A digit in base sixteen with its value. -/
def IsHexDigit (value : Nat) (digit : Char) : Prop :=
  "0123456789abcdef".toList[value]? = some digit ∨ "0123456789ABCDEF".toList[value]? = some digit

/-- Four digits in base sixteen with the number they make. -/
inductive SpellsCode : Nat → List Char → Prop where
  | digits {a b c d : Nat} {p q r s : Char} (ha : IsHexDigit a p) (hb : IsHexDigit b q)
      (hc : IsHexDigit c r) (hd : IsHexDigit d s) :
      SpellsCode (((a * 16 + b) * 16 + c) * 16 + d) [p, q, r, s]

/-- The letters that stand for a character behind a backslash. -/
def letterForms : List (Char × Char) :=
  [('"', '"'), ('\\', '\\'), ('/', '/'), ('b', '\x08'), ('f', '\x0c'), ('n', '\n'), ('r', '\r'),
    ('t', '\t')]

/-- How a character stands in a string: for itself, as a letter, as its code, or as the codes of the
two halves that stand for it where units have sixteen bits. -/
inductive SpellsChar : Char → List Char → Prop where
  | plain {c : Char} (hquote : c ≠ '"') (hbackslash : c ≠ '\\') (hcontrol : 32 ≤ c.toNat) :
      SpellsChar c [c]
  | letter {letter c : Char} (h : (letter, c) ∈ letterForms) : SpellsChar c ['\\', letter]
  | code {c : Char} {digits : List Char} (h : SpellsCode c.toNat digits) :
      SpellsChar c ('\\' :: 'u' :: digits)
  | halves {c : Char} {m n : Nat} {leading trailing : List Char}
      (hleading : SpellsCode (0xD800 + m) leading) (htrailing : SpellsCode (0xDC00 + n) trailing)
      (hn : n < 0x400) (hc : c.toNat = 0x10000 + m * 0x400 + n) :
      SpellsChar c ('\\' :: 'u' :: (leading ++ '\\' :: 'u' :: trailing))

/-- How characters stand in a string. -/
inductive SpellsChars : List Char → List Char → Prop where
  | nil : SpellsChars [] []
  | cons {c : Char} {cs part text : List Char} (hc : SpellsChar c part)
      (hcs : SpellsChars cs text) : SpellsChars (c :: cs) (part ++ text)

/-- A string between its quotes. -/
inductive SpellsString : String → List Char → Prop where
  | quoted {s : String} {text : List Char} (h : SpellsChars s.toList text) :
      SpellsString s ('"' :: (text ++ ['"']))

/-! ### Numbers -/

/-- One or more digits. -/
def IsDigits (text : List Char) : Prop :=
  text ≠ [] ∧ ∀ c ∈ text, c.isDigit = true

/-- The whole part of a number has no zero in front of other digits. -/
def IsWhole (text : List Char) : Prop :=
  text = ['0'] ∨ (IsDigits text ∧ text.head? ≠ some '0')

/-- The fraction of a number, if it has one. -/
def IsFraction (text : List Char) : Prop :=
  text = [] ∨ ∃ digits, IsDigits digits ∧ text = '.' :: digits

/-- The exponent of a number, if it has one. -/
def IsExponent (text : List Char) : Prop :=
  text = [] ∨ ∃ e sign digits, (e = 'e' ∨ e = 'E') ∧ (sign = [] ∨ sign = ['+'] ∨ sign = ['-']) ∧
    IsDigits digits ∧ text = e :: (sign ++ digits)

/-- A number without its sign. -/
inductive IsMagnitude : List Char → Prop where
  | parts {whole fraction exponent : List Char} (hwhole : IsWhole whole)
      (hfraction : IsFraction fraction) (hexponent : IsExponent exponent) :
      IsMagnitude (whole ++ (fraction ++ exponent))

/-- A number. -/
inductive IsNumber : List Char → Prop where
  | positive {text : List Char} (h : IsMagnitude text) : IsNumber text
  | negative {text : List Char} (h : IsMagnitude text) : IsNumber ('-' :: text)

/-! ### Texts -/

/-- Blanks, or nothing. -/
def IsGap (text : List Char) : Prop :=
  ∀ c ∈ text, c = ' ' ∨ c = '\n' ∨ c = '\t' ∨ c = '\r'

/-- What a part of a text can stand for. -/
inductive Phrase where
  | value (v : Document)
  | spaced (v : Document)
  | items (vs : List Document)
  | entries (es : List (String × Document))

/-- The key of an entry, with blanks around it. -/
inductive SpellsKey : String → List Char → Prop where
  | spaced {key : String} {before text after : List Char} (hbefore : IsGap before)
      (h : SpellsString key text) (hafter : IsGap after) :
      SpellsKey key (before ++ (text ++ after))

/-- The texts of a value, of a value with blanks around it, of one or more items, and of one or more
entries. -/
inductive Spells : Phrase → List Char → Prop where
  | null : Spells (.value .null) "null".toList
  | bool (b : Bool) : Spells (.value (.bool b)) (toString b).toList
  | number {literal : List Char} (h : IsNumber literal) : Spells (.value (.number literal)) literal
  | str {s : String} {text : List Char} (h : SpellsString s text) : Spells (.value (.str s)) text
  | noItems {gap : List Char} (h : IsGap gap) : Spells (.value (.arr [])) ('[' :: (gap ++ [']']))
  | arr {vs : List Document} {text : List Char} (h : Spells (.items vs) text) :
      Spells (.value (.arr vs)) ('[' :: (text ++ [']']))
  | noEntries {gap : List Char} (h : IsGap gap) :
      Spells (.value (.obj [])) ('\x7b' :: (gap ++ ['\x7d']))
  | obj {es : List (String × Document)} {text : List Char} (h : Spells (.entries es) text) :
      Spells (.value (.obj es)) ('\x7b' :: (text ++ ['\x7d']))
  | spaced {v : Document} {before text after : List Char} (hbefore : IsGap before)
      (h : Spells (.value v) text) (hafter : IsGap after) :
      Spells (.spaced v) (before ++ (text ++ after))
  | lastItem {v : Document} {text : List Char} (h : Spells (.spaced v) text) :
      Spells (.items [v]) text
  | item {v : Document} {vs : List Document} {text more : List Char} (h : Spells (.spaced v) text)
      (hmore : Spells (.items vs) more) : Spells (.items (v :: vs)) (text ++ ',' :: more)
  | lastEntry {key : String} {v : Document} {opening text : List Char}
      (hkey : SpellsKey key opening) (h : Spells (.spaced v) text) :
      Spells (.entries [(key, v)]) (opening ++ ':' :: text)
  | entry {key : String} {v : Document} {es : List (String × Document)}
      {opening text more : List Char} (hkey : SpellsKey key opening) (h : Spells (.spaced v) text)
      (hmore : Spells (.entries es) more) :
      Spells (.entries ((key, v) :: es)) (opening ++ ':' :: (text ++ ',' :: more))

/-- A whole text of a value. -/
def Document.IsText (v : Document) (text : String) : Prop :=
  Spells (.spaced v) text.toList

/-! ### The first character of a value -/

variable {v : Document} {text gap : List Char}

theorem isGap_nil : IsGap [] := by simp [IsGap]

theorem IsGap.append {more : List Char} (h : IsGap gap) (hmore : IsGap more) :
    IsGap (gap ++ more) :=
  fun c hc => (List.mem_append.mp hc).elim (h c) (hmore c)

theorem isGap_indent (depth : Nat) : IsGap (indent depth) := by
  intro c hc
  rcases List.mem_cons.mp hc with rfl | hc
  · simp
  · simp [List.eq_of_mem_replicate hc]

/-- A character that can start a value: no blank, comma, colon or closing bracket can. -/
def startsValue (c : Char) : Bool :=
  c.isDigit || "\"-[\x7bntf".toList.contains c

theorem exists_digit_of_isDigits (h : IsDigits text) :
    ∃ d ds, text = d :: ds ∧ d.isDigit = true := by
  obtain ⟨d, ds, rfl⟩ := List.exists_cons_of_ne_nil h.1
  exact ⟨d, ds, rfl, h.2 d (by simp)⟩

theorem exists_first_of_isMagnitude (h : IsMagnitude text) :
    ∃ c rest, text = c :: rest ∧ c.isDigit = true := by
  obtain ⟨hwhole, -, -⟩ := h
  rcases hwhole with rfl | ⟨hdigits, -⟩
  · exact ⟨'0', _, rfl, by decide⟩
  · obtain ⟨d, ds, rfl, hd⟩ := exists_digit_of_isDigits hdigits
    exact ⟨d, _, rfl, hd⟩

theorem Spells.exists_first (h : Spells (.value v) text) :
    ∃ c rest, text = c :: rest ∧ startsValue c = true := by
  cases h with
  | null => exact ⟨'n', _, rfl, by decide⟩
  | bool b => cases b <;> exact ⟨_, _, rfl, by decide⟩
  | number h =>
    cases h with
    | positive h =>
      obtain ⟨c, rest, rfl, hc⟩ := exists_first_of_isMagnitude h
      exact ⟨c, rest, rfl, by simp [startsValue, hc]⟩
    | negative h => exact ⟨'-', _, rfl, by decide⟩
  | str h =>
    obtain ⟨-⟩ := h
    exact ⟨'"', _, rfl, by decide⟩
  | noItems | arr => exact ⟨'[', _, rfl, by decide⟩
  | noEntries | obj => exact ⟨'\x7b', _, rfl, by decide⟩

theorem Spells.exists_first_of_spaced (h : Spells (.spaced v) text) :
    ∃ gap c rest, IsGap gap ∧ text = gap ++ c :: rest ∧ startsValue c = true := by
  cases h with
  | spaced hbefore h hafter =>
    obtain ⟨c, rest, rfl, hc⟩ := h.exists_first
    exact ⟨_, c, _, hbefore, rfl, hc⟩

theorem Spells.exists_first_of_items {vs : List Document} (h : Spells (.items vs) text) :
    ∃ gap c rest, IsGap gap ∧ text = gap ++ c :: rest ∧ startsValue c = true := by
  cases h with
  | lastItem h => exact h.exists_first_of_spaced
  | item h hmore =>
    obtain ⟨gap, c, rest, hgap, rfl, hc⟩ := h.exists_first_of_spaced
    exact ⟨gap, c, _, hgap, List.append_assoc .., hc⟩

theorem SpellsKey.exists_first {key : String} (h : SpellsKey key text) :
    ∃ gap rest, IsGap gap ∧ text = gap ++ '"' :: rest := by
  obtain ⟨hbefore, ⟨-⟩, -⟩ := h
  exact ⟨_, _, hbefore, rfl⟩

theorem Spells.exists_first_of_entries {es : List (String × Document)}
    (h : Spells (.entries es) text) : ∃ gap rest, IsGap gap ∧ text = gap ++ '"' :: rest := by
  cases h with
  | lastEntry hkey | entry hkey =>
    obtain ⟨gap, rest, hgap, rfl⟩ := hkey.exists_first
    exact ⟨gap, _, hgap, List.append_assoc ..⟩

/-! ### What is written -/

theorem isHexDigit_hexDigit {n : Nat} (h : n < 16) : IsHexDigit n (hexDigit n) := by
  have hall : ∀ m < 16, "0123456789abcdef".toList[m]? = some (hexDigit m) := by decide
  exact .inl (hall n h)

/-- A control character is written with the code that it has below the space. -/
theorem spellsCode_control {n : Nat} (h : n < 32) :
    SpellsCode n ['0', '0', hexDigit (n / 16), hexDigit (n % 16)] := by
  have hn : ((0 * 16 + 0) * 16 + n / 16) * 16 + n % 16 = n := by omega
  have hzero : IsHexDigit 0 '0' := .inl rfl
  have hcode := SpellsCode.digits hzero hzero (isHexDigit_hexDigit (n := n / 16) (by omega))
    (isHexDigit_hexDigit (n := n % 16) (by omega))
  rwa [hn] at hcode

theorem spellsChar_escape (c : Char) : SpellsChar c (escape c) := by
  unfold escape
  split_ifs with hquote hbackslash hn hr ht hb hf hcontrol
  · exact .letter (by simp [letterForms, hquote])
  · exact .letter (by simp [letterForms, hbackslash])
  · exact .letter (by simp [letterForms, hn])
  · exact .letter (by simp [letterForms, hr])
  · exact .letter (by simp [letterForms, ht])
  · obtain rfl : c = '\x08' := Char.toNat_inj.mp hb
    exact .letter (by simp [letterForms])
  · obtain rfl : c = '\x0c' := Char.toNat_inj.mp hf
    exact .letter (by simp [letterForms])
  · exact .code (spellsCode_control hcontrol)
  · exact .plain hquote hbackslash (by omega)

theorem spellsChars_flatMap_escape : ∀ cs : List Char, SpellsChars cs (cs.flatMap escape)
  | [] => .nil
  | c :: cs => .cons (spellsChar_escape c) (spellsChars_flatMap_escape cs)

theorem spellsString_quote (s : String) : SpellsString s (quote s) :=
  .quoted (spellsChars_flatMap_escape s.toList)

/-- The digits of a positive number do not start with a zero. -/
theorem head?_toDigits_ne_zero : ∀ {n : Nat}, 0 < n → (Nat.toDigits 10 n).head? ≠ some '0' := by
  intro n
  induction n using Nat.strongRecOn with
  | ind n ih =>
    intro hn
    by_cases hsmall : n < 10
    · have hall : ∀ m < 10, 0 < m → (Nat.toDigits 10 m).head? ≠ some '0' := by decide
      exact hall n hsmall hn
    · have hfront := ih (n / 10) (by omega) (by omega)
      have hsome : (Nat.toDigits 10 (n / 10)).head?.isSome := by simp
      rwa [Nat.toDigits_of_base_le (by decide) (by omega), List.head?_append,
        Option.or_of_isSome hsome]

theorem toList_toString_nat (n : Nat) : (toString n).toList = Nat.toDigits 10 n := by
  rw [Nat.toString_eq_ofList_toDigits, String.toList_ofList]

theorem isDigits_toString (n : Nat) : IsDigits (toString n).toList := by
  rw [toList_toString_nat]
  exact ⟨Nat.toDigits_ne_nil, fun c => Nat.isDigit_of_mem_toDigits (by decide) (by decide)⟩

theorem isNumber_toString (n : Nat) : IsNumber (toString n).toList := by
  have hwhole : IsWhole (toString n).toList := by
    rcases Nat.eq_zero_or_pos n with rfl | hn
    · exact .inl (by decide)
    · refine .inr ⟨isDigits_toString n, ?_⟩
      rw [toList_toString_nat]
      exact head?_toDigits_ne_zero hn
  simpa using IsNumber.positive (.parts hwhole (.inl rfl) (.inl rfl))

theorem spellsKey_indent (depth : Nat) (key : String) :
    SpellsKey key (indent depth ++ quote key) := by
  simpa using SpellsKey.spaced (isGap_indent depth) (spellsString_quote key) isGap_nil

mutual

/-- What is written for a value is a text of it. -/
theorem spells_write (depth : Nat) : ∀ v : Json, Spells (.value v.toDocument) (write depth v)
  | null => by
    rw [toDocument, write]
    exact .null
  | bool b => by
    rw [toDocument]
    cases b <;> exact .bool _
  | nat n => by
    rw [toDocument, write]
    exact .number (isNumber_toString n)
  | str s => by
    rw [toDocument, write]
    exact .str (spellsString_quote s)
  | arr [] => by
    rw [toDocument, itemsToDocuments, write]
    exact .noItems isGap_nil
  | arr (item :: items) => by
    obtain ⟨text, htext, heq⟩ := spells_writeItems depth (spells_write (depth + 1) item) items
    rw [toDocument, itemsToDocuments, write, heq]
    exact .arr htext
  | obj [] => by
    rw [toDocument, entriesToDocuments, write]
    exact .noEntries isGap_nil
  | obj ((key, value) :: entries) => by
    obtain ⟨text, htext, heq⟩ :=
      spells_writeEntries depth key (spells_write (depth + 1) value) entries
    rw [toDocument, entriesToDocuments, write, heq]
    exact .obj htext

/-- What is written for an item and those behind it. -/
theorem spells_writeItems (depth : Nat) {v : Document} {text : List Char}
    (h : Spells (.value v) text) : ∀ items : List Json,
    ∃ more, Spells (.items (v :: itemsToDocuments items)) more ∧
      indent (depth + 1) ++ text ++ writeItems depth items = more ++ [']']
  | [] => by
    rw [itemsToDocuments, writeItems]
    exact ⟨_, .lastItem (.spaced (isGap_indent (depth + 1)) h (isGap_indent depth)), by simp⟩
  | item :: items => by
    obtain ⟨more, hmore, heq⟩ := spells_writeItems depth (spells_write (depth + 1) item) items
    rw [itemsToDocuments, writeItems, heq]
    exact ⟨_, .item (.spaced (isGap_indent (depth + 1)) h isGap_nil) hmore, by simp⟩

/-- What is written for an entry and those behind it. -/
theorem spells_writeEntries (depth : Nat) (key : String) {v : Document} {text : List Char}
    (h : Spells (.value v) text) : ∀ entries : List (String × Json),
    ∃ more, Spells (.entries ((key, v) :: entriesToDocuments entries)) more ∧
      indent (depth + 1) ++ quote key ++ [':', ' '] ++ text ++ writeEntries depth entries =
        more ++ ['\x7d']
  | [] => by
    have hspace : IsGap [' '] := by simp [IsGap]
    rw [entriesToDocuments, writeEntries]
    exact ⟨_, .lastEntry (spellsKey_indent (depth + 1) key) (.spaced hspace h (isGap_indent depth)),
      by simp⟩
  | (next, value) :: entries => by
    have hspace : IsGap [' '] := by simp [IsGap]
    obtain ⟨more, hmore, heq⟩ :=
      spells_writeEntries depth next (spells_write (depth + 1) value) entries
    rw [entriesToDocuments, writeEntries, heq]
    exact ⟨_, .entry (spellsKey_indent (depth + 1) key) (.spaced hspace h isGap_nil) hmore, by simp⟩

end

/-- What is printed of a value is a text of it. -/
theorem isText_pretty (v : Json) : v.toDocument.IsText v.pretty := by
  simpa [Document.IsText, pretty] using Spells.spaced isGap_nil (spells_write 0 v) isGap_nil

end Json
end FetchClients
