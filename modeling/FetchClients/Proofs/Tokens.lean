/-
# Tokens stand one after another

Reading never goes back: the cursor that some characters are taken from stands
after it, so a token ends where it starts or later. A word or a sign has
characters, so it ends later (`Token.Sound`). Only a `,` may be empty, since one
is put in the place of a token that is passed over.

Key definitions: `TokenKind.isSolid`, `Token.Sound`.
Key theorems: `Cursor.offset_le_advance`, `Gap.offset_le_after`,
`Token.sound_afterGap`.
-/
import FetchClients.Proofs.Results
import FetchClients.TypeScript.Lexer
import FetchClients.Text.Plain

namespace FetchClients
namespace TypeScript

theorem Mark.offset_after (m : Mark) (c : Char) (rest : List Char) :
    (m.after c rest).offset = m.offset + 1 := by
  unfold after
  split <;> rfl

namespace Cursor

theorem offset_le_advance : ∀ (n : Nat) (c : Cursor), c.mark.offset ≤ (c.advance n).mark.offset
  | 0, _ => Nat.le_refl _
  | _ + 1, ⟨_, []⟩ => Nat.le_refl _
  | n + 1, ⟨m, c :: cs⟩ => by
    have ih := offset_le_advance n ⟨m.after c cs, cs⟩
    have hafter := m.offset_after c cs
    simp only [advance] at ih ⊢
    omega

theorem offset_lt_advance {n : Nat} {c : Cursor} (hn : 0 < n) (hrest : c.rest ≠ []) :
    c.mark.offset < (c.advance n).mark.offset := by
  obtain ⟨m, rest⟩ := c
  cases rest with
  | nil => exact absurd rfl hrest
  | cons x xs =>
    cases n with
    | zero => exact absurd hn (Nat.lt_irrefl 0)
    | succ n =>
      have hle := offset_le_advance n ⟨m.after x xs, xs⟩
      have hafter := m.offset_after x xs
      simp only [advance] at hle ⊢
      omega

end Cursor

namespace Gap

/-- One character of a gap stops the reading, or is read with one comment finished at most. -/
theorem scan_cons_cases (previous : Option TokenKind) (skip : Nat) (mode : Mode) (broken : Bool)
    (comments : List (Bool × Comment)) (m : Mark) (c : Char) (cs : List Char) :
    scan previous skip mode broken comments m (c :: cs) = ⟨broken, comments, ⟨m, c :: cs⟩⟩ ∨
      ∃ skip' mode' broken' read, (read = comments ∨ ∃ comment, read = comment :: comments) ∧
        scan previous skip mode broken comments m (c :: cs) =
          scan previous skip' mode' broken' read (m.after c cs) cs := by
  generalize hscan : scan previous skip mode broken comments m (c :: cs) = gap
  unfold scan at hscan
  dsimp only at hscan
  split at hscan
  · exact .inr ⟨_, _, _, _, .inl rfl, hscan.symm⟩
  cases mode with
  | blank =>
    dsimp only at hscan
    split at hscan
    · exact .inr ⟨_, _, _, _, .inl rfl, hscan.symm⟩
    split at hscan
    · exact .inr ⟨_, _, _, _, .inl rfl, hscan.symm⟩
    split at hscan
    · exact .inr ⟨_, _, _, _, .inl rfl, hscan.symm⟩
    · exact .inr ⟨_, _, _, _, .inl rfl, hscan.symm⟩
    · exact .inl hscan.symm
  | line start leading text =>
    dsimp only at hscan
    split at hscan
    · exact .inr ⟨_, _, _, _, .inr ⟨_, rfl⟩, hscan.symm⟩
    · exact .inr ⟨_, _, _, _, .inl rfl, hscan.symm⟩
  | block start leading text =>
    dsimp only at hscan
    split at hscan
    · exact .inr ⟨_, _, _, _, .inr ⟨_, rfl⟩, hscan.symm⟩
    · exact .inr ⟨_, _, _, _, .inl rfl, hscan.symm⟩

theorem offset_le_scan {previous : Option TokenKind} : ∀ {skip : Nat} {mode : Mode} {broken : Bool}
    {comments : List (Bool × Comment)} {m : Mark} (text : List Char),
    m.offset ≤ (scan previous skip mode broken comments m text).cursor.mark.offset
  | _, mode, _, _, _, [] => by cases mode <;> exact Nat.le_refl _
  | skip, mode, broken, comments, m, c :: cs => by
    have hafter := m.offset_after c cs
    rcases scan_cons_cases previous skip mode broken comments m c cs with
      hstop | ⟨skip', mode', broken', read, -, hnext⟩
    · exact Nat.le_of_eq (congrArg (·.cursor.mark.offset) hstop).symm
    · have ih := @offset_le_scan previous skip' mode' broken' read (m.after c cs) cs
      rw [hnext]
      omega

/-- The comments that were read stay. -/
theorem suffix_comments_scan {previous : Option TokenKind} : ∀ {skip : Nat} {mode : Mode}
    {broken : Bool} {comments : List (Bool × Comment)} {m : Mark} (text : List Char),
    comments <:+ (scan previous skip mode broken comments m text).comments
  | _, mode, _, comments, _, [] => by
    cases mode with
    | blank => exact List.suffix_rfl
    | line => exact List.suffix_cons _ _
    | block => exact List.suffix_rfl
  | skip, mode, broken, comments, m, c :: cs => by
    rcases scan_cons_cases previous skip mode broken comments m c cs with
      hstop | ⟨skip', mode', broken', read, hread, hnext⟩
    · exact ⟨[], (congrArg Gap.comments hstop).symm⟩
    · rw [hnext]
      refine .trans ?_ (suffix_comments_scan cs)
      rcases hread with rfl | ⟨comment, rfl⟩
      · exact List.suffix_rfl
      · exact List.suffix_cons _ _

/-- The cursor after a gap stands after the one before it. -/
theorem offset_le_after (previous : Option TokenKind) (c : Cursor) :
    c.mark.offset ≤ (after previous c).cursor.mark.offset :=
  offset_le_scan c.rest

end Gap

/-- Whether tokens of a kind have characters: words and signs do, but for a `,`. -/
def TokenKind.isSolid : TokenKind → Bool
  | word _ => true
  | sign text => text ≠ ","
  | _ => false

namespace Lexer

theorem isSolid_endNumber {kind : TokenKind} (length : Nat) (text : List Char)
    (h : kind.isSolid = false) : (endNumber kind length text).1.isSolid = false := by
  unfold endNumber
  split
  · split
    · rfl
    · exact h
  · exact h

theorem isSolid_number (text : List Char) : (number text).1.isSolid = false := by
  have hradix : ∀ radix, (radixNumber radix text).1.isSolid = false := by
    intro radix
    unfold radixNumber
    dsimp only
    split
    · rfl
    · split <;> exact isSolid_endNumber _ _ rfl
  have hdecimal : (decimalNumber text).1.isSolid = false := by
    unfold decimalNumber
    dsimp only
    repeat' split
    all_goals first | rfl | exact isSolid_endNumber _ _ rfl
  unfold number
  split <;> first | exact hradix _ | exact hdecimal

theorem length_pos_of_sign? {table : List (List Char × String)} {text : List Char} {name : String}
    {length : Nat} (htable : ∀ entry ∈ table, entry.1 ≠ [])
    (h : sign? table text = some (name, length)) : 0 < length := by
  unfold sign? at h
  obtain ⟨entry, hfind, heq⟩ := Option.map_eq_some_iff.mp h
  obtain ⟨-, rfl⟩ := Prod.mk.inj heq
  exact List.length_pos_iff.mpr (htable entry (List.mem_of_find?_eq_some hfind))

theorem signs_ne_nil : ∀ entry ∈ signs, entry.1 ≠ [] := by decide

theorem length_pos_of_word {c : Char} {cs : List Char}
    (h : Text.isIdentifierStart c = true ∨ c = '\\' ∧ cs.head? = some 'u') :
    0 < (word (c :: cs)).2 := by
  unfold word
  split
  · exact Nat.one_pos
  · rename_i name length escaped hread
    have hlength : 0 < length := by
      rw [readWord] at hread
      split at hread
      · contradiction
      · split at hread
        · split at hread
          · cases hread
          · obtain ⟨found, -, heq⟩ := map_eq_ok_iff.mp hread
            cases heq
            exact Nat.succ_pos _
        · split at hread
          · obtain ⟨found, -, heq⟩ := map_eq_ok_iff.mp hread
            cases heq
            exact Nat.succ_pos _
          · rename_i hescape hpart
            rcases h with hstart | hescaped
            · exact absurd (Text.isIdentifierPart_of_isIdentifierStart hstart) hpart
            · simp [hescaped] at hescape
    dsimp only
    split <;> exact hlength

theorem isSolid_string (quote : Char) (text : List Char) :
    (string quote text).1.isSolid = false := by
  unfold string
  split <;> rfl

/-- A word or sign that is read has characters, but for a `,`. -/
theorem length_pos_of_isSolid {text : List Char} (h : (readKind text).1.isSolid = true) :
    0 < (readKind text).2 ∧ text ≠ [] := by
  cases text with
  | nil => cases h
  | cons c cs =>
    refine ⟨?_, List.cons_ne_nil _ _⟩
    unfold readKind at h ⊢
    dsimp only at h ⊢
    split
    · rename_i hword
      exact length_pos_of_word (by simpa using hword)
    · rename_i hword
      rw [if_neg hword] at h
      split
      · rename_i hnumber
        rw [if_pos hnumber, isSolid_number] at h
        cases h
      · rename_i hnumber
        rw [if_neg hnumber] at h
        split
        · rename_i hquote
          rw [if_pos hquote, isSolid_string] at h
          cases h
        · rename_i hquote
          rw [if_neg hquote] at h
          split
          · split <;> exact Nat.succ_pos _
          · split
            · rename_i hsign
              exact length_pos_of_sign? signs_ne_nil hsign
            · exact Nat.one_pos

end Lexer

namespace Token

/-- A token that ends where it starts or later; a word or sign has characters, but for a `,`. -/
structure Sound (t : Token) : Prop where
  le : t.start.offset ≤ t.stop.offset
  lt : t.kind.isSolid = true → t.start.offset < t.stop.offset

theorem sound_at {c : Cursor} {broken : Bool} {kind : TokenKind} {length : Nat}
    (h : kind.isSolid = true → 0 < length ∧ c.rest ≠ []) : (at_ c broken kind length).Sound := by
  refine ⟨Cursor.offset_le_advance length c, fun hsolid => ?_⟩
  obtain ⟨hlength, hrest⟩ := h hsolid
  exact Cursor.offset_lt_advance hlength hrest

theorem sound_afterGap (g : Gap) : (afterGap g).Sound :=
  sound_at Lexer.length_pos_of_isSolid

/-- A token with another end and another kind, if that is not before its end. -/
theorem Sound.longer {t : Token} (h : t.Sound) {kind : TokenKind} {stop : Mark} {rest : List Char}
    (hstop : t.stop.offset ≤ stop.offset) (hkind : kind.isSolid = true → t.kind.isSolid = true) :
    ({ t with kind := kind, stop := stop, rest := rest } : Token).Sound := by
  refine ⟨Nat.le_trans h.le hstop, fun hsolid => ?_⟩
  exact Nat.lt_of_lt_of_le (h.lt (hkind hsolid)) hstop

theorem sound_readRegex {t : Token} (text : List Char) : (t.readRegex text).Sound := by
  unfold readRegex
  split
  · exact sound_at fun h => by cases h
  · exact sound_at fun h => by cases h

theorem start_readRegex (t : Token) (text : List Char) : (t.readRegex text).start = t.start := by
  unfold readRegex
  split <;> rfl

theorem Sound.readTemplate {t : Token} (h : t.Sound) : t.readTemplate.Sound := by
  unfold Token.readTemplate
  split
  · exact h.longer (Nat.le_refl _) fun hsolid => by cases hsolid
  · rename_i closed count hlength
    exact h.longer (Cursor.offset_le_advance count ⟨t.stop, t.rest⟩) fun hsolid => by cases hsolid

theorem start_readTemplate (t : Token) : t.readTemplate.start = t.start := by
  unfold readTemplate
  split <;> rfl

/-- A token that is a sign and takes in some of the characters behind it. -/
def extended (t : Token) (name : String) (n : Nat) : Token :=
  { t with
    kind := .sign name, stop := (Cursor.advance n ⟨t.stop, t.rest⟩).mark,
    rest := (Cursor.advance n ⟨t.stop, t.rest⟩).rest }

/-- The longest sign from an angle bracket on takes in characters behind it, or there is none. -/
theorem extended_of_angle {t : Token} (angle : Char) (hsolid : t.kind.isSolid = true) {u : Token}
    (h : u = match Lexer.sign? Lexer.angleSigns (angle :: t.rest) with
      | some (name, length) => t.extended name (length - 1)
      | none => t) :
    u = t ∨ t.kind.isSolid = true ∧ ∃ name n, u = t.extended name n := by
  split at h
  · exact .inr ⟨hsolid, _, _, h⟩
  · exact .inl h

/-- An operator is read from an angle bracket on, or the token is kept. -/
theorem readOperator_cases (t : Token) : t.readOperator = t ∨
    t.kind.isSolid = true ∧ ∃ name n, t.readOperator = t.extended name n := by
  unfold readOperator
  split
  · rename_i hkind
    exact extended_of_angle _ (by rw [hkind]; rfl) rfl
  · rename_i hkind
    exact extended_of_angle _ (by rw [hkind]; rfl) rfl
  · exact .inl rfl

theorem Sound.readOperator {t : Token} (h : t.Sound) : t.readOperator.Sound := by
  rcases t.readOperator_cases with heq | ⟨hsolid, name, n, heq⟩
  · rw [heq]
    exact h
  · rw [heq]
    exact h.longer (Cursor.offset_le_advance n ⟨t.stop, t.rest⟩) fun _ => hsolid

theorem start_readOperator (t : Token) : t.readOperator.start = t.start := by
  rcases t.readOperator_cases with heq | ⟨-, name, n, heq⟩
  · rw [heq]
  · rw [heq]
    rfl

theorem sound_readJsxText (c : Cursor) : (readJsxText c).Sound := by
  unfold readJsxText
  split
  · exact sound_at Lexer.length_pos_of_isSolid
  · exact sound_at fun h => by cases h

theorem start_readJsxText (c : Cursor) : (readJsxText c).start = c.mark := by
  unfold readJsxText
  split <;> rfl

end Token

end TypeScript
end FetchClients
