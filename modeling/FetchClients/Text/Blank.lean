/-
# Blank characters

The characters with the Unicode property `White_Space`, and texts without the
blanks at their ends.

Key definitions: `Text.isBlank`, `Text.trim`.
Key theorems: `Text.isBlank_of_isWhitespace`, `Text.dropBlanks_eq_self_iff`.
-/

namespace FetchClients
namespace Text

/-- Whether a character has the Unicode property `White_Space`. -/
def isBlank (c : Char) : Bool :=
  let n := c.toNat
  (0x09 ≤ n && n ≤ 0x0D) || n == 0x20 || n == 0x85 || n == 0xA0 || n == 0x1680 ||
    (0x2000 ≤ n && n ≤ 0x200A) || n == 0x2028 || n == 0x2029 || n == 0x202F ||
    n == 0x205F || n == 0x3000

/-- A text without the blanks in front. -/
def dropBlanks : List Char → List Char
  | [] => []
  | c :: cs => if isBlank c then dropBlanks cs else c :: cs

/-- A text without the blanks at both ends. -/
def trim (text : List Char) : List Char :=
  (dropBlanks (dropBlanks text).reverse).reverse

/-- The ASCII blanks are blank. -/
theorem isBlank_of_isWhitespace {c : Char} (h : c.isWhitespace = true) : isBlank c = true := by
  simp only [Char.isWhitespace, Bool.or_eq_true, decide_eq_true_eq] at h
  rcases h with ((rfl | rfl) | rfl) | rfl <;> decide

/-- A text keeps all its characters exactly when it starts with no blank. -/
theorem dropBlanks_eq_self_iff : ∀ {text : List Char},
    dropBlanks text = text ↔ ∀ c ∈ text.head?, isBlank c = false
  | [] => by simp [dropBlanks]
  | c :: cs => by
    by_cases h : isBlank c = true
    · have hlen : ∀ l : List Char, (dropBlanks l).length ≤ l.length := by
        intro l
        induction l with
        | nil => simp [dropBlanks]
        | cons d ds ih =>
          by_cases hd : isBlank d = true
          · simp only [dropBlanks, hd, if_true, List.length_cons]; omega
          · simp [dropBlanks, hd]
      constructor
      · intro heq
        have := congrArg List.length heq
        simp only [dropBlanks, h, if_true, List.length_cons] at this
        have := hlen cs
        omega
      · simp [h]
    · simp [dropBlanks, h]

end Text
end FetchClients
