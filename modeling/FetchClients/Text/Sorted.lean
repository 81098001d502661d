/-
# Sorted texts

Texts in increasing order of their characters' code points, each once. A text
is put in its place, or left out if it is there already.

Key definitions: `Text.insert`, `Text.sorted`.
Key theorems: `Text.mem_insert`, `Text.mem_sorted`, `Text.pairwise_sorted`.
-/

namespace FetchClients
namespace Text

/-- A text put among sorted texts, unless it is there already. -/
def insert (text : String) : List String → List String
  | [] => [text]
  | other :: texts =>
    if text < other then text :: other :: texts
    else if text = other then other :: texts
    else other :: insert text texts

/-- Texts in order, each once. -/
def sorted (texts : List String) : List String :=
  texts.foldr insert []

theorem mem_insert {text x : String} : ∀ {texts : List String},
    x ∈ insert text texts ↔ x = text ∨ x ∈ texts
  | [] => by simp [insert]
  | other :: texts => by
    unfold insert
    split
    · simp
    · split
      · rename_i h
        simp [h]
      · simp only [List.mem_cons, mem_insert]
        constructor
        · rintro (h | h | h) <;> simp [h]
        · rintro (h | h | h) <;> simp [h]

theorem mem_sorted {x : String} {texts : List String} : x ∈ sorted texts ↔ x ∈ texts := by
  induction texts with
  | nil => simp [sorted]
  | cons t ts ih =>
    rw [sorted] at ih ⊢
    simp [mem_insert, ih]

theorem pairwise_insert {text : String} : ∀ {texts : List String},
    texts.Pairwise (· < ·) → (insert text texts).Pairwise (· < ·)
  | [], _ => by simp [insert]
  | other :: texts, h => by
    obtain ⟨hother, htexts⟩ := List.pairwise_cons.mp h
    unfold insert
    split
    · rename_i hlt
      refine List.pairwise_cons.mpr ⟨fun x hx => ?_, h⟩
      rcases List.mem_cons.mp hx with rfl | hx
      · exact hlt
      · exact String.lt_trans hlt (hother x hx)
    · split
      · exact h
      · rename_i hnot hne
        have hgt : other < text := by
          refine Decidable.byContradiction fun hle => hne ?_
          exact String.le_antisymm (String.not_lt.mp hle) (String.not_lt.mp hnot)
        refine List.pairwise_cons.mpr ⟨fun x hx => ?_, pairwise_insert htexts⟩
        rcases mem_insert.mp hx with rfl | hx
        · exact hgt
        · exact hother x hx

/-- Every text comes before all that follow it. -/
theorem pairwise_sorted (texts : List String) : (sorted texts).Pairwise (· < ·) := by
  induction texts with
  | nil => simp [sorted]
  | cons t ts ih => exact pairwise_insert ih

theorem nodup_sorted (texts : List String) : (sorted texts).Nodup := by
  refine List.Pairwise.imp (fun {a b} hlt heq => ?_) (pairwise_sorted texts)
  subst heq
  exact String.lt_irrefl a hlt

end Text
end FetchClients
