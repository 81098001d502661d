/-
# Cutting and joining character lists

Texts are cut at a prefix, at a suffix, at the first occurrence of one
character, or at every occurrence of it. Each cut says what it loses: a prefix
and the rest make the text again, and so do the fields with their separator.

Key definitions: `Text.dropPrefix?`, `Text.dropSuffix?`, `Text.cutAt?`,
`Text.fields`, `Text.joinWith`.
Key theorems: `Text.dropPrefix?_eq_some_iff`, `Text.cutAt?_eq_some`,
`Text.cutAt?_append_cons`, `Text.joinWith_fields`, `Text.fields_joinWith`.
-/

namespace FetchClients
namespace Text

/-- The rest of a text after a prefix. -/
def dropPrefix? : List Char → List Char → Option (List Char)
  | [], text => some text
  | _ :: _, [] => none
  | p :: ps, c :: cs => if p = c then dropPrefix? ps cs else none

/-- The text before a suffix. -/
def dropSuffix? (suffix text : List Char) : Option (List Char) :=
  (dropPrefix? suffix.reverse text.reverse).map List.reverse

/-- The parts before and after the first `sep`, or nothing if there is none. -/
def cutAt? (sep : Char) : List Char → Option (List Char × List Char)
  | [] => none
  | c :: cs =>
    if c = sep then some ([], cs)
    else (cutAt? sep cs).map fun (before, after) => (c :: before, after)

/-- The parts between the separators; a text without `sep` is one part. -/
def fields (sep : Char) : List Char → List (List Char)
  | [] => [[]]
  | c :: cs =>
    if c = sep then [] :: fields sep cs
    else match fields sep cs with
      | [] => [[c]]
      | part :: parts => (c :: part) :: parts

/-- The parts with `sep` between neighbours. -/
def joinWith (sep : List Char) : List (List Char) → List Char
  | [] => []
  | [part] => part
  | part :: parts => part ++ sep ++ joinWith sep parts

theorem dropPrefix?_eq_some_iff : ∀ {pre text rest : List Char},
    dropPrefix? pre text = some rest ↔ text = pre ++ rest
  | [], text, rest => by simp [dropPrefix?]
  | _ :: _, [], rest => by simp [dropPrefix?]
  | p :: ps, c :: cs, rest => by
    by_cases h : p = c
    · simp [dropPrefix?, h, dropPrefix?_eq_some_iff]
    · simp [dropPrefix?, h, Ne.symm h]

theorem dropSuffix?_eq_some_iff {suffix text rest : List Char} :
    dropSuffix? suffix text = some rest ↔ text = rest ++ suffix := by
  simp only [dropSuffix?, Option.map_eq_some_iff, dropPrefix?_eq_some_iff]
  constructor
  · rintro ⟨r, h, rfl⟩
    rw [← List.reverse_reverse text, h]
    simp
  · rintro rfl
    exact ⟨rest.reverse, by simp, by simp⟩

/-- A cut loses only the separator, and there is none before it. -/
theorem cutAt?_eq_some : ∀ {sep : Char} {text before after : List Char},
    cutAt? sep text = some (before, after) →
    text = before ++ sep :: after ∧ sep ∉ before
  | sep, [], _, _, h => by simp [cutAt?] at h
  | sep, c :: cs, before, after, h => by
    by_cases hc : c = sep
    · simp only [cutAt?, hc, if_true, Option.some.injEq, Prod.mk.injEq] at h
      obtain ⟨rfl, rfl⟩ := h
      simp [hc]
    · simp only [cutAt?, hc, if_false, Option.map_eq_some_iff] at h
      obtain ⟨⟨b, a⟩, hcut, heq⟩ := h
      simp only [Prod.mk.injEq] at heq
      obtain ⟨rfl, rfl⟩ := heq
      obtain ⟨rfl, hnot⟩ := cutAt?_eq_some hcut
      simp [hnot, Ne.symm hc]

/-- A text is cut at the first separator. -/
theorem cutAt?_append_cons : ∀ {sep : Char} {before : List Char} (after : List Char),
    sep ∉ before → cutAt? sep (before ++ sep :: after) = some (before, after)
  | _, [], _, _ => by simp [cutAt?]
  | sep, c :: before, after, h => by
    have hc : c ≠ sep := fun he => h (by simp [he])
    have hbefore : sep ∉ before := fun hmem => h (List.mem_cons_of_mem c hmem)
    simp [cutAt?, hc, cutAt?_append_cons after hbefore]

theorem cutAt?_eq_none : ∀ {sep : Char} {text : List Char},
    cutAt? sep text = none ↔ sep ∉ text
  | sep, [] => by simp [cutAt?]
  | sep, c :: cs => by
    by_cases hc : c = sep
    · simp [cutAt?, hc]
    · simp [cutAt?, hc, cutAt?_eq_none, Ne.symm hc]

theorem fields_ne_nil : ∀ {sep : Char} {text : List Char}, fields sep text ≠ []
  | _, [] => by simp [fields]
  | sep, c :: cs => by
    by_cases hc : c = sep
    · simp [fields, hc]
    · simp only [fields, hc, if_false]
      split <;> simp

/-- No part holds the separator. -/
theorem not_mem_of_mem_fields : ∀ {sep : Char} {text part : List Char},
    part ∈ fields sep text → sep ∉ part
  | _, [], part, h => by simp_all [fields]
  | sep, c :: cs, part, h => by
    by_cases hc : c = sep
    · simp only [fields, hc, if_true, List.mem_cons] at h
      rcases h with rfl | h
      · simp
      · exact not_mem_of_mem_fields h
    · simp only [fields, hc, if_false] at h
      split at h
      · exact absurd ‹fields sep cs = []› fields_ne_nil
      · rename_i p ps heq
        simp only [List.mem_cons] at h
        rcases h with rfl | h
        · have : sep ∉ p := not_mem_of_mem_fields (show p ∈ fields sep cs by simp [heq])
          simp [this, Ne.symm hc]
        · exact not_mem_of_mem_fields (show part ∈ fields sep cs by simp [heq, h])

/-- Putting the separator back between the parts gives the text again. -/
theorem joinWith_fields : ∀ (sep : Char) (text : List Char),
    joinWith [sep] (fields sep text) = text
  | _, [] => rfl
  | sep, c :: cs => by
    have ih := joinWith_fields sep cs
    by_cases hc : c = sep
    · subst hc
      simp only [fields, if_true]
      cases hf : fields c cs with
      | nil => exact absurd hf fields_ne_nil
      | cons p ps => simp [joinWith, ← hf, ih]
    · simp only [fields, hc, if_false]
      cases hf : fields sep cs with
      | nil => exact absurd hf fields_ne_nil
      | cons p ps =>
        rw [hf] at ih
        cases ps with
        | nil => simpa [joinWith] using ih
        | cons q qs => simpa [joinWith] using ih

theorem fields_of_not_mem : ∀ {sep : Char} {text : List Char}, sep ∉ text →
    fields sep text = [text]
  | _, [], _ => rfl
  | sep, c :: cs, h => by
    simp only [List.mem_cons, not_or] at h
    obtain ⟨hc, hcs⟩ := h
    simp [fields, Ne.symm hc, fields_of_not_mem hcs]

theorem fields_append_cons : ∀ {sep : Char} {part : List Char} (rest : List Char), sep ∉ part →
    fields sep (part ++ sep :: rest) = part :: fields sep rest
  | _, [], rest, _ => by simp [fields]
  | sep, c :: cs, rest, h => by
    simp only [List.mem_cons, not_or] at h
    obtain ⟨hc, hcs⟩ := h
    simp [fields, Ne.symm hc, fields_append_cons rest hcs]

/-- Parts without the separator are found again. -/
theorem fields_joinWith : ∀ {sep : Char} {parts : List (List Char)}, parts ≠ [] →
    (∀ part ∈ parts, sep ∉ part) → fields sep (joinWith [sep] parts) = parts
  | _, [], h, _ => absurd rfl h
  | _, [part], _, h => fields_of_not_mem (h part (by simp))
  | sep, part :: next :: parts, _, h => by
    have ih := fields_joinWith (List.cons_ne_nil next parts)
      fun p hp => h p (List.mem_cons_of_mem part hp)
    have hjoin : joinWith [sep] (part :: next :: parts) =
        part ++ sep :: joinWith [sep] (next :: parts) := by simp [joinWith]
    rw [hjoin, fields_append_cons _ (h part (by simp)), ih]

/-- What is added behind a text is added to its last part. -/
theorem fields_append : ∀ {sep : Char} (text : List Char) {more : List Char}, sep ∉ more →
    ∃ before last, fields sep (text ++ more) = before ++ [last ++ more]
  | _, [], more, h => ⟨[], [], by simp [fields_of_not_mem h]⟩
  | sep, c :: cs, more, h => by
    obtain ⟨before, last, heq⟩ := fields_append cs h
    by_cases hc : c = sep
    · exact ⟨[] :: before, last, by simp [fields, hc, heq]⟩
    · cases before with
      | nil => exact ⟨[], c :: last, by simp [fields, hc, heq]⟩
      | cons part parts => exact ⟨(c :: part) :: parts, last, by simp [fields, hc, heq]⟩

theorem joinWith_eq_intercalate (sep : List Char) : ∀ parts : List (List Char),
    joinWith sep parts = sep.intercalate parts
  | [] => rfl
  | [part] => by simp [joinWith]
  | part :: next :: parts => by
    have ih := joinWith_eq_intercalate sep (next :: parts)
    simp [joinWith, ih]

end Text
end FetchClients
