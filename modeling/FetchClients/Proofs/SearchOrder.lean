/-
# The order in which a search finds trees

A search goes through the parts of a tree one after another. Its marks are the places
where the trees start that it finds something in. If the parts of every tree that is
searched lie apart, one wholly before the other, then what a search finds starts at
different places, and it is found in the order of the source exactly when the parts
that hold any of it are searched in the order in which they start. The coarser of two
searches inherits from the finer one that parts lie apart.

Key definitions: `Search`, `Search.offsets`, `Search.Reached`, `Search.Searched`,
`Search.Marked`, `Search.Apart`, `Search.Laid`.
Key theorems: `Search.pairwise_offsets_iff_of_laid`, `Search.nodup_offsets_of_laid`,
`Search.laid_of_finer`.
-/
import FetchClients.Proofs.Declarations

namespace FetchClients
namespace TypeScript

/-- A search through a tree: what it finds, and where it goes no deeper. -/
structure Search where
  finds : Tree → Bool
  stops : Tree → Bool

namespace Search

variable (S : Search)

/-- Where the trees start that a search finds, in the order in which it finds them. -/
def offsets (t : Tree) : List Nat :=
  (if S.finds t then [t.span.start.offset] else []) ++
    if S.stops t then [] else t.parts.attach.flatMap fun ⟨p, _⟩ => offsets p
termination_by t
decreasing_by exact Tree.sizeOf_lt_of_mem_parts ‹_›

/-- The trees that a search comes to. -/
inductive Reached : Tree → Tree → Prop where
  | here {t : Tree} : Reached t t
  | part {t p u : Tree} : S.stops t = false → p ∈ t.parts → Reached p u → Reached t u

/-- The trees whose parts a search goes through. -/
inductive Searched : Tree → Tree → Prop where
  | here {t : Tree} : S.stops t = false → Searched t t
  | part {t p u : Tree} : S.stops t = false → p ∈ t.parts → Searched p u → Searched t u

/-- Whether all that is found in a tree starts before what is found in another. -/
def Precedes (p q : Tree) : Prop :=
  ∀ a ∈ S.offsets p, ∀ b ∈ S.offsets q, a < b

/-- The places where the trees start that something is found in. -/
inductive Marked : Tree → Nat → Prop where
  | here {t : Tree} : S.offsets t ≠ [] → Marked t t.span.start.offset
  | part {t p : Tree} {a : Nat} : S.stops t = false → p ∈ t.parts → Marked p a → Marked t a

/-- Whether all marks of a tree come before those of another. -/
def Before (p q : Tree) : Prop :=
  ∀ a b, S.Marked p a → S.Marked q b → a < b

/-- Whether one of two trees comes before the other. -/
def Apart (p q : Tree) : Prop :=
  S.Before p q ∨ S.Before q p

/-- Whether the parts of all searched trees lie apart. -/
def Laid (t : Tree) : Prop :=
  ∀ u, S.Searched t u → u.parts.Pairwise S.Apart

variable {S} {t p q u : Tree} {a : Nat}

theorem Apart.symm (h : S.Apart p q) : S.Apart q p :=
  Or.symm h

theorem offsets_eq (t : Tree) :
    S.offsets t = (if S.finds t then [t.span.start.offset] else []) ++
      if S.stops t then [] else t.parts.flatMap S.offsets := by
  rw [offsets]
  simp only [List.flatMap_subtype, List.unattach_attach]

theorem mem_offsets_iff : a ∈ S.offsets t ↔
    (S.finds t = true ∧ a = t.span.start.offset) ∨
      (S.stops t = false ∧ ∃ p ∈ t.parts, a ∈ S.offsets p) := by
  rw [offsets_eq, List.mem_append]
  cases S.finds t <;> cases S.stops t <;> simp [List.mem_flatMap]

theorem searched_iff (h : S.stops t = false) :
    S.Searched t u ↔ u = t ∨ ∃ p ∈ t.parts, S.Searched p u := by
  constructor
  · rintro (_ | ⟨-, hp, hu⟩)
    · exact .inl rfl
    · exact .inr ⟨_, hp, hu⟩
  · rintro (rfl | ⟨p, hp, hu⟩)
    · exact .here h
    · exact .part h hp hu

theorem reached_of_stops (h : S.stops t = true) : S.Reached t u ↔ u = t := by
  constructor
  · rintro (_ | ⟨hgoes, -, -⟩)
    · rfl
    · rw [h] at hgoes
      cases hgoes
  · rintro rfl
    exact .here

theorem reached_of_goes (h : S.stops t = false) :
    S.Reached t u ↔ u = t ∨ ∃ p ∈ t.parts, S.Reached p u := by
  constructor
  · rintro (_ | ⟨-, hp, hu⟩)
    · exact .inl rfl
    · exact .inr ⟨_, hp, hu⟩
  · rintro (rfl | ⟨p, hp, hu⟩)
    · exact .here
    · exact .part h hp hu

theorem not_searched (h : S.stops t = true) : ¬ S.Searched t u := by
  rintro (hnone | ⟨hnone, -, -⟩) <;> rw [h] at hnone <;> cases hnone

/-- What is found in a tree that a search goes through is found by it. -/
theorem offsets_subset_of_searched (h : S.Searched t u) : S.offsets u ⊆ S.offsets t := by
  induction h with
  | here _ => exact List.Subset.refl _
  | part hgoes hp _ ih => exact fun a ha => mem_offsets_iff.mpr (.inr ⟨hgoes, _, hp, ih ha⟩)

/-- Where something is found there is a mark. -/
theorem marked_of_mem_offsets (h : a ∈ S.offsets t) : S.Marked t a := by
  induction t using Tree.inductionOnParts with
  | h t ih =>
    rcases mem_offsets_iff.mp h with ⟨-, rfl⟩ | ⟨hgoes, p, hp, ha⟩
    · exact .here (List.ne_nil_of_mem h)
    · exact .part hgoes hp (ih p hp ha)

/-- A tree that nothing is found in has no marks. -/
theorem offsets_ne_nil_of_marked (h : S.Marked t a) : S.offsets t ≠ [] := by
  induction h with
  | here hne => exact hne
  | part hgoes hp _ ih =>
    obtain ⟨b, hb⟩ := List.exists_mem_of_ne_nil _ ih
    exact List.ne_nil_of_mem (mem_offsets_iff.mpr (.inr ⟨hgoes, _, hp, hb⟩))

/-- A mark is where the tree itself starts, or one of a part's marks. -/
theorem marked_iff (h : S.stops t = false) (a : Nat) :
    S.Marked t a ↔ S.offsets t ≠ [] ∧ a = t.span.start.offset ∨ ∃ p ∈ t.parts, S.Marked p a := by
  constructor
  · rintro (hne | ⟨-, hp, ha⟩)
    · exact .inl ⟨hne, rfl⟩
    · exact .inr ⟨_, hp, ha⟩
  · rintro (⟨hne, rfl⟩ | ⟨p, hp, ha⟩)
    · exact .here hne
    · exact .part h hp ha

/-! ### Searches that go no deeper where they find something -/

section Closed

variable (hS : ∀ t, S.finds t = true → S.stops t = true)
include hS

theorem offsets_of_goes (h : S.stops t = false) : S.offsets t = t.parts.flatMap S.offsets := by
  have hfinds : S.finds t = false := by
    by_contra hne
    rw [Bool.not_eq_false] at hne
    rw [hS t hne] at h
    cases h
  rw [offsets_eq, hfinds, h]
  rfl

omit hS in
theorem offsets_of_stops (h : S.stops t = true) :
    S.offsets t = if S.finds t then [t.span.start.offset] else [] := by
  rw [offsets_eq, h]
  exact List.append_nil _

omit hS in
theorem pairwise_offsets_of_stops {r : Nat → Nat → Prop} (h : S.stops t = true) :
    (S.offsets t).Pairwise r := by
  rw [offsets_of_stops h]
  cases S.finds t
  · exact .nil
  · exact List.pairwise_singleton _ _

/-- Things are found in the order of the source exactly when at every tree that is searched the parts
hold them in that order. -/
theorem pairwise_offsets_iff (t : Tree) :
    (S.offsets t).Pairwise (· < ·) ↔ ∀ u, S.Searched t u → u.parts.Pairwise S.Precedes := by
  induction t using Tree.inductionOnParts with
  | h t ih =>
    cases hstops : S.stops t with
    | true =>
      refine ⟨fun _ u hu => ?_, fun _ => pairwise_offsets_of_stops hstops⟩
      exact absurd hu (not_searched hstops)
    | false =>
      rw [offsets_of_goes hS hstops, List.pairwise_flatMap]
      constructor
      · rintro ⟨hparts, hbetween⟩ u hu
        rcases (searched_iff hstops).mp hu with rfl | ⟨p, hp, hu⟩
        · exact hbetween
        · exact (ih p hp).mp (hparts p hp) u hu
      · intro hall
        refine ⟨fun p hp => (ih p hp).mpr fun u hu => ?_, hall t (.here hstops)⟩
        exact hall u (.part hstops hp hu)

omit hS in
/-- Of two trees that lie apart and that something is found in, what is found in the first one comes
first exactly when it starts first. -/
theorem precedes_iff (h : S.Apart p q) :
    S.Precedes p q ↔ S.offsets p ≠ [] → S.offsets q ≠ [] →
      p.span.start.offset < q.span.start.offset := by
  constructor
  · intro hprecedes hp hq
    obtain ⟨a, ha⟩ := List.exists_mem_of_ne_nil _ hp
    obtain ⟨b, hb⟩ := List.exists_mem_of_ne_nil _ hq
    have hab := hprecedes a ha b hb
    rcases h with hbefore | hbefore
    · exact hbefore _ _ (.here hp) (.here hq)
    · have hba := hbefore b a (marked_of_mem_offsets hb) (marked_of_mem_offsets ha)
      omega
  · intro hstart a ha b hb
    have hp := List.ne_nil_of_mem ha
    have hq := List.ne_nil_of_mem hb
    have hlt := hstart hp hq
    rcases h with hbefore | hbefore
    · exact hbefore a b (marked_of_mem_offsets ha) (marked_of_mem_offsets hb)
    · have hgt := hbefore _ _ (.here hq) (.here hp)
      omega

omit hS in
/-- Parts that lie apart hold what is found in the order of the source exactly when those that hold
any stand in the order in which they start. -/
theorem pairwise_precedes_iff {parts : List Tree} (h : parts.Pairwise S.Apart) :
    parts.Pairwise S.Precedes ↔ (parts.filter (S.offsets · ≠ [])).Pairwise
      fun p q => p.span.start.offset < q.span.start.offset := by
  rw [List.pairwise_filter]
  constructor
  · intro hprecedes
    refine (h.and hprecedes).imp fun {p q} hpq hp hq => ?_
    exact (precedes_iff hpq.1).mp hpq.2 (by simpa using hp) (by simpa using hq)
  · intro hstart
    refine (h.and hstart).imp fun {p q} hpq => (precedes_iff hpq.1).mpr fun hp hq => ?_
    exact hpq.2 (by simpa using hp) (by simpa using hq)

/-- In a tree whose searched parts lie apart, things are found in the order of the source exactly when
the parts that hold any are searched in the order in which they start. -/
theorem pairwise_offsets_iff_of_laid (h : S.Laid t) :
    (S.offsets t).Pairwise (· < ·) ↔ ∀ u, S.Searched t u →
      (u.parts.filter (S.offsets · ≠ [])).Pairwise
        fun p q => p.span.start.offset < q.span.start.offset := by
  rw [pairwise_offsets_iff hS]
  exact forall_congr' fun u => imp_congr_right fun hu => pairwise_precedes_iff (h u hu)

/-- In a tree whose searched parts lie apart no two things that are found start at one place. -/
theorem nodup_offsets_of_laid (h : S.Laid t) : (S.offsets t).Nodup := by
  induction t using Tree.inductionOnParts with
  | h t ih =>
    cases hstops : S.stops t with
    | true => exact pairwise_offsets_of_stops hstops
    | false =>
      rw [offsets_of_goes hS hstops, List.nodup_flatMap]
      refine ⟨fun p hp => ih p hp fun u hu => h u (.part hstops hp hu), ?_⟩
      refine (h t (.here hstops)).imp fun {p q} hapart a hp hq => ?_
      have hmarks := And.intro (marked_of_mem_offsets hp) (marked_of_mem_offsets hq)
      rcases hapart with hbefore | hbefore
      · exact Nat.lt_irrefl a (hbefore a a hmarks.1 hmarks.2)
      · exact Nat.lt_irrefl a (hbefore a a hmarks.2 hmarks.1)

end Closed

/-! ### Finer searches -/

section Finer

variable {S' : Search} (hfinds : ∀ t, S.finds t = true → S'.finds t = true)
  (hstops : ∀ t, S.stops t = false → S'.stops t = false)
include hfinds hstops

/-- A search that goes deeper and finds more finds all that a coarser one does. -/
theorem offsets_subset (t : Tree) : S.offsets t ⊆ S'.offsets t := by
  induction t using Tree.inductionOnParts with
  | h t ih =>
    intro a ha
    rcases mem_offsets_iff.mp ha with ⟨hself, rfl⟩ | ⟨hgoes, p, hp, hbelow⟩
    · exact mem_offsets_iff.mpr (.inl ⟨hfinds t hself, rfl⟩)
    · exact mem_offsets_iff.mpr (.inr ⟨hstops t hgoes, p, hp, ih p hp hbelow⟩)

theorem marked_of_coarser (h : S.Marked t a) : S'.Marked t a := by
  induction h with
  | here hne =>
    obtain ⟨b, hb⟩ := List.exists_mem_of_ne_nil _ hne
    exact .here (List.ne_nil_of_mem (offsets_subset hfinds hstops _ hb))
  | part hgoes hp _ ih => exact .part (hstops _ hgoes) hp ih

theorem apart_of_finer (h : S'.Apart p q) : S.Apart p q := by
  have hbefore : ∀ {p q : Tree}, S'.Before p q → S.Before p q := fun h a b ha hb =>
    h a b (marked_of_coarser hfinds hstops ha) (marked_of_coarser hfinds hstops hb)
  exact h.imp hbefore hbefore

omit hfinds in
theorem searched_of_coarser (h : S.Searched t u) : S'.Searched t u := by
  induction h with
  | here hgoes => exact .here (hstops _ hgoes)
  | part hgoes hp _ ih => exact .part (hstops _ hgoes) hp ih

/-- Where the parts lie apart for a search they lie apart for every coarser one. -/
theorem laid_of_finer (h : S'.Laid t) : S.Laid t := fun u hu =>
  (h u (searched_of_coarser hstops hu)).imp fun hpq => apart_of_finer hfinds hstops hpq

end Finer

end Search

end TypeScript
end FetchClients
