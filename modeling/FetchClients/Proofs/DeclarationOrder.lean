/-
# The order in which type declarations and members are found

Declarations are found by a search that goes into no declaration, and the members of a
declaration by one that goes into no member. The search for landmarks finds the
declarations and members at all depths, so it is finer than both.

Key definitions: `Tree.offsets`, `Tree.Searched`, `Tree.isMember`, `Tree.isClosed`,
`Search.declarations`, `Search.members`, `Search.landmarks`.
Key theorems: `Tree.pairwise_offsets_iff_of_laid`, `Tree.nodup_offsets_of_laid`,
`Search.mem_members_iff`, `Search.start_mem_landmarks`.
-/
import FetchClients.Proofs.SearchOrder

namespace FetchClients
namespace TypeScript
namespace Tree

/-- Where the declarations in a tree start, in the order in which they are found. -/
def offsets (t : Tree) : List Nat :=
  t.declarations.map fun d => d.place.offset

/-- The trees that a search goes through: those that stand in no declaration and are none. -/
inductive Searched : Tree → Tree → Prop where
  | here {t : Tree} : t.declaration? = none → Searched t t
  | part {t p u : Tree} : t.declaration? = none → p ∈ t.parts → Searched p u → Searched t u

/-- Whether a tree is a property or a method. -/
def isMember : Tree → Bool
  | property .. | method .. => true
  | _ => false

/-- Whether a tree keeps what is in it from the declaration around it: a member, sealed syntax, or a
further declaration or class. -/
def isClosed : Tree → Bool
  | property .. | method .. | sealed .. | interface .. | typeAlias .. | .class .. => true
  | _ => false

theorem place_of_declaredAt? {t : Tree} {place : Mark} {d : Declaration}
    (h : t.declaredAt? place = some d) : d.place = place := by
  unfold declaredAt? at h
  split at h <;> cases h <;> rfl

/-- A declaration starts where its tree does. -/
theorem place_of_declaration? {t : Tree} {d : Declaration} (h : t.declaration? = some d) :
    d.place = t.span.start := by
  unfold declaration? at h
  split at h <;> exact place_of_declaredAt? h

/-- A declaration in a tree is one of the trees that it is made of. -/
theorem mem_declarations_iff {t : Tree} {d : Declaration} : d ∈ t.declarations ↔
    t.declaration? = some d ∨ t.declaration? = none ∧ ∃ p ∈ t.parts, d ∈ p.declarations := by
  cases hdeclaration : t.declaration? with
  | some e =>
    rw [declarations, nearest_eq, hdeclaration]
    simp [eq_comm]
  | none =>
    rw [declarations_of_declaration?_eq_none hdeclaration, List.mem_flatMap]
    simp

/-- The body of a declaration is part of it. -/
theorem mem_parts_of_mem_body {t b : Tree} {place : Mark} {d : Declaration}
    (h : t.declaredAt? place = some d) (hb : b ∈ d.body) : b ∈ t.parts := by
  unfold declaredAt? at h
  split at h <;> cases h
  · exact List.mem_append_right _ hb
  · exact List.mem_append_right _ hb
  · exact List.mem_append_left _ (List.mem_append_right _ hb)

theorem members_of_ownMembers?_eq_none {t : Tree} (h : t.ownMembers? = none) :
    t.members = t.parts.flatMap members := by
  rw [members, nearest_eq, h]
  rfl

theorem members_of_ownMembers?_eq_some {t : Tree} {found : List Tree}
    (h : t.ownMembers? = some found) : t.members = found := by
  rw [members, nearest_eq, h]

theorem ownMembers?_of_isClosed {t : Tree} (h : t.isClosed = true) :
    t.ownMembers? = some (if t.isMember then [t] else []) := by
  cases t <;> first | rfl | cases h

theorem ownMembers?_eq_none {t : Tree} (h : t.isClosed = false) : t.ownMembers? = none := by
  cases t <;> first | rfl | cases h

/-- What is found as long as a search goes no deeper than a bound. -/
def offsetsUpTo : Nat → Tree → List Nat
  | 0, _ => []
  | n + 1, t =>
    match t.declaration? with
    | some d => [d.place.offset]
    | none => t.parts.flatMap (offsetsUpTo n)

end Tree

namespace Search

/-- The search for the declarations of a source. -/
def declarations : Search := ⟨(·.declaration?.isSome), (·.declaration?.isSome)⟩

/-- The search for those members of a declaration that are kept. -/
def members (keep : Tree → Bool) : Search :=
  ⟨fun t => t.isMember && keep t, Tree.isClosed⟩

/-- The search for declarations and members at all depths. -/
def landmarks : Search := ⟨fun t => t.declaration?.isSome || t.isMember, fun _ => false⟩

variable {t u : Tree} {keep : Tree → Bool}

theorem finds_landmarks_of_declarations (t : Tree) (h : declarations.finds t = true) :
    landmarks.finds t = true := by
  rw [landmarks, Bool.or_eq_true]
  exact .inl h

theorem finds_landmarks_of_members (t : Tree) (h : (members keep).finds t = true) :
    landmarks.finds t = true := by
  rw [landmarks, Bool.or_eq_true]
  exact .inr (Bool.and_eq_true_iff.mp h).1

theorem stops_of_finds_members (t : Tree) (h : (members keep).finds t = true) :
    (members keep).stops t = true := by
  cases t <;> first | rfl | cases h

theorem searched_landmarks_iff :
    landmarks.Searched t u ↔ u = t ∨ ∃ p ∈ t.parts, landmarks.Searched p u :=
  searched_iff rfl

theorem searched_self (t : Tree) : landmarks.Searched t t :=
  .here rfl

/-- A declaration in a tree is made of a tree that is searched for landmarks. -/
theorem exists_searched_of_mem_declarations {d : Declaration} (h : d ∈ t.declarations) :
    ∃ u place, landmarks.Searched t u ∧ u.declaredAt? place = some d := by
  induction t using Tree.inductionOnParts with
  | h t ih =>
    rcases Tree.mem_declarations_iff.mp h with hself | ⟨-, p, hp, hd⟩
    · unfold Tree.declaration? at hself
      split at hself
      · exact ⟨_, _, .part rfl List.mem_cons_self (searched_self _), hself⟩
      · exact ⟨t, _, searched_self t, hself⟩
    · obtain ⟨u, place, hu, hdeclared⟩ := ih p hp hd
      exact ⟨u, place, .part rfl hp hu, hdeclared⟩

theorem searched_trans {w : Tree} (h : landmarks.Searched t u) (h' : landmarks.Searched u w) :
    landmarks.Searched t w := by
  induction h with
  | here _ => exact h'
  | part hgoes hp _ ih => exact .part hgoes hp (ih h')

/-- The body of a declaration in a tree is searched for landmarks. -/
theorem searched_of_mem_declarations {b : Tree} {d : Declaration} (h : d ∈ t.declarations)
    (hb : b ∈ d.body) : landmarks.Searched t b := by
  obtain ⟨u, place, hu, hdeclared⟩ := exists_searched_of_mem_declarations h
  exact searched_trans hu (.part rfl (Tree.mem_parts_of_mem_body hdeclared hb) (searched_self b))

theorem declarations_of_landmarks (h : landmarks.Laid t) : declarations.Laid t :=
  laid_of_finer finds_landmarks_of_declarations (fun _ _ => rfl) h

theorem members_of_landmarks (h : landmarks.Laid t) : (members keep).Laid t :=
  laid_of_finer finds_landmarks_of_members (fun _ _ => rfl) h

theorem offsets_declarations (t : Tree) : declarations.offsets t = t.offsets := by
  induction t using Tree.inductionOnParts with
  | h t ih =>
    cases hdeclaration : t.declaration? with
    | some d =>
      have hstops : declarations.stops t = true := by simp [declarations, hdeclaration]
      have hfinds : declarations.finds t = true := hstops
      rw [offsets_of_stops hstops, if_pos hfinds, Tree.offsets, Tree.declarations, Tree.nearest_eq,
        hdeclaration, ← Tree.place_of_declaration? hdeclaration]
      rfl
    | none =>
      have hgoes : declarations.stops t = false := by simp [declarations, hdeclaration]
      rw [offsets_of_goes (fun _ h => h) hgoes, Tree.offsets,
        Tree.declarations_of_declaration?_eq_none hdeclaration, List.map_flatMap]
      exact List.flatMap_congr ih

theorem searched_declarations_iff : declarations.Searched t u ↔ t.Searched u := by
  have hstops : ∀ {t : Tree}, declarations.stops t = false ↔ t.declaration? = none := by
    intro t
    rw [declarations, Option.isSome_eq_false_iff, Option.isNone_iff_eq_none]
  constructor
  · intro h
    induction h with
    | here hgoes => exact .here (hstops.mp hgoes)
    | part hgoes hp _ ih => exact .part (hstops.mp hgoes) hp ih
  · intro h
    induction h with
    | here hnone => exact .here (hstops.mpr hnone)
    | part hnone hp _ ih => exact .part (hstops.mpr hnone) hp ih

theorem offsets_members (t : Tree) :
    (members keep).offsets t = (t.members.filter keep).map (·.span.start.offset) := by
  induction t using Tree.inductionOnParts with
  | h t ih =>
    cases hstops : (members keep).stops t with
    | true =>
      rw [offsets_of_stops hstops, Tree.members_of_ownMembers?_eq_some (Tree.ownMembers?_of_isClosed hstops)]
      change (if (t.isMember && keep t) = true then _ else _) = _
      cases t.isMember <;> cases hkeep : keep t <;> simp [hkeep]
    | false =>
      rw [offsets_of_goes stops_of_finds_members hstops,
        Tree.members_of_ownMembers?_eq_none (Tree.ownMembers?_eq_none hstops), List.filter_flatMap,
        List.map_flatMap]
      exact List.flatMap_congr ih

/-- The members that are found in a tree are those that the search comes to. -/
theorem mem_members_iff : u ∈ t.members ↔ (members keep).Reached t u ∧ u.isMember = true := by
  induction t using Tree.inductionOnParts with
  | h t ih =>
    cases hstops : (members keep).stops t with
    | true =>
      rw [Tree.members_of_ownMembers?_eq_some (Tree.ownMembers?_of_isClosed hstops), reached_of_stops hstops]
      constructor
      · intro hu
        split at hu
        · rename_i hmember
          obtain rfl := List.mem_singleton.mp hu
          exact ⟨rfl, hmember⟩
        · cases hu
      · rintro ⟨rfl, hmember⟩
        rw [if_pos hmember]
        exact List.mem_singleton_self u
    | false =>
      have hmember : t.isMember = false := by
        cases t <;> first | rfl | cases hstops
      rw [Tree.members_of_ownMembers?_eq_none (Tree.ownMembers?_eq_none hstops), List.mem_flatMap,
        reached_of_goes hstops]
      constructor
      · rintro ⟨p, hp, hu⟩
        obtain ⟨hreached, humember⟩ := (ih p hp).mp hu
        exact ⟨.inr ⟨p, hp, hreached⟩, humember⟩
      · rintro ⟨rfl | ⟨p, hp, hreached⟩, humember⟩
        · rw [hmember] at humember
          cases humember
        · exact ⟨p, hp, (ih p hp).mpr ⟨hreached, humember⟩⟩

/-- Where a declaration starts there is a landmark. -/
theorem place_mem_landmarks {d : Declaration} (h : d ∈ t.declarations) :
    d.place.offset ∈ landmarks.offsets t := by
  refine offsets_subset finds_landmarks_of_declarations (fun _ _ => rfl) t ?_
  rw [offsets_declarations]
  exact List.mem_map_of_mem h

/-- Where a member of a declaration starts there is a landmark. -/
theorem start_mem_landmarks {b : Tree} {d : Declaration} (h : d ∈ t.declarations) (hb : b ∈ d.body)
    (hu : u ∈ b.members) : u.span.start.offset ∈ landmarks.offsets t := by
  refine offsets_subset_of_searched (searched_of_mem_declarations h hb) ?_
  refine offsets_subset (@finds_landmarks_of_members fun _ => true) (fun _ _ => rfl) b ?_
  rw [offsets_members, List.filter_true]
  exact List.mem_map_of_mem hu

end Search

namespace Tree

variable {t : Tree}

/-- Whether the parts of all trees that are searched for declarations lie apart. -/
def Laid (t : Tree) : Prop := Search.declarations.Laid t

/-- In a tree whose searched parts lie apart, declarations are found in the order of the source
exactly when the parts that hold any are searched in the order in which they start. -/
theorem pairwise_offsets_iff_of_laid (h : t.Laid) :
    t.offsets.Pairwise (· < ·) ↔ ∀ u, t.Searched u →
      (u.parts.filter (·.offsets ≠ [])).Pairwise
        fun p q => p.span.start.offset < q.span.start.offset := by
  have hiff := Search.pairwise_offsets_iff_of_laid (S := .declarations) (fun _ h => h) h
  simp only [Search.offsets_declarations, Search.searched_declarations_iff] at hiff
  exact hiff

/-- In a tree whose searched parts lie apart no two declarations start at one place. -/
theorem nodup_offsets_of_laid (h : t.Laid) : t.offsets.Nodup := by
  rw [← Search.offsets_declarations]
  exact Search.nodup_offsets_of_laid (S := .declarations) (fun _ h => h) h

theorem offsets_of_declaration?_eq_none (h : t.declaration? = none) :
    t.offsets = t.parts.flatMap offsets := by
  rw [offsets, declarations_of_declaration?_eq_none h, List.map_flatMap]
  rfl

theorem offsets_of_declaration?_eq_some {d : Declaration} (h : t.declaration? = some d) :
    t.offsets = [d.place.offset] := by
  rw [offsets, declarations, nearest_eq, h]
  rfl

theorem offsetsUpTo_sublist : ∀ (n : Nat) (t : Tree), (t.offsetsUpTo n).Sublist t.offsets
  | 0, _ => List.nil_sublist _
  | n + 1, t => by
    unfold offsetsUpTo
    split
    · rename_i d hdeclaration
      rw [offsets_of_declaration?_eq_some hdeclaration]
    · rename_i hdeclaration
      rw [offsets_of_declaration?_eq_none hdeclaration]
      generalize t.parts = parts
      induction parts with
      | nil => exact List.Sublist.refl _
      | cons p parts ih => exact (offsetsUpTo_sublist n p).append ih

end Tree

end TypeScript
end FetchClients
