/-
# The trees in hand

Where a parser stands it has some trees in hand, which lie scattered between the place
where the reading of them began and the next token. Trees are fresh for a place if their
landmarks were in hand there or are past it.

Key definitions: `Parse.Holding`, `Parse.Fresh`.
Key theorems: `Parse.Holding.extend`, `Parse.Holding.placed`, `Parse.Holding.opened`,
`Parse.Fresh.trans`.
-/
import FetchClients.Proofs.Reading.Yields
import FetchClients.Proofs.Scattered
import FetchClients.Proofs.Tokens

namespace FetchClients
namespace TypeScript

open Search (landmarks)

attribute [simp] List.Subperm.refl List.nil_subperm

/-- A list can be made of the trees in another one if it has none more often. -/
theorem subperm_of_count {xs ys : List Tree}
    (h : ∀ [DecidableEq Tree] (t : Tree), xs.count t ≤ ys.count t) : xs.Subperm ys := by
  classical exact List.subperm_ext_iff.mpr fun t _ => h t

namespace Parse

/-- A state that was reached with some trees in hand, scattered from `lo` to where it stands, which
is not before `least`. -/
structure Holding (lo least : Nat) (held : List Tree) (s : State) : Prop where
  sound : s.token.Sound
  lo_le : lo ≤ least
  least_le : least ≤ s.pos
  scattered : Scattered lo s.pos held
  /-- What a type may be given to later starts there even if it holds no landmark yet. -/
  targets : ∀ t ∈ held, ∀ u, landmarks.Reached t u → u.isTarget = true →
    lo ≤ u.span.start.offset ∧ u.span.start.offset ≤ s.pos

/-- Whether the landmarks in some trees were held before or are past a place, or at it. -/
def Fresh (past : Bool) (place : Nat) (held trees : List Tree) : Prop :=
  ∀ t ∈ trees, ∀ a ∈ landmarks.offsets t,
    (∃ u ∈ held, a ∈ landmarks.offsets u) ∨ place < a ∨ past = true ∧ a = place

namespace Fresh

variable {past : Bool} {place : Nat} {held trees : List Tree}

theorem nil : Fresh past place held [] := by
  simp [Fresh]

/-- What was held is not new. -/
theorem ofSubset (h : trees ⊆ held) : Fresh past place held trees :=
  fun t ht _ ha => .inl ⟨t, h ht, ha⟩

/-- Trees that are made of those at hand have no further landmarks. -/
theorem trans {mid : List Tree} {place' : Nat} (h : Fresh past place held mid)
    (h' : Fresh past place' mid trees) (hle : place ≤ place') : Fresh past place held trees := by
  intro t ht a ha
  rcases h' t ht a ha with ⟨u, hu, ha⟩ | hlt | ⟨hpast, rfl⟩
  · exact h u hu a ha
  · exact .inr (.inl (by omega))
  · rcases Nat.lt_or_eq_of_le hle with hlt | heq
    · exact .inr (.inl hlt)
    · exact .inr (.inr ⟨hpast, heq.symm⟩)

theorem append {part : List Tree} (h : Fresh past place held trees)
    (hpart : Fresh past place held part) : Fresh past place held (trees ++ part) :=
  fun t ht => (List.mem_append.mp ht).elim (h t) (hpart t)

theorem subset {trees' : List Tree} (h : Fresh past place held trees) (hsub : trees' ⊆ trees) :
    Fresh past place held trees' :=
  fun t ht => h t (hsub ht)

theorem hold {held' : List Tree} (h : Fresh past place held trees) (hsub : held ⊆ held') :
    Fresh past place held' trees :=
  fun t ht a ha => (h t ht a ha).imp_left fun ⟨u, hu, ha⟩ => ⟨u, hsub hu, ha⟩

/-- What is past a place may as well be at it. -/
theorem late (h : Fresh false place held trees) : Fresh past place held trees := by
  intro t ht a ha
  rcases h t ht a ha with hheld | hlt | ⟨hpast, -⟩
  · exact .inl hheld
  · exact .inr (.inl hlt)
  · cases hpast

/-- What is at a later place is past. -/
theorem early {place' : Nat} (h : Fresh true place' held trees) (hlt : place < place') :
    Fresh past place held trees := by
  intro t ht a ha
  rcases h t ht a ha with hheld | hlt | ⟨-, rfl⟩
  · exact .inl hheld
  · exact .inr (.inl (by omega))
  · exact .inr (.inl hlt)

/-- The parts of a tree have no landmarks that it does not have. -/
theorem parts {t : Tree} (h : t ∈ held) : Fresh past place held t.parts :=
  fun p hp _ ha => .inl ⟨t, h, Tree.mem_landmarks_iff.mpr (.inr ⟨p, hp, ha⟩)⟩

/-- A tree that is no landmark holds the landmarks of its parts. -/
theorem tree {t : Tree} (hmark : t.isLandmark = false) (hsub : t.parts ⊆ held) :
    Fresh past place held [t] := by
  intro u hu a ha
  obtain rfl := List.mem_singleton.mp hu
  obtain ⟨p, hp, ha⟩ := (Tree.mem_landmarks_of_isLandmark hmark).mp ha
  exact .inl ⟨p, hsub hp, ha⟩

theorem leaf (span : Span) : Fresh past place held [.leaf span] :=
  tree rfl (List.nil_subset _)

/-- Trees that lie scattered from a place on may have landmarks at it. -/
theorem ofScattered {hi : Nat} (h : Scattered place hi trees) : Fresh true place held trees := by
  intro t ht a ha
  have hle := (h.within t ht a (Search.marked_of_mem_offsets ha)).1
  rcases Nat.lt_or_eq_of_le hle with hlt | heq
  · exact .inr (.inl hlt)
  · exact .inr (.inr ⟨rfl, heq.symm⟩)

/-- A type that was given to a target adds its own landmarks. -/
theorem annotated {u : Tree} {type : Option Tree} (stop : Mark)
    (h : Fresh past place held (u :: type.toList)) :
    Fresh past place held [annotate u stop type] := by
  have hopened : ∀ v : Tree, u.isPlain = true → v.isPlain = true →
      v.parts = u.parts ++ type.toList → Fresh past place held [v] := by
    intro v hu hv hparts w hw a ha
    obtain rfl := List.mem_singleton.mp hw
    obtain ⟨p, hp, ha⟩ :=
      (Tree.mem_landmarks_of_isLandmark (Tree.isLandmark_of_isPlain hv)).mp ha
    rw [hparts] at hp
    rcases List.mem_append.mp hp with hp | hp
    · refine h u List.mem_cons_self a ?_
      exact Tree.mem_landmarks_iff.mpr (.inr ⟨p, hp, ha⟩)
    · exact h p (List.mem_cons_of_mem _ hp) a ha
  unfold annotate
  split
  · exact hopened _ rfl rfl rfl
  · exact hopened _ rfl rfl (by simp [Tree.parts])
  · exact hopened _ rfl rfl rfl
  · exact h.subset (by simp)

end Fresh

namespace Holding

variable {lo least : Nat} {held : List Tree} {s t : State}

/-- Any state holds nothing. -/
theorem nothing (h : s.token.Sound) (hlo : lo ≤ least) (hleast : least ≤ s.pos) :
    Holding lo least [] s :=
  ⟨h, hlo, hleast, .nil, by simp⟩

theorem subperm {held' : List Tree} (h : Holding lo least held s) (hsub : held'.Subperm held) :
    Holding lo least held' s :=
  ⟨h.sound, h.lo_le, h.least_le, h.scattered.subperm hsub, fun t ht => h.targets t (hsub.subset ht)⟩

/-- What is known of a state holds with less demanding bounds. -/
theorem weaken {lo' least' : Nat} (h : Holding lo least held s) (hlo : lo' ≤ lo)
    (hle : lo' ≤ least') (hleast : least' ≤ s.pos) : Holding lo' least' held s := by
  refine ⟨h.sound, hle, hleast, h.scattered.mono hlo (Nat.le_refl _), fun t ht u hu htarget => ?_⟩
  obtain ⟨hge, hlt⟩ := h.targets t ht u hu htarget
  omega

/-- What is held stays in hand in a later state. -/
theorem later (h : Holding lo least held s) (hsound : t.token.Sound) (hle : s.pos ≤ t.pos) :
    Holding lo least held t := by
  refine ⟨hsound, h.lo_le, Nat.le_trans h.least_le hle, h.scattered.mono (Nat.le_refl _) hle, ?_⟩
  intro u hu v hv htarget
  obtain ⟨hge, hlt⟩ := h.targets u hu v hv htarget
  omega

/-- What is held stays in hand while further trees are read. -/
theorem extend {part : List Tree} (h : Holding lo least held s) (ht : Holding s.pos s.pos part t)
    (hle : s.pos ≤ t.pos) : Holding lo least (held ++ part) t := by
  have hlo : lo ≤ s.pos := Nat.le_trans h.lo_le h.least_le
  have hheld := h.later ht.sound hle
  have hpart := ht.weaken hlo h.lo_le hheld.least_le
  refine ⟨ht.sound, h.lo_le, hheld.least_le, h.scattered.append ht.scattered hlo hle, ?_⟩
  exact fun u hu => (List.mem_append.mp hu).elim (hheld.targets u) (hpart.targets u)

/-- A tree that is made of what is held. It starts at `lo` and is no landmark, or the state is past
its start. -/
theorem placed {t : Tree} (h : Holding lo least held s) (hholds : t.holdsMembers = true)
    (hsub : t.parts.Subperm held)
    (hstart : t.span.start.offset = lo ∧ t.isLandmark = false ∨
      lo ≤ t.span.start.offset ∧ t.span.start.offset < least) : Holding lo least [t] s := by
  have hparts := h.scattered.subperm hsub
  have hlo := h.lo_le
  have hleast := h.least_le
  refine ⟨h.sound, hlo, hleast, .placed hholds hparts (by omega) fun hne => ?_, ?_⟩
  · rcases hstart with ⟨hstart, hmark⟩ | hstart
    · obtain ⟨a, ha⟩ := List.exists_mem_of_ne_nil _ hne
      obtain ⟨p, hp, ha⟩ := (Tree.mem_landmarks_of_isLandmark hmark).mp ha
      have hbounds := hparts.within p hp a (Search.marked_of_mem_offsets ha)
      omega
    · omega
  · intro u hu v hv htarget
    obtain rfl := List.mem_singleton.mp hu
    rcases (Search.reached_of_goes rfl).mp hv with rfl | ⟨p, hp, hv⟩
    · omega
    · exact h.targets p (hsub.subset hp) v hv htarget

/-- A tree that is no landmark and is made of what is held. It starts at `lo`, or the state is past
its start. -/
theorem built {t : Tree} (h : Holding lo least held s) (hplain : t.isPlain = true)
    (hsub : t.parts.Subperm held)
    (hstart : t.span.start.offset = lo ∨ lo ≤ t.span.start.offset ∧ t.span.start.offset < least) :
    Holding lo least [t] s :=
  h.placed (Tree.holdsMembers_of_isPlain hplain) hsub
    (hstart.imp_left fun hstart => ⟨hstart, Tree.isLandmark_of_isPlain hplain⟩)

/-- A tree without parts is made of nothing, wherever it starts. -/
theorem leaf (h : Holding lo least held s) (span : Span) : Holding lo least [.leaf span] s := by
  refine ⟨h.sound, h.lo_le, h.least_le, .leaf span, fun u hu v hv htarget => ?_⟩
  obtain rfl := List.mem_singleton.mp hu
  rcases (Search.reached_of_goes rfl).mp hv with rfl | ⟨p, hp, -⟩
  · cases htarget
  · cases hp

/-- A tree that is held may be opened: its parts are in hand then. -/
theorem opened {u : Tree} (h : Holding lo least (u :: held) s) :
    Holding lo least (u.parts ++ held) s := by
  refine ⟨h.sound, h.lo_le, h.least_le, h.scattered.opened_cons, fun t ht v hv => ?_⟩
  rcases List.mem_append.mp ht with ht | ht
  · exact h.targets u List.mem_cons_self v (.part rfl ht hv)
  · exact h.targets t (List.mem_cons_of_mem u ht) v hv

/-- A type that was read after a target may be made a part of it. -/
theorem annotated {u : Tree} {type : Option Tree} (stop : Mark) (h : Holding lo least [u] s)
    (ht : Holding s.pos s.pos type.toList t) (hle : s.pos ≤ t.pos) :
    Holding lo least [annotate u stop type] t := by
  have hlo : lo ≤ s.pos := Nat.le_trans h.lo_le h.least_le
  have htargets := h.targets u List.mem_cons_self
  refine ⟨ht.sound, h.lo_le, Nat.le_trans h.least_le hle,
    h.scattered.annotated stop ht.scattered hlo hle (htargets u .here), fun v hv w hw htarget => ?_⟩
  obtain rfl := List.mem_singleton.mp hv
  rcases (Search.reached_of_goes rfl).mp hw with rfl | ⟨p, hp, hw⟩
  · rw [Tree.isTarget_annotate] at htarget
    rw [Tree.start_annotate]
    have hbounds := htargets u .here htarget
    omega
  · rcases Tree.mem_parts_annotate hp with hp | hp
    · have hbounds := htargets w (.part rfl hp hw) htarget
      omega
    · have hbounds := ht.targets p hp w hw htarget
      omega

end Holding

end Parse
end TypeScript
end FetchClients
