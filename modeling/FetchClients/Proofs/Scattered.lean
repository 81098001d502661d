/-
# Trees that lie apart

The landmarks of a source are its declarations and members. The marks of a tree
are the places where these start in it and where the trees start that hold them.
Trees lie scattered in a stretch of the source if all their marks are in it and of
any two trees one comes before the other, at all depths.

Key definitions: `Tree.isLandmark`, `Tree.isPlain`, `Tree.holdsMembers`, `Tree.Formed`,
`Scattered`.
Key theorems: `Scattered.append`, `Scattered.subperm`, `Scattered.placed`,
`Scattered.built`, `Scattered.annotated`.
-/
import FetchClients.Proofs.DeclarationOrder
import FetchClients.TypeScript.Parser.Patterns
import Mathlib.Data.List.Perm.Subperm

namespace FetchClients
namespace TypeScript

open Search (landmarks)

namespace Tree

/-- Whether a tree is a declaration or a member. -/
def isLandmark (t : Tree) : Bool := landmarks.finds t

/-- Whether a tree is of a kind that no declaration and no member has. -/
def isPlain : Tree → Bool
  | node .. | reference .. | sealed .. | binding .. | pattern .. | rest .. | initialized ..
  | parameter .. | arrow .. => true
  | _ => false

/-- Whether a tree declares a type. -/
def isDeclaration (t : Tree) : Bool := t.declaration?.isSome

/-- Whether a tree declares a type without an `export` in front of it. -/
def isDeclared : Tree → Bool
  | interface .. | typeAlias .. | .class _ (some _) .. => true
  | _ => false

/-- What the body of an interface or a class is made of. -/
def isBodyMember : Tree → Bool
  | property .. | method .. | sealed .. => true
  | _ => false

/-- Whether none of the members in a tree are found from outside it. -/
def isSealed : Tree → Bool
  | sealed .. => true
  | _ => false

/-- What may stand in the body of an interface or a class, at a place. -/
def IsMemberAt (start : Mark) (t : Tree) : Prop :=
  t.span.start = start ∧ t.isBodyMember = true

/-- Whether the body of an interface or a class is made of members alone. -/
def holdsMembers : Tree → Bool
  | interface _ _ _ members | .class _ _ _ members _ => members.all isBodyMember
  | _ => true

/-- Whether the bodies of all interfaces and classes in a tree are made of members alone. -/
def Formed (t : Tree) : Prop :=
  ∀ u, landmarks.Searched t u → u.holdsMembers = true

/-- What a type may be given to after it was read: a bound name, a pattern or a rest pattern. -/
def isTarget : Tree → Bool
  | binding .. | pattern .. | rest .. => true
  | _ => false

variable {t : Tree} {a : Nat}

theorem isTarget_annotate (t : Tree) (stop : Mark) (type : Option Tree) :
    (Parse.annotate t stop type).isTarget = t.isTarget := by
  unfold Parse.annotate
  split <;> rfl

theorem start_annotate (t : Tree) (stop : Mark) (type : Option Tree) :
    (Parse.annotate t stop type).span.start = t.span.start := by
  unfold Parse.annotate
  split <;> rfl

/-- A tree with a type has no other parts than before and its type. -/
theorem mem_parts_annotate {t p : Tree} {stop : Mark} {type : Option Tree}
    (h : p ∈ (Parse.annotate t stop type).parts) : p ∈ t.parts ∨ p ∈ type.toList := by
  unfold Parse.annotate at h
  split at h
  · exact .inr h
  · simpa [parts] using h
  · simpa [parts] using h
  · exact .inl h

theorem isLandmark_of_isPlain (h : t.isPlain = true) : t.isLandmark = false := by
  cases t <;> first | rfl | cases h

theorem holdsMembers_of_isPlain (h : t.isPlain = true) : t.holdsMembers = true := by
  cases t <;> first | rfl | cases h

theorem holdsMembers_of_isBodyMember (h : t.isBodyMember = true) : t.holdsMembers = true := by
  cases t <;> first | rfl | cases h

theorem isMember_of_isSealed (h : t.isSealed = true) : t.isMember = false := by
  cases t <;> first | rfl | cases h

theorem isDeclaration_of_isDeclared (h : t.isDeclared = true) : t.isDeclaration = true := by
  cases t with
  | «class» span name decorators members heritage =>
    cases name with
    | some name => rfl
    | none => cases h
  | _ => first | rfl | cases h

theorem isDeclaration_exported (span : Span) (t : Tree) :
    (exported span t).isDeclaration = t.isDeclared := by
  cases t with
  | «class» _ name _ _ _ => cases name <;> rfl
  | _ => rfl

theorem isLandmark_exported (span : Span) (t : Tree) :
    (exported span t).isLandmark = t.isDeclared :=
  (Bool.or_false _).trans (isDeclaration_exported span t)

/-- The landmarks in a tree are itself, if it is one, and those in its parts. -/
theorem mem_landmarks_iff : a ∈ landmarks.offsets t ↔
    (t.isLandmark = true ∧ a = t.span.start.offset) ∨ ∃ p ∈ t.parts, a ∈ landmarks.offsets p := by
  rw [Search.mem_offsets_iff]
  exact or_congr_right (and_iff_right rfl)

/-- The landmarks in a tree that is none are those in its parts. -/
theorem mem_landmarks_of_isLandmark (h : t.isLandmark = false) :
    a ∈ landmarks.offsets t ↔ ∃ p ∈ t.parts, a ∈ landmarks.offsets p := by
  rw [mem_landmarks_iff, h]
  simp

end Tree

/-- Trees whose marks lie in a stretch of the source, one tree before the other. -/
structure Scattered (lo hi : Nat) (trees : List Tree) : Prop where
  laid : ∀ t ∈ trees, landmarks.Laid t
  formed : ∀ t ∈ trees, t.Formed
  within : ∀ t ∈ trees, ∀ a, landmarks.Marked t a → lo ≤ a ∧ a < hi
  apart : trees.Pairwise landmarks.Apart

namespace Scattered

variable {lo mid hi : Nat} {xs ys : List Tree} {t : Tree}

theorem nil : Scattered lo hi [] :=
  ⟨by simp, by simp, by simp, .nil⟩

theorem mono {lo' hi' : Nat} (h : Scattered lo hi xs) (hlo : lo' ≤ lo) (hhi : hi ≤ hi') :
    Scattered lo' hi' xs := by
  refine ⟨h.laid, h.formed, fun t ht a ha => ?_, h.apart⟩
  obtain ⟨hle, hlt⟩ := h.within t ht a ha
  omega

/-- Trees in one stretch and trees in the next lie scattered in both together. -/
theorem append (hxs : Scattered lo mid xs) (hys : Scattered mid hi ys) (hlo : lo ≤ mid)
    (hhi : mid ≤ hi) : Scattered lo hi (xs ++ ys) := by
  have hleft := hxs.mono (Nat.le_refl lo) hhi
  have hright := hys.mono hlo (Nat.le_refl hi)
  refine ⟨?_, ?_, ?_, List.pairwise_append.mpr ⟨hxs.apart, hys.apart, ?_⟩⟩
  · exact fun t ht => (List.mem_append.mp ht).elim (hleft.laid t) (hright.laid t)
  · exact fun t ht => (List.mem_append.mp ht).elim (hleft.formed t) (hright.formed t)
  · exact fun t ht => (List.mem_append.mp ht).elim (hleft.within t) (hright.within t)
  · intro p hp q hq
    refine .inl fun a b ha hb => ?_
    have hbelow := hxs.within p hp a ha
    have habove := hys.within q hq b hb
    omega

/-- The order in which the trees are listed does not matter, and some may be left out. -/
theorem subperm (h : Scattered lo hi xs) (hsub : ys.Subperm xs) : Scattered lo hi ys := by
  obtain ⟨zs, hperm, hzs⟩ := hsub
  have hmem : ∀ t ∈ ys, t ∈ xs := fun t ht => hzs.subset (hperm.mem_iff.mpr ht)
  refine ⟨fun t ht => h.laid t (hmem t ht), fun t ht => h.formed t (hmem t ht),
    fun t ht => h.within t (hmem t ht), ?_⟩
  exact (hperm.pairwise_iff fun {p q} hpq => hpq.symm).mp (h.apart.sublist hzs)

/-- A tree lies where its parts lie, if it starts there. -/
theorem placed (hholds : t.holdsMembers = true) (hparts : Scattered lo hi t.parts)
    (hlo : lo ≤ t.span.start.offset)
    (hhi : landmarks.offsets t ≠ [] → t.span.start.offset < hi) : Scattered lo hi [t] := by
  have hlaid : landmarks.Laid t := fun u hu => by
    rcases Search.searched_landmarks_iff.mp hu with rfl | ⟨p, hp, hu⟩
    · exact hparts.apart
    · exact hparts.laid p hp u hu
  have hformed : t.Formed := fun u hu => by
    rcases Search.searched_landmarks_iff.mp hu with rfl | ⟨p, hp, hu⟩
    · exact hholds
    · exact hparts.formed p hp u hu
  have hwithin : ∀ a, landmarks.Marked t a → lo ≤ a ∧ a < hi := fun a ha => by
    rcases (Search.marked_iff rfl a).mp ha with ⟨hne, rfl⟩ | ⟨p, hp, ha⟩
    · exact ⟨hlo, hhi hne⟩
    · exact hparts.within p hp a ha
  exact ⟨by simpa using hlaid, by simpa using hformed, by simpa using hwithin,
    List.pairwise_singleton _ _⟩

/-- A tree that is no landmark lies where its parts lie, if it starts there. -/
theorem built (hplain : t.isPlain = true) (hparts : Scattered lo hi t.parts)
    (hlo : lo ≤ t.span.start.offset)
    (hhi : ∀ p ∈ t.parts, ∀ a, landmarks.Marked p a → t.span.start.offset < hi) :
    Scattered lo hi [t] := by
  refine placed (Tree.holdsMembers_of_isPlain hplain) hparts hlo fun hne => ?_
  obtain ⟨a, ha⟩ := List.exists_mem_of_ne_nil _ hne
  obtain ⟨p, hp, ha⟩ :=
    (Tree.mem_landmarks_of_isLandmark (Tree.isLandmark_of_isPlain hplain)).mp ha
  exact hhi p hp a (Search.marked_of_mem_offsets ha)

/-- A tree without parts has no marks, so it lies anywhere. -/
theorem leaf (span : Span) : Scattered lo hi [.leaf span] := by
  have hnone : ∀ {a}, ¬ landmarks.Marked (.leaf span) a := fun ha => by
    obtain ⟨b, hb⟩ := List.exists_mem_of_ne_nil _ (Search.offsets_ne_nil_of_marked ha)
    obtain ⟨p, hp, -⟩ := (Tree.mem_landmarks_of_isLandmark rfl).mp hb
    cases hp
  have hself : ∀ {u}, landmarks.Searched (.leaf span) u → u = .leaf span := fun hu => by
    rcases Search.searched_landmarks_iff.mp hu with rfl | ⟨p, hp, -⟩
    · rfl
    · cases hp
  refine ⟨?_, ?_, ?_, List.pairwise_singleton _ _⟩ <;> intro t ht <;>
    obtain rfl := List.mem_singleton.mp ht
  · exact fun u hu => hself hu ▸ .nil
  · exact fun u hu => hself hu ▸ rfl
  · exact fun a ha => absurd ha hnone

/-- A tree holds its parts where it lies itself. -/
theorem opened (h : Scattered lo hi [t]) : Scattered lo hi t.parts := by
  have hlaid := h.laid t List.mem_cons_self
  have hformed := h.formed t List.mem_cons_self
  refine ⟨fun p hp u hu => hlaid u (.part rfl hp hu), fun p hp u hu => hformed u (.part rfl hp hu),
    fun p hp a ha => ?_, hlaid t (.here rfl)⟩
  exact h.within t List.mem_cons_self a (.part rfl hp ha)

/-- A tree may be opened: its parts lie where it does. -/
theorem opened_cons (h : Scattered lo hi (t :: xs)) : Scattered lo hi (t.parts ++ xs) := by
  have hmem : ∀ u ∈ xs, u ∈ t :: xs := fun u hu => List.mem_cons_of_mem t hu
  obtain ⟨htree, hothers⟩ := List.pairwise_cons.mp h.apart
  have htop : Scattered lo hi [t] := h.subperm (List.singleton_subperm_iff.mpr List.mem_cons_self)
  have hparts := htop.opened
  refine ⟨?_, ?_, ?_, List.pairwise_append.mpr ⟨hparts.apart, hothers, ?_⟩⟩
  · exact fun u hu => (List.mem_append.mp hu).elim (hparts.laid u) fun hu => h.laid u (hmem u hu)
  · exact fun u hu => (List.mem_append.mp hu).elim (hparts.formed u) fun hu => h.formed u (hmem u hu)
  · exact fun u hu => (List.mem_append.mp hu).elim (hparts.within u) fun hu => h.within u (hmem u hu)
  · intro p hp u hu
    -- All marks of a part are marks of the tree.
    have hmarked : ∀ a, landmarks.Marked p a → landmarks.Marked t a := fun a ha => .part rfl hp ha
    exact (htree u hu).imp (fun hbefore a b ha hb => hbefore a b (hmarked a ha) hb)
      fun hbefore a b ha hb => hbefore a b ha (hmarked b hb)

/-- A type that follows a target may be made a part of it. -/
theorem annotated {type : Option Tree} (stop : Mark) (h : Scattered lo mid [t])
    (htype : Scattered mid hi type.toList) (hlo : lo ≤ mid) (hhi : mid ≤ hi)
    (hstart : t.isTarget = true → lo ≤ t.span.start.offset ∧ t.span.start.offset ≤ mid) :
    Scattered lo hi [Parse.annotate t stop type] := by
  have hbuilt : ∀ u : Tree, t.isTarget = true → u.isPlain = true →
      u.span.start = t.span.start → u.parts = t.parts ++ type.toList → Scattered lo hi [u] := by
    intro u htarget hplain hspan hparts
    obtain ⟨hge, hle⟩ := hstart htarget
    have hopened : Scattered lo hi u.parts := by
      rw [hparts]
      exact h.opened.append htype hlo hhi
    refine built hplain hopened (by rw [hspan]; exact hge) fun p hp a ha => ?_
    rw [hspan]
    rw [hparts] at hp
    rcases List.mem_append.mp hp with hp | hp
    · have hmark : landmarks.Marked t a := .part rfl hp ha
      have hbounds :=
        h.within t List.mem_cons_self _ (.here (Search.offsets_ne_nil_of_marked hmark))
      omega
    · have hbounds := htype.within p hp a ha
      omega
  unfold Parse.annotate
  split
  · exact hbuilt _ rfl rfl rfl rfl
  · exact hbuilt _ rfl rfl rfl (by simp [Tree.parts])
  · exact hbuilt _ rfl rfl rfl rfl
  · exact h.mono (Nat.le_refl lo) hhi

end Scattered

end TypeScript
end FetchClients
