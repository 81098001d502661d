/-
# Where parsers find their trees

A parser starts at a token and goes on to one that is not before it, also where
it fails. The trees that it reads lie scattered between the two, and the landmarks
in them are past the place where it starts. A parser may hold trees that were read
before, and put them into its own in any order: `Lays lo least held p out` says
that a parser that starts with `held` scattered from `lo` on, not before `least`,
ends with the trees `out` of its value scattered from `lo` on. Once a token was
taken landmarks may stand at the next one (`past`), and a declaration stands where
its parser starts (`waived`). Each way to put parsers together has a rule for it
here, so a parser of the grammar is followed step by step.

Key definitions: `Parse.Ends`, `Parse.Lays`, `Parse.Reads`, `Parse.Moves`,
`Parse.Advances`.
Key theorems: `Parse.Lays.step`, `Parse.Lays.skip`, `Parse.Lays.pass`, `Parse.Lays.tree`,
`Parse.Lays.opened`, `Parse.Lays.attempt`, `Parse.Reads.repeated`, `Parse.Lays.iterate`.
-/
import FetchClients.Proofs.Reading.Holding

namespace FetchClients
namespace TypeScript

open Search (landmarks)

namespace Parse

variable {α β : Type}

/-- What a parser that started in a state with `held` comes to: a state that is not before it, with
the trees `out` of the value in hand. -/
def Ends (lo least : Nat) (held : List Tree) (out : α → List Tree) (past : Bool)
    (waived : α → Bool) (s : State) : Outcome α → Prop
  | .done v t =>
    s.pos ≤ t.pos ∧ Holding lo least (out v) t ∧
      (waived v = true ∨ Fresh past s.pos held (out v))
  | .failed _ t => s.pos ≤ t.pos ∧ t.token.Sound

/-- A parser that ends with the trees `out` of its value in hand if it starts with `held`. -/
def Lays (lo least : Nat) (held : List Tree) (p : Parse α) (out : α → List Tree)
    (past : Bool := false) (waived : α → Bool := fun _ => false) : Prop :=
  ∀ s, Holding lo least held s → Ends lo least held out past waived s (p s)

/-- A parser that reads the trees `out` of its value. -/
def Reads (p : Parse α) (out : α → List Tree) (past : Bool := false) : Prop :=
  ∀ lo, Lays lo lo [] p out past

/-- A parser that reads the trees `out` of its value if it starts in this state. -/
def ReadsAt (s : State) (p : Parse α) (out : α → List Tree) : Prop :=
  Ends s.pos s.pos [] out false (fun _ => false) s (p s)

/-- A parser that reads no trees. -/
class Moves (p : Parse α) : Prop where
  reads : Reads p fun _ => []

/-- A parser that takes at least one character. -/
def Advances (p : Parse α) : Prop :=
  ∀ {s : State} {v : α} {t : State}, s.token.Sound → p s = .done v t → s.pos < t.pos

namespace Ends

variable {lo lo' least least' : Nat} {held mid : List Tree} {out : α → List Tree} {past : Bool}
  {waived : α → Bool} {s t : State} {o : Outcome α}

/-- What a parser comes to from an earlier state, with other trees in hand. -/
theorem since (h : Ends lo least mid out past waived t o) (hle : s.pos ≤ t.pos)
    (hmid : Fresh past s.pos held mid) : Ends lo least held out past waived s o := by
  cases o with
  | failed failure u => exact ⟨Nat.le_trans hle h.1, h.2⟩
  | done v u =>
    obtain ⟨hge, hu, hfresh⟩ := h
    exact ⟨Nat.le_trans hle hge, hu, hfresh.imp_right fun hfresh => hmid.trans hfresh hle⟩

/-- What a parser comes to from a state before the last token. -/
theorem sinceToken (h : Ends lo least held out true waived t o) (hlt : s.pos < t.pos) :
    Ends lo least held out past waived s o := by
  cases o with
  | failed failure u => exact ⟨by have := h.1; omega, h.2⟩
  | done v u =>
    obtain ⟨hge, hu, hfresh⟩ := h
    exact ⟨by omega, hu, hfresh.imp_right fun hfresh => hfresh.early hlt⟩

/-- A later place that a state is known not to be before may be forgotten. -/
theorem forget (h : Ends lo' least' held out past waived s o) (hle : lo ≤ lo') (hlo : lo ≤ least)
    (hleast : least ≤ least') : Ends lo least held out past waived s o := by
  cases o with
  | failed failure t => exact h
  | done v t =>
    exact ⟨h.1, h.2.1.weaken hle hlo (Nat.le_trans hleast h.2.1.least_le), h.2.2⟩

/-- What a parser comes to after another one. A value that is waived must go into one that is. -/
theorem bindGiven {p : Parse α} {f : α → Parse β} {part : α → List Tree} {out : β → List Tree}
    {given : α → Bool} {waived : β → Bool} (hp : Ends lo' least' held part past given s (p s))
    (hf : ∀ v t, p s = .done v t → Holding lo' least' (part v) t →
      Ends lo least (part v) out past waived t (f v t))
    (hgiven : ∀ v, given v = true → Yields (f v) (waived · = true)) :
    Ends lo least held out past waived s ((p >>= f) s) := by
  cases heq : p s with
  | failed failure t =>
    rw [heq] at hp
    rw [bind_of_failed heq]
    exact hp
  | done v t =>
    rw [heq] at hp
    obtain ⟨hle, ht, hvalue⟩ := hp
    have hend := hf v t heq ht
    rw [bind_of_done heq]
    rcases hvalue with hv | hfresh
    · cases hnext : f v t with
      | failed failure u =>
        rw [hnext] at hend
        exact ⟨Nat.le_trans hle hend.1, hend.2⟩
      | done w u =>
        rw [hnext] at hend
        exact ⟨Nat.le_trans hle hend.1, hend.2.1, .inl (hgiven v hv t w u hnext)⟩
    · exact hend.since hle hfresh

/-- What a parser comes to after another one. -/
theorem bind {p : Parse α} {f : α → Parse β} {part : α → List Tree} {out : β → List Tree}
    {waived : β → Bool} (hp : Ends lo' least' held part past (fun _ => false) s (p s))
    (hf : ∀ v t, p s = .done v t → Holding lo' least' (part v) t →
      Ends lo least (part v) out past waived t (f v t)) :
    Ends lo least held out past waived s ((p >>= f) s) :=
  bindGiven hp hf fun _ hv => absurd hv Bool.false_ne_true

/-- A parser that goes on with what was read from a place on, while what was read up to there stays in
hand. -/
theorem onward {before : List Tree} {part : α → List Tree} {out : β → List Tree}
    {waived : β → Bool} {p : Parse α} {f : α → Parse β} (hs : Holding lo least before s)
    (ht : Holding s.pos s.pos held t) (hp : Lays s.pos s.pos held p part past)
    (hf : ∀ v, Lays lo t.pos (before ++ part v) (f v) out past waived) :
    Ends lo t.pos (before ++ held) out past waived t ((p >>= f) t) := by
  have hend := hp t ht
  have hlo : lo ≤ t.pos := Nat.le_trans (Nat.le_trans hs.lo_le hs.least_le) ht.least_le
  cases heq : p t with
  | failed failure u =>
    rw [heq] at hend
    rw [bind_of_failed heq]
    exact hend
  | done v u =>
    rw [heq] at hend
    obtain ⟨hle, hu, hfresh⟩ := hend
    rw [bind_of_done heq]
    have hboth : Holding lo t.pos (before ++ part v) u :=
      (hs.extend hu hu.least_le).weaken (Nat.le_refl _) hlo hle
    have hpart : Fresh past t.pos (before ++ held) (part v) :=
      (hfresh.resolve_left Bool.false_ne_true).hold (List.subset_append_right _ _)
    exact (hf v u hboth).since hle
      (.append (.ofSubset (List.subset_append_left _ _)) hpart)

end Ends

namespace Lays

variable {lo least : Nat} {held : List Tree} {p : Parse α} {out : α → List Tree} {past : Bool}
  {waived : α → Bool}

/-- One parser after another. -/
theorem bind {mid : α → List Tree} {f : α → Parse β} {out : β → List Tree} {waived : β → Bool}
    (hp : Lays lo least held p mid past) (hf : ∀ v, Lays lo least (mid v) (f v) out past waived) :
    Lays lo least held (p >>= f) out past waived :=
  fun s hs => (hp s hs).bind fun v t _ ht => hf v t ht

/-- One parser after another. A value that is waived must go into one that is. -/
theorem bindGiven {mid : α → List Tree} {f : α → Parse β} {out : β → List Tree} {given : α → Bool}
    {waived : β → Bool} (hp : Lays lo least held p mid past given)
    (hf : ∀ v, Lays lo least (mid v) (f v) out past waived)
    (hgiven : ∀ v, given v = true → Yields (f v) (waived · = true)) :
    Lays lo least held (p >>= f) out past waived :=
  fun s hs => (hp s hs).bindGiven (fun v t _ ht => hf v t ht) hgiven

/-- What follows a value that is known to have a property. -/
theorem bindKnown {mid : α → List Tree} {P : α → Prop} {f : α → Parse β} {out : β → List Tree}
    {waived : β → Bool} (hp : Lays lo least held p mid past) (hyields : Yields p P)
    (hf : ∀ v, P v → Lays lo least (mid v) (f v) out past waived) :
    Lays lo least held (p >>= f) out past waived :=
  fun s hs => (hp s hs).bind fun v t heq ht => hf v (hyields s v t heq) t ht

/-- Some of what is held may be dropped. -/
theorem drop {held' : List Tree} (h : Lays lo least held' p out past waived)
    (hsub : held'.Subperm held) : Lays lo least held p out past waived :=
  fun s hs => (h s (hs.subperm hsub)).since (Nat.le_refl _) (.ofSubset hsub.subset)

/-- Trees that are not used further are not counted. -/
theorem weaken {out' : α → List Tree} (h : Lays lo least held p out past waived)
    (hsub : ∀ v, (out' v).Subperm (out v)) : Lays lo least held p out' past waived := by
  intro s hs
  have hend := h s hs
  cases heq : p s with
  | failed failure t =>
    rw [heq] at hend
    exact hend
  | done v t =>
    rw [heq] at hend
    obtain ⟨hle, ht, hfresh⟩ := hend
    exact ⟨hle, ht.subperm (hsub v), hfresh.imp_right fun hfresh => hfresh.subset (hsub v).subset⟩

/-- What is past the start of a parser may be at it, and a value need not be waived. -/
theorem relax (h : Lays lo least held p out) : Lays lo least held p out past waived := by
  intro s hs
  have hend := h s hs
  cases heq : p s with
  | failed failure t =>
    rw [heq] at hend
    exact hend
  | done v t =>
    rw [heq] at hend
    obtain ⟨hle, ht, hfresh⟩ := hend
    exact ⟨hle, ht, .inr (hfresh.resolve_left Bool.false_ne_true).late⟩

/-- More values may be waived. -/
theorem waive {waived' : α → Bool} (h : Lays lo least held p out past waived)
    (himp : ∀ v, waived v = true → waived' v = true) : Lays lo least held p out past waived' := by
  intro s hs
  have hend := h s hs
  cases heq : p s with
  | failed failure t =>
    rw [heq] at hend
    exact hend
  | done v t =>
    rw [heq] at hend
    exact ⟨hend.1, hend.2.1, hend.2.2.imp_left (himp v)⟩

/-- What is held stays in hand while a parser reads. -/
theorem frame {part : α → List Tree} (hp : Reads p part past) :
    Lays lo least held p (fun v => held ++ part v) past := by
  intro s hs
  have hend := hp s.pos s (.nothing hs.sound (Nat.le_refl _) (Nat.le_refl _))
  cases heq : p s with
  | failed failure t =>
    rw [heq] at hend
    exact hend
  | done v t =>
    rw [heq] at hend
    obtain ⟨hle, ht, hfresh⟩ := hend
    refine ⟨hle, hs.extend ht hle, .inr (.append (.ofSubset (List.Subset.refl _)) ?_)⟩
    exact (hfresh.resolve_left Bool.false_ne_true).hold (List.nil_subset _)

/-- A parser that reads trees, and what follows with these in hand too. -/
theorem step {part : α → List Tree} {f : α → Parse β} {out : β → List Tree} {waived : β → Bool}
    (hp : Reads p part) (hf : ∀ v, Lays lo least (held ++ part v) (f v) out past waived) :
    Lays lo least held (p >>= f) out past waived :=
  bind (frame fun lo => (hp lo).relax) hf

/-- A parser that may read a landmark at its start, and what follows with its trees in hand too. -/
theorem stepLate {part : α → List Tree} {f : α → Parse β} {out : β → List Tree}
    {waived : β → Bool} (hp : Reads p part true)
    (hf : ∀ v, Lays lo least (held ++ part v) (f v) out true waived) :
    Lays lo least held (p >>= f) out true waived :=
  bind (frame hp) hf

/-- A parser whose trees are not kept, and what follows. -/
theorem passOver {f : α → Parse β} {out : β → List Tree} {waived : β → Bool}
    (hp : Reads p fun _ => []) (hf : ∀ v, Lays lo least held (f v) out past waived) :
    Lays lo least held (p >>= f) out past waived :=
  step hp fun v => by simpa using hf v

/-- A parser that reads no trees, and what follows. -/
theorem skip {f : α → Parse β} {out : β → List Tree} {waived : β → Bool} [hp : Moves p]
    (hf : ∀ v, Lays lo least held (f v) out past waived) :
    Lays lo least held (p >>= f) out past waived :=
  passOver hp.reads hf

/-- A parser that reads from a place on what follows that place, whatever was held. -/
theorem rebase {lo' : Nat} (h : Lays lo' lo' [] p out past waived) (hlo : lo ≤ lo')
    (hleast : lo' ≤ least) : Lays lo least held p out past waived := by
  intro s hs
  have hend := h s (.nothing hs.sound (Nat.le_refl _) (Nat.le_trans hleast hs.least_le))
  have hheld : Ends lo' lo' held out past waived s (p s) := hend.since (Nat.le_refl _) .nil
  cases heq : p s with
  | failed failure t =>
    rw [heq] at hheld
    exact hheld
  | done v t =>
    rw [heq] at hheld
    obtain ⟨hle, ht, hfresh⟩ := hheld
    exact ⟨hle, ht.weaken hlo hs.lo_le (Nat.le_trans hs.least_le hle), hfresh⟩

/-- A parser that takes a character, and what follows past it. -/
theorem pass {f : α → Parse β} {out : β → List Tree} {waived : β → Bool} [hp : Moves p]
    (hadvances : Advances p) (hf : ∀ v, Lays lo (least + 1) held (f v) out true waived) :
    Lays lo least held (p >>= f) out past waived := by
  intro s hs
  have hend := hp.reads s.pos s (.nothing hs.sound (Nat.le_refl _) (Nat.le_refl _))
  cases heq : p s with
  | failed failure t =>
    rw [heq] at hend
    rw [bind_of_failed heq]
    exact hend
  | done v t =>
    rw [heq] at hend
    obtain ⟨-, ht, -⟩ := hend
    rw [bind_of_done heq]
    have hlt := hadvances hs.sound heq
    have hleast := hs.least_le
    have hpast : Holding lo (least + 1) held t :=
      (hs.later ht.sound (Nat.le_of_lt hlt)).weaken (Nat.le_refl _) (Nat.le_succ_of_le hs.lo_le)
        (by omega)
    exact ((hf v t hpast).forget (Nat.le_refl _) hs.lo_le (Nat.le_succ _)).sinceToken hlt

/-- A value, whose trees are held. -/
theorem pure {v : α} (hsub : (out v).Subperm held) :
    Lays lo least held (Pure.pure v) out past waived :=
  fun _ hs => ⟨Nat.le_refl _, hs.subperm hsub, .inr (.ofSubset hsub.subset)⟩

/-- A value by another name, and what follows. -/
theorem known {v : α} {f : α → Parse β} {out : β → List Tree} {waived : β → Bool}
    (hf : Lays lo least held (f v) out past waived) :
    Lays lo least held (Pure.pure v >>= f) out past waived :=
  hf

/-- One parser or another. -/
theorem ite {c : Prop} [Decidable c] {q : Parse α} (hp : c → Lays lo least held p out past waived)
    (hq : ¬ c → Lays lo least held q out past waived) :
    Lays lo least held (if c then p else q) out past waived := by
  split
  · rename_i hc
    exact hp hc
  · rename_i hc
    exact hq hc

/-- A parser that reads no trees or nothing, and what follows. -/
theorem maybe {c : Prop} [Decidable c] {q : Parse β} {out : β → List Tree} {waived : β → Bool}
    [Moves p] (hq : Lays lo least held q out past waived) :
    Lays lo least held (if c then p >>= fun _ => q else q) out past waived :=
  ite (fun _ => skip fun _ => hq) fun _ => hq

/-- One parser that reads no trees or another, and what follows. -/
theorem skipEither {c : Prop} [Decidable c] {q : Parse α} {f : α → Parse β} {out : β → List Tree}
    {waived : β → Bool} [Moves p] [Moves q]
    (hf : ∀ v, Lays lo least held (f v) out past waived) :
    Lays lo least held (if c then p >>= f else q >>= f) out past waived :=
  ite (fun _ => skip hf) fun _ => skip hf

/-- One parser or another, and what follows. -/
theorem either {c : Prop} [Decidable c] {q : Parse α} {part : α → List Tree} {f : α → Parse β}
    {out : β → List Tree} {waived : β → Bool} (hp : c → Reads p part) (hq : ¬ c → Reads q part)
    (hf : ∀ v, Lays lo least (held ++ part v) (f v) out past waived) :
    Lays lo least held (if c then p >>= f else q >>= f) out past waived :=
  ite (fun hc => step (hp hc) hf) fun hc => step (hq hc) hf

/-- Trees that may be there, and what follows. -/
theorem optional {c : Prop} [Decidable c] {p : Parse (List Tree)} {f : List Tree → Parse β}
    {out : β → List Tree} {waived : β → Bool} (hp : Reads p fun ts => ts)
    (hf : ∀ ts, Lays lo least (held ++ ts) (f ts) out past waived) :
    Lays lo least held (if c then p >>= f else Pure.pure [] >>= f) out past waived :=
  either (fun _ => hp) (fun _ _ => pure (.refl _)) hf

/-- A parser that stays where it is and fails. -/
theorem fails (h : ∀ s, ∃ failure, p s = .failed failure s) :
    Lays lo least held p out past waived := by
  intro s hs
  obtain ⟨failure, heq⟩ := h s
  rw [heq]
  exact ⟨Nat.le_refl _, hs.sound⟩

theorem fail {fault : Fault} : Lays lo least held (fail fault) out past waived :=
  fails fun _ => ⟨_, rfl⟩

theorem failAt {line : Nat} {fault : Fault} : Lays lo least held (failAt line fault) out past waived :=
  fails fun _ => ⟨_, rfl⟩

theorem unexpected {wanted : String} :
    Lays lo least held (unexpected wanted) out past waived :=
  fails fun _ => ⟨_, rfl⟩

theorem failAtEnd : Lays lo least held failAtEnd out past waived :=
  fails fun _ => ⟨_, rfl⟩

/-- The place of the next token, which the state is not before from then on. -/
theorem hereAfter {f : Mark → Parse β} {out : β → List Tree} {waived : β → Bool}
    (hf : ∀ start : Mark, least ≤ start.offset →
      Lays lo start.offset held (f start) out past waived) :
    Lays lo least held (Parse.here >>= f) out past waived := by
  intro s hs
  have hat : Holding lo s.pos held s :=
    hs.weaken (Nat.le_refl _) (Nat.le_trans hs.lo_le hs.least_le) (Nat.le_refl _)
  exact (hf s.token.start hs.least_le s hat).forget (Nat.le_refl _) hs.lo_le hs.least_le

/-- The place of the next token, with nothing in hand: all that follows is read from there on. -/
theorem here {f : Mark → Parse β} {out : β → List Tree} {waived : β → Bool}
    (hf : ∀ start : Mark, Lays start.offset start.offset [] (f start) out past waived) :
    Lays lo least [] (Parse.here >>= f) out past waived := by
  intro s hs
  exact hereAfter (fun start hstart => (hf start).rebase (Nat.le_trans hs.lo_le hstart)
    (Nat.le_refl _)) s hs

/-- A parser that reads its trees from the next token on, and what follows. -/
theorem inner {q : Mark → Parse α} {part : α → List Tree} {f : α → Parse β} {out : β → List Tree}
    {waived : β → Bool} (hq : ∀ start : Mark, Lays start.offset start.offset [] (q start) part)
    (hf : ∀ v, Lays lo least (held ++ part v) (f v) out past waived) :
    Lays lo least held (Parse.here >>= fun start => q start >>= f) out past waived := by
  rw [← bind_assoc]
  exact step (fun lo => here hq) hf

/-- The next token, which the state is not before from then on. -/
theorem tokenAfter {f : Token → Parse β} {out : β → List Tree} {waived : β → Bool}
    (hf : ∀ t : Token, least ≤ t.start.offset →
      Lays lo t.start.offset held (f t) out past waived) :
    Lays lo least held (Parse.token >>= f) out past waived := by
  intro s hs
  have hat : Holding lo s.pos held s :=
    hs.weaken (Nat.le_refl _) (Nat.le_trans hs.lo_le hs.least_le) (Nat.le_refl _)
  exact (hf s.token hs.least_le s hat).forget (Nat.le_refl _) hs.lo_le hs.least_le

/-- A parser that reads trees reads them in each state. -/
theorem readsAt {s : State} (h : Lays s.pos s.pos [] p out) (hs : s.token.Sound) :
    ReadsAt s p out :=
  h s (.nothing hs (Nat.le_refl _) (Nat.le_refl _))

/-- The next token of a state, with nothing in hand: all that follows is read from there on. -/
theorem tokenHere {f : Token → Parse β} {out : β → List Tree}
    (hf : ∀ s : State, s.token.Sound → ReadsAt s (f s.token) out) :
    Lays lo least [] (Parse.token >>= f) out := by
  intro s hs
  have hend := hf s hs.sound
  unfold ReadsAt at hend
  exact hend.forget (Nat.le_trans hs.lo_le hs.least_le) hs.lo_le hs.least_le

/-- The next token, with nothing in hand: all that follows is read from there on. -/
theorem token {f : Token → Parse β} {out : β → List Tree}
    (hf : ∀ t : Token, Lays t.start.offset t.start.offset [] (f t) out) :
    Lays lo least [] (Parse.token >>= f) out :=
  tokenHere fun s hs => (hf s.token).readsAt hs

/-- The span from a place to where a parser stands. -/
theorem span {start : Mark} {f : Span → Parse β} {out : β → List Tree} {waived : β → Bool}
    (hf : ∀ stop, Lays lo least held (f ⟨start, stop⟩) out past waived) :
    Lays lo least held (spanFrom start >>= f) out past waived :=
  fun s hs => hf s.last s hs

/-- A tree that is no landmark and is made of what is held. It starts at `lo`, or the state is past
its start. -/
theorem unmarked {v : α} {t : Tree} (hout : out v = [t]) (hmark : t.isLandmark = false)
    (hholds : t.holdsMembers = true) (hsub : t.parts.Subperm held)
    (hstart : t.span.start.offset = lo ∨ lo ≤ t.span.start.offset ∧ t.span.start.offset < least) :
    Lays lo least held (Pure.pure v) out past waived :=
  fun _ hs => ⟨Nat.le_refl _,
    hout ▸ hs.placed hholds hsub (hstart.imp_left fun hstart => ⟨hstart, hmark⟩),
    .inr (hout ▸ .tree hmark hsub.subset)⟩

/-- A tree of a kind that no landmark has, made of what is held. It starts at `lo`, or the state is
past its start. -/
theorem tree {v : α} {t : Tree} (hout : out v = [t]) (hplain : t.isPlain = true)
    (hsub : t.parts.Subperm held)
    (hstart : t.span.start.offset = lo ∨ lo ≤ t.span.start.offset ∧ t.span.start.offset < least) :
    Lays lo least held (Pure.pure v) out past waived :=
  unmarked hout (Tree.isLandmark_of_isPlain hplain) (Tree.holdsMembers_of_isPlain hplain) hsub hstart

/-- What is held may be made into a tree that is no landmark. -/
theorem wrap {t : Tree} (h : Lays lo least [t] p out past waived) (hplain : t.isPlain = true)
    (hsub : t.parts.Subperm held)
    (hstart : t.span.start.offset = lo ∨ lo ≤ t.span.start.offset ∧ t.span.start.offset < least) :
    Lays lo least held p out past waived :=
  fun s hs => (h s (hs.built hplain hsub hstart)).since (Nat.le_refl _)
    (.tree (Tree.isLandmark_of_isPlain hplain) hsub.subset)

/-- A tree in hand may be opened. -/
theorem opened {t : Tree} (h : Lays lo least (t.parts ++ held) p out past waived) :
    Lays lo least (t :: held) p out past waived :=
  fun s hs => (h s hs.opened).since (Nat.le_refl _)
    (.append (.parts List.mem_cons_self) (.ofSubset (List.subset_cons_self t held)))

/-- A tree as it is made by `tree`, and what follows. -/
theorem treeThen {t : Tree} {f : Tree → Parse β} {out : β → List Tree} {waived : β → Bool}
    (hplain : t.isPlain = true) (hsub : t.parts.Subperm held)
    (hstart : t.span.start.offset = lo ∨ lo ≤ t.span.start.offset ∧ t.span.start.offset < least)
    (hf : ∀ u, Lays lo least [u] (f u) out past waived) :
    Lays lo least held (Pure.pure t >>= f) out past waived :=
  bind (tree rfl hplain hsub hstart) hf

/-- A tree without parts. -/
theorem leaf {v : α} {span : Span} (hout : out v = [.leaf span]) :
    Lays lo least held (Pure.pure v) out past waived :=
  fun _ hs => ⟨Nat.le_refl _, hout ▸ hs.leaf span, .inr (hout ▸ .leaf span)⟩

/-- A tree without parts may be taken in hand. -/
theorem withLeaf {span : Span} (h : Lays lo least [.leaf span] p out past waived) :
    Lays lo least [] p out past waived :=
  fun s hs => (h s (hs.leaf span)).since (Nat.le_refl _) (.leaf span)

/-- A declaration whose start the state is past. -/
theorem declared {v : α} {t : Tree} (hout : out v = [t]) (hwaived : waived v = true)
    (hholds : t.holdsMembers = true) (hsub : t.parts.Subperm held)
    (hlo : lo ≤ t.span.start.offset) (hlt : t.span.start.offset < least) :
    Lays lo least held (Pure.pure v) out past waived :=
  fun _ hs => ⟨Nat.le_refl _, hout ▸ hs.placed hholds hsub (.inr ⟨hlo, hlt⟩), .inl hwaived⟩

/-- A parser that may fail, with what was held in hand if it does. -/
theorem attempt (h : Lays lo least held p out past) :
    Lays lo least held (attempt p) (fun o => o.elim held out) past := by
  intro s hs
  have hend := h s hs
  simp only [Parse.attempt]
  cases heq : p s with
  | failed failure t => exact ⟨Nat.le_refl _, hs, .inr (.ofSubset (List.Subset.refl _))⟩
  | done v t =>
    rw [heq] at hend
    exact hend

/-- A parser that may fail or decline, with what was held in hand if it does. -/
theorem attempt? {p : Parse (Option α)} {waived : Option α → Bool}
    (h : Lays lo least held p (fun o => o.elim [] out) past waived) :
    Lays lo least held (attempt? p) (fun o => o.elim held out) past waived := by
  intro s hs
  have hend := h s hs
  simp only [Parse.attempt?]
  have hnone : Ends lo least held (fun o : Option α => o.elim held out) past waived s
      (.done none s) :=
    ⟨Nat.le_refl _, hs, .inr (.ofSubset (List.Subset.refl _))⟩
  cases heq : p s with
  | failed failure t => exact hnone
  | done v t =>
    cases v with
    | none => exact hnone
    | some v =>
      rw [heq] at hend
      exact hend

/-- What stays in hand where a parser declines is not counted. -/
theorem declined {p : Parse (Option α)} {rest : List Tree} {waived : Option α → Bool}
    (h : Lays lo least held p (fun o => o.elim rest out) past waived) :
    Lays lo least held p (fun o => o.elim [] out) past waived := by
  refine h.weaken fun o => ?_
  cases o with
  | none => exact List.nil_subperm
  | some v => exact .refl _

/-- A tree that may be there, with nothing in hand if it is not. -/
theorem attemptTree? {p : Parse (Option Tree)} (h : Lays lo least [] p Option.toList past) :
    Lays lo least [] (Parse.attempt? p) Option.toList past := by
  have helim : Lays lo least [] p (fun o => o.elim [] fun t => [t]) past :=
    h.weaken fun o => by cases o <;> exact .refl _
  exact helim.attempt?.weaken fun o => by cases o <;> exact .refl _

/-- A value that was found. -/
theorem found {rest : List Tree} (h : Lays lo least held p out past waived) :
    Lays lo least held (p >>= fun v => Pure.pure (some v)) (fun o => o.elim rest out) past
      fun o => o.any waived :=
  bindGiven h (fun _ => pure (.refl _)) fun _ hv => .pure hv

/-- What follows a value that may be there, or its absence. -/
theorem foundOr {p : Parse (Option α)} {mid : α → List Tree} {rest : List Tree}
    {f : Option α → Parse β} {out : β → List Tree} {waived : β → Bool}
    (hp : Lays lo least held p (fun o => o.elim rest mid) past)
    (hsome : ∀ v, Lays lo least (mid v) (f (some v)) out past waived)
    (hnone : Lays lo least rest (f none) out past waived) :
    Lays lo least held (p >>= f) out past waived :=
  bind hp fun o => by
    cases o with
    | some v => exact hsome v
    | none => exact hnone

/-- What follows a value that may be there, or its absence. A value that is waived must go into one
that is. -/
theorem foundOrGiven {p : Parse (Option α)} {mid : α → List Tree} {rest : List Tree}
    {f : Option α → Parse β} {out : β → List Tree} {given : α → Bool} {waived : β → Bool}
    (hp : Lays lo least held p (fun o => o.elim rest mid) past fun o => o.any given)
    (hsome : ∀ v, Lays lo least (mid v) (f (some v)) out past waived)
    (hgiven : ∀ v, given v = true → Yields (f (some v)) (waived · = true))
    (hnone : Lays lo least rest (f none) out past waived) :
    Lays lo least held (p >>= f) out past waived := by
  refine bindGiven hp (fun o => ?_) fun o ho => ?_
  · cases o with
    | some v => exact hsome v
    | none => exact hnone
  · cases o with
    | some v => exact hgiven v ho
    | none => cases ho

/-- What follows where a parser declines, with what was held in hand. -/
theorem foundOrHeld {p : Parse (Option α)} {mid : α → List Tree} {f : Option α → Parse β}
    {out : β → List Tree} {given : α → Bool} {waived : β → Bool}
    (hp : Lays lo least held p (fun o => o.elim [] mid) past fun o => o.any given)
    (hsome : ∀ v, Lays lo least (mid v) (f (some v)) out past waived)
    (hgiven : ∀ v, given v = true → Yields (f (some v)) (waived · = true))
    (hnone : Lays lo least held (f none) out past waived) :
    Lays lo least held (p >>= f) out past waived := by
  have hheld : Lays lo least held p (fun o => o.elim held mid) past fun o => o.any given := ?_
  · exact foundOrGiven hheld hsome hgiven hnone
  intro s hs
  have hend := hp s hs
  cases heq : p s with
  | failed failure t =>
    rw [heq] at hend
    exact hend
  | done o t =>
    rw [heq] at hend
    cases o with
    | none =>
      obtain ⟨hle, ht, -⟩ := hend
      exact ⟨hle, hs.later ht.sound hle, .inr (.ofSubset (List.Subset.refl _))⟩
    | some v => exact hend

/-- A parser that may find a value or is not tried, and what follows. -/
theorem foundOrIf {c : Prop} [Decidable c] {p : Parse (Option α)} {mid : α → List Tree}
    {f : Option α → Parse β} {out : β → List Tree} {waived : β → Bool}
    (hp : Lays lo least held p (fun o => o.elim held mid) past)
    (hsome : ∀ v, Lays lo least (mid v) (f (some v)) out past waived)
    (hnone : Lays lo least held (f none) out past waived) :
    Lays lo least held (if c then p >>= f else f none) out past waived :=
  ite (fun _ => foundOr hp hsome hnone) fun _ => hnone

/-- A parser that goes on where another one failed. -/
theorem orElseThere {f : Failure → Parse α} (hp : Lays lo least held p out past waived)
    (hf : ∀ failure, Lays lo least held (f failure) out past waived) :
    Lays lo least held (orElseThere p f) out past waived := by
  intro s hs
  have hend := hp s hs
  simp only [Parse.orElseThere]
  cases heq : p s with
  | done v t =>
    rw [heq] at hend
    exact hend
  | failed failure t =>
    rw [heq] at hend
    obtain ⟨hle, hsound⟩ := hend
    exact (hf failure t (hs.later hsound hle)).since hle (.ofSubset (List.Subset.refl _))

/-- A value whose trees are in hand, carried through a parser. -/
theorem iterate {p : α → Parse (α × Bool)} {v : α} (hsub : (out v).Subperm held)
    (h : ∀ v, Lays lo least (out v) (p v) (fun r => out r.1) past) :
    Lays lo least held (iterate p v) out past := by
  have hupTo : ∀ n v, Lays lo least (out v) (iterateUpTo p n v) out past := by
    intro n
    induction n with
    | zero => exact fun _ => fail
    | succ n ih =>
      intro v
      refine bind (h v) fun r => ?_
      exact ite (fun _ => ih r.1) fun _ => pure (.refl _)
  refine drop (fun s hs => ?_) hsub
  exact hupTo _ v s hs

/-- A value whose trees are in hand, carried through a parser, and what follows. -/
theorem loop (trees : α → List Tree) {p : α → Parse (α × Bool)} {f : α → Parse β} {v : α}
    {out : β → List Tree} {waived : β → Bool} (hsub : (trees v).Subperm held)
    (h : ∀ v, Lays lo least (trees v) (p v) (fun r => trees r.1) past)
    (hf : ∀ v, Lays lo least (trees v) (f v) out past waived) :
    Lays lo least held (Parse.iterate p v >>= f) out past waived :=
  bind (iterate hsub h) hf

/-- A parser that takes something keeps what it has in hand. -/
theorem advancing (h : Lays lo least held p out past waived) :
    Lays lo least held (advancing p) out past waived := by
  intro s hs
  have hend := h s hs
  simp only [Parse.advancing]
  cases heq : p s with
  | failed failure t =>
    rw [heq] at hend
    exact hend
  | done v t =>
    rw [heq] at hend
    dsimp only
    split
    · exact hend
    · exact ⟨hend.1, hend.2.1.sound⟩

end Lays

namespace Reads

variable {p : Parse α} {out : α → List Tree} {past : Bool}

/-- Landmarks that are not before the start of a parser. -/
theorem ofLays {waived : α → Bool} (h : ∀ lo, Lays lo lo [] p out past waived) :
    Reads p out true := by
  intro lo s hs
  have hend := h s.pos s (.nothing hs.sound (Nat.le_refl _) (Nat.le_refl _))
  cases heq : p s with
  | failed failure t =>
    rw [heq] at hend
    exact hend
  | done v t =>
    rw [heq] at hend
    obtain ⟨hle, ht, -⟩ := hend
    have hleast := Nat.le_trans hs.least_le hle
    exact ⟨hle, ht.weaken hs.least_le (Nat.le_refl _) hleast, .inr (.ofScattered ht.scattered)⟩

/-- A member that starts where its parser does, and that the parser goes past. -/
theorem advancing {p : Parse Tree} (hparts : Reads p Tree.parts) (hmember : YieldsAt p Tree.IsMemberAt) :
    Reads (advancing p) (fun t => [t]) true := by
  have hlays : ∀ lo, Lays lo lo [] (Parse.advancing p) (fun t => [t]) true fun _ => true := ?_
  · exact .ofLays hlays
  intro lo s hs
  have hend := hparts s.pos s (.nothing hs.sound (Nat.le_refl _) (Nat.le_refl _))
  unfold Parse.advancing
  cases heq : p s with
  | failed failure t =>
    rw [heq] at hend
    exact hend
  | done v t =>
    rw [heq] at hend
    obtain ⟨hle, ht, -⟩ := hend
    obtain ⟨hstart, hbody⟩ := hmember s v t heq
    dsimp only
    split
    · rename_i hlt
      have hpast : Holding s.pos (s.pos + 1) v.parts t := ht.weaken (Nat.le_refl _) (Nat.le_succ _) hlt
      have hpos : v.span.start.offset = s.pos := congrArg Mark.offset hstart
      have hplaced := hpast.placed (Tree.holdsMembers_of_isBodyMember hbody) (.refl _)
        (.inr ⟨by omega, by omega⟩)
      exact ⟨hle, hplaced.weaken hs.least_le (Nat.le_refl _) (Nat.le_trans hs.least_le hle), .inl rfl⟩
    · exact ⟨hle, ht.sound⟩

/-- A parser that is repeated at most so often. -/
theorem repeatedUpTo {p : Parse (Option α)} (h : Reads p (fun o => o.elim [] out) past) (n : Nat) :
    Reads (repeatedUpTo p n) (fun vs => vs.flatMap out) past := by
  induction n with
  | zero => exact fun _ => .fail
  | succ n ih =>
    intro lo
    refine .bind (h lo) fun o => ?_
    cases o with
    | none => exact .pure (List.Subperm.refl _)
    | some v =>
      refine .bind (.frame ih) fun vs => .pure ?_
      rw [List.flatMap_cons]
      exact List.Subperm.refl _

/-- A parser that is repeated. -/
theorem repeated {p : Parse (Option α)} (h : Reads p (fun o => o.elim [] out) past) :
    Reads (repeated p) (fun vs => vs.flatMap out) past :=
  fun lo s hs => repeatedUpTo h _ lo s hs

/-- Values with a tree each that are read one by one. -/
theorem values (tree : α → Tree) {p : Parse (Option α)}
    (h : Reads p (fun o => (o.map tree).toList) past) :
    Reads (Parse.repeated p) (fun vs => vs.map tree) past := by
  have hread : Reads p (fun o => o.elim [] fun v => [tree v]) past :=
    fun lo => (h lo).weaken fun o => by cases o <;> exact .refl _
  intro lo
  refine (repeated hread lo).weaken fun vs => ?_
  rw [List.map_eq_flatMap]

/-- Trees that are read one by one. -/
theorem trees {p : Parse (Option Tree)} (h : Reads p Option.toList past) :
    Reads (Parse.repeated p) (fun ts => ts) past := by
  have hread := values id fun lo => (h lo).weaken fun o => by cases o <;> exact .refl _
  intro lo
  exact (hread lo).weaken fun ts => by rw [List.map_id]

/-- Lists of trees that are read one by one. -/
theorem lists {p : Parse (Option (List Tree))} (h : Reads p (fun o => o.getD []) past) :
    Reads (Parse.repeated p) List.flatten past := by
  have hread : Reads p (fun o => o.elim [] fun ts => ts) past :=
    fun lo => (h lo).weaken fun o => by cases o <;> exact List.Subperm.refl _
  intro lo
  refine (repeated hread lo).weaken fun ts => ?_
  rw [List.flatMap_id']

end Reads

end Parse
end TypeScript
end FetchClients
