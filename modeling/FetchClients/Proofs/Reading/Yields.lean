/-
# What parsers give

A property of all values that a parser can give is shown along the way in which the
parser is put together.

Key definitions: `Parse.Yields`, `Parse.YieldsAt`.
Key theorems: `Parse.Yields.bind`, `Parse.Yields.foundOr`, `Parse.Yields.repeated`.
-/
import FetchClients.TypeScript.Parser.Basic

namespace FetchClients
namespace TypeScript

/-- Where the next token starts. -/
def State.pos (s : State) : Nat := s.token.start.offset

namespace Parse

variable {α β : Type}

/-- A parser all of whose values have a property. -/
def Yields (p : Parse α) (P : α → Prop) : Prop :=
  ∀ s v t, p s = .done v t → P v

/-- A parser all of whose trees have a property of the place where it starts. -/
def YieldsAt (p : Parse Tree) (Q : Mark → Tree → Prop) : Prop :=
  ∀ s t next, p s = .done t next → Q s.token.start t

theorem bind_of_done {p : Parse α} {f : α → Parse β} {s t : State} {v : α} (h : p s = .done v t) :
    (p >>= f) s = f v t := by
  change bind p f s = f v t
  simp only [bind, h]

theorem bind_of_failed {p : Parse α} {f : α → Parse β} {s t : State} {failure : Failure}
    (h : p s = .failed failure t) : (p >>= f) s = .failed failure t := by
  change bind p f s = _
  simp only [bind, h]

instance : LawfulMonad Parse := by
  refine LawfulMonad.mk' Parse ?_ ?_ ?_
  · intro α p
    funext s
    change bind p (fun v => pure v) s = p s
    simp only [bind]
    cases p s <;> rfl
  · intro α β v f
    rfl
  · intro α β γ p f k
    funext s
    change bind (bind p f) k s = bind p (fun v => bind (f v) k) s
    simp only [bind]
    cases p s <;> rfl

/-- A parser that must take something succeeds where it does. -/
theorem advancing_eq_done_iff {p : Parse α} {s t : State} {v : α} :
    advancing p s = .done v t ↔ p s = .done v t ∧ s.pos < t.pos := by
  unfold advancing
  cases p s with
  | failed failure u => simp
  | done w u =>
    dsimp only
    split
    · rename_i hlt
      constructor
      · intro h
        cases h
        exact ⟨rfl, hlt⟩
      · rintro ⟨h, -⟩
        exact h
    · rename_i hle
      constructor
      · intro h
        cases h
      · rintro ⟨h, hlt⟩
        cases h
        exact absurd hlt hle

/-- A repeated parser that takes nothing ends where the parser first gives nothing. -/
theorem repeated_eq_done_nil {p : Parse (Option α)} {s t : State} (h : repeated p s = .done [] t) :
    p s = .done none t := by
  change repeatedUpTo p (s.size - s.token.stop.offset + 2) s = .done [] t at h
  obtain ⟨o, u, hfirst, hrest⟩ := bind_eq_done_iff.mp h
  cases o with
  | none =>
    cases hrest
    exact hfirst
  | some w =>
    obtain ⟨ws, next, -, hdone⟩ := bind_eq_done_iff.mp hrest
    cases hdone

/-- What a repeated parser takes first, and what it goes on with. -/
theorem repeated_eq_done_cons {p : Parse (Option α)} {s t : State} {v : α} {vs : List α}
    (h : repeated p s = .done (v :: vs) t) :
    ∃ n u, p s = .done (some v) u ∧ repeatedUpTo p n u = .done vs t := by
  change repeatedUpTo p (s.size - s.token.stop.offset + 2) s = .done (v :: vs) t at h
  generalize s.size - s.token.stop.offset + 2 = n at h
  cases n with
  | zero => cases h
  | succ n =>
    obtain ⟨o, u, hfirst, hrest⟩ := bind_eq_done_iff.mp h
    cases o with
    | none => cases hrest
    | some w =>
      obtain ⟨ws, next, hlater, hdone⟩ := bind_eq_done_iff.mp hrest
      cases hdone
      exact ⟨n, u, hfirst, hlater⟩

/-- Nothing follows a fault. -/
theorem fail_bind (fault : Fault) (f : α → Parse β) : (fail fault >>= f) = fail fault :=
  rfl

namespace Yields

variable {P : α → Prop} {Q : β → Prop} {p q : Parse α} {f : α → Parse β}

theorem bind (h : ∀ v, Yields (f v) Q) : Yields (p >>= f) Q := by
  intro s w u heq
  cases hp : p s with
  | failed failure t =>
    rw [bind_of_failed hp] at heq
    cases heq
  | done v t =>
    rw [bind_of_done hp] at heq
    exact h v t w u heq

theorem bindKnown (hp : Yields p P) (h : ∀ v, P v → Yields (f v) Q) : Yields (p >>= f) Q := by
  intro s w u heq
  cases hdone : p s with
  | failed failure t =>
    rw [bind_of_failed hdone] at heq
    cases heq
  | done v t =>
    rw [bind_of_done hdone] at heq
    exact h v (hp s v t hdone) t w u heq

/-- What follows a value that may be there, or its absence. -/
theorem foundOr {p : Parse (Option α)} {f : Option α → Parse β} (hp : Yields p fun o => ∀ v ∈ o, P v)
    (hsome : ∀ v, P v → Yields (f (some v)) Q) (hnone : Yields (f none) Q) : Yields (p >>= f) Q :=
  bindKnown hp fun o ho => by
    cases o with
    | some v => exact hsome v (ho v rfl)
    | none => exact hnone

theorem pure {v : α} (h : P v) : Yields (Pure.pure v) P := by
  intro s w t heq
  cases heq
  exact h

theorem span {start : Mark} {f : Span → Parse β} (h : ∀ stop, Yields (f ⟨start, stop⟩) Q) :
    Yields (spanFrom start >>= f) Q :=
  fun s v t heq => h s.last s v t heq

theorem ite {c : Prop} [Decidable c] (hp : Yields p P) (hq : Yields q P) :
    Yields (if c then p else q) P := by
  split
  · exact hp
  · exact hq

theorem maybe {c : Prop} [Decidable c] {q : Parse β} (h : Yields q Q) :
    Yields (if c then p >>= fun _ => q else q) Q :=
  ite (bind fun _ => h) h

theorem either {c : Prop} [Decidable c] (h : ∀ v, Yields (f v) Q) :
    Yields (if c then p >>= f else q >>= f) Q :=
  ite (bind h) (bind h)

theorem mono {P' : α → Prop} (h : Yields p P) (himp : ∀ v, P v → P' v) : Yields p P' :=
  fun s v t heq => himp v (h s v t heq)

/-- A parser that fails yields nothing. -/
theorem fails (h : ∀ s, ∃ failure t, p s = .failed failure t) : Yields p P := by
  intro s v t heq
  obtain ⟨failure, u, hfailed⟩ := h s
  rw [hfailed] at heq
  cases heq

theorem fail {fault : Fault} : Yields (fail fault) P :=
  fails fun _ => ⟨_, _, rfl⟩

theorem unexpected {wanted : String} : Yields (unexpected wanted) P :=
  fails fun _ => ⟨_, _, rfl⟩

theorem advancing (h : Yields p P) : Yields (advancing p) P :=
  fun s v t heq => h s v t (advancing_eq_done_iff.mp heq).1

/-- What a parser that may decline yields where it does not. -/
theorem attempt? {p : Parse (Option α)} (h : Yields p fun o => ∀ v ∈ o, P v) :
    Yields (attempt? p) fun o => ∀ v ∈ o, P v := by
  intro s o t heq
  unfold Parse.attempt? at heq
  split at heq
  · rename_i hdone
    cases heq
    exact h s _ t hdone
  · cases heq
    simp
  · cases heq
    simp

theorem repeated {p : Parse (Option α)} (h : Yields p fun o => ∀ v ∈ o, P v) :
    Yields (repeated p) fun vs => ∀ v ∈ vs, P v := by
  have hupTo : ∀ n, Yields (repeatedUpTo p n) fun vs => ∀ v ∈ vs, P v := by
    intro n
    induction n with
    | zero => exact .fail
    | succ n ih =>
      refine .bindKnown h fun o ho => ?_
      cases o with
      | none => exact .pure (by simp)
      | some v => exact .bindKnown ih fun vs hvs => .pure (List.forall_mem_cons.mpr ⟨ho v rfl, hvs⟩)
  exact .bind fun n => hupTo n

end Yields

/-- A tree that is built at the place of the next token. -/
theorem YieldsAt.here {body : Mark → Parse Tree} {Q : Mark → Tree → Prop}
    (h : ∀ start, Yields (body start) (Q start)) : YieldsAt (here >>= body) Q :=
  fun s t next heq => h s.token.start s t next heq

end Parse
end TypeScript
end FetchClients
