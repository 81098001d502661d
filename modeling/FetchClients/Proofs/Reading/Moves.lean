/-
# Parsers that read no trees

What only looks at tokens or takes them moves on and reads no trees. A token with
characters takes a parser past the place where it starts.

Key theorems: `Parse.Moves.of_forall`, `Parse.advances_expectSign`, `Parse.Lays.ifEaten`,
`Parse.Lays.atWord`.
-/
import FetchClients.Proofs.Reading.Basic

namespace FetchClients
namespace TypeScript
namespace Parse

variable {α β : Type}

namespace Moves

/-- A parser that never goes back. -/
theorem of_forall {p : Parse α} (h : ∀ s, s.token.Sound →
    match p s with
    | .done _ t | .failed _ t => s.pos ≤ t.pos ∧ t.token.Sound) : Moves p := by
  refine ⟨fun lo s hs => ?_⟩
  have hend := h s hs.sound
  cases heq : p s with
  | failed failure t =>
    rw [heq] at hend
    exact hend
  | done v t =>
    rw [heq] at hend
    obtain ⟨hle, hsound⟩ := hend
    exact ⟨hle, hs.later hsound hle, .inr .nil⟩

/-- A parser that stays where it is. -/
theorem of_still {p : Parse α} (h : ∀ s, ∃ v, p s = .done v s) : Moves p := by
  refine of_forall fun s hs => ?_
  obtain ⟨v, heq⟩ := h s
  rw [heq]
  exact ⟨Nat.le_refl _, hs⟩

theorem of_reads {p : Parse α} (h : ∀ lo, Lays lo lo [] p fun _ => []) : Moves p := ⟨h⟩

end Moves

instance (v : α) : Moves (Pure.pure v : Parse α) := .of_still fun _ => ⟨_, rfl⟩
instance (v : α) : Moves (pure v) := .of_still fun _ => ⟨_, rfl⟩
instance : Moves token := .of_still fun _ => ⟨_, rfl⟩
instance : Moves here := .of_still fun _ => ⟨_, rfl⟩
instance : Moves lastEnd := .of_still fun _ => ⟨_, rfl⟩
instance (p : TokenKind → Bool) : Moves (test p) := .of_still fun _ => ⟨_, rfl⟩
instance (text : String) : Moves (isSign text) := .of_still fun _ => ⟨_, rfl⟩
instance (name : String) : Moves (isWord name) := .of_still fun _ => ⟨_, rfl⟩
instance (texts : List String) : Moves (isOneOf texts) := .of_still fun _ => ⟨_, rfl⟩
instance : Moves broken := .of_still fun _ => ⟨_, rfl⟩
instance (p : TokenKind → Bool) : Moves (peekIs p) := .of_still fun _ => ⟨_, rfl⟩
instance (p : TokenKind → Bool) : Moves (peekOnLine p) := .of_still fun _ => ⟨_, rfl⟩
instance : Moves atStatementEnd := .of_still fun _ => ⟨_, rfl⟩
instance (start : Mark) : Moves (spanFrom start) := .of_still fun _ => ⟨_, rfl⟩
instance (fault : Fault) : Moves (fail fault : Parse α) := ⟨fun _ => .fail⟩
instance (line : Nat) (fault : Fault) : Moves (failAt line fault : Parse α) := ⟨fun _ => .failAt⟩
instance (wanted : String) : Moves (unexpected wanted : Parse α) := ⟨fun _ => .unexpected⟩

/-- The state after a token is not before it. -/
theorem stop_le_stepped (s : State) :
    s.token.stop.offset ≤ (stepped s).pos ∧ (stepped s).token.Sound :=
  ⟨Gap.offset_le_after (some s.token.kind) ⟨s.token.stop, s.token.rest⟩, Token.sound_afterGap _⟩

instance : Moves bump := by
  refine .of_forall fun s hs => ?_
  obtain ⟨hle, hsound⟩ := stop_le_stepped s
  exact ⟨Nat.le_trans hs.le hle, hsound⟩

instance (p : Parse α) (f : α → Parse β) [Moves p] [∀ v, Moves (f v)] : Moves (p >>= f) :=
  ⟨fun lo => .skip fun _ => Moves.reads lo⟩

instance (c : Prop) [Decidable c] (p q : Parse α) [Moves p] [Moves q] :
    Moves (if c then p else q) :=
  ⟨fun lo => .ite (fun _ => Moves.reads lo) fun _ => Moves.reads lo⟩

instance (p : Parse Bool) : Moves (lookAhead p) := by
  refine .of_still fun s => ?_
  unfold lookAhead
  split <;> exact ⟨_, rfl⟩

instance (p : Parse α) [hp : Moves p] : Moves (attempt p) :=
  ⟨fun lo => (Lays.attempt (hp.reads lo)).weaken fun o => by cases o <;> exact List.nil_subperm⟩

/-- A parser that may decline reads no trees in either case. -/
theorem Moves.elim {p : Parse (Option α)} [hp : Moves p] :
    Reads p fun o => o.elim [] fun _ => [] :=
  fun lo => (hp.reads lo).weaken fun o => by cases o <;> exact .refl _

instance (p : Parse (Option α)) [Moves p] : Moves (attempt? p) :=
  ⟨fun lo => (Lays.attempt? (Moves.elim lo)).weaken fun o => by cases o <;> exact .refl _⟩

instance (p : Parse (Option α)) [Moves p] : Moves (repeated p) :=
  ⟨fun lo => (Reads.repeated Moves.elim lo).weaken fun _ => List.nil_subperm⟩

instance (text : String) : Moves (eatSign text) := by unfold eatSign; infer_instance
instance (name : String) : Moves (eatWord name) := by unfold eatWord; infer_instance
instance : Moves eatStatementEnd := by unfold eatStatementEnd; infer_instance
instance : Moves expectStatementEnd := by unfold expectStatementEnd; infer_instance

instance (text : String) : Moves (expectSign text) := by
  refine .of_forall fun s hs => ?_
  obtain ⟨hle, hsound⟩ := stop_le_stepped s
  unfold expectSign
  by_cases hkind : s.token.kind.isSign text = true
  · rw [if_pos hkind]
    exact ⟨Nat.le_trans hs.le hle, hsound⟩
  · rw [if_neg hkind]
    exact ⟨Nat.le_refl _, hs⟩

instance (name : String) : Moves (expectWord name) := by
  refine .of_forall fun s hs => ?_
  obtain ⟨hle, hsound⟩ := stop_le_stepped s
  unfold expectWord
  by_cases hkind : s.token.kind.isWord name = true
  · rw [if_pos hkind]
    exact ⟨Nat.le_trans hs.le hle, hsound⟩
  · rw [if_neg hkind]
    exact ⟨Nat.le_refl _, hs⟩

/-- Past a token with characters there is another place. -/
theorem pos_lt_stepped {s : State} (h : s.token.Sound) (hsolid : s.token.kind.isSolid = true) :
    s.pos < (stepped s).pos :=
  Nat.lt_of_lt_of_le (h.lt hsolid) (stop_le_stepped s).1

theorem advances_expectSign {text : String} (hne : text ≠ ",") : Advances (expectSign text) := by
  intro s v t hs heq
  unfold expectSign at heq
  split at heq
  · rename_i hkind
    cases heq
    have hsign : s.token.kind = .sign text := by simpa [TokenKind.isSign] using hkind
    exact pos_lt_stepped hs (by simpa [hsign, TokenKind.isSolid] using hne)
  · cases heq

theorem advances_expectWord {name : String} : Advances (expectWord name) := by
  intro s v t hs heq
  unfold expectWord at heq
  split at heq
  · rename_i hkind
    cases heq
    have hword : s.token.kind = .word name := by simpa [TokenKind.isWord] using hkind
    exact pos_lt_stepped hs (by rw [hword]; rfl)
  · cases heq

section

variable {lo least : Nat} {held : List Tree} {past : Bool}

/-- Another reading of the next token that starts where it does, and what follows. -/
theorem Ends.reread {s : State} {t : Token} {p : Parse α} {out : α → List Tree}
    {waived : α → Bool} (hs : Holding lo least held s) (hsound : t.Sound)
    (hstart : t.start = s.token.start) (hp : Lays lo least held p out past waived) :
    Ends lo least held out past waived s ((Parse.reread t >>= fun _ => p) s) := by
  have hpos : State.pos { s with token := t } = s.pos := congrArg Mark.offset hstart
  have hend := hp _ (hs.later hsound (Nat.le_of_eq hpos.symm))
  exact hend.since (Nat.le_of_eq hpos.symm) (.ofSubset (List.Subset.refl _))

/-- Another reading of the next token that starts where it does, and what follows. -/
theorem Lays.reread {k : Token → Token} {f : Token → Parse β} {out : β → List Tree}
    {waived : β → Bool} (hsound : ∀ {t : Token}, t.Sound → (k t).Sound)
    (hstart : ∀ t, (k t).start = t.start) (hf : ∀ t, Lays lo least held (f t) out past waived) :
    Lays lo least held (Parse.token >>= fun t => Parse.reread (k t) >>= fun _ => f t) out past
      waived :=
  fun s hs =>
    Ends.reread (t := k s.token) (p := f s.token) hs (hsound hs.sound) (hstart s.token) (hf s.token)

/-- A sign that may be taken, and what follows past it or without it. -/
theorem Lays.ifEaten {text : String} (hne : text ≠ ",") {p q : Parse α} {out : α → List Tree}
    {waived : α → Bool} (hp : Lays lo (least + 1) held p out true waived)
    (hq : Lays lo least held q out past waived) :
    Lays lo least held (eatSign text >>= fun found => if found = true then p else q) out past
      waived := by
  intro s hs
  by_cases hkind : s.token.kind.isSign text = true
  · have heaten : eatSign text s = .done true (stepped s) := by
      change (if s.token.kind.isSign text = true then _ else _ : Parse Bool) s = _
      rw [if_pos hkind]
      rfl
    have hsign : s.token.kind = .sign text := by simpa [TokenKind.isSign] using hkind
    have hpast : s.pos < (stepped s).pos :=
      pos_lt_stepped hs.sound (by simpa [hsign, TokenKind.isSolid] using hne)
    have hleast := hs.least_le
    have hstepped : Holding lo (least + 1) held (stepped s) :=
      (hs.later (stop_le_stepped s).2 (Nat.le_of_lt hpast)).weaken (Nat.le_refl _)
        (Nat.le_succ_of_le hs.lo_le) (by omega)
    rw [bind_of_done heaten]
    exact ((hp (stepped s) hstepped).forget (Nat.le_refl _) hs.lo_le (Nat.le_succ _)).sinceToken hpast
  · have hleft : eatSign text s = .done false s := by
      change (if s.token.kind.isSign text = true then _ else _ : Parse Bool) s = _
      rw [if_neg hkind]
      rfl
    rw [bind_of_done hleft]
    exact hq s hs

/-- A token with characters, and what follows past the place where it starts. -/
theorem Ends.pastToken {s : State} {f : Mark → Parse α} {out : α → List Tree} {waived : α → Bool}
    (hs : Holding lo least held s) (hsolid : s.token.kind.isSolid = true)
    (hf : ∀ start : Mark, lo ≤ start.offset →
      Lays lo (start.offset + 1) held (f start) out true waived) :
    Ends lo least held out past waived s ((here >>= fun start => bump >>= fun _ => f start) s) := by
  have hlo : lo ≤ s.pos := Nat.le_trans hs.lo_le hs.least_le
  have hpast := pos_lt_stepped hs.sound hsolid
  have hheld : Holding lo (s.pos + 1) held (stepped s) :=
    (hs.later (stop_le_stepped s).2 (Nat.le_of_lt hpast)).weaken (Nat.le_refl _)
      (Nat.le_succ_of_le hlo) hpast
  have hend := hf s.token.start hlo (stepped s) hheld
  exact (hend.forget (Nat.le_refl _) hs.lo_le (Nat.le_succ_of_le hs.least_le)).sinceToken hpast

/-- A parser that goes on in one way at a word, past whose start there is another place, and in
another way elsewhere. -/
theorem Lays.atWord {name : String} {p q : Parse α} {out : α → List Tree} {waived : α → Bool}
    (hp : ∀ s, Holding lo least held s → s.token.kind.isSolid = true →
      Ends lo least held out past waived s (p s))
    (hq : Lays lo least held q out past waived) :
    Lays lo least held (isWord name >>= fun found => if found = true then p else q) out past
      waived := by
  intro s hs
  change Ends lo least held out past waived s ((if s.token.kind.isWord name = true then p else q) s)
  split
  · rename_i hfound
    have hword : s.token.kind = .word name := by simpa [TokenKind.isWord] using hfound
    exact hp s hs (by rw [hword]; rfl)
  · exact hq s hs

end

end Parse
end TypeScript
end FetchClients
