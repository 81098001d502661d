/-
# Parsers

A parser moves through the tokens of a source. It fails with a fault and stays
where it failed, so that a caller may go on from there; an attempt goes back to
where it started instead.

Key definitions: `State`, `Outcome`, `Parse`, `Parse.attempt`, `Parse.lookAhead`,
`Parse.repeated`, `Context`.
Key theorems: `Parse.bind_eq_done_iff`, `Parse.attempt_eq_some_iff`, `Parse.attempt_eq_none`.
-/
import FetchClients.TypeScript.Lexer
import FetchClients.TypeScript.Tree

namespace FetchClients
namespace TypeScript

/-- Where a parser stands: the next token, the end of the one before, the comments so far, by the
place of the token they belong to, the last ones first, and the length of the source. -/
structure State where
  token : Token
  last : Mark
  comments : List (Nat × List Comment)
  size : Nat
deriving Inhabited

/-- What the syntax around a piece allows in it. -/
structure Context where
  /-- The source may hold elements. -/
  jsx : Bool := false
  /-- Inside an async function. -/
  async : Bool := false
  /-- Inside a generator. -/
  generator : Bool := false
  /-- Below `declare`. -/
  ambient : Bool := false
  /-- `in` is no operator, since it divides the head of a loop. -/
  noIn : Bool := false
  /-- Inside a conditional expression. -/
  conditional : Bool := false
  /-- A `:` is awaited, so it opens no type of an arrow function. -/
  awaitsColon : Bool := false
  /-- A type takes no `extends` condition. -/
  plainType : Bool := false
  /-- `import` and `export` are allowed. -/
  exports : Bool := true
  /-- Where an arrow function may start. -/
  arrowAt : Option Nat := none
deriving Inhabited

/-- What a parser comes to. -/
inductive Outcome (α : Type) where
  | done (value : α) (state : State)
  | failed (failure : Failure) (state : State)

/-- A parser of values. -/
def Parse (α : Type) : Type := State → Outcome α

namespace Parse

variable {α β : Type}

/-- A parser that takes nothing. -/
def pure (value : α) : Parse α := fun s => .done value s

/-- One parser after another. -/
def bind (p : Parse α) (f : α → Parse β) : Parse β := fun s =>
  match p s with
  | .done value next => f value next
  | .failed failure next => .failed failure next

instance : Monad Parse where
  pure := pure
  bind := bind

instance : Inhabited (Parse α) := ⟨fun s => .failed ⟨.tooDeep, 0⟩ s⟩

/-- The next token. -/
def token : Parse Token := fun s => .done s.token s

/-- The place of the next token. -/
def here : Parse Mark := fun s => .done s.token.start s

/-- The end of the token before. -/
def lastEnd : Parse Mark := fun s => .done s.last s

/-- Fails on a line. -/
def failAt (line : Nat) (fault : Fault) : Parse α := fun s => .failed ⟨fault, line⟩ s

/-- Fails at the next token. -/
def fail (fault : Fault) : Parse α := fun s => .failed ⟨fault, s.token.start.line⟩ s

/-- Fails at the next token since something else is wanted. -/
def unexpected (wanted : String) : Parse α := fun s =>
  .failed ⟨.unexpected s.token.kind.shown wanted, s.token.start.line⟩ s

/-- Fails since the source ends, on the line of its last token. -/
def failAtEnd : Parse α := fun s => .failed ⟨.unexpectedEnd, s.last.line⟩ s

/-- Whether the next token passes a test. -/
def test (p : TokenKind → Bool) : Parse Bool := fun s => .done (p s.token.kind) s

/-- Whether the next token is this sign. -/
def isSign (text : String) : Parse Bool := test (·.isSign text)

/-- Whether the next token is this word. -/
def isWord (name : String) : Parse Bool := test (·.isWord name)

/-- Whether the next token is one of these signs. -/
def isOneOf (texts : List String) : Parse Bool :=
  test fun kind => texts.any kind.isSign

/-- Whether a line break is in front of the next token. -/
def broken : Parse Bool := fun s => .done s.token.afterBreak s

/-- The token after the next one. -/
def peek : Parse Token := fun s =>
  .done (Token.afterGap (Gap.after (some s.token.kind) ⟨s.token.stop, s.token.rest⟩)) s

/-- Whether the token after the next one passes a test. -/
def peekIs (p : TokenKind → Bool) : Parse Bool := do return p (← peek).kind

/-- Whether the token after the next one passes a test and stands on the same line. -/
def peekOnLine (p : TokenKind → Bool) : Parse Bool := do
  let t ← peek
  return p t.kind && !t.afterBreak

/-- The state after a token: comments in front of the next one are kept for it. -/
def stepped (s : State) : State :=
  let gap := Gap.after (some s.token.kind) ⟨s.token.stop, s.token.rest⟩
  let token := Token.afterGap gap
  let kept := gap.leading
  let comments :=
    if kept.isEmpty || token.kind = .eof then s.comments
    else (token.start.offset, kept) :: s.comments
  ⟨token, s.token.stop, comments, s.size⟩

/-- Takes the next token. -/
def bump : Parse Unit := fun s => .done () (stepped s)

/-- Puts another reading of the next token in its place. -/
def reread (token : Token) : Parse Unit := fun s => .done () { s with token := token }

/-- Takes the next token if it is this sign. -/
def eatSign (text : String) : Parse Bool := do
  if ← isSign text then
    bump
    return true
  return false

/-- Takes the next token if it is this word. -/
def eatWord (name : String) : Parse Bool := do
  if ← isWord name then
    bump
    return true
  return false

/-- Takes this sign or fails. -/
def expectSign (text : String) : Parse Unit := fun s =>
  if s.token.kind.isSign text then bump s
  else .failed ⟨.expected text s.token.kind.shown, s.token.start.line⟩ s

/-- Takes this word or fails. -/
def expectWord (name : String) : Parse Unit := fun s =>
  if s.token.kind.isWord name then bump s
  else .failed ⟨.expected name s.token.kind.shown, s.token.start.line⟩ s

/-- Whether a statement may end here: before a `;`, a `}`, a line break or the end. -/
def atStatementEnd : Parse Bool := fun s =>
  .done (s.token.afterBreak || s.token.kind = .eof || s.token.kind.isSign ";" ||
    s.token.kind.isSign "\x7d") s

/-- Ends a statement, with its `;` if it has one. -/
def eatStatementEnd : Parse Bool := do
  if ← eatSign ";" then return true
  atStatementEnd

/-- Ends a statement or fails. -/
def expectStatementEnd : Parse Unit := do
  if ← eatStatementEnd then return ()
  fail .semicolonExpected

/-- The span from a place to the end of the token before. -/
def spanFrom (start : Mark) : Parse Span := fun s => .done ⟨start, s.last⟩ s

/-- Tries a parser; if it fails nothing is taken. -/
def attempt (p : Parse α) : Parse (Option α) := fun s =>
  match p s with
  | .done value next => .done (some value) next
  | .failed _ _ => .done none s

/-- Tries a parser that may decline; if it fails or declines nothing is taken. -/
def attempt? (p : Parse (Option α)) : Parse (Option α) := fun s =>
  match p s with
  | .done (some value) next => .done (some value) next
  | .done none _ => .done none s
  | .failed _ _ => .done none s

/-- What a parser would say; nothing is taken. -/
def lookAhead (p : Parse Bool) : Parse Bool := fun s =>
  match p s with
  | .done value _ => .done value s
  | .failed _ _ => .done false s

/-- Goes on with another parser where the first one fails. -/
def orElseThere (p : Parse α) (f : Failure → Parse α) : Parse α := fun s =>
  match p s with
  | .done value next => .done value next
  | .failed failure next => f failure next

/-- A parser that must take something. -/
def advancing (p : Parse α) : Parse α := fun s =>
  match p s with
  | .done value next =>
    if s.token.start.offset < next.token.start.offset then .done value next
    else .failed ⟨.tooDeep, next.token.start.line⟩ next
  | .failed failure next => .failed failure next

/-- The tokens that are left at most, and one more. -/
def fuel : Parse Nat := fun s => .done (s.size - s.token.stop.offset + 2) s

/-- Takes what a parser gives until it gives nothing, at most so often. -/
def repeatedUpTo (p : Parse (Option α)) : Nat → Parse (List α)
  | 0 => fail .tooDeep
  | n + 1 => do
    match ← p with
    | none => return []
    | some value => return value :: (← repeatedUpTo p n)

/-- Takes what a parser gives until it gives nothing. -/
def repeated (p : Parse (Option α)) : Parse (List α) := do
  repeatedUpTo p (← fuel)

/-- A value carried through a parser until the parser keeps it. -/
def iterateUpTo (p : α → Parse (α × Bool)) : Nat → α → Parse α
  | 0, _ => fail .tooDeep
  | n + 1, value => do
    let (next, more) ← p value
    if more then iterateUpTo p n next else return next

/-- A value carried through a parser until the parser says that it is finished. -/
def iterate (p : α → Parse (α × Bool)) (value : α) : Parse α := do
  iterateUpTo p (← fuel) value

/-- One parser after another succeeds if both do, the second where the first one ends. -/
theorem bind_eq_done_iff {p : Parse α} {f : α → Parse β} {s t : State} {value : β} :
    bind p f s = .done value t ↔
      ∃ first next, p s = .done first next ∧ f first next = .done value t := by
  simp only [bind]
  cases p s with
  | done first next =>
    constructor
    · intro h
      exact ⟨first, next, rfl, h⟩
    · rintro ⟨_, _, heq, h⟩
      cases heq
      exact h
  | failed failure next => simp

/-- An attempt that succeeds ends where the parser does. -/
theorem attempt_eq_some_iff {p : Parse α} {s t : State} {value : α} :
    attempt p s = .done (some value) t ↔ p s = .done value t := by
  simp only [attempt]
  cases p s with
  | done first next => simp
  | failed failure next => simp

/-- An attempt that fails leaves the parser where it was. -/
theorem attempt_eq_none {p : Parse α} {s t : State} (h : attempt p s = .done none t) : t = s := by
  simp only [attempt] at h
  split at h <;> simp_all

end Parse

/-- The state at the start of a source. A byte-order mark and a first line `#!…` are passed over,
but a comment after such a line stands after a token. -/
def State.start (source : List Char) : State :=
  let opened : Cursor := match source with
    | c :: cs => if c.toNat = 0xFEFF then ⟨⟨1, 1⟩, cs⟩ else ⟨Mark.origin, source⟩
    | [] => ⟨Mark.origin, []⟩
  let shebang := opened.rest.take 2 = ['#', '!']
  let cursor := if shebang then opened.advance (countWhile (!isLineEnd ·) opened.rest) else opened
  let gap := Gap.after (if shebang then some (.bad .unexpectedEnd) else none) cursor
  let token := Token.afterGap gap
  let kept := gap.leading
  let dropped := kept.isEmpty || (shebang && token.kind = .eof)
  ⟨token, cursor.mark, if dropped then [] else [(token.start.offset, kept)], source.length⟩

end TypeScript
end FetchClients
