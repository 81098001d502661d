/-
# Where statements start

A statement starts where its first decorator does, or at the token behind its
decorators. The first is so for plain syntax and for a class at its keyword; any other
declaration starts behind its decorators. A statement that is no declaration has no
landmark where it starts: those of its decorators lie between the two places, and its
own behind the second one.

Key definitions: `Tree.Nodes`, `Parse.Opens`, `Parse.Declines`.
Key theorems: `Parse.opens_statementAfter`, `Parse.unmarked_statementOf`.
-/
import FetchClients.Proofs.Reading.Statements

namespace FetchClients
namespace TypeScript

open Search (landmarks)

/-- Whether a tree starts at a place. -/
def Tree.StartsAt (start : Mark) (t : Tree) : Prop :=
  t.span.start = start

/-- Whether a property holds of all plain syntax that starts at a place. -/
def Tree.Nodes (start : Mark) (P : Tree → Prop) : Prop :=
  ∀ stop parts, P (.node ⟨start, stop⟩ parts)

theorem Tree.nodes_startsAt (start : Mark) : Tree.Nodes start (Tree.StartsAt start) :=
  fun _ _ => rfl

namespace Parse

variable {α : Type}

/-- A parser all of whose trees have a property if it starts at this token. -/
def Opens (first : Token) (P : Tree → Prop) (p : Parse Tree) : Prop :=
  ∀ s t next, s.token = first → p s = .done t next → P t

/-- A parser that stays where it is if it declines, and yields values with a property otherwise. -/
def Declines (P : α → Prop) (p : Parse (Option α)) : Prop :=
  ∀ s o next, p s = .done o next → (o = none ∧ next = s) ∨ ∃ v, o = some v ∧ P v

/-- A parser that stays where it is. -/
class Still (p : Parse α) : Prop where
  still : ∀ s, ∃ v, p s = .done v s

instance (name : String) : Still (isWord name) := ⟨fun _ => ⟨_, rfl⟩⟩
instance (p : TokenKind → Bool) : Still (peekIs p) := ⟨fun _ => ⟨_, rfl⟩⟩
instance (p : TokenKind → Bool) : Still (peekOnLine p) := ⟨fun _ => ⟨_, rfl⟩⟩
instance : Still letDeclares := inferInstanceAs (Still (peekIs _))

instance : Still atAsyncFunction := by
  refine ⟨fun s => ?_⟩
  change ∃ v, (if s.token.kind.isWord "async" = true then _ else _ : Parse Bool) s = .done v s
  split <;> exact ⟨_, rfl⟩

namespace Opens

variable {first : Token} {P : Tree → Prop} {p q : Parse Tree}

theorem ofYields (h : Yields p P) : Opens first P p :=
  fun s t next _ heq => h s t next heq

theorem here {f : Mark → Parse Tree} (h : Opens first P (f first.start)) :
    Opens first P (here >>= f) := by
  rintro s t next rfl heq
  exact h s t next rfl heq

theorem token {f : Token → Parse Tree} (h : Opens first P (f first)) :
    Opens first P (token >>= f) := by
  rintro s t next rfl heq
  exact h s t next rfl heq

theorem look {p : Parse α} {f : α → Parse Tree} [hp : Still p] (h : ∀ v, Opens first P (f v)) :
    Opens first P (p >>= f) := by
  intro s t next hfirst heq
  obtain ⟨v, hv⟩ := hp.still s
  rw [bind_of_done hv] at heq
  exact h v s t next hfirst heq

theorem ite {c : Prop} [Decidable c] (hp : Opens first P p) (hq : Opens first P q) :
    Opens first P (if c then p else q) := by
  split
  · exact hp
  · exact hq

/-- What follows where a parser declines. -/
theorem orElse {p : Parse (Option Tree)} {f : Option Tree → Parse Tree} (hp : Declines P p)
    (hsome : ∀ t, P t → Yields (f (some t)) P) (hnone : Opens first P (f none)) :
    Opens first P (p >>= f) := by
  intro s t next hfirst heq
  cases hdone : p s with
  | failed failure u =>
    rw [bind_of_failed hdone] at heq
    cases heq
  | done o u =>
    rw [bind_of_done hdone] at heq
    rcases hp s o u hdone with ⟨rfl, rfl⟩ | ⟨v, rfl, hv⟩
    · exact hnone _ t next hfirst heq
    · exact hsome v hv u t next heq

end Opens

namespace Declines

variable {β : Type} {P : α → Prop} {p q : Parse (Option α)}

theorem none : Declines P (Pure.pure none) := by
  intro s o next heq
  cases heq
  exact .inl ⟨rfl, rfl⟩

theorem found (h : Yields p fun o => ∃ v, o = some v ∧ P v) : Declines P p :=
  fun s o next heq => .inr (h s o next heq)

theorem look {p : Parse β} {f : β → Parse (Option α)} [hp : Still p] (h : ∀ v, Declines P (f v)) :
    Declines P (p >>= f) := by
  intro s o next heq
  obtain ⟨v, hv⟩ := hp.still s
  rw [bind_of_done hv] at heq
  exact h v s o next heq

theorem ite {c : Prop} [Decidable c] (hp : Declines P p) (hq : Declines P q) :
    Declines P (if c then p else q) := by
  split
  · exact hp
  · exact hq

theorem attempt? (h : Yields p fun o => ∀ v ∈ o, P v) : Declines P (attempt? p) := by
  intro s o next heq
  unfold Parse.attempt? at heq
  split at heq
  · rename_i v _ hdone
    cases heq
    exact .inr ⟨v, rfl, h s _ _ hdone v rfl⟩
  · cases heq
    exact .inl ⟨rfl, rfl⟩
  · cases heq
    exact .inl ⟨rfl, rfl⟩

end Declines

section

variable (g : Grammar) (ctx : Context) (start : Mark) {P : Tree → Prop}

/-! ### Declarations -/

theorem starts_functionAt (async isExpression needsName : Bool) :
    Yields (functionAt g ctx start async isExpression needsName) (Tree.StartsAt start) := by
  unfold functionAt
  refine .bind fun _ => .bind fun generator => ?_
  extract_lets rest
  have hrest : Yields (rest ()) (Tree.StartsAt start) :=
    .bind fun f => .maybe <| .span fun _ => .pure rfl
  exact .ite (.bind fun _ => hrest) (.bind fun _ => hrest)

theorem starts_classAt (decorators : List Tree) (needsName declares : Bool) :
    Yields (classAt g ctx start decorators needsName declares) (Tree.StartsAt start) := by
  unfold classAt
  extract_lets inner rest
  have hrest : ∀ name, Yields (rest name) (Tree.StartsAt start) := fun name =>
    .bind fun _ => .bind fun _ => .bind fun _ => .bind fun _ => .bind fun _ =>
      .maybe <| .span fun _ => .pure rfl
  exact .bind fun _ => .ite (.bind fun _ => hrest _) (.bind hrest)

theorem starts_interfaceAfter : Yields (interfaceAfter g ctx start) (Tree.StartsAt start) := by
  unfold interfaceAfter
  refine .bind fun _ => .bind fun _ => .bind fun _ => .either fun _ => .bind fun _ => .maybe ?_
  exact .bind fun _ => .span fun _ => .pure rfl

theorem starts_aliasAfter : Yields (aliasAfter g ctx start) (Tree.StartsAt start) := by
  unfold aliasAfter
  refine .bind fun _ => .bind fun _ => .bind fun _ => .maybe ?_
  exact .bind fun _ => .bind fun _ => .span fun _ => .pure rfl

variable {start} in
theorem yields_enumAfter (hnodes : Tree.Nodes start P) : Yields (enumAfter g ctx start) P :=
  .bind fun _ => .bind fun _ => .bind fun _ => .bind fun _ => .span fun _ => .pure (hnodes _ _)

theorem starts_moduleAfter : Yields (moduleAfter g ctx start) (Tree.StartsAt start) :=
  .bind fun _ => .bind fun _ => .bind fun _ => .span fun _ => .pure rfl

theorem starts_ambientModule : Yields (ambientModule g ctx start) (Tree.StartsAt start) := by
  unfold ambientModule
  refine .bind fun _ => .maybe <| .bind fun _ => .bind fun _ => .ite ?_ ?_
  · exact .bind fun _ => .span fun _ => .pure rfl
  · exact .bind fun _ => .span fun _ => .pure rfl

variable {start} in
theorem yields_variableList (hnodes : Tree.Nodes start P) (forHead : Bool) :
    Yields (variableList g ctx start forHead) P := by
  unfold variableList
  refine .bind fun noLet => ?_
  extract_lets inner rest
  have hrest : ∀ first, Yields (rest first) P :=
    fun first => .bind fun _ => .either fun _ => .maybe <| .span fun _ => .pure (hnodes _ _)
  refine .bind fun _ => .bind fun _ => .ite (.bind hrest) ?_
  exact .bind fun _ => .bind hrest

variable {start} in
theorem starts_found {p : Parse Tree} (h : Yields p (Tree.StartsAt start)) :
    Yields (p >>= fun t => Pure.pure (some t)) fun o => ∀ t ∈ o, t.StartsAt start :=
  .bindKnown h fun t ht => .pure (by simpa using ht)

variable {start} in
theorem starts_none : Yields (Pure.pure none) fun o : Option Tree => ∀ t ∈ o, t.StartsAt start :=
  .pure (by simp)

theorem starts_declarationAfter? (decorators : List Tree) (word : String) (atWord : Bool) :
    Yields (declarationAfter? g ctx start decorators word atWord)
      fun o => ∀ t ∈ o, t.StartsAt start := by
  have hmodule := starts_found (starts_moduleAfter g ctx start)
  unfold declarationAfter?
  extract_lets skip declared named
  split
  · refine .bind fun _ => .bind fun _ => .ite (.bind fun _ => .bind fun _ => .maybe ?_) starts_none
    exact starts_found (starts_classAt g ctx start decorators true true)
  · refine .bind fun _ => .ite (.bind fun _ => ?_) starts_none
    exact starts_found (yields_enumAfter g ctx (Tree.nodes_startsAt start))
  · refine .bind fun _ => .ite (.bind fun _ => ?_) starts_none
    exact starts_found (starts_interfaceAfter g ctx start)
  · have hnamed : Yields (named ()) fun o => ∀ t ∈ o, t.StartsAt start := by
      refine .bind fun _ => .bind fun _ => .ite ?_ (.bind fun _ => .ite hmodule starts_none)
      exact starts_found (starts_ambientModule g ctx start)
    exact .bind fun _ => .ite (.ite starts_none hnamed) hnamed
  · exact .bind fun _ => .ite (.bind fun _ => hmodule) starts_none
  · refine .bind fun _ => .bind fun _ => .ite (.bind fun _ => ?_) starts_none
    exact starts_found (starts_aliasAfter g ctx start)
  · exact starts_none

theorem starts_ambient? (decorators : List Tree) :
    Yields (ambient? g ctx start decorators) fun o => ∀ t ∈ o, t.StartsAt start := by
  unfold ambient?
  dsimp only
  have hvariables := fun ctx =>
    starts_found (yields_variableList g ctx (Tree.nodes_startsAt start) false)
  refine .bind fun t => ?_
  split
  · exact starts_found (starts_functionAt g _ start false false true)
  · exact starts_found (starts_classAt g _ start decorators true true)
  · refine .bind fun _ => .ite (.bind fun _ => .bind fun _ => ?_) (hvariables _)
    exact starts_found (yields_enumAfter g _ (Tree.nodes_startsAt start))
  · exact hvariables _
  · exact hvariables _
  · exact starts_found (starts_ambientModule g _ start)
  · exact starts_declarationAfter? g _ start decorators _ true
  · exact starts_none

theorem starts_declarationAfterName? (decorators : List Tree) (name : String) :
    Yields (declarationAfterName? g ctx start decorators name)
      fun o => ∀ t ∈ o, t.StartsAt start := by
  unfold declarationAfterName?
  split
  · exact starts_ambient? g ctx start decorators
  · refine .bind fun _ => .ite (.bind fun _ => .span fun _ => .pure ?_) starts_none
    simp [Tree.StartsAt, Tree.span]
  · exact starts_declarationAfter? g ctx start decorators name false

/-! ### Imports and exports -/

variable {start} in
theorem yields_importDeclaration (hnodes : Tree.Nodes start P) :
    Yields (importDeclaration g ctx start) P := by
  unfold importDeclaration
  have hnode : ∀ parts, Yields (do return Tree.node (← spanFrom start) parts) P :=
    fun _ => .span fun _ => .pure (hnodes _ _)
  refine .bind fun _ => .bind fun _ => .ite ?_ <| .bind fun head => ?_
  · exact .bind fun _ => .bind fun attributes => .bind fun _ => hnode attributes
  cases head with
  | equals => exact hnode []
  | names =>
    dsimp -zeta only
    extract_lets rest
    have hfrom : Yields (rest ()) P :=
      .bind fun _ => .bind fun _ => .bind fun attributes => .bind fun _ => hnode attributes
    refine .bind fun _ => .ite (.bind fun _ => .bind fun _ => hfrom) ?_
    exact .bind fun _ => .ite (.bind fun _ => hfrom) hfrom

theorem starts_exported (declared : Tree) :
    Yields (do return Tree.exported (← spanFrom start) declared) (Tree.StartsAt start) :=
  .span fun _ => .pure rfl

variable {start} in
theorem starts_exportOf {p : Parse Tree} :
    Yields (do
      let declared ← p
      return Tree.exported (← spanFrom start) declared) (Tree.StartsAt start) :=
  .bind (starts_exported start)

theorem starts_exportDefault (before : List Tree) :
    Yields (exportDefault g ctx start before) (Tree.StartsAt start) := by
  unfold exportDefault
  refine .bind fun decorators => .bind fun begin => ?_
  extract_lets rest
  have hrest : Yields (rest ()) (Tree.StartsAt start) := by
    refine .bind fun _ => .ite (.bind fun _ => .bind fun _ => starts_exportOf) <| .bind fun _ => ?_
    refine .ite starts_exportOf <| .bind fun _ => .bind fun _ => .ite starts_exportOf ?_
    exact .bind fun _ => .bind fun _ => .span fun _ => .pure rfl
  refine .bind fun _ => .ite ?_ hrest
  exact .bind fun _ => .ite (.bind fun _ => starts_exportOf) <| .bind fun _ => .maybe hrest

/-- What follows where a declaration is found or none. -/
theorem starts_foundOr {p : Parse (Option Tree)} {f : Option Tree → Parse Tree}
    (hsome : ∀ t, Yields (f (some t)) (Tree.StartsAt start))
    (hnone : Yields (f none) (Tree.StartsAt start)) : Yields (p >>= f) (Tree.StartsAt start) :=
  .bind fun o => by
    cases o with
    | some t => exact hsome t
    | none => exact hnone

/-- An export that is no declaration behind a word. -/
theorem starts_exportRest (before : List Tree) :
    Yields (exportRest g ctx start before) (Tree.StartsAt start) := by
  unfold exportRest
  have hnames : Yields (do
      let attributes ← exportNames g ctx
      return Tree.node (← spanFrom start) attributes) (Tree.StartsAt start) :=
    .bind fun _ => .span fun _ => .pure rfl
  refine .bind fun _ => .ite (.bind fun _ => ?_) ?_
  · extract_lets rest
    have himport : Yields (rest ()) (Tree.StartsAt start) :=
      .bind fun _ => .bind fun _ => .span fun _ => .pure rfl
    exact .ite (.bind fun _ => .maybe himport) himport
  refine .bind fun _ => .ite (.bind fun _ => .bind fun _ => .span fun _ => .pure rfl) ?_
  refine .bind fun _ => .ite ?_ <| .bind fun typeOnly => ?_
  · exact .bind fun _ => .bind fun _ => .bind fun _ => .span fun _ => .pure rfl
  extract_lets names later
  have hlater : Yields (later ()) (Tree.StartsAt start) := by
    refine .bind fun decorators => .ite ?_ hnames
    exact starts_foundOr start (starts_exported start) hnames
  exact .ite (.bind fun _ => .ite (starts_exportDefault g ctx start before) hlater) hlater

/-- An export that may be a declaration behind a word. -/
theorem starts_exportWord (before : List Tree) {rest : Parse Tree}
    (hrest : Yields rest (Tree.StartsAt start)) : Yields (do
      if let .word word := (← token).kind then
        let begin ← here
        if let some declared ← attempt? (declarationAfter? g ctx begin before word true) then
          return .exported (← spanFrom start) declared
      rest) (Tree.StartsAt start) := by
  refine .bind fun t => ?_
  split
  · exact .bind fun begin => starts_foundOr start (starts_exported start) hrest
  · exact hrest

/-- An export starts at its keyword. -/
theorem opens_exportDeclaration (before : List Tree) (first : Token) :
    Opens first (Tree.StartsAt first.start) (exportDeclaration g ctx before) := by
  have hword := starts_exportWord g ctx first.start before (starts_exportRest g ctx _ before)
  refine .here <| .ofYields <| .bind fun _ => .bind fun begin => .bind fun _ => .ite ?_ hword
  exact starts_foundOr first.start (starts_exported first.start) hword

/-! ### Statements -/

section

variable {start} (hnodes : Tree.Nodes start P)
include hnodes

theorem yields_ifStatement : Yields (ifStatement g ctx start) P :=
  .bind fun _ => .bind fun _ => .bind fun _ => .bind fun _ => .bind fun _ => .bind fun _ =>
    .span fun _ => .pure (hnodes _ _)

theorem yields_doStatement : Yields (doStatement g ctx start) P :=
  .bind fun _ => .bind fun _ => .bind fun _ => .bind fun _ => .bind fun _ =>
    .span fun _ => .pure (hnodes _ _)

theorem yields_headedStatement : Yields (headedStatement g ctx start) P :=
  .bind fun _ => .bind fun _ => .bind fun _ => .span fun _ => .pure (hnodes _ _)

theorem yields_forStatement : Yields (forStatement g ctx start) P :=
  .bind fun _ => .bind fun _ => .bind fun _ => .bind fun _ => .bind fun _ => .bind fun _ =>
    .span fun _ => .pure (hnodes _ _)

theorem yields_switchStatement : Yields (switchStatement g ctx start) P :=
  .bind fun _ => .bind fun _ => .bind fun _ => .bind fun _ => .bind fun _ =>
    .span fun _ => .pure (hnodes _ _)

theorem yields_tryStatement : Yields (tryStatement g ctx start) P :=
  .bind fun _ => .bind fun _ => .bind fun _ => .bind fun _ => .span fun _ => .pure (hnodes _ _)

theorem yields_strayClause : Yields (strayClause g ctx start) P :=
  .bind fun _ => .span fun _ => .pure (hnodes _ _)

theorem yields_jumpStatement : Yields (jumpStatement ctx start) P := by
  unfold jumpStatement
  extract_lets node
  have hleaf : Yields (node ()) P := .span fun _ => .pure (hnodes _ _)
  exact .bind fun _ => .bind fun _ => .ite (.bind fun _ => .bind fun _ => hleaf) hleaf

theorem yields_returnStatement : Yields (returnStatement g ctx start) P := by
  unfold returnStatement
  extract_lets rest
  have hrest : ∀ value, Yields (rest value) P :=
    fun value => .bind fun _ => .span fun _ => .pure (hnodes _ _)
  refine .bind fun _ => .bind fun _ => .ite (.bind hrest) ?_
  exact .bind fun value => .bind hrest

theorem yields_throwStatement : Yields (throwStatement g ctx start) P :=
  .bind fun _ => .bind fun _ => .maybe <| .bind fun _ => .bind fun _ =>
    .span fun _ => .pure (hnodes _ _)

theorem yields_usingDeclaration? :
    Yields (usingDeclaration? g ctx start) fun o => ∀ t ∈ o, P t := by
  refine .bind fun _ => .ite (.pure (by simp)) <| .bind fun _ => .bind fun _ => .bind fun _ => ?_
  exact .bind fun _ => .span fun _ => .pure (by simpa using hnodes _ _)

theorem declines_usingDeclaration? :
    Declines P (usingDeclaration? g ctx start) :=
  .look fun _ => .ite .none <| .found <| .bind fun _ => .bind fun _ => .bind fun _ => .bind fun _ =>
    .span fun _ => .pure ⟨_, rfl, hnodes _ _⟩

/-- A property of trees that start behind decorators holds of the statement that an expression opens,
if it holds of plain syntax. -/
theorem opens_expressionStatement (decorators : List Tree) {first : Token}
    (hplace : ∀ t, t.StartsAt first.start → P t) :
    Opens first P (expressionStatement g ctx start decorators) := by
  unfold expressionStatement
  refine .here <| .ofYields <| .bind fun expression => ?_
  extract_lets finish labelled
  have hfinish : Yields finish P := by
    refine .bind fun _ => .ite (.span fun _ => .pure (hnodes _ _)) <| .bind fun _ => .ite ?_ .fail
    exact .bind fun _ => .span fun _ => .pure (hnodes _ _)
  split
  · refine .bind fun _ => .ite (.bind fun _ => ?_) ?_
    · have hnode : ∀ body, Yields (labelled body) P := fun body => .span fun _ => .pure (hnodes _ _)
      exact .ite (.bind fun begin => .bind hnode) (.bind hnode)
    · refine .foundOr (starts_declarationAfterName? g ctx first.start decorators _) ?_ hfinish
      exact fun t ht => .pure (hplace t ht)
  · exact hfinish

end

variable {first : Token} (hplace : ∀ t, t.StartsAt first.start → P t)
include hplace

theorem opens_block : Opens first P (block g ctx) :=
  .here <| .ofYields <| .bind fun _ => .span fun _ => .pure (hplace _ rfl)

theorem opens_maybeAsyncFunction (isExpression needsName : Bool) :
    Opens first P (maybeAsyncFunction g ctx isExpression needsName) :=
  .here <| .ofYields <| .bind fun _ => (starts_functionAt g ctx first.start _ _ _).mono hplace

variable {start} (hnodes : Tree.Nodes start P)
include hnodes

/-- A property holds of a statement if it holds of plain syntax that starts at the decorators, of what
starts behind them, and of a class at its keyword. -/
theorem opens_plainStatement (decorators : List Tree) (declarations : Bool)
    (hclass : first.kind = .word "class" → Yields (classAt g ctx start decorators true true) P) :
    Opens first P (plainStatement g ctx start decorators declarations) := by
  unfold plainStatement
  refine .token ?_
  dsimp only
  have hexpression := opens_expressionStatement g ctx hnodes decorators hplace
  have hvariables : Opens first P (variableList g ctx start false) :=
    .ofYields (yields_variableList g ctx hnodes false)
  have henum := yields_enumAfter g ctx hnodes
  have hyields : ∀ {p : Parse Tree}, Yields p (Tree.StartsAt first.start) → Opens first P p :=
    fun h => .ofYields (h.mono hplace)
  split
  · refine .look fun _ => .ite (.ofYields <| .bind fun _ => .bind fun _ => henum) ?_
    exact .ite hvariables hexpression
  · refine .look fun _ => .ite (.orElse (.attempt? ?_) (fun _ => .pure) hexpression) hexpression
    exact .bind fun _ => yields_usingDeclaration? g ctx hnodes
  · exact .ofYields (yields_jumpStatement ctx hnodes)
  · exact .ofYields (yields_jumpStatement ctx hnodes)
  · exact .ofYields <| .bind fun _ => .bind fun _ => .span fun _ => .pure (hnodes _ _)
  · exact .ofYields (yields_doStatement g ctx hnodes)
  · exact .ofYields (yields_forStatement g ctx hnodes)
  · exact hyields (starts_functionAt g ctx first.start false false true)
  · rename_i hkind
    exact .ofYields (hclass hkind)
  · exact .ofYields (yields_ifStatement g ctx hnodes)
  · exact .ofYields (yields_returnStatement g ctx hnodes)
  · exact .ofYields (yields_switchStatement g ctx hnodes)
  · exact .ofYields (yields_throwStatement g ctx hnodes)
  · exact .ofYields (yields_strayClause g ctx hnodes)
  · exact .ofYields (yields_strayClause g ctx hnodes)
  · exact .ofYields (yields_tryStatement g ctx hnodes)
  · exact .ofYields (yields_headedStatement g ctx hnodes)
  · exact .ofYields (yields_headedStatement g ctx hnodes)
  · exact hvariables
  · exact .look fun _ => .ite hvariables hexpression
  · refine .ite ?_ hexpression
    exact .orElse (declines_usingDeclaration? g ctx hnodes) (fun _ => .pure) hexpression
  · refine .look fun _ => .ite (hyields <| .bind fun _ => ?_) hexpression
    exact starts_interfaceAfter g ctx first.start
  · refine .look fun _ => .ite (hyields <| .bind fun _ => ?_) hexpression
    exact starts_aliasAfter g ctx first.start
  · exact .look fun _ => .ite (.ofYields <| .bind fun _ => henum) hexpression
  · exact opens_block g ctx hplace
  · exact hyields <| .bind fun _ => .pure rfl
  · exact .look fun _ => .ite (opens_maybeAsyncFunction g ctx hplace false true) hexpression
  · exact hexpression

/-- A statement starts where its decorators do, or behind them: a property holds of it if it holds of
what starts at the two places. -/
theorem opens_statementAfter (decorators : List Tree) (declarations : Bool)
    (hclass : first.kind = .word "class" → Yields (classAt g ctx start decorators true true) P) :
    Opens first P (statementAfter g ctx start decorators declarations) := by
  unfold statementAfter
  have hplain := opens_plainStatement g ctx hplace hnodes decorators declarations hclass
  refine .look fun isImport => .look fun _ => .ite (.ofYields ?_) <| .ite (.ofYields ?_) ?_
  · exact .bind fun _ => .bind fun _ => .span fun _ => .pure (hnodes _ _)
  · exact .maybe (yields_importDeclaration g ctx hnodes)
  · refine .look fun _ => .ite (.ite ?_ ?_) hplain
    · exact .ofYields .fail
    · exact fun s t next hfirst heq =>
        hplace t (opens_exportDeclaration g ctx decorators first s t next hfirst heq)

end

/-- A tree that starts where its decorators do or behind them has no landmark there if all that it
holds are theirs or past the token behind them. -/
theorem start_not_mem_landmarks {s next : State} {decorators : List Tree} {v : Tree}
    (hnext : Holding s.pos s.pos decorators next) (hdecorators : Fresh false s.pos [] decorators)
    (hv : Fresh false next.pos decorators [v])
    (hstart : v.StartsAt s.token.start ∨ v.StartsAt next.token.start) :
    v.span.start.offset ∉ landmarks.offsets v := by
  have hoffset : v.span.start.offset = s.pos ∨ v.span.start.offset = next.pos :=
    hstart.imp (congrArg Mark.offset) (congrArg Mark.offset)
  have hle := hnext.least_le
  intro hmem
  rcases hv v List.mem_cons_self _ hmem with ⟨u, hu, ha⟩ | hpast | ⟨hpast, -⟩
  · have hwithin := hnext.scattered.within u hu _ (Search.marked_of_mem_offsets ha)
    rcases hdecorators u hu _ ha with ⟨w, hw, -⟩ | hpast | ⟨hpast, -⟩
    · cases hw
    · omega
    · cases hpast
  · omega
  · cases hpast

/-- A statement is read past its start, and if it is no declaration no landmark in it stands there. -/
theorem unmarked_statementOf {g : Grammar} (hg : g.Scatters) {ctx : Context} {declarations : Bool}
    {s t : State} {v : Tree} (hs : s.token.Sound)
    (h : statementOf g ctx declarations s = .done v t) :
    v.span.start.offset < t.pos ∧
      (v.isDeclaration = false → v.span.start.offset ∉ landmarks.offsets v) := by
  unfold statementOf at h
  generalize { ctx with
    noIn := false, conditional := false, awaitsColon := false, arrowAt := none } = inner at h
  change (g.decorators inner >>= fun decorators =>
    advancing (statementAfter g inner s.token.start decorators declarations)) s = _ at h
  have hread := hg.decorators inner s.pos s (.nothing hs (Nat.le_refl _) (Nat.le_refl _))
  cases hdecorators : g.decorators inner s with
  | failed failure next =>
    rw [bind_of_failed hdecorators] at h
    cases h
  | done decorators next =>
    rw [hdecorators] at hread
    obtain ⟨hle, hnext, hfresh⟩ := hread
    rw [bind_of_done hdecorators] at h
    obtain ⟨hdone, hlt⟩ := advancing_eq_done_iff.mp h
    have hopens : Opens next.token
        (fun t => t.StartsAt s.token.start ∨ t.StartsAt next.token.start)
        (statementAfter g inner s.token.start decorators declarations) :=
      opens_statementAfter g inner (fun _ => .inr) (fun _ _ => .inl rfl) decorators declarations
        fun _ => (starts_classAt g inner s.token.start decorators true true).mono fun _ => .inl
    have hstart := hopens next v t rfl hdone
    have hlays : Lays s.pos s.pos decorators
        (statementAfter g inner s.token.start decorators declarations) (fun t => [t]) false
        Tree.isDeclaration :=
      lays_statementAfter hg inner s.token.start decorators declarations
    have hend := hlays next hnext
    rw [hdone] at hend
    constructor
    · rcases hstart with hstart | hstart <;> have hpos := congrArg Mark.offset hstart
      · exact hpos ▸ Nat.lt_of_le_of_lt hle hlt
      · exact hpos ▸ hlt
    · intro hnone
      refine start_not_mem_landmarks hnext (hfresh.resolve_left Bool.false_ne_true) ?_ hstart
      exact hend.2.2.resolve_left (by rw [hnone]; exact Bool.false_ne_true)

end Parse
end TypeScript
end FetchClients
