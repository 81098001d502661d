/-
# Imports and exports as they are read

Imports hold no trees. What is exported starts at its `export`, which is after
the decorators in front of it, and the state is past that word once the
declaration is read.

Key theorems: `Parse.lays_importDeclaration`, `Parse.ends_exportDeclaration`.
-/
import FetchClients.Proofs.Reading.Declarations
import FetchClients.TypeScript.Parser.Modules

namespace FetchClients
namespace TypeScript
namespace Parse

open List (Subperm)

/-! ### Names that are imported and exported -/

instance (close : String) (item : Parse Tree) [Moves item] : Moves (commaListUntil close item) := by
  unfold commaListUntil
  infer_instance

instance : Moves moduleString := by unfold moduleString; infer_instance

instance : Moves moduleName := by
  unfold moduleName
  refine .of_reads fun lo => .skip fun t => ?_
  split <;> exact Moves.reads lo

instance (bound : Parse Unit) [Moves bound] : Moves (typedName bound) := by
  unfold typedName
  exact .of_reads fun lo => .skip fun (_, _) => Moves.reads lo

instance (ctx : Context) : Moves (importItem ctx) := by
  unfold importItem
  refine .of_reads fun lo => .skip fun _ => .skip fun (name, plain) => .skip fun _ => ?_
  refine .skipEither fun typed => ?_
  obtain ⟨name, done⟩ := typed.getD (name, false)
  dsimp only
  exact Moves.reads lo

instance : Moves exportItem := by
  unfold exportItem
  refine .of_reads fun lo => .skip fun _ => .skip fun (name, plain) => .skip fun _ => ?_
  refine .skipEither fun typed => ?_
  obtain ⟨name, done⟩ := typed.getD (name, false)
  dsimp only
  exact Moves.reads lo

instance (ctx : Context) : Moves (importEquals ctx) := by
  unfold importEquals
  exact .of_reads fun lo => .skip fun _ => .skip fun _ => .skip fun _ => Moves.reads lo

instance (ctx : Context) : Moves (importHead ctx) := by
  unfold importHead
  refine .of_reads fun lo => .skip fun _ => .ite (fun _ => .pure (.refl _)) fun _ => ?_
  refine .skip fun bound => ?_
  obtain ⟨name, -⟩ := bound
  dsimp -zeta only
  extract_lets first done last rest
  have hlast : Lays lo lo [] (last ()) fun _ => [] := .skip fun _ => .maybe (.pure (.refl _))
  have hrest : ∀ bound, Lays lo lo [] (rest () bound) fun _ => [] := by
    intro bound
    refine .skip fun _ => .ite (fun _ => .skip fun _ => .pure (.refl _)) fun _ => .skip fun _ => ?_
    refine .ite (fun _ => .pure (.refl _)) fun _ => .ite (fun _ => ?_) fun _ => hlast
    refine .skip fun _ => .skip fun _ => .skip fun _ => .ite (fun _ => ?_) fun _ => hlast
    exact .skip fun _ => hlast
  refine .ite (fun _ => .skip fun _ => ?_) fun _ => hrest first
  refine .ite (fun _ => .pure (.refl _)) fun _ => .skip fun _ => ?_
  refine .ite (fun _ => .skip fun _ => .skip fun _ => ?_) fun _ => hrest first
  refine .ite (fun _ => .skip fun _ => hrest _) fun _ => .skip fun _ => ?_
  exact .ite (fun _ => .skip fun _ => hrest _) fun _ => hrest first

/-- The rest of `exportDeclaration`, where no word declares what is exported. -/
def exportRest (g : Grammar) (ctx : Context) (start : Mark) (before : List Tree) : Parse Tree := do
  if ← eatWord "import" then
    if ← isWord "type" then
      if ← peekIs TokenKind.isAnyWord then bump
    let _ ← identifierName
    importEquals ctx
    return .leaf (← spanFrom start)
  if ← eatSign "=" then
    let value ← fullSequence g ctx
    expectStatementEnd
    return .node (← spanFrom start) [value]
  if ← eatWord "as" then
    expectWord "namespace"
    let _ ← identifier ctx
    expectStatementEnd
    return .leaf (← spanFrom start)
  let typeOnly ← eatWord "type"
  if !typeOnly then
    if ← eatWord "default" then return ← exportDefault g ctx start before
  let decorators ← laterDecorators g ctx before
  if !typeOnly then
    if let some declared ← exportedDeclaration? g ctx start decorators then
      return .exported (← spanFrom start) declared
  let attributes ← exportNames g ctx
  return .node (← spanFrom start) attributes

/-! ### Imports -/

section

variable {g : Grammar} (hg : g.Scatters) (ctx : Context)
include hg

theorem reads_importAttributes : Reads (importAttributes g ctx) fun ts => ts := by
  intro lo
  unfold importAttributes
  refine .skip fun _ => .ite (fun _ => .pure (.refl _)) fun _ => .skip fun _ => .skip fun _ => ?_
  refine .ite (fun _ => .skip fun _ => .skip fun _ => .maybe ?_) fun _ => .pure (.refl _)
  exact .step (reads_objectLiteral hg ctx) fun _ => .pure (.refl _)

theorem reads_fromClause : Reads (fromClause g ctx) fun ts => ts := by
  intro lo
  unfold fromClause
  refine .skip fun _ => .skip fun _ => .step (reads_importAttributes hg ctx) fun attributes => ?_
  exact .skip fun _ => .pure (.refl _)

theorem lays_importDeclaration (start : Mark) :
    Lays start.offset start.offset [] (importDeclaration g ctx start) fun t => [t] := by
  unfold importDeclaration
  have hnode : ∀ attributes, Lays start.offset start.offset attributes (do
      return Tree.node (← spanFrom start) attributes) fun t => [t] :=
    fun _ => .span fun _ => .tree rfl rfl (.refl _) (.inl rfl)
  refine .skip fun _ => .skip fun _ => .ite (fun _ => .skip fun _ => ?_) fun _ => .skip fun h => ?_
  · exact .step (reads_importAttributes hg ctx) fun attributes => .skip fun _ => hnode attributes
  cases h with
  | equals => exact .span fun _ => .leaf rfl
  | names =>
    dsimp -zeta only
    extract_lets rest
    have hfrom : Lays start.offset start.offset [] (rest ()) fun t => [t] :=
      .skip fun _ => .skip fun _ => .step (reads_importAttributes hg ctx) fun attributes =>
        .skip fun _ => hnode attributes
    refine .skip fun _ => .ite (fun _ => .skip fun _ => .skip fun _ => hfrom) fun _ => ?_
    exact .skip fun _ => .ite (fun _ => .skip fun _ => hfrom) fun _ => hfrom

/-! ### Exports -/

theorem lays_laterDecorators {lo least : Nat} {past : Bool} (decorators : List Tree) :
    Lays lo least decorators (laterDecorators g ctx decorators) (fun ts => ts) past := by
  unfold laterDecorators
  refine .skip fun _ => .ite (fun _ => .pure (.refl _)) fun _ => .skip fun _ => ?_
  refine .step (hg.decorators ctx) fun later => .maybe ?_
  exact .pure (List.sublist_append_right _ _).subperm

theorem reads_exportNames : Reads (exportNames g ctx) fun ts => ts := by
  intro lo
  unfold exportNames
  refine .skip fun _ => .ite (fun _ => .skip fun _ => ?_) fun _ => .skip fun _ => .skip fun _ => ?_
  · refine .ite (fun _ => .skip fun _ => .skip fun _ => .skip fun _ => ?_) fun _ => .skip fun _ => ?_
    · exact reads_fromClause hg ctx lo
    · exact reads_fromClause hg ctx lo
  · refine .skip fun _ => .ite (fun _ => reads_fromClause hg ctx lo) fun _ => ?_
    exact .skip fun _ => .pure (.refl _)

section

variable {lo least : Nat} {start : Mark} {past : Bool} (hlo : lo ≤ start.offset)

omit hg in
include hlo in
/-- What is exported starts at `export`, also as a declaration. -/
theorem lays_exported (hlt : start.offset < least) (declared : Tree) :
    Lays lo least [declared] (do return .exported (← spanFrom start) declared) (fun t => [t]) past
      Tree.isDeclaration := by
  refine .span fun stop => ?_
  have hdeclaration := Tree.isDeclaration_exported ⟨start, stop⟩ declared
  have hmark := Tree.isLandmark_exported ⟨start, stop⟩ declared
  cases hdeclared : declared.isDeclared with
  | true => exact .declared rfl (hdeclaration.trans hdeclared) rfl (.refl _) hlo hlt
  | false => exact .unmarked rfl (hmark.trans hdeclared) rfl (.refl _) (.inr ⟨hlo, hlt⟩)

omit hg in
theorem yields_exported (declared : Tree) (h : declared.isDeclared = true) :
    Yields (do return Tree.exported (← spanFrom start) declared) (·.isDeclaration = true) :=
  .span fun _ => .pure ((Tree.isDeclaration_exported _ declared).trans h)

omit hg in
include hlo in
/-- What is read after `export` may be a declaration. -/
theorem lays_exportOf (hlt : start.offset < least) {held : List Tree} {p : Parse Tree}
    (hp : Lays lo least held p (fun t => [t]) past Tree.isDeclared) :
    Lays lo least held (do
      let declared ← p
      return .exported (← spanFrom start) declared) (fun t => [t]) past Tree.isDeclaration :=
  .bindGiven hp (lays_exported hlo hlt) yields_exported

include hlo

theorem lays_exportDefault (hlt : start.offset < least) (before : List Tree) :
    Lays lo least before (exportDefault g ctx start before) (fun t => [t]) past
      Tree.isDeclaration := by
  unfold exportDefault
  refine .bind (lays_laterDecorators hg ctx before) fun decorators => ?_
  refine .hereAfter fun begin hbegin => ?_
  have hpast : start.offset < begin.offset := Nat.lt_of_lt_of_le hlt hbegin
  have hlater : lo ≤ begin.offset := Nat.le_trans hlo (Nat.le_of_lt hpast)
  have hclass : Lays lo begin.offset decorators (do
      let declared ← classAt g ctx begin decorators false true
      return .exported (← spanFrom start) declared) (fun t => [t]) past Tree.isDeclaration :=
    lays_exportOf hlo hpast (lays_classAt hg ctx decorators false true hlater (Nat.le_refl _))
  extract_lets rest
  have hrest : Lays lo begin.offset decorators (rest ()) (fun t => [t]) past Tree.isDeclaration := by
    refine .skip fun _ => .ite (fun _ => .hereAfter fun next hnext => .skip fun _ => ?_) fun _ => ?_
    · refine lays_exportOf hlo (Nat.lt_of_lt_of_le hpast hnext) ?_
      exact lays_interfaceAfter hg ctx (Nat.le_trans hlater hnext) (Nat.le_refl _)
    refine .skip fun _ => .ite (fun _ => hclass) fun _ => .skip fun _ => .skip fun _ => ?_
    refine .ite (fun _ => ?_) fun _ => ?_
    · refine .step (reads_maybeAsyncFunction hg ctx false false) fun declared => ?_
      exact (lays_exported hlo hpast declared).drop (List.sublist_append_right _ _).subperm
    · refine .step (reads_fullExpression hg ctx) fun value => .skip fun _ => .span fun _ => ?_
      exact .tree rfl rfl (List.sublist_append_right _ _).subperm (.inr ⟨hlo, hpast⟩)
  refine .skip fun _ => .ite (fun _ => .skip fun _ => ?_) fun _ => hrest
  exact .ite (fun _ => .skip fun _ => hclass) fun _ => .skip fun _ => .maybe hrest

theorem lays_exportedDeclaration? (hleast : start.offset ≤ least) (decorators : List Tree) :
    Lays lo least decorators (exportedDeclaration? g ctx start decorators)
      (fun o => o.elim decorators fun t => [t]) past fun o => o.any Tree.isDeclared := by
  unfold exportedDeclaration?
  refine .hereAfter fun begin hbegin => ?_
  have hlater : lo ≤ begin.offset := Nat.le_trans hlo (Nat.le_trans hleast hbegin)
  have hvariables : Lays lo begin.offset decorators (do
      return some (← variableList g ctx start false)) (fun o => o.elim decorators fun t => [t]) past
      fun o => o.any Tree.isDeclared :=
    ((lays_variableList hg ctx start false).rebase hlo (Nat.le_trans hleast hbegin)).relax.found
  have henum : Lays lo begin.offset decorators (do
      return some (← enumAfter g ctx begin)) (fun o => o.elim decorators fun t => [t]) past
      fun o => o.any Tree.isDeclared :=
    ((lays_enumAfter hg ctx begin).rebase hlater (Nat.le_refl _)).relax.found
  refine .skip fun _ => .ite (fun _ => ?_) fun _ => .skip fun _ => .skip fun _ => ?_
  · exact (lays_classAt hg ctx decorators true true hlater (Nat.le_refl _)).found
  refine .ite (fun _ => ?_) fun _ => .skip fun _ => ?_
  · refine .step (reads_maybeAsyncFunction hg ctx false true) fun t => .pure ?_
    exact (List.sublist_append_right _ _).subperm
  · extract_lets nothing rest
    have hrest : Lays lo begin.offset decorators (rest ()) (fun o => o.elim decorators fun t => [t])
        past fun o => o.any Tree.isDeclared := by
      refine .skip fun _ => .skip fun _ => .ite (fun _ => hvariables) fun _ => .skip fun _ => ?_
      refine .ite (fun _ => .skip fun _ => ?_) fun _ => .pure (.refl _)
      exact .ite (fun _ => hvariables) fun _ => .pure (.refl _)
    refine .ite (fun _ => .skip fun _ => ?_) fun _ => hrest
    exact .ite (fun _ => .skip fun _ => .skip fun _ => henum) fun _ => hrest

end

section

variable {lo : Nat} {start : Mark} {past : Bool} (hlo : lo ≤ start.offset) (before : List Tree)
include hlo

/-- An export that is no declaration behind a word. -/
theorem lays_exportRest {least : Nat} (hlt : start.offset < least) :
    Lays lo least before (exportRest g ctx start before) (fun t => [t]) past Tree.isDeclaration := by
  unfold exportRest
  have hnames : ∀ decorators, Lays lo least decorators (do
      let attributes ← exportNames g ctx
      return Tree.node (← spanFrom start) attributes) (fun t => [t]) past Tree.isDeclaration :=
    fun _ => .step (reads_exportNames hg ctx) fun attributes => .span fun _ =>
      .tree rfl rfl (List.sublist_append_right _ _).subperm (.inr ⟨hlo, hlt⟩)
  refine .skip fun _ => .ite (fun _ => .skip fun _ => ?_) fun _ => .skip fun _ => ?_
  · extract_lets rest
    have himport : Lays lo least before (rest ()) (fun t => [t]) past Tree.isDeclaration :=
      .skip fun _ => .skip fun _ => .span fun _ => .leaf rfl
    exact .ite (fun _ => .skip fun _ => .maybe himport) fun _ => himport
  refine .ite (fun _ => ?_) fun _ => .skip fun _ => .ite (fun _ => ?_) fun _ => ?_
  · refine .step (reads_fullSequence hg ctx) fun value => .skip fun _ => .span fun _ => ?_
    exact .tree rfl rfl (List.sublist_append_right _ _).subperm (.inr ⟨hlo, hlt⟩)
  · exact .skip fun _ => .skip fun _ => .skip fun _ => .span fun _ => .leaf rfl
  refine .skip fun _ => ?_
  extract_lets names later
  have hlater : Lays lo least before (later ()) (fun t => [t]) past Tree.isDeclaration := by
    refine .bind (lays_laterDecorators hg ctx before) fun decorators => ?_
    refine .ite (fun _ => ?_) fun _ => hnames decorators
    exact .foundOrGiven (lays_exportedDeclaration? hg ctx hlo (Nat.le_of_lt hlt) decorators)
      (lays_exported hlo hlt) yields_exported (hnames decorators)
  refine .ite (fun _ => .skip fun _ => ?_) fun _ => hlater
  exact .ite (fun _ => lays_exportDefault hg ctx hlo hlt before) fun _ => hlater

/-- An export that may be a declaration behind a word. -/
theorem lays_exportWord {rest : Parse Tree} :
    (∀ least, start.offset < least →
      Lays lo least before rest (fun t => [t]) past Tree.isDeclaration) →
    ∀ least, start.offset < least → Lays lo least before (do
      if let .word word := (← token).kind then
        let begin ← here
        if let some declared ← attempt? (declarationAfter? g ctx begin before word true) then
          return .exported (← spanFrom start) declared
      rest) (fun t => [t]) past Tree.isDeclaration := by
  intro hrest least hlt
  refine .skip fun t => ?_
  split
  · rename_i word hkind
    refine .hereAfter fun begin hbegin => ?_
    have hpast : start.offset < begin.offset := Nat.lt_of_lt_of_le hlt hbegin
    have hdeclared : Lays lo begin.offset before (declarationAfter? g ctx begin before word true)
        (fun o => o.elim before fun t => [t]) past fun o => o.any Tree.isDeclared :=
      lays_declarationAfter? hg ctx before (Nat.le_trans hlo (Nat.le_of_lt hpast)) (Nat.le_refl _)
        word true
    exact .foundOrGiven hdeclared.declined.attempt? (lays_exported hlo hpast) yields_exported
      (hrest _ hpast)
  · exact hrest least hlt

end

/-- An export, whose decorators are in hand, at its keyword. -/
theorem ends_exportDeclaration {lo least : Nat} {before : List Tree} {past : Bool} {s : State}
    (hs : Holding lo least before s) (hsolid : s.token.kind.isSolid = true) :
    Ends lo least before (fun t => [t]) past Tree.isDeclaration s
      (exportDeclaration g ctx before s) := by
  refine .pastToken hs hsolid fun start hlo => .hereAfter fun begin hbegin => ?_
  refine .skip fun _ => .ite (fun _ => .foundOrGiven (lays_ambient? hg ctx before ?_ (Nat.le_refl _))
    (lays_exported hlo hbegin) yields_exported ?_) fun _ => ?_
  · exact Nat.le_trans hlo (Nat.le_of_lt hbegin)
  · exact lays_exportWord hg ctx hlo before (fun _ => lays_exportRest hg ctx hlo before) _ hbegin
  · exact lays_exportWord hg ctx hlo before (fun _ => lays_exportRest hg ctx hlo before) _ hbegin

end

end Parse
end TypeScript
end FetchClients
