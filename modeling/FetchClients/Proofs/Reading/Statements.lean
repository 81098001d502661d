/-
# Statements as they are read

A statement starts before its decorators. They stay in hand where the statement
is a class or an expression, and are dropped elsewhere. The landmarks in a statement
that is no declaration are those of its decorators or past the token behind these.

Key theorems: `Parse.lays_statementAfter`, `Parse.reads_statementOf`.
-/
import FetchClients.Proofs.Reading.Jsx
import FetchClients.Proofs.Reading.Modules
import FetchClients.TypeScript.Parser.Statements

namespace FetchClients
namespace TypeScript
namespace Parse

open List (Subperm)

instance : Moves atEach := by unfold atEach; infer_instance

section

variable {g : Grammar} (hg : g.Scatters) (ctx : Context)
include hg

/-! ### Conditions and loops -/

theorem reads_substatement : Reads (substatement g ctx) (fun t => [t]) true :=
  hg.statement _ false

theorem reads_parenthesized : Reads (parenthesized g ctx) fun t => [t] := by
  intro lo
  unfold parenthesized
  exact .skip fun _ => .step (reads_fullSequence hg ctx) fun inner => .skip fun _ => .pure (.refl _)

theorem reads_elseBranch : Reads (elseBranch g ctx) (fun ts => ts) true := by
  intro lo
  unfold elseBranch
  refine .skip fun _ => .ite (fun _ => ?_) fun _ => .pure (.refl _)
  exact .stepLate (reads_substatement hg ctx) fun branch => .pure (.refl _)

theorem lays_eachHead (target : Tree) {lo least : Nat} :
    Lays lo least [target] (eachHead g ctx target) fun ts => ts := by
  unfold eachHead
  refine .skip fun isOf => .skip fun _ => ?_
  exact .either (fun _ => reads_fullExpression hg ctx) (fun _ => reads_fullSequence hg ctx)
    fun source => .pure (.refl _)

theorem lays_countingHead (first : List Tree) {lo least : Nat} :
    Lays lo least first (countingHead g ctx first) fun ts => ts := by
  unfold countingHead
  extract_lets rest
  have hrest : ∀ test, Lays lo least (first ++ test) (rest test) fun ts => ts := by
    intro test
    refine .skip fun _ => .ite (fun _ => .known <| .pure (by simp)) fun _ => ?_
    exact .step (reads_fullSequence hg ctx) fun update => .known <| .pure (.refl _)
  refine .skip fun _ => .ite (fun _ => .known <| ?_) fun _ => ?_
  · exact (hrest []).drop (by simp)
  · exact .step (reads_fullSequence hg ctx) fun test => .skip fun _ => .known <| hrest [test]

theorem reads_forHead : Reads (forHead g ctx) fun ts => ts := by
  intro lo
  unfold forHead
  refine .here fun start => ?_
  extract_lets head
  have hhead : ∀ declares : Bool, Lays start.offset start.offset [] (head declares) fun ts => ts := by
    refine fun declares => .ite (fun _ => ?_) fun _ => .skip fun _ => ?_
    · refine .bind (lays_variableList hg ctx start true) fun target => .skip fun _ => ?_
      refine .ite (fun _ => lays_eachHead hg ctx target) fun _ => .skip fun _ => ?_
      exact lays_countingHead hg ctx [target]
    refine .ite (fun _ => lays_countingHead hg ctx []) fun _ => ?_
    refine .step (reads_sequence hg _) fun first => .skip fun _ => .skip fun _ => ?_
    refine .ite (fun _ => ?_) fun _ => .skip fun _ => .ite (fun _ => ?_) fun _ => .skip fun _ => ?_
    · refine .step (reads_bindingIdentifier ctx false) fun bound => ?_
      obtain ⟨name, span⟩ := bound
      exact .span fun _ => (lays_eachHead hg ctx _).wrap rfl (.refl _) (.inl rfl)
    · exact .maybe <| lays_eachHead hg ctx first.tree
    · exact lays_countingHead hg ctx [first.tree]
  refine .skip fun _ => .ite (fun _ => .known <| hhead true) fun _ => .skip fun _ => ?_
  exact .ite (fun _ => .skip hhead) fun _ => .known <| hhead false

section

variable (start : Mark)

theorem lays_ifStatement :
    Lays start.offset start.offset [] (ifStatement g ctx start) fun t => [t] := by
  unfold ifStatement
  refine .skip fun _ => .pass (advances_expectSign (by decide)) fun _ => ?_
  refine .step (reads_fullSequence hg ctx) fun condition => .skip fun _ => ?_
  refine .stepLate (reads_substatement hg ctx) fun whenTrue => ?_
  refine .stepLate (reads_elseBranch hg ctx) fun whenFalse => .span fun _ => ?_
  exact .tree rfl rfl (.refl _) (.inl rfl)

/-- The condition of a `do` is read after its body, before which it is searched. -/
theorem lays_doStatement :
    Lays start.offset start.offset [] (doStatement g ctx start) fun t => [t] := by
  unfold doStatement
  refine .pass advances_expectWord fun _ => .stepLate (reads_substatement hg ctx) fun body => ?_
  refine .skip fun _ => ?_
  refine .step (reads_parenthesized hg ctx) fun condition => .skip fun _ => .span fun _ => ?_
  exact .tree rfl rfl (List.Perm.swap body condition []).subperm (.inl rfl)

theorem lays_headedStatement :
    Lays start.offset start.offset [] (headedStatement g ctx start) fun t => [t] := by
  simp only [headedStatement, parenthesized, bind_assoc, pure_bind]
  refine .skip fun _ => .pass (advances_expectSign (by decide)) fun _ => ?_
  refine .step (reads_fullSequence hg ctx) fun head => .skip fun _ => ?_
  refine .stepLate (reads_substatement hg ctx) fun body => .span fun _ => ?_
  exact .tree rfl rfl (.refl _) (.inl rfl)

theorem lays_forStatement :
    Lays start.offset start.offset [] (forStatement g ctx start) fun t => [t] := by
  unfold forStatement
  refine .skip fun _ => .skip fun _ => .pass (advances_expectSign (by decide)) fun _ => ?_
  refine .step (reads_forHead hg ctx) fun head => .skip fun _ => ?_
  refine .stepLate (reads_substatement hg ctx) fun body => .span fun _ => ?_
  exact .tree rfl rfl (.refl _) (.inl rfl)

end

/-! ### Cases, clauses and jumps -/

theorem reads_switchCase? : Reads (switchCase? g ctx) fun o => o.getD [] := by
  intro lo
  unfold switchCase?
  refine .skip fun _ => ?_
  extract_lets rest
  have hrest : ∀ tested, Lays lo lo tested (rest tested) fun o => o.getD [] := by
    refine fun tested => .pass (advances_expectSign (by decide)) fun _ => ?_
    refine .stepLate (.trees fun lo => ?_) fun body => .pure (.refl _)
    refine .skip fun _ => .ite (fun _ => .pure (.refl _)) fun _ => ?_
    exact .stepLate (hg.statement _ true) fun item => .pure (.refl _)
  refine .skip fun _ => .ite (fun _ => .pure (.refl _)) fun _ => .skip fun _ => ?_
  refine .ite (fun _ => ?_) fun _ => .known <| hrest []
  exact .step (reads_fullSequence hg ctx) fun tested => .known <| hrest [tested]

theorem reads_catchClause : Reads (catchClause g ctx) fun ts => ts := by
  intro lo
  unfold catchClause
  extract_lets rest
  have hrest : ∀ caught, Lays lo lo caught (rest caught) fun ts => ts :=
    fun caught => .step (reads_block hg ctx) fun body => .pure (.refl _)
  refine .skip fun _ => .ite (fun _ => .pure (.refl _)) fun _ => .skip fun _ => ?_
  refine .ite (fun _ => ?_) fun _ => .known <| hrest []
  refine .step (hg.pattern ctx) fun target => .bind (lays_annotated hg ctx target) fun target => ?_
  exact .skip fun _ => .known <| hrest [target]

theorem reads_finallyClause : Reads (finallyClause g ctx) fun ts => ts := by
  intro lo
  unfold finallyClause
  refine .skip fun _ => .ite (fun _ => ?_) fun _ => .pure (.refl _)
  exact .step (reads_block hg ctx) fun body => .pure (.refl _)

section

variable (start : Mark)

theorem lays_switchStatement :
    Lays start.offset start.offset [] (switchStatement g ctx start) fun t => [t] := by
  unfold switchStatement
  refine .skip fun _ => .step (reads_parenthesized hg ctx) fun subject => .skip fun _ => ?_
  refine .step (.lists (reads_switchCase? hg ctx)) fun cases => .skip fun _ => .span fun _ => ?_
  exact .tree rfl rfl (.refl _) (.inl rfl)

theorem lays_tryStatement :
    Lays start.offset start.offset [] (tryStatement g ctx start) fun t => [t] := by
  unfold tryStatement
  refine .skip fun _ => .step (reads_block hg ctx) fun body => ?_
  refine .step (reads_catchClause hg ctx) fun handler => ?_
  refine .step (reads_finallyClause hg ctx) fun finalizer => .span fun _ => ?_
  exact .tree rfl rfl (.refl _) (.inl rfl)

theorem lays_strayClause :
    Lays start.offset start.offset [] (strayClause g ctx start) fun t => [t] := by
  unfold strayClause
  extract_lets clause
  have hcatch : Reads (orElseThere (catchClause g ctx) fun _ => return []) fun ts => ts :=
    fun lo => .orElseThere (reads_catchClause hg ctx lo) fun _ => .pure (.refl _)
  have hfinally : Reads (orElseThere (finallyClause g ctx) fun _ => return []) fun ts => ts :=
    fun lo => .orElseThere (reads_finallyClause hg ctx lo) fun _ => .pure (.refl _)
  have hclause : Moves clause :=
    .of_reads fun lo => .step hcatch fun _ => .step hfinally fun _ => .pure List.nil_subperm
  exact .skip fun _ => .span fun _ => .leaf rfl

omit hg in
theorem lays_jumpStatement :
    Lays start.offset start.offset [] (jumpStatement ctx start) fun t => [t] := by
  unfold jumpStatement
  extract_lets node
  have hnode : Lays start.offset start.offset [] (node ()) fun t => [t] :=
    .span fun _ => .leaf rfl
  refine .skip fun _ => .skip fun _ => .ite (fun _ => ?_) fun _ => hnode
  exact .skip fun _ => .skip fun _ => hnode

theorem lays_returnStatement :
    Lays start.offset start.offset [] (returnStatement g ctx start) fun t => [t] := by
  unfold returnStatement
  extract_lets rest
  have hrest : ∀ value, Lays start.offset start.offset value (rest value) fun t => [t] :=
    fun value => .skip fun _ => .span fun _ => .tree rfl rfl (.refl _) (.inl rfl)
  refine .skip fun _ => .skip fun _ => .ite (fun _ => .known <| hrest []) fun _ => ?_
  exact .step (reads_fullSequence hg ctx) fun value => .known <| hrest [value]

theorem lays_throwStatement :
    Lays start.offset start.offset [] (throwStatement g ctx start) fun t => [t] := by
  unfold throwStatement
  refine .skip fun _ => .skip fun _ => .maybe ?_
  refine .step (reads_fullSequence hg ctx) fun value => .skip fun _ => .span fun _ => ?_
  exact .tree rfl rfl (.refl _) (.inl rfl)

theorem lays_usingDeclaration? {least : Nat} {past : Bool} (decorators : List Tree) :
    Lays start.offset least decorators (usingDeclaration? g ctx start)
      (fun o => o.elim decorators fun t => [t]) past := by
  unfold usingDeclaration?
  refine .skip fun _ => .ite (fun _ => .pure (.refl _)) fun _ => .skip fun _ => ?_
  refine .drop ?_ List.nil_subperm
  refine .step (reads_oneVariable hg ctx false false) fun first => ?_
  refine .step (reads_laterVariables hg ctx false false) fun others => .skip fun _ => ?_
  exact .span fun _ => .tree rfl rfl (.refl _) (.inl rfl)

end

/-! ### Statements with decorators -/

section

variable (start : Mark) (decorators : List Tree) {past : Bool}

/-- A name that is an expression may be a label or the first word of a declaration. -/
theorem lays_afterExpression {least : Nat} {held : List Tree} {begin : Mark} (expression : Operand)
    {finish : Parse Tree} (hsub : decorators.Subperm held) (hlo : start.offset ≤ begin.offset)
    (hleast : begin.offset ≤ least) :
    Lays start.offset least held finish (fun t => [t]) past Tree.isDeclaration →
    Lays start.offset least held (match expression.shape with
      | .name name => do
        if ← eatSign ":" then
          let body ← do
            if ← isWord "function" then functionAt g ctx (← here) false false true
            else substatement g ctx
          return Tree.node (← spanFrom start) [body]
        match ← declarationAfterName? g ctx begin decorators name with
        | some declaration => return declaration
        | none => finish
      | _ => finish) (fun t => [t]) past Tree.isDeclaration := by
  intro hfinish
  split
  · rename_i name _
    have hbody : ∀ body, Lays start.offset (least + 1) [body] (do
        return Tree.node (← spanFrom start) [body]) (fun t => [t]) true Tree.isDeclaration :=
      fun body => .span fun _ => .tree rfl rfl (.refl _) (.inl rfl)
    refine .ifEaten (by decide) (.drop (.skip fun _ => ?_) List.nil_subperm) ?_
    · refine .ite (fun _ => ?_) fun _ => .stepLate (reads_substatement hg ctx) hbody
      exact .inner (fun begin => lays_functionAt hg ctx begin false false true) hbody
    · refine .foundOrHeld ?_ (fun declaration => .pure (.refl _))
        (fun t ht => .pure (Tree.isDeclaration_of_isDeclared ht)) hfinish
      exact (lays_declarationAfterName? hg ctx decorators hlo hleast name).declined.drop hsub
  · exact hfinish

/-- Operators behind an expression make a tree with it that starts where the expression does. -/
theorem lays_operators (begin : Mark) (expression : Operand) :
    Lays begin.offset begin.offset [expression.tree] (do
      if ← eatStatementEnd then return expression.tree
      if ← atOperator ctx then
        let more ← iterate (binaryLink g ctx begin (unaryOf g)) (expression, expression.shape)
        return more.1.tree
      fail .semicolonExpected) fun t => [t] := by
  refine .skip fun _ => .ite (fun _ => .pure (.refl _)) fun _ => .skip fun _ => ?_
  refine .ite (fun _ => ?_) fun _ => .fail
  refine .loop (fun left => [left.1.tree]) (.refl _) ?_ fun _ => .pure (.refl _)
  exact lays_binaryLink hg ctx (reads_unaryOf hg) begin

theorem lays_expressionStatement {least : Nat} :
    Lays start.offset least decorators (expressionStatement g ctx start decorators)
      (fun t => [t]) past Tree.isDeclaration := by
  intro s hs
  unfold expressionStatement
  have hlo : start.offset ≤ s.pos := Nat.le_trans hs.lo_le hs.least_le
  have hsequence := reads_sequence hg { ctx with noIn := false } s.pos s
    (.nothing hs.sound (Nat.le_refl _) (Nat.le_refl _))
  change Ends start.offset least decorators _ past _ s
    ((sequence g { ctx with noIn := false } >>= _) s)
  cases heq : sequence g { ctx with noIn := false } s with
  | failed failure t =>
    rw [heq] at hsequence
    rw [bind_of_failed heq]
    exact hsequence
  | done expression t =>
    rw [heq] at hsequence
    obtain ⟨hle, ht, hfresh⟩ := hsequence
    rw [bind_of_done heq]
    have hboth : Holding start.offset t.pos (decorators ++ [expression.tree]) t :=
      (hs.extend ht hle).weaken (Nat.le_refl _) (Nat.le_trans hlo hle) (Nat.le_refl _)
    have hfinish : Lays start.offset t.pos (decorators ++ [expression.tree]) (do
        if ← eatStatementEnd then
          return Tree.node (← spanFrom start) [expression.tree]
        if ← atOperator ctx then
          let more ← iterate (binaryLink g ctx s.token.start (unaryOf g)) (expression, expression.shape)
          return .node (← spanFrom start) [more.1.tree]
        fail .semicolonExpected) (fun t => [t]) past Tree.isDeclaration := by
      -- the expression lies behind the decorators, also in the states after `t`
      intro u hu
      have hnode : ∀ whole, Lays start.offset u.pos (decorators ++ [whole]) (do
          return Tree.node (← spanFrom start) [whole]) (fun t => [t]) past Tree.isDeclaration :=
        fun whole => .span fun _ =>
          .tree rfl rfl (List.sublist_append_right _ _).subperm (.inl rfl)
      have hend := Ends.onward hs (ht.later hu.sound hu.least_le)
        (lays_operators hg ctx s.token.start expression).relax hnode
      refine .forget ?_ (Nat.le_refl _) (Nat.le_trans hlo hle) hu.least_le
      simpa only [bind_assoc, apply_ite_left Bind.bind, pure_bind, fail_bind] using hend
    have hend := lays_afterExpression hg ctx start decorators expression
      (List.sublist_append_left _ _).subperm hlo hle hfinish t hboth
    have hpart : Fresh past s.pos decorators [expression.tree] :=
      ((hfresh.resolve_left Bool.false_ne_true).hold (List.nil_subset _)).late
    refine .since (hend.forget (Nat.le_refl _) hs.lo_le (Nat.le_trans hs.least_le hle)) hle ?_
    exact .append (.ofSubset (List.Subset.refl _)) hpart

theorem lays_plainStatement (declarations : Bool) :
    Lays start.offset start.offset decorators
      (plainStatement g ctx start decorators declarations) (fun t => [t]) past
      Tree.isDeclaration := by
  unfold plainStatement
  refine .tokenAfter fun t ht => ?_
  dsimp only
  have hplain : ∀ {p : Parse Tree}, Lays start.offset start.offset [] p (fun t => [t]) →
      Lays start.offset t.start.offset decorators p (fun t => [t]) past Tree.isDeclaration :=
    fun h => (h.rebase (Nat.le_refl _) ht).relax
  have hthere : ∀ {p : Parse Tree}, Lays t.start.offset t.start.offset [] p (fun t => [t]) →
      Lays start.offset t.start.offset decorators p (fun t => [t]) past Tree.isDeclaration :=
    fun h => (h.rebase ht (Nat.le_refl _)).relax
  have hexpression : Lays start.offset t.start.offset decorators
      (expressionStatement g ctx start decorators) (fun t => [t]) past Tree.isDeclaration :=
    lays_expressionStatement hg ctx start decorators
  have hvariables := hplain (lays_variableList hg ctx start false)
  have henum := hplain (lays_enumAfter hg ctx start)
  have hasync : Lays start.offset t.start.offset decorators
      (maybeAsyncFunction g ctx false true) (fun t => [t]) past Tree.isDeclaration :=
    hthere (reads_maybeAsyncFunction hg ctx false true _)
  split
  · refine .skip fun _ => .ite (fun _ => .skip fun _ => .skip fun _ => henum) fun _ => ?_
    exact .ite (fun _ => hvariables) fun _ => hexpression
  · have husing : Lays start.offset t.start.offset decorators (do
        bump
        usingDeclaration? g ctx start) (fun o => o.elim [] fun t => [t]) past :=
      .skip fun _ => (lays_usingDeclaration? hg ctx start decorators).declined
    exact .skip fun _ => .foundOrIf husing.attempt? (fun declaration => .pure (.refl _)) hexpression
  · exact hplain (lays_jumpStatement ctx start)
  · exact hplain (lays_jumpStatement ctx start)
  · exact .skip fun _ => .skip fun _ => .span fun _ => .leaf rfl
  · exact hplain (lays_doStatement hg ctx start)
  · exact hplain (lays_forStatement hg ctx start)
  · exact hthere (lays_functionAt hg ctx t.start false false true)
  · exact (lays_classAt hg ctx decorators true true (Nat.le_refl _) ht).waive
      fun _ => Tree.isDeclaration_of_isDeclared
  · exact hplain (lays_ifStatement hg ctx start)
  · exact hplain (lays_returnStatement hg ctx start)
  · exact hplain (lays_switchStatement hg ctx start)
  · exact hplain (lays_throwStatement hg ctx start)
  · exact hplain (lays_strayClause hg ctx start)
  · exact hplain (lays_strayClause hg ctx start)
  · exact hplain (lays_tryStatement hg ctx start)
  · exact hplain (lays_headedStatement hg ctx start)
  · exact hplain (lays_headedStatement hg ctx start)
  · exact hvariables
  · exact .skip fun _ => .ite (fun _ => hvariables) fun _ => hexpression
  · exact .foundOrIf (lays_usingDeclaration? hg ctx start decorators)
      (fun declaration => .pure (.refl _)) hexpression
  · refine .skip fun _ => .ite (fun _ => .skip fun _ => ?_) fun _ => hexpression
    exact (lays_interfaceAfter hg ctx ht (Nat.le_refl _)).waive
      fun _ => Tree.isDeclaration_of_isDeclared
  · refine .skip fun _ => .ite (fun _ => .skip fun _ => ?_) fun _ => hexpression
    exact (lays_aliasAfter hg ctx ht (Nat.le_refl _)).waive
      fun _ => Tree.isDeclaration_of_isDeclared
  · exact .skip fun _ => .ite (fun _ => .skip fun _ => henum) fun _ => hexpression
  · exact hthere (reads_block hg ctx _)
  · exact .skip fun _ => .leaf rfl
  · exact .skip fun _ => .ite (fun _ => hasync) fun _ => hexpression
  · exact hexpression

/-- A statement whose decorators are in hand. -/
theorem lays_statementAfter (declarations : Bool) :
    Lays start.offset start.offset decorators
      (statementAfter g ctx start decorators declarations) (fun t => [t]) past
      Tree.isDeclaration := by
  unfold statementAfter
  have hplain : Lays start.offset start.offset decorators
      (plainStatement g ctx start decorators declarations) (fun t => [t]) past Tree.isDeclaration :=
    lays_plainStatement hg ctx start decorators declarations
  refine .skip fun isImport => .skip fun _ => .ite (fun _ => ?_) fun _ => .ite (fun _ => ?_) fun _ => ?_
  · refine .drop ?_ List.nil_subperm
    refine .step (reads_fullSequence hg ctx) fun expression => .skip fun _ => .span fun _ => ?_
    exact .tree rfl rfl (.refl _) (.inl rfl)
  · exact .maybe <| (lays_importDeclaration hg ctx start).relax.drop List.nil_subperm
  · have hinside : Lays start.offset start.offset decorators (fail .exportInside)
        (fun t : Tree => [t]) past Tree.isDeclaration := .fail
    refine .atWord (fun s hs hword => ?_) hplain
    split
    · exact hinside s hs
    · exact ends_exportDeclaration hg ctx hs hword

end

/-- A statement may be a declaration that starts where it is read. -/
theorem reads_statementOf (declarations : Bool) :
    Reads (statementOf g ctx declarations) (fun t => [t]) true := by
  have hlays : ∀ lo, Lays lo lo [] (statementOf g ctx declarations) (fun t => [t]) false
      Tree.isDeclaration := by
    intro lo
    unfold statementOf
    extract_lets ctx
    refine .here fun start => .step (hg.decorators ctx) fun decorators => .advancing ?_
    exact lays_statementAfter hg ctx start decorators declarations
  exact .ofLays hlays

end

end Parse
end TypeScript
end FetchClients
