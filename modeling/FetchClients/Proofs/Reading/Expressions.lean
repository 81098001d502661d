/-
# Expressions as they are read

Operands, operators, arrow functions and decorators read trees that lie
scattered. An operand with what follows it is one tree that starts where the
operand does.

Key theorems: `Parse.reads_parenthesis`, `Parse.reads_primary`,
`Parse.lays_chainLink`, `Parse.reads_expressionOf`, `Parse.reads_decoratorsOf`.
-/
import FetchClients.Proofs.Reading.Classes
import FetchClients.TypeScript.Parser.Expressions

namespace FetchClients
namespace TypeScript
namespace Parse

open List (Subperm)

instance : Moves memberName := by unfold memberName; infer_instance
instance : Moves startsExpression := by unfold startsExpression; infer_instance
instance (key : PropertyName) : Moves (afterObjectName key) := by
  unfold afterObjectName
  infer_instance

instance (ctx : Context) : Moves (atArrowTypeParams ctx) := by
  unfold atArrowTypeParams
  infer_instance

instance (ctx : Context) : Moves (atOperator ctx) := by
  unfold atOperator
  refine .of_reads fun lo => ?_
  exact .reread Token.Sound.readOperator Token.start_readOperator fun _ => Moves.reads lo

section

variable {g : Grammar} (hg : g.Scatters) (ctx : Context)
include hg

/-! ### Sequences, arrays and objects -/

theorem reads_sequence : Reads (sequence g ctx) fun o => [o.tree] := by
  intro lo
  unfold sequence
  refine .here fun start => .step (hg.expression ctx) fun first => .step (.trees fun lo => ?_) ?_
  · refine .skip fun _ => .ite (fun _ => ?_) fun _ => .pure (.refl _)
    exact .step (hg.expression ctx) fun other => .pure (.refl _)
  · intro others
    refine .ite (fun _ => .pure (by simp)) fun _ => .span fun _ => ?_
    exact .tree rfl rfl (.refl _) (.inl rfl)

theorem reads_fullSequence : Reads (fullSequence g ctx) fun t => [t] :=
  fun _ => .step (reads_sequence hg _) fun _ => .pure (.refl _)

theorem reads_spreadable : Reads (spreadable g ctx) fun t => [t] :=
  fun lo => .skip fun _ => reads_fullExpression hg ctx lo

theorem reads_arguments : Reads (arguments g ctx) fun ts => ts :=
  fun lo => .skip fun _ => reads_commaListUntil (reads_spreadable hg _) lo

theorem reads_arrayLiteral : Reads (arrayLiteral g ctx) fun o => [o.tree] := by
  intro lo
  unfold arrayLiteral
  refine .here fun start => .skip fun _ => .step (.lists fun lo => ?_) fun items => ?_
  · refine .skip fun _ => .ite (fun _ => .pure (.refl _)) fun _ => .skip fun _ => ?_
    refine .ite (fun _ => .pure (.refl _)) fun _ => .step (reads_spreadable hg ctx) fun item => ?_
    exact .skip fun _ => .maybe <| .pure (.refl _)
  · exact .skip fun _ => .span fun _ => .tree rfl rfl (.refl _) (.inl rfl)

theorem lays_objectMethod (start : Mark) (key : List Tree) (async generator : Bool) :
    Lays start.offset start.offset key (objectMethod g ctx start key async generator)
      fun r => [r.1] :=
  .step (reads_functionRest hg ctx async generator) fun _ => .span fun _ =>
    .tree rfl rfl (.refl _) (.inl rfl)

theorem lays_objectAccessor (start : Mark) (key : List Tree) (getter : Bool) :
    Lays start.offset start.offset key (objectAccessor g ctx start key getter) fun r => [r.1] := by
  unfold objectAccessor
  refine .step (reads_functionWith hg ctx false false (reads_bareParams hg)) fun f => ?_
  refine .span fun _ => .tree rfl rfl (subperm_of_count fun t => ?_) (.inl rfl)
  have hparams := (List.take_sublist 2 f.params).count_le t
  simp only [Tree.parts, FunctionRest.parts, FunctionRest.afterParams, List.count_append]
  cases getter with
  | true => simp only [if_true]; omega
  | false => simp only [Bool.false_eq_true, if_false]; omega

theorem reads_objectProperty : Reads (objectProperty g ctx) fun r => [r.1] := by
  intro lo
  unfold objectProperty
  refine .here fun start => .skip fun _ => .ite (fun _ => ?_) fun _ => .skip fun _ => ?_
  · exact .step (reads_fullExpression hg ctx) fun value => .pure (.refl _)
  refine .ite (fun _ => ?_) fun _ => .skip fun _ => ?_
  · exact .step (reads_propertyName hg ctx) fun key => lays_objectMethod hg ctx start _ false true
  refine .step (reads_propertyName hg ctx) fun key => .skip fun _ => ?_
  refine .ite (fun _ => .span fun _ => .tree rfl rfl (.refl _) (.inl rfl)) fun _ => ?_
  refine .skip fun _ => .ite (fun _ => ?_) fun _ => .skip fun _ => ?_
  · refine .step (reads_fullExpression hg ctx) fun value => .span fun _ => ?_
    exact .tree rfl rfl (.refl _) (.inl rfl)
  refine .ite (fun _ => lays_objectMethod hg ctx start _ false false) fun _ => ?_
  split
  · refine .skip fun _ => .skip fun _ => .ite (fun _ => ?_) fun _ => .maybe ?_
    · refine .step (reads_initializer? hg ctx) fun value => .span fun _ => ?_
      exact .tree rfl rfl (List.sublist_append_right _ _).subperm (.inl rfl)
    · refine .skipEither fun generator => .step (reads_propertyName hg ctx) fun inner => ?_
      refine .drop ?_ (List.sublist_append_right _ inner.parts).subperm
      exact .ite (fun _ => lays_objectMethod hg ctx start _ true generator) fun _ =>
        lays_objectAccessor hg ctx start _ _
  · exact .unexpected

theorem reads_objectLiteral : Reads (objectLiteral g ctx) fun o => [o.tree] := by
  intro lo
  unfold objectLiteral
  refine .here fun start => .skip fun _ => .step (.values (·.1) fun lo => ?_) fun items => ?_
  · refine .skip fun _ => .ite (fun _ => .pure (.refl _)) fun _ => ?_
    exact .step (reads_objectProperty hg ctx) fun item => .skip fun _ => .maybe <| .pure (.refl _)
  · exact .skip fun _ => .span fun _ => .tree rfl rfl (.refl _) (.inl rfl)

/-! ### Arrow functions and parentheses -/

theorem reads_arrowBody (async : Bool) : Reads (arrowBody g ctx async) fun t => [t] := by
  intro lo
  unfold arrowBody
  refine .skip fun _ => .ite (fun _ => reads_block hg _ lo) fun _ => ?_
  exact .step (hg.expression _) fun body => .pure (.refl _)

theorem lays_arrowRest (start : Mark) (async : Bool) (typeParams params : List Tree)
    (returns : Option Tree) :
    Lays start.offset start.offset (typeParams ++ params ++ returns.toList)
      (arrowRest g ctx start async typeParams params returns) fun o => [o.tree] := by
  unfold arrowRest
  refine .skip fun _ => .step (reads_arrowBody hg ctx async) fun body => .span fun _ => ?_
  refine .tree rfl rfl (subperm_of_count fun t => ?_) (.inl rfl)
  simp only [Tree.parts, List.count_append, List.count_cons, List.count_nil]
  omega

theorem lays_assignTo (start : Mark) (target : Operand) :
    Lays start.offset start.offset [target.tree] (assignTo g ctx start target) fun o => [o.tree] := by
  unfold assignTo
  refine .reread Token.Sound.readOperator Token.start_readOperator fun _ => .skip fun t => ?_
  refine .ite (fun _ => .pure (.refl _)) fun _ => .maybe <| .skip fun _ => ?_
  exact .step (hg.expression ctx) fun value => .span fun _ => .tree rfl rfl (.refl _) (.inl rfl)

theorem lays_conditionalRest (start : Mark) (condition : Operand) :
    Lays start.offset start.offset [condition.tree] (conditionalRest g ctx start condition)
      fun o => [o.tree] := by
  unfold conditionalRest
  refine .skip fun _ => .step (hg.expression _) fun whenTrue => .skip fun _ => ?_
  exact .step (hg.expression _) fun whenFalse => .span fun _ => .tree rfl rfl (.refl _) (.inl rfl)

variable {binary : Context → Parse Operand} (hbinary : ∀ ctx, Reads (binary ctx) fun o => [o.tree])
include hbinary

theorem reads_parenOperand : Reads (parenOperand g ctx binary) fun r => [r.1.tree] := by
  intro lo
  unfold parenOperand
  refine .here fun start => ?_
  extract_lets inner rest
  have hrest : ∀ named, Lays start.offset start.offset [] (rest named) fun r => [r.1.tree] := by
    intro named
    refine .ite (fun _ => .skip fun spread => ?_) fun _ => .skip fun spread => ?_
    · refine .step (hbinary inner) fun operand => .ite (fun _ => .pure (.refl _)) fun _ => ?_
      exact .bind (lays_assignTo hg inner start operand) fun assigned => .pure (.refl _)
    · exact .step (hg.expression _) fun operand => .pure (.refl _)
  refine .skip fun _ => .ite (fun _ => .known <| hrest true) fun _ => ?_
  exact .skip fun _ => .skipEither hrest

theorem reads_parenItem : Reads (parenItem g ctx binary) fun i => [i.operand.tree] := by
  intro lo
  unfold parenItem
  refine .skip fun _ => .here fun start => .step (reads_parenOperand hg ctx hbinary) ?_
  rintro ⟨operand, spread⟩
  refine .skip fun question => .skipEither fun optional => ?_
  dsimp -zeta only
  extract_lets close rest
  have hclose : ∀ operand : Operand, Lays start.offset start.offset [operand.tree] (close operand)
      fun i => [i.operand.tree] := by
    intro operand
    refine .skip fun _ => .ite (fun _ => .maybe ?_) fun _ => .pure (.refl _)
    refine .step (reads_typeAnnotation? hg ctx) fun type => ?_
    refine .step (reads_initializer? hg ctx) fun value => .span fun _ => ?_
    exact .tree rfl rfl (.refl _) (.inl rfl)
  have hrest : Lays start.offset start.offset [operand.tree] (rest ())
      fun i => [i.operand.tree] := by
    refine .ite (fun _ => ?_) fun _ => .known <| hclose operand
    exact .bind (lays_conditionalRest hg _ start operand) hclose
  refine .ite (fun _ => .skip fun _ => ?_) fun _ => hrest
  split
  · exact .skip fun _ => hrest
  · exact .skip fun _ => hrest

omit hbinary in
theorem reads_arrowType? : Reads (arrowType? g ctx) Option.toList := by
  intro lo
  unfold arrowType?
  refine .skip fun _ => .ite (fun _ => .pure (.refl _)) fun _ => ?_
  have hattempt : Lays lo lo [] (do
      let type ← returnType g ctx ":"
      if !(← isSign "=>") then unexpected "fail"
      return type) fun t => [t] :=
    .step (reads_returnType hg ctx ":") fun type => .skip fun _ => .maybe <| .pure (.refl _)
  exact hattempt.attempt.weaken fun o => by cases o <;> exact .refl _

omit hbinary in
theorem lays_conditionalArrow? (start : Mark) (async : Bool) (params : List Tree) :
    Lays start.offset start.offset params (conditionalArrow? g ctx start async params)
      fun o => o.elim params fun o => [o.tree] := by
  unfold conditionalArrow?
  refine .skip fun _ => .ite (fun _ => .pure (.refl _)) fun _ => .attempt ?_
  refine .step (reads_returnType hg ctx ":") fun type => ?_
  exact .bind (lays_arrowRest hg ctx start async [] params (some type)) fun arrow =>
    .skip fun _ => .maybe <| .pure (.refl _)

/-- A parenthesis at `start` or after an `async` there. -/
theorem lays_parenthesis (start : Mark) (async arrowAllowed : Bool) :
    Lays start.offset start.offset [] (parenthesis g ctx binary start async arrowAllowed)
      fun o => [o.tree] := by
  unfold parenthesis
  refine .skip fun _ => .step (.values (·.operand.tree) fun lo => ?_) fun items => .skip fun _ => ?_
  · refine .skip fun _ => .ite (fun _ => .pure (.refl _)) fun _ => ?_
    exact .step (reads_parenItem hg ctx hbinary) fun item => .skip fun _ => .maybe <| .pure (.refl _)
  refine .foundOr (lays_conditionalArrow? hg ctx start async _) (fun arrow => .pure (.refl _)) ?_
  refine .step (reads_arrowType? hg ctx) fun type => .skip fun _ => .ite (fun _ => ?_) fun _ => ?_
  · refine .skip fun _ => .maybe <| .maybe <| .skip fun _ => .maybe <| .maybe ?_
    exact lays_arrowRest hg ctx start async [] _ type
  · have hnode : Lays start.offset start.offset ([] ++ items.map (·.operand.tree) ++ type.toList) (do
        return plainOperand (.node (← spanFrom start) (items.map (·.operand.tree))))
        fun o => [o.tree] :=
      .span fun _ => .tree rfl rfl (List.sublist_append_left _ _).subperm (.inl rfl)
    exact .ite (fun _ => hnode) fun _ => .maybe <| .maybe hnode

omit hbinary in
theorem lays_genericAsyncArrow (start : Mark) :
    Lays start.offset start.offset [] (genericAsyncArrow g ctx start) fun o => [o.tree] := by
  unfold genericAsyncArrow
  refine .step (reads_typeParams hg ctx) fun types => .skip fun _ => ?_
  refine .step (reads_bareParams hg _) fun params => .skip fun _ => .skip fun _ => ?_
  refine .ite (fun _ => ?_) fun _ => .known ?_
  · refine .step (reads_returnType hg ctx ":") fun type => .known ?_
    exact lays_arrowRest hg ctx start true types params (some type)
  · exact (lays_arrowRest hg ctx start true types params none).drop (by simp)

omit hbinary in
theorem reads_nameOrArrow (arrowAllowed : Bool) :
    Reads (nameOrArrow g ctx arrowAllowed) fun o => [o.tree] := by
  intro lo
  unfold nameOrArrow
  refine .here fun start => .skip fun bound => ?_
  obtain ⟨name, span⟩ := bound
  refine .skip fun _ => .skip fun _ => ?_
  refine .ite (fun _ => .skip fun next => .skip fun _ => .skip fun _ => ?_) fun _ => ?_
  · refine .ite (fun _ => ?_) fun _ => lays_arrowRest hg ctx start true [] [] none
    exact .step (hg.type ctx) fun type => .span fun _ => .tree rfl rfl (.refl _) (.inl rfl)
  · refine .skip fun _ => .skip fun _ => .ite (fun _ => lays_arrowRest hg ctx start false [] [] none) ?_
    exact fun _ => .leaf rfl

omit hbinary in
theorem reads_templateLiteral (closed : Bool) :
    Reads (templateLiteral g ctx closed) fun ts => ts :=
  reads_templateParts (reads_fullSequence hg _)

omit hg hbinary in
/-- A slash is read again, as the start of a regular expression. -/
theorem readsAt_regex {s : State} (hs : s.token.Sound) (text : List Char) :
    ReadsAt s (do
      reread (s.token.readRegex text)
      let t ← token
      match t.kind with
      | .bad fault => fail fault
      | _ =>
        bump
        return plainOperand (.leaf ⟨t.start, t.stop⟩)) fun o => [o.tree] := by
  refine .reread (.nothing hs (Nat.le_refl _) (Nat.le_refl _)) (Token.sound_readRegex text)
    (Token.start_readRegex _ text) <| .skip fun t => ?_
  split
  · exact .fail
  · exact .skip fun _ => .leaf rfl

theorem reads_primary : Reads (primary g ctx binary) fun o => [o.tree] := by
  intro lo
  unfold primary
  refine .tokenHere fun s hs => ?_
  extract_lets start arrowAllowed literal slash named called
  have hliteral : ReadsAt s literal fun o => [o.tree] :=
    Lays.readsAt (.skip fun _ => .leaf rfl) hs
  have hname : ∀ arrowAllowed, Lays s.pos s.pos [] (nameOrArrow g ctx arrowAllowed) fun o => [o.tree] :=
    fun arrowAllowed => reads_nameOrArrow hg ctx arrowAllowed _
  have hfunction : Lays s.pos s.pos [] (do
      return plainOperand (← maybeAsyncFunction g ctx true false)) fun o => [o.tree] :=
    .step (reads_maybeAsyncFunction hg ctx true false) fun t => .pure (.refl _)
  have hclass : ∀ decorators, Lays s.pos s.pos decorators (do
      return plainOperand (← classAt g ctx s.token.start decorators false false)) fun o => [o.tree] :=
    fun decorators => .bind (lays_classExpression hg ctx decorators (Nat.le_refl _) (Nat.le_refl _))
      fun t => .pure (.refl _)
  have hcalled : Lays s.pos s.pos [] (called ()) fun o => [o.tree] := by
    refine .skip fun _ => .ite (fun _ => .skip fun _ => ?_) fun _ => hname arrowAllowed
    exact lays_parenthesis hg ctx hbinary s.token.start true arrowAllowed
  have hgeneric : Lays s.pos s.pos [] (do
      bump
      genericAsyncArrow g ctx s.token.start) fun o => [o.tree] :=
    .skip fun _ => lays_genericAsyncArrow hg ctx s.token.start
  split
  · exact Lays.fail.readsAt hs
  · exact hliteral
  · exact hliteral
  · exact hliteral
  · exact hliteral
  · exact hliteral
  · exact hliteral
  · exact hliteral
  · refine Lays.readsAt (.step (reads_templateLiteral hg ctx _) fun parts => .span fun _ => ?_) hs
    exact .tree rfl rfl (.refl _) (.inl rfl)
  · exact readsAt_regex hs _
  · exact readsAt_regex hs _
  · exact (reads_arrayLiteral hg ctx _).readsAt hs
  · exact (reads_objectLiteral hg ctx _).readsAt hs
  · exact (lays_parenthesis hg ctx hbinary s.token.start false _).readsAt hs
  · exact Lays.readsAt (.step (hg.decorators ctx) fun decorators => .skip fun _ => .maybe (hclass _)) hs
  · exact Lays.readsAt (.skip fun _ => .skip fun _ => .span fun _ => .leaf rfl) hs
  · exact hfunction.readsAt hs
  · exact (hclass []).readsAt hs
  · refine Lays.readsAt (.skip fun _ => .ite (fun _ => hfunction) fun _ => .ite (fun _ => ?_) ?_) hs
    · refine .skip fun _ => .ite (fun _ => ?_) fun _ => hcalled
      exact .foundOr hgeneric.attempt (fun arrow => .pure (.refl _)) hcalled
    · exact fun _ => hname _
  · exact Lays.readsAt (.ite (fun _ => .fail) fun _ => hname _) hs
  · exact Lays.fail.readsAt hs

end

/-! ### Properties and calls -/

section

variable {g : Grammar} (hg : g.Scatters) (ctx : Context) (start : Mark) (noCall : Bool)

variable {start} in
/-- A chain that goes on with parts that were read after it. -/
theorem lays_longer {chain : Chain} {parts held : List Tree} {shape : Shape} {wrap : Chain → β}
    {out : β → List Tree} (hsub : (chain.operand.tree :: parts).Subperm held)
    (hout : ∀ c, out (wrap c) = [c.operand.tree]) :
    Lays start.offset start.offset held (do return wrap (← longer start chain parts shape)) out := by
  have hlonger : Lays start.offset start.offset held (longer start chain parts shape)
      fun c => [c.operand.tree] :=
    .span fun _ => .tree rfl rfl hsub (.inl rfl)
  exact hlonger.bind fun c => .pure (by rw [hout])

/-- Type arguments may be left out if they belong to no call. -/
theorem subperm_untyped (callee : Tree) (types parts : List Tree) :
    (callee :: parts).Subperm ([callee] ++ types ++ parts) :=
  ((List.sublist_append_right types parts).cons_cons callee).subperm

/-- Arguments are searched before the type arguments that stand in front of them. -/
theorem subperm_call (callee : Tree) (types args : List Tree) :
    (callee :: (args ++ types)).Subperm ([callee] ++ types ++ args) := by
  refine subperm_of_count fun t => ?_
  simp only [List.count_append, List.count_cons, List.count_nil]
  omega

include hg

theorem reads_taggedTemplate? : Reads (taggedTemplate? g ctx) fun o => o.elim [] fun ts => ts := by
  intro lo
  unfold taggedTemplate?
  refine .skip fun t => ?_
  split
  · exact .step (reads_templateLiteral hg ctx _) fun parts => .pure (.refl _)
  · exact .pure (.refl _)

/-- Type arguments need a call, a template or a word behind them that shows that they are some. -/
theorem lays_typedCall? (chain : Chain) :
    Lays start.offset start.offset [chain.operand.tree] (typedCall? g ctx start noCall chain)
      fun o => o.elim [chain.operand.tree] fun r => [r.1.operand.tree] := by
  unfold typedCall?
  refine .attempt? ?_
  extract_lets rest
  have hrest : Lays start.offset start.offset [chain.operand.tree] (rest ())
      fun o => o.elim [] fun r => [r.1.operand.tree] := by
    refine .step (reads_typeArgs hg ctx) fun types => .skip fun _ => .ite (fun _ => ?_) fun _ => ?_
    · refine .step (reads_arguments hg ctx) fun args => ?_
      exact lays_longer (subperm_call _ types args) fun _ => rfl
    refine .step (reads_taggedTemplate? hg ctx) fun parts? => ?_
    cases parts? with
    | some parts => exact lays_longer (.refl _) fun _ => rfl
    | none =>
      refine .skip fun _ => .ite (fun _ => ?_) fun _ => .pure List.nil_subperm
      exact lays_longer (by simp) fun _ => rfl
  have hgeneric := (lays_genericAsyncArrow hg ctx start).drop
    (List.nil_subperm : [].Subperm [chain.operand.tree])
  refine .ite (fun _ => ?_) fun _ => hrest
  exact .foundOr hgeneric.attempt (fun arrow => .pure (.refl _)) hrest

theorem lays_chainLink (chain : Chain) :
    Lays start.offset start.offset [chain.operand.tree] (chainLink g ctx start noCall chain)
      fun r => [r.1.operand.tree] := by
  unfold chainLink
  refine .skip fun _ => .skip fun _ => .ite (fun _ => .maybe <| .skip fun _ => ?_) fun _ => ?_
  · exact lays_longer (.refl _) fun _ => rfl
  extract_lets rest
  -- an index, a call, a property or a template
  have hrest : Lays start.offset start.offset [chain.operand.tree] (rest ())
      fun r => [r.1.operand.tree] := by
    refine .skip fun optional => .skip fun _ => .optional (reads_typeArgs hg ctx) fun types => ?_
    refine .skip fun _ => .ite (fun _ => ?_) fun _ => .skip fun _ => .ite (fun _ => ?_) fun _ => ?_
    · refine .step (reads_fullSequence hg ctx) fun index => .skip fun _ => ?_
      exact lays_longer (subperm_untyped _ types _) fun _ => rfl
    · refine .step (reads_arguments hg ctx) fun args => ?_
      exact lays_longer (subperm_call _ types args) fun _ => rfl
    refine .skipEither fun dotted => .ite (fun _ => .skip fun _ => ?_) fun _ => ?_
    · exact lays_longer (by simp) fun _ => rfl
    cases chain.base with
    | super => exact .fail
    | importCall => exact .fail
    | operand =>
      refine .step (reads_taggedTemplate? hg ctx) fun parts? => ?_
      cases parts? with
      | some parts => exact lays_longer (subperm_untyped _ types parts) fun _ => rfl
      | none => exact .pure (by simp)
  refine .skip fun _ => .ite (fun _ => ?_) fun _ => hrest
  exact .foundOr (lays_typedCall? hg ctx start noCall chain) (fun r => .pure (.refl _)) hrest

theorem lays_chained (operand : Operand) (base : Base) :
    Lays start.offset start.offset [operand.tree] (chained g ctx start noCall operand base)
      fun o => [o.tree] :=
  .loop (fun chain => [chain.operand.tree]) (.refl _) (lays_chainLink hg ctx start noCall)
    fun _ => .pure (.refl _)

/-- What follows a word that properties and calls are taken of. -/
theorem lays_chainedWord {span : Span} {base : Base} :
    Lays start.offset start.offset []
      (chained g ctx start noCall (plainOperand (.leaf span)) base) fun o => [o.tree] :=
  .withLeaf <| lays_chained hg ctx start noCall (plainOperand (.leaf span)) base

theorem reads_importExpression : Reads (importExpression g ctx noCall) fun o => [o.tree] := by
  intro lo
  unfold importExpression
  refine .token fun t => .skip fun _ => .skip fun _ => .ite (fun _ => ?_) fun _ => ?_
  · refine .skip fun bound => ?_
    obtain ⟨name, -⟩ := bound
    split
    · exact lays_chainedWord hg ctx t.start noCall
    · exact lays_chainedWord hg ctx t.start noCall
    · exact lays_chainedWord hg ctx t.start noCall
    · exact .unexpected
  · exact lays_chainedWord hg ctx t.start noCall

theorem reads_instantiation? : Reads (instantiation? g ctx) fun o => o.elim [] fun ts => ts := by
  intro lo
  refine .attempt? <| .step (reads_typeArgs hg ctx) fun types => .skip fun _ => ?_
  refine .ite (fun _ => .pure List.nil_subperm) fun _ => .skip fun _ => .skip fun _ => .skip fun _ => ?_
  exact .ite (fun _ => .pure (.refl _)) fun _ => .pure List.nil_subperm

theorem lays_newExpression : Lays start.offset start.offset [] (newExpression g ctx start)
    fun o => [o.tree] := by
  unfold newExpression
  refine .skip fun _ => .ite (fun _ => .skip fun _ => .maybe <| .span fun _ => ?_) fun _ => ?_
  · exact lays_chainedWord hg ctx start true
  refine .step (hg.member _) fun callee => .maybe ?_
  extract_lets rest
  have htypes : Lays start.offset start.offset [callee.tree] (attempt do
      let types ← typeArgs g ctx
      if !(← isSign "(") then expectSign "("
      return types) fun o => o.elim [callee.tree] fun ts => [callee.tree] ++ ts :=
    .attempt <| .step (reads_typeArgs hg ctx) fun types => .skip fun _ => .maybe <| .pure (.refl _)
  have hrest : ∀ types?, Lays start.offset start.offset ([callee.tree] ++ types?.getD []) (rest types?)
      fun o => [o.tree] := by
    intro types?
    refine .skip fun _ => .ite (fun _ => .step (reads_arguments hg ctx) fun args => ?_) fun _ => ?_
    · refine .span fun _ => (lays_chained hg ctx start true _ .operand).wrap rfl ?_ (.inl rfl)
      exact subperm_call _ _ args
    · exact .span fun _ => .tree rfl rfl (.refl _) (.inl rfl)
  have hbare : Lays start.offset start.offset [callee.tree] (rest none) fun o => [o.tree] :=
    (hrest none).drop (by simp)
  refine .skip fun _ => .ite (fun _ => ?_) fun _ => .known hbare
  exact .foundOr htypes (fun types => hrest (some types)) hbare

end

section

variable {g : Grammar} (hg : g.Scatters) (ctx : Context) {binary : Context → Parse Operand}
  (hbinary : ∀ ctx, Reads (binary ctx) fun o => [o.tree])
include hg hbinary

theorem reads_memberWith : Reads (memberWith g ctx binary) fun o => [o.tree] := by
  intro lo
  unfold memberWith
  refine .token fun t => ?_
  split
  · exact .skip fun _ => lays_newExpression hg ctx t.start
  · exact .skip fun _ => lays_chainedWord hg ctx t.start true
  · exact reads_importExpression hg ctx true _
  refine .step (reads_primary hg ctx hbinary) fun operand => .ite (fun _ => .pure (.refl _)) fun _ => ?_
  have hchained : ∀ operand : Operand, Lays t.start.offset t.start.offset [operand.tree]
      (chained g ctx t.start true operand .operand) fun o => [o.tree] :=
    fun operand => lays_chained hg ctx t.start true operand .operand
  refine .skip fun _ => .ite (fun _ => .step (reads_instantiation? hg ctx) fun types? => ?_) fun _ => ?_
  · cases types? with
    | some types =>
      exact .span fun _ => .known <| (hchained _).wrap rfl (.refl _) (.inl rfl)
    | none => exact .known <| (hchained operand).drop (by simp)
  · exact hchained operand

omit hbinary in
theorem reads_callTypes? : Reads (callTypes? g ctx) fun o => o.elim [] fun ts => ts := by
  intro lo
  unfold callTypes?
  refine .skip fun _ => .ite (fun _ => .pure (.refl _)) fun _ => .attempt? ?_
  refine .step (reads_typeArgs hg ctx) fun types => .skip fun called => ?_
  exact .pure (by cases called <;> simp)

theorem reads_callWith : Reads (callWith g ctx binary) fun o => [o.tree] := by
  intro lo
  unfold callWith
  refine .token fun t => ?_
  split
  · exact .maybe <| .step (hg.element ctx) fun element => .skip fun _ => .pure (.refl _)
  · exact .skip fun _ => lays_chainedWord hg ctx t.start false
  · exact reads_importExpression hg ctx false _
  refine .step (reads_memberWith hg ctx hbinary) fun callee => .ite (fun _ => .pure (.refl _)) ?_
  intro _
  refine .step (reads_callTypes? hg ctx) fun types? => .skip fun _ => .ite (fun _ => ?_) fun _ => ?_
  · refine .step (reads_arguments hg ctx) fun args => .span fun _ => ?_
    refine (lays_chained hg ctx t.start false ⟨_, _⟩ .operand).wrap rfl ?_ (.inl rfl)
    cases types? with
    | some types => exact subperm_call _ types args
    | none => exact subperm_call _ [] args
  · exact .pure (by simp)

omit hbinary in
theorem reads_awaitExpression : Reads (awaitExpression g ctx) fun o => [o.tree] := by
  intro lo
  unfold awaitExpression
  refine .token fun t => .skip fun _ => .skip fun _ => .maybe <| .skip fun _ => ?_
  refine .ite (fun _ => .leaf rfl) fun _ => .step (hg.unary ctx) fun operand => .span fun _ => ?_
  exact .tree rfl rfl (.refl _) (.inl rfl)

omit hbinary in
theorem reads_typeAssertion : Reads (typeAssertion g ctx) fun o => [o.tree] := by
  intro lo
  unfold typeAssertion
  refine .here fun start => .skip fun _ => ?_
  extract_lets rest
  have hrest : ∀ type, Lays start.offset start.offset type (rest type) fun o => [o.tree] := by
    intro type
    refine .skip fun _ => .step (hg.unary ctx) fun operand => .span fun _ => ?_
    exact .tree rfl rfl (List.perm_append_singleton operand.tree type).symm.subperm (.inl rfl)
  refine .skip fun _ => .ite (fun _ => .known <| hrest []) fun _ => ?_
  exact .step (hg.type ctx) fun type => .known <| hrest [type]

theorem reads_unaryWith : Reads (unaryWith g ctx binary) fun o => [o.tree] := by
  intro lo
  unfold unaryWith
  refine .token fun t => .ite (fun _ => reads_typeAssertion hg ctx _) fun _ => .skip fun _ => ?_
  have hprefixed : ∀ {operand : Parse Operand} {shape : Shape}, Reads operand (fun o => [o.tree]) →
      Lays t.start.offset t.start.offset [] (do
        bump
        let operand ← operand
        return Operand.mk (.node (← spanFrom t.start) [operand.tree]) shape) fun o => [o.tree] :=
    fun hoperand => .skip fun _ => .step hoperand fun operand => .span fun _ =>
      .tree rfl rfl (.refl _) (.inl rfl)
  refine .ite (fun _ => hprefixed (hg.unary ctx)) fun _ => .skip fun _ => .ite (fun _ => ?_) fun _ => ?_
  · exact hprefixed fun lo => .orElseThere (hg.unary ctx lo) fun _ => .leaf rfl
  refine .skip fun _ => .ite (fun _ => reads_awaitExpression hg ctx _) fun _ => ?_
  refine .step (reads_callWith hg ctx hbinary) fun operand => .skip fun _ => ?_
  refine .ite (fun _ => .pure (.refl _)) fun _ => .skip fun _ => .ite (fun _ => ?_) fun _ => ?_
  · exact .skip fun _ => .span fun _ => .tree rfl rfl (.refl _) (.inl rfl)
  · exact .pure (.refl _)

end

/-! ### Operators -/

section

variable {g : Grammar} (hg : g.Scatters) (ctx : Context) {unary : Context → Parse Operand}
  (hunary : ∀ ctx, Reads (unary ctx) fun o => [o.tree])
include hg hunary

theorem lays_binaryLink (start : Mark) (left : Operand × Shape) :
    Lays start.offset start.offset [left.1.tree] (binaryLink g ctx start unary left)
      fun r => [r.1.1.tree] := by
  obtain ⟨whole, lastShape⟩ := left
  unfold binaryLink
  refine .skip fun _ => .skip fun _ => .ite (fun _ => .skip fun _ => .skipEither ?_) fun _ => ?_
  · refine fun asConst => .skip fun _ => .ite (fun _ => .skip fun _ => .known ?_) fun _ => ?_
    · exact .span fun _ => .tree rfl rfl (.refl _) (.inl rfl)
    · refine .step (hg.type ctx) fun type => .known <| .span fun _ => ?_
      exact .tree rfl rfl (.refl _) (.inl rfl)
  · refine .skip fun _ => .ite (fun _ => .pure (.refl _)) fun _ => .skip fun _ => .skip fun _ => ?_
    refine .maybe <| .step (hunary ctx) fun right => .span fun _ => ?_
    exact .tree rfl rfl (.refl _) (.inl rfl)

theorem reads_binaryWith : Reads (binaryWith g ctx unary) fun o => [o.tree] := by
  intro lo
  unfold binaryWith
  have hfirst : Reads (orElseThere (unary ctx) fun failure => do
      if ← atOperator ctx then return plainOperand Tree.nothing
      failAt failure.line failure.fault) fun o => [o.tree] :=
    fun lo => .orElseThere (hunary ctx lo) fun failure =>
      .skip fun _ => .ite (fun _ => .leaf rfl) fun _ => .failAt
  refine .here fun start => .step hfirst fun first => .ite (fun _ => .pure (.refl _)) fun _ => ?_
  exact .loop (fun left => [left.1.tree]) (.refl _) (lays_binaryLink hg ctx hunary start) fun _ =>
    .pure (.refl _)

end

section

variable {g : Grammar} (hg : g.Scatters) (ctx : Context)
include hg

theorem reads_binaryOf : Reads (binaryOf g ctx) fun o => [o.tree] :=
  reads_binaryWith hg ctx hg.unary

theorem reads_memberOf : Reads (memberOf g ctx) fun o => [o.tree] :=
  reads_memberWith hg ctx (reads_binaryOf hg)

theorem reads_callOf : Reads (callOf g ctx) fun o => [o.tree] :=
  reads_callWith hg ctx (reads_binaryOf hg)

theorem reads_unaryOf : Reads (unaryOf g ctx) fun o => [o.tree] :=
  reads_unaryWith hg ctx (reads_binaryOf hg)

theorem reads_conditionalExpression : Reads (conditionalExpression g ctx) fun o => [o.tree] := by
  intro lo
  unfold conditionalExpression
  refine .here fun start => .step (reads_binaryWith hg ctx (reads_unaryOf hg)) fun condition => ?_
  refine .skip fun _ => .ite (fun _ => .pure (.refl _)) fun _ => ?_
  exact lays_conditionalRest hg ctx start condition

theorem reads_assignmentExpression : Reads (assignmentExpression g ctx) fun o => [o.tree] := by
  intro lo
  unfold assignmentExpression
  refine .here fun start => .skip fun _ => .step (reads_conditionalExpression hg _) fun operand => ?_
  split
  · exact .pure (.refl _)
  · exact .pure (.refl _)
  · exact .pure (.refl _)
  · exact lays_assignTo hg _ start operand

theorem reads_yieldExpression : Reads (yieldExpression g ctx) fun o => [o.tree] := by
  intro lo
  unfold yieldExpression
  refine .here fun start => .skip fun _ => .skip fun _ => .skip fun _ => .skip fun _ => ?_
  refine .ite (fun _ => .span fun _ => .leaf rfl) fun _ => .skip fun _ => ?_
  exact .step (hg.expression ctx) fun operand => .span fun _ => .tree rfl rfl (.refl _) (.inl rfl)

theorem reads_genericArrow : Reads (genericArrow g ctx) fun o => [o.tree] := by
  intro lo
  unfold genericArrow
  refine .here fun start => .step (reads_typeParams hg ctx) fun types => ?_
  refine .step (reads_assignmentExpression hg ctx) fun arrow => ?_
  split
  · rename_i span params body typeParams returns harrow
    rw [harrow]
    -- the arrow that was read is opened, and made again with the type parameters before it
    have hperm : ([] ++ types ++ [Tree.arrow span params body typeParams returns]).Perm
        (.arrow span params body typeParams returns :: types) :=
      List.perm_append_singleton _ _
    refine Lays.drop (.opened ?_) hperm.symm.subperm
    refine .span fun _ => .tree rfl rfl (subperm_of_count fun t => ?_) (.inl rfl)
    simp only [Tree.parts, List.count_append, List.count_cons]
    omega
  · exact .unexpected

theorem reads_expressionOf : Reads (expressionOf g ctx) fun o => [o.tree] := by
  intro lo
  unfold expressionOf
  extract_lets rest
  have hrest : Lays lo lo [] (rest ()) fun o => [o.tree] :=
    .skip fun _ => .ite (fun _ => reads_yieldExpression hg ctx lo) fun _ =>
      reads_assignmentExpression hg ctx lo
  refine .skip fun _ => .ite (fun _ => ?_) fun _ => hrest
  exact .foundOr (reads_genericArrow hg _ lo).attempt (fun arrow => .pure (.refl _)) hrest

/-! ### Decorators -/

/-- A decorator behind its `@`. -/
theorem reads_decoratorRest : Reads (do
    if ← eatSign "(" then
      let inner ← fullSequence g ctx
      expectSign ")"
      return inner
    let start ← here
    let _ ← identifier ctx
    let _ ← repeated do
      if ← eatSign "." then
        memberName
        return some ()
      else return none
    let types ← do if ← isSign "<" then typeArgs g ctx else pure []
    let args ← do if ← isSign "(" then arguments g ctx else pure []
    return Tree.node (← spanFrom start) (args ++ types)) fun t => [t] := by
  intro lo
  refine .skip fun _ => .ite (fun _ => ?_) fun _ => .here fun start => ?_
  · exact .step (reads_fullSequence hg ctx) fun inner => .skip fun _ => .pure (.refl _)
  refine .skip fun _ => .skip fun _ => .skip fun _ => .optional (reads_typeArgs hg ctx) fun types => ?_
  refine .skip fun _ => .optional (reads_arguments hg ctx) fun args => .span fun _ => ?_
  exact .tree rfl rfl List.perm_append_comm.subperm (.inl rfl)

theorem reads_decorator : Reads (decorator g ctx) fun t => [t] :=
  fun lo => .skip fun _ => reads_decoratorRest hg ctx lo

/-- A decorator, if there is one. -/
theorem reads_decorator? : Reads (do
    if ← isSign "@" then return some (← decorator g ctx) else return none) Option.toList := by
  refine fun lo => .skip fun _ => .ite (fun _ => ?_) fun _ => .pure (.refl _)
  exact .step (reads_decorator hg ctx) fun decorator => .pure (.refl _)

theorem reads_decoratorsOf : Reads (decoratorsOf g ctx) fun ts => ts :=
  .trees (reads_decorator? hg ctx)

end

end Parse
end TypeScript
end FetchClients
