/-
# Names, patterns and parameters as they are read

The parsers of names read no trees, and those of patterns and parameters read
trees that lie scattered, if the parts of the grammar that they take as given do.

Key definition: `Grammar.Scatters`.
Key theorems: `Parse.reads_propertyName`, `Parse.reads_bindingTarget`,
`Parse.reads_formalParams`.
-/
import FetchClients.Proofs.Reading.Moves
import FetchClients.TypeScript.Parser.Patterns

namespace FetchClients
namespace TypeScript

/-- A grammar all of whose parts read trees that lie scattered. -/
structure Grammar.Scatters (g : Grammar) : Prop where
  expression : ∀ ctx, Parse.Reads (g.expression ctx) fun o => [o.tree]
  unary : ∀ ctx, Parse.Reads (g.unary ctx) fun o => [o.tree]
  member : ∀ ctx, Parse.Reads (g.member ctx) fun o => [o.tree]
  call : ∀ ctx, Parse.Reads (g.call ctx) fun o => [o.tree]
  /-- A statement may be a declaration that starts where it does. -/
  statement : ∀ ctx declarations, Parse.Reads (g.statement ctx declarations) (fun t => [t]) true
  type : ∀ ctx, Parse.Reads (g.type ctx) fun t => [t]
  typeOperand : ∀ ctx, Parse.Reads (g.typeOperand ctx) fun t => [t]
  pattern : ∀ ctx, Parse.Reads (g.pattern ctx) fun t => [t]
  decorators : ∀ ctx, Parse.Reads (g.decorators ctx) fun ts => ts
  element : ∀ ctx, Parse.Reads (g.element ctx) fun t => [t]

namespace Parse

open List (Subperm)

/-- A word, as the name that it may bind. -/
theorem reads_identifierName : Reads identifierName fun r => [.binding r.2 r.1 none] := by
  intro lo
  unfold identifierName
  refine .token fun t => ?_
  split
  · exact .skip fun _ => .tree rfl rfl (.refl _) (.inl rfl)
  · exact .fail

/-- A name that is bound. -/
theorem reads_bindingIdentifier (ctx : Context) (noLet : Bool) :
    Reads (bindingIdentifier ctx noLet) fun r => [.binding r.2 r.1 none] := by
  intro lo
  unfold bindingIdentifier identifierWith
  refine .skip fun _ => .ite (fun _ => .unexpected) fun _ => .skip fun t => ?_
  split
  · exact .ite (fun _ => reads_identifierName lo) fun _ => .fail
  · exact reads_identifierName lo
  · exact .ite (fun _ => reads_identifierName lo) fun _ => .fail
  · exact .ite (fun _ => .fail) fun _ => reads_identifierName lo
  · exact .fail

instance : Moves identifierName := by
  refine .of_reads fun lo => ?_
  unfold identifierName
  refine .skip fun t => ?_
  split <;> exact Moves.reads lo

instance (ctx : Context) (yieldAllowed : Bool) : Moves (identifierWith ctx yieldAllowed) := by
  refine .of_reads fun lo => ?_
  unfold identifierWith
  refine .skip fun t => ?_
  split <;> exact Moves.reads lo

instance (ctx : Context) : Moves (identifier ctx) := by unfold identifier; infer_instance

instance (ctx : Context) (noLet : Bool) : Moves (bindingIdentifier ctx noLet) := by
  unfold bindingIdentifier
  infer_instance

instance (ctx : Context) (noLet : Bool) : Moves (bindingIdentifier? ctx noLet) := by
  unfold bindingIdentifier?
  infer_instance

instance : Moves atIdentifier := by unfold atIdentifier; infer_instance
instance : Moves modifierMayEnd := by unfold modifierMayEnd; infer_instance

instance (allowed : List String) (beforeBlock : Bool) : Moves (modifier? allowed beforeBlock) := by
  refine .of_reads fun lo => ?_
  unfold modifier?
  refine .skip fun t => ?_
  split <;> exact Moves.reads lo

instance : Moves eatParamModifier := by unfold eatParamModifier; infer_instance
instance (ctx : Context) : Moves (eatAmbientOptional ctx) := by
  unfold eatAmbientOptional
  infer_instance

theorem advances_identifierName : Advances identifierName := by
  intro s v t hs heq
  cases hkind : s.token.kind with
  | word name =>
    have hread : identifierName s = .done (name, ⟨s.token.start, s.token.stop⟩) (stepped s) := by
      unfold identifierName
      rw [bind_of_done (p := token) (s := s) rfl, hkind]
      rfl
    rw [hread] at heq
    cases heq
    exact pos_lt_stepped hs (by rw [hkind]; rfl)
  | _ =>
    unfold identifierName at heq
    rw [bind_of_done (p := token) (s := s) rfl, hkind] at heq
    cases heq

variable {g : Grammar} (hg : g.Scatters)
include hg

theorem reads_typeAnnotation? (ctx : Context) : Reads (typeAnnotation? g ctx) Option.toList := by
  intro lo
  unfold typeAnnotation?
  refine .skip fun _ => .ite (fun _ => ?_) fun _ => .pure (.refl _)
  exact .step (hg.type ctx) fun type => .pure (.refl _)

theorem reads_fullExpression (ctx : Context) : Reads (fullExpression g ctx) fun t => [t] :=
  fun _ => .step (hg.expression _) fun _ => .pure (.refl _)

theorem reads_computedName (ctx : Context) : Reads (computedName g ctx) fun ts => ts := by
  intro lo
  unfold computedName
  refine .skip fun _ => .step (reads_fullExpression hg ctx) fun first => ?_
  have hother : Reads (do if ← eatSign "," then return some (← fullExpression g ctx) else return none)
      Option.toList := by
    refine fun lo => .skip fun _ => .ite (fun _ => ?_) fun _ => .pure (.refl _)
    exact .step (reads_fullExpression hg ctx) fun other => .pure (.refl _)
  exact .step (.trees hother) fun others => .skip fun _ => .pure (.refl _)

theorem reads_propertyName (ctx : Context) : Reads (propertyName g ctx) fun key => key.parts := by
  intro lo
  unfold propertyName
  refine .skip fun t => ?_
  split
  case h_5 => exact .step (reads_computedName hg ctx) fun parts => .skip fun _ => .pure (.refl _)
  case h_6 => exact .unexpected
  all_goals exact .skip fun _ => .pure (.refl _)

theorem reads_initializer? (ctx : Context) : Reads (initializer? g ctx) Option.toList := by
  intro lo
  unfold initializer?
  refine .skip fun _ => .ite (fun _ => ?_) fun _ => .pure (.refl _)
  exact .step (reads_fullExpression hg ctx) fun value => .pure (.refl _)

theorem lays_withInitializer (ctx : Context) (start : Mark) (target : Tree) :
    Lays start.offset start.offset [target] (withInitializer g ctx start target) fun t => [t] := by
  unfold withInitializer
  refine .step (reads_initializer? hg ctx) fun value => ?_
  cases value with
  | some value => exact .span fun stop => .tree rfl rfl (.refl _) (.inl rfl)
  | none => exact .pure (.refl _)

theorem reads_bindingElement (ctx : Context) : Reads (bindingElement g ctx) fun t => [t] :=
  fun _ => .here fun start => .step (hg.pattern ctx) fun target =>
    lays_withInitializer hg ctx start target

theorem reads_arrayPattern (ctx : Context) : Reads (arrayPattern g ctx) fun t => [t] := by
  intro lo
  unfold arrayPattern
  refine .here fun start => .skip fun _ => .step (.lists fun lo => ?_) fun parts => ?_
  · refine .skip fun _ => .ite (fun _ => .pure (.refl _)) fun _ => ?_
    refine .skip fun _ => .ite (fun _ => .pure (.refl _)) fun _ => ?_
    refine .here fun begin => .skip fun _ => .ite (fun _ => ?_) fun _ => ?_
    · refine .step (hg.pattern ctx) fun argument => .span fun stop => ?_
      refine .treeThen rfl (.refl _) (.inl rfl) fun element => ?_
      exact .skip fun _ => .maybe (.pure (.refl _))
    · exact .step (reads_bindingElement hg ctx) fun element => .skip fun _ => .maybe (.pure (.refl _))
  · exact .skip fun _ => .skip fun _ => .span fun _ => .tree rfl rfl (by simp [Tree.parts]) (.inl rfl)

theorem reads_patternProperty (ctx : Context) : Reads (patternProperty g ctx) fun t => [t] := by
  intro lo
  unfold patternProperty
  refine .here fun start => .skip fun _ => .ite (fun _ => ?_) fun _ => ?_
  · exact .step (hg.pattern ctx) fun argument => .span fun _ => .tree rfl rfl (.refl _) (.inl rfl)
  refine .step (reads_propertyName hg ctx) fun key => .skip fun _ => .ite (fun _ => ?_) fun _ => ?_
  · exact .step (reads_bindingElement hg ctx) fun value =>
      .span fun _ => .tree rfl rfl (.refl _) (.inl rfl)
  refine .maybe (.step (reads_initializer? hg ctx) fun value => .span fun _ => ?_)
  exact .tree rfl rfl (List.sublist_append_right _ _).subperm (.inl rfl)

omit hg in
theorem reads_commaListUntil {close : String} {item : Parse Tree} (h : Reads item fun t => [t]) :
    Reads (commaListUntil close item) fun ts => ts := by
  intro lo
  unfold commaListUntil
  refine .step (.trees fun lo => ?_) fun items => .skip fun _ => .pure (.refl _)
  refine .skip fun _ => .ite (fun _ => .pure (.refl _)) fun _ => ?_
  exact .step h fun value => .skip fun _ => .maybe (.pure (.refl _))

theorem reads_objectPattern (ctx : Context) : Reads (objectPattern g ctx) fun t => [t] := by
  intro lo
  unfold objectPattern
  refine .here fun start => .skip fun _ => ?_
  refine .step (reads_commaListUntil (reads_patternProperty hg ctx)) fun parts => ?_
  exact .skip fun _ => .span fun _ => .tree rfl rfl (by simp [Tree.parts]) (.inl rfl)

theorem reads_bindingTarget (ctx : Context) (noLet : Bool) :
    Reads (bindingTarget g ctx noLet) fun t => [t] := by
  intro lo
  unfold bindingTarget
  refine .skip fun t => ?_
  split
  · exact .step (reads_bindingIdentifier ctx noLet) fun r => .pure (.refl _)
  · exact reads_arrayPattern hg ctx lo
  · exact reads_objectPattern hg ctx lo
  · exact .fail
  · exact .unexpected

theorem reads_bindingPattern (ctx : Context) : Reads (bindingPattern g ctx) fun t => [t] :=
  reads_bindingTarget hg ctx false

/-- A target that a type follows. -/
theorem lays_annotated (ctx : Context) (target : Tree) {lo least : Nat} :
    Lays lo least [target] (annotated g ctx target) fun t => [t] := by
  intro s hs
  have hread := reads_typeAnnotation? hg ctx s.pos s
    (.nothing hs.sound (Nat.le_refl _) (Nat.le_refl _))
  unfold annotated
  cases heq : typeAnnotation? g ctx s with
  | failed failure t =>
    rw [heq] at hread
    rw [bind_of_failed heq]
    exact hread
  | done type t =>
    rw [heq] at hread
    obtain ⟨hle, ht, hfresh⟩ := hread
    have htype : Fresh false s.pos [target] type.toList :=
      (hfresh.resolve_left Bool.false_ne_true).hold (List.nil_subset _)
    rw [bind_of_done heq]
    refine ⟨hle, hs.annotated t.last ht hle, .inr (.annotated t.last ?_)⟩
    exact .append (.ofSubset (List.Subset.refl [target])) htype

/-- A parameter that is no rest parameter. -/
theorem reads_formalParam (ctx : Context) : Reads (formalParam g ctx) fun t => [t] := by
  intro lo
  unfold formalParam
  refine .here fun start => .skip fun _ => .step (reads_bindingElement hg ctx) fun target => ?_
  have hrest : Lays start.offset start.offset [target]
      (annotated g ctx target >>= fun target => withInitializer g ctx start target) fun t => [t] :=
    .bind (lays_annotated hg ctx target) fun target => lays_withInitializer hg ctx start target
  refine .skip fun _ => .ite (fun _ => ?_) fun _ => hrest
  split
  · exact .skip fun _ => hrest
  · exact .skip fun _ => hrest
  · exact .ite (fun _ => .skip fun _ => hrest) fun _ => .skip fun _ => hrest

omit hg in
/-- What a rest parameter binds is read like any element of a pattern. -/
theorem restParam_eq (ctx : Context) (start : Mark) : restParam g ctx start = (do
    let argument ← bindingElement g ctx
    let type ← typeAnnotation? g ctx
    let span ← spanFrom start
    let _ ← eatSign "?"
    return .rest span argument type) := by
  simp only [restParam, bindingElement, bind_assoc]

theorem lays_restParam (ctx : Context) (start : Mark) :
    Lays start.offset start.offset [] (restParam g ctx start) fun t => [t] := by
  rw [restParam_eq]
  refine .step (reads_bindingElement hg ctx) fun argument => ?_
  refine .step (reads_typeAnnotation? hg ctx) fun type => .span fun _ => .skip fun _ => ?_
  exact .tree rfl rfl (.refl _) (.inl rfl)

omit hg in
theorem lays_decorated {least : Nat} {kept : Bool} (start : Mark) (decorators : List Tree)
    (target : Tree) :
    Lays start.offset least (decorators ++ [target]) (decorated start decorators target kept)
      fun t => [t] := by
  refine .ite (fun _ => .pure (List.sublist_append_right _ _).subperm) fun _ => ?_
  exact .span fun _ => .tree rfl rfl (.refl _) (.inl rfl)

theorem reads_paramsWith (ctx : Context) {one : Parse Tree} {kept : Bool}
    (hone : Reads one fun t => [t]) : Reads (paramsWith g ctx one kept) fun ts => ts := by
  refine .trees fun lo => .skip fun _ => .ite (fun _ => .pure (.refl _)) fun _ => ?_
  refine .here fun start => .step (hg.decorators ctx) fun decorators => ?_
  have htarget : Reads (do
      let begin ← here
      let dots ← eatSign "..."
      if dots then restParam g ctx begin else one) fun t => [t] :=
    fun lo => .here fun begin => .skip fun _ =>
      .ite (fun _ => lays_restParam hg ctx begin) fun _ => hone _
  have hrest : ∀ target, Lays start.offset start.offset ([] ++ decorators ++ [target]) (do
      let param ← decorated start decorators target kept
      if !(← isSign ")") then expectSign ","
      return some param) Option.toList :=
    fun target => .bind (lays_decorated start decorators target) fun param =>
      .skip fun _ => .maybe (.pure (.refl _))
  have hstep := Lays.step htarget hrest
  simpa only [bind_assoc, apply_ite_left Bind.bind] using hstep

theorem reads_formalParams (ctx : Context) : Reads (formalParams g ctx) fun ts => ts :=
  reads_paramsWith hg ctx (reads_formalParam hg ctx)

theorem reads_bareParams (ctx : Context) : Reads (bareParams g ctx) fun ts => ts :=
  reads_paramsWith hg ctx (reads_formalParam hg ctx)

theorem reads_constructorParam (ctx : Context) : Reads (constructorParam g ctx) fun t => [t] := by
  intro lo
  unfold constructorParam
  refine .skip fun _ => .skip fun _ => .skip fun _ => .skip fun start => ?_
  refine .step (reads_formalParam hg ctx) fun target => .ite (fun _ => .pure (.refl _)) fun _ => ?_
  split
  · exact .pure (.refl _)
  · exact .pure (.refl _)
  · exact .failAt

theorem reads_constructorParams (ctx : Context) : Reads (constructorParams g ctx) fun ts => ts :=
  reads_paramsWith hg ctx (reads_constructorParam hg ctx)

end Parse
end TypeScript
end FetchClients
