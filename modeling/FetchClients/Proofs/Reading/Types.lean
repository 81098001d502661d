/-
# Types as they are read

Types, their parameters and arguments, and the members of interfaces and type
literals read trees that lie scattered. Members start where their parser does, and
those that count as members were read as a property or a method
(`Parse.counted_typeMember`).

Key theorems: `Parse.reads_signature`, `Parse.yields_typeMember`,
`Parse.reads_typeMember`, `Parse.reads_fullType`.
-/
import FetchClients.Proofs.Reading.Patterns
import FetchClients.TypeScript.Parser.Types

namespace FetchClients
namespace TypeScript
namespace Parse

open List (Subperm)

instance : Moves eatTypeParamModifiers := by unfold eatTypeParamModifiers; infer_instance
instance : Moves endTypeMember := by unfold endTypeMember; infer_instance
instance : Moves atIndexSignature := by unfold atIndexSignature; infer_instance
instance : Moves tupleLabel := by unfold tupleLabel; infer_instance
instance : Moves atMappedType := by unfold atMappedType; infer_instance

instance (ctx : Context) (reservedAllowed : Bool) : Moves (entityName ctx reservedAllowed) := by
  unfold entityName
  exact .of_reads fun lo => .skip fun _ => .skip fun (_, _) => Moves.reads lo

instance (p q : Parse Unit) [Moves p] [Moves q] : Moves (mappedModifier p q) := by
  unfold mappedModifier
  infer_instance

instance (g : Grammar) (ctx : Context) : Moves (atFunctionType g ctx) := by
  unfold atFunctionType
  infer_instance

theorem reads_typeListUntil {atEnd : Parse Bool} {item : Parse Tree} [Moves atEnd]
    (h : Reads item fun t => [t]) : Reads (typeListUntil atEnd item) fun ts => ts := by
  refine .trees fun lo => .skip fun _ => .ite (fun _ => .pure (.refl _)) fun _ => ?_
  refine .step h fun value => .skip fun _ => .ite (fun _ => .pure (.refl _)) fun _ => ?_
  exact .skip fun _ => .ite (fun _ => .pure (.refl _)) fun _ => .skip fun _ => .pure (.refl _)

variable {g : Grammar} (hg : g.Scatters)
include hg

theorem reads_typeArgs (ctx : Context) : Reads (typeArgs g ctx) fun ts => ts := by
  intro lo
  unfold typeArgs
  exact .skip fun _ => .step (reads_typeListUntil (hg.type ctx)) fun args =>
    .skip fun _ => .pure (.refl _)

theorem reads_typeAfterWord? (ctx : Context) (name : String) :
    Reads (typeAfterWord? g ctx name) Option.toList := by
  intro lo
  unfold typeAfterWord?
  refine .skip fun _ => .ite (fun _ => ?_) fun _ => .pure (.refl _)
  exact .step (hg.type ctx) fun type => .pure (.refl _)

theorem reads_typeParam (ctx : Context) : Reads (typeParam g ctx) fun t => [t] := by
  intro lo
  unfold typeParam
  refine .here fun start => .skip fun _ => .skip fun _ => ?_
  refine .step (reads_typeAfterWord? hg ctx "extends") fun constraint => .skip fun _ => ?_
  refine .ite (fun _ => .step (hg.type ctx) fun type => .known ?_) fun _ => .known ?_
  · exact .span fun _ => .tree rfl rfl (.refl _) (.inl rfl)
  · exact .span fun _ => .tree rfl rfl (by simp [Tree.parts]) (.inl rfl)

theorem reads_typeParams (ctx : Context) : Reads (typeParams g ctx) fun ts => ts := by
  intro lo
  unfold typeParams
  refine .skip fun _ => .maybe (.skip fun _ => ?_)
  exact .step (reads_typeListUntil (reads_typeParam hg ctx)) fun params =>
    .skip fun _ => .pure (.refl _)

theorem reads_typeParams? (ctx : Context) : Reads (typeParams? g ctx) fun ts => ts := by
  intro lo
  unfold typeParams?
  exact .skip fun _ => .ite (fun _ => reads_typeParams hg ctx lo) fun _ => .pure (.refl _)

theorem reads_returnType (ctx : Context) (sign : String) :
    Reads (returnType g ctx sign) fun t => [t] := by
  intro lo
  unfold returnType
  refine .skip fun _ => .here fun start => .skip fun _ => .skipEither fun asserts => .maybe ?_
  refine .skip fun _ => .skipEither fun guard => .ite (fun _ => hg.type ctx _) fun _ => ?_
  refine .skip fun _ => .ite (fun _ => .skip fun _ => ?_) fun _ => .known ?_
  · exact .step (hg.type ctx) fun type => .known <| .span fun _ => .tree rfl rfl (.refl _) (.inl rfl)
  · exact .span fun _ => .tree rfl rfl (.refl _) (.inl rfl)

theorem reads_signatureParams (ctx : Context) : Reads (signatureParams g ctx) fun ts => ts := by
  intro lo
  unfold signatureParams
  exact .step (reads_bareParams hg ctx) fun params => .maybe <| .skip fun _ => .pure (.refl _)

theorem reads_signature (ctx : Context) (sign : String) (needed : Bool) :
    Reads (signature g ctx sign needed) fun r => r.1 ++ r.2.1 ++ r.2.2.toList := by
  intro lo
  unfold signature
  refine .step (reads_typeParams? hg ctx) fun typeParams => .skip fun _ => ?_
  refine .step (reads_signatureParams hg ctx) fun params => .skip fun _ => .ite (fun _ => ?_) fun _ => ?_
  · exact .step (reads_returnType hg ctx sign) fun returns => .known <| .pure (.refl _)
  · exact .known <| .pure (by simp)

theorem lays_indexSignature (ctx : Context) (start : Mark) :
    Lays start.offset start.offset [] (indexSignature g ctx start) Tree.parts := by
  unfold indexSignature
  refine .skip fun _ => .skip fun _ => .skip fun _ => .maybe <| .step (hg.type ctx) fun key => ?_
  refine .skip fun _ => .step (reads_typeAnnotation? hg ctx) fun type => .skip fun _ => ?_
  exact .span fun _ => .pure (.refl _)

theorem reads_typeMemberName (ctx : Context) : Reads (typeMemberName g ctx) fun r => r.1 := by
  intro lo
  unfold typeMemberName
  refine .skip fun t => ?_
  split
  · exact .skip fun _ => .step (reads_fullExpression hg ctx) fun key => .skip fun _ => .pure (.refl _)
  · exact .step (hg.member ctx) fun key => .pure (.refl _)
  · exact .step (hg.member ctx) fun key => .pure (.refl _)
  · exact .failAtEnd
  · exact .fail
  · exact .skip fun _ => .skip fun _ => .pure (.refl _)
  · exact .skip fun _ => .pure (.refl _)

theorem lays_accessorSignature (ctx : Context) (start : Mark) :
    Lays start.offset start.offset [] (accessorSignature g ctx start)
      fun o => o.elim [] Tree.parts := by
  unfold accessorSignature
  refine .skip fun _ => .maybe <| .step (reads_typeMemberName hg ctx) fun r => .skip fun _ => ?_
  refine .ite (fun _ => .skip fun _ => ?_) fun _ => ?_
  · refine .step (reads_typeAnnotation? hg ctx) fun type => .skip fun _ => .span fun _ => ?_
    exact .pure (.refl _)
  · refine .step (reads_signatureParams hg ctx) fun params => .maybe <| .skip fun _ => .span fun _ => ?_
    exact .pure ((List.take_sublist 1 params).append_left r.1).subperm

theorem lays_propertySignature (ctx : Context) (start : Mark) (fixed : Bool) :
    Lays start.offset start.offset [] (propertySignature g ctx start fixed) Tree.parts := by
  unfold propertySignature
  refine .step (reads_typeMemberName hg ctx) fun r => .skip fun _ => .skip fun _ => ?_
  refine .ite (fun _ => .maybe <| .step (reads_signature hg ctx ":" false) fun f => ?_) fun _ => ?_
  · obtain ⟨typeParams, params, returns⟩ := f
    refine .skip fun _ => .span fun _ => .pure (subperm_of_count fun t => ?_)
    simp only [Tree.parts, List.count_append, List.nil_append]
    omega
  · refine .step (reads_typeAnnotation? hg ctx) fun type => .skip fun _ => .span fun _ => ?_
    exact .pure (by simp [Tree.parts])

theorem lays_callSignature (ctx : Context) (start : Mark) :
    Lays start.offset start.offset [] (callSignature g ctx start) Tree.parts := by
  unfold callSignature
  refine .step (reads_signature hg ctx ":" false) fun f => ?_
  obtain ⟨typeParams, params, returns⟩ := f
  refine .skip fun _ => .span fun _ => .pure ?_
  have hperm : (params ++ returns.toList ++ typeParams).Perm
      (typeParams ++ (params ++ returns.toList)) := List.perm_append_comm
  simpa [Tree.parts] using hperm.subperm

omit hg in
theorem yields_propertySignature (ctx : Context) (start : Mark) (fixed : Bool) :
    Yields (propertySignature g ctx start fixed) (Tree.IsMemberAt start) := by
  unfold propertySignature
  refine .bind fun r => .bind fun optional => .bind fun _ => .ite (.maybe ?_) ?_
  · exact .bind fun f => .bind fun _ => .span fun _ => .pure ⟨rfl, rfl⟩
  · exact .bind fun _ => .bind fun _ => .span fun _ => .pure ⟨rfl, rfl⟩

section

variable {ctx : Context} {start : Mark} {P : Tree → Prop}
  (hsealed : ∀ {span : Span} {parts : List Tree}, span.start = start → P (.sealed span parts))
include hsealed

omit hg in
theorem yields_callSignature : Yields (callSignature g ctx start) P :=
  .bind fun _ => .bind fun _ => .span fun _ => .pure (hsealed rfl)

omit hg in
theorem yields_indexSignature : Yields (indexSignature g ctx start) P := by
  unfold indexSignature
  refine .bind fun _ => .bind fun _ => .bind fun _ => .maybe <| .bind fun _ => .bind fun _ => ?_
  exact .bind fun _ => .bind fun _ => .span fun _ => .pure (hsealed rfl)

omit hg in
theorem yields_accessorSignature : Yields (accessorSignature g ctx start) fun o => ∀ t ∈ o, P t := by
  have hsome : ∀ {stop : Mark} {parts : List Tree}, ∀ t ∈ some (Tree.sealed ⟨start, stop⟩ parts), P t := by
    intro stop parts t ht
    obtain rfl := Option.some.inj ht
    exact hsealed rfl
  unfold accessorSignature
  refine .bind fun getter => .maybe <| .bind fun r => .bind fun _ => .ite ?_ ?_
  · exact .bind fun _ => .bind fun type => .bind fun _ => .span fun _ => .pure hsome
  · exact .bind fun params => .maybe <| .bind fun _ => .span fun _ => .pure hsome

end

omit hg in
/-- What holds of all sealed trees and of the properties and methods of a type holds of its members. -/
theorem yields_typeMember {ctx : Context} {Q : Mark → Tree → Prop}
    (hsealed : ∀ {start : Mark} {span : Span} {parts : List Tree}, span.start = start →
      Q start (.sealed span parts))
    (hproperty : ∀ start fixed, Yields (propertySignature g ctx start fixed) (Q start)) :
    YieldsAt (typeMember g ctx) Q := by
  unfold typeMember
  refine .here fun start => .bind fun _ => .ite (yields_callSignature hsealed) ?_
  refine .bind fun _ => .either fun _ => .ite (.bind fun _ => yields_callSignature hsealed) ?_
  refine .bind fun fixed => .bind fun _ => ?_
  refine .ite (yields_indexSignature hsealed) (.ite ?_ (hproperty start _))
  exact .foundOr (.attempt? (yields_accessorSignature hsealed)) (fun _ => .pure) (hproperty start _)

omit hg in
theorem isMemberAt_typeMember {ctx : Context} : YieldsAt (typeMember g ctx) Tree.IsMemberAt :=
  yields_typeMember (fun h => ⟨h, rfl⟩) (yields_propertySignature ctx)

omit hg in
/-- A property or method among the members of a type was read as one. -/
theorem counted_typeMember {ctx : Context} : Yields (typeMember g ctx) fun t =>
    t.isMember = true → ∃ start fixed s next, propertySignature g ctx start fixed s = .done t next :=
  fun s t next => yields_typeMember
    (Q := fun _ t => t.isMember = true → ∃ start fixed s next,
      propertySignature g ctx start fixed s = .done t next)
    (fun _ hmember => by cases hmember)
    (fun start fixed s t next heq _ => ⟨start, fixed, s, next, heq⟩) s t next

/-- A member may be a landmark that starts where it is read. -/
theorem reads_typeMember (ctx : Context) :
    Reads (advancing (typeMember g ctx)) (fun t => [t]) true := by
  refine .advancing (fun lo => ?_) isMemberAt_typeMember
  unfold typeMember
  refine .here fun start => .skip fun _ => .ite (fun _ => lays_callSignature hg ctx start) fun _ => ?_
  refine .skip fun _ => .skipEither fun constructs => .ite (fun _ => .skip fun _ => ?_) fun _ => ?_
  · exact lays_callSignature hg ctx start
  refine .skip fun fixed => .skip fun _ => ?_
  refine .ite (fun _ => lays_indexSignature hg ctx start) fun _ => .ite (fun _ => ?_) fun _ => ?_
  · have haccessor := (lays_accessorSignature hg ctx start).attempt?
    refine .foundOr haccessor (fun _ => .pure (.refl _)) ?_
    exact lays_propertySignature hg ctx start _
  · exact lays_propertySignature hg ctx start _

theorem reads_typeMembers (ctx : Context) : Reads (typeMembers g ctx) fun ts => ts := by
  intro lo
  unfold typeMembers
  refine .pass (advances_expectSign (by decide)) fun _ => ?_
  refine .stepLate (.trees fun lo => ?_) fun members => .skip fun _ => .pure (.refl _)
  refine .skip fun _ => .ite (fun _ => .pure (.refl _)) fun _ => ?_
  exact .stepLate (reads_typeMember hg ctx) fun member => .pure (.refl _)

omit hg in
theorem yields_typeMembers (ctx : Context) :
    Yields (typeMembers g ctx) fun ts => ts.all Tree.isBodyMember = true := by
  unfold typeMembers
  have hmember : Yields (advancing (typeMember g ctx)) fun t => t.isBodyMember = true :=
    .advancing fun s t next heq => (isMemberAt_typeMember s t next heq).2
  refine .bind fun _ => .bindKnown (.repeated (P := fun t => t.isBodyMember = true) ?_) fun ts hts => ?_
  · refine .bind fun _ => .ite (.pure (by simp)) ?_
    exact .bindKnown hmember fun t ht => .pure (by simpa using ht)
  · exact .bind fun _ => .pure (List.all_eq_true.mpr hts)

theorem reads_functionType (ctx : Context) (constructs : Bool) :
    Reads (functionType g ctx constructs) fun t => [t] := by
  intro lo
  unfold functionType
  refine .here fun start => ?_
  extract_lets rest
  have hrest : Lays start.offset start.offset [] (rest ()) fun t => [t] := by
    refine .step (reads_signature hg ctx "=>" true) fun f => ?_
    obtain ⟨typeParams, params, returns⟩ := f
    refine .span fun _ => .tree rfl rfl ?_ (.inl rfl)
    have hperm : (params ++ typeParams).Perm (typeParams ++ params) := List.perm_append_comm
    exact (hperm.append_right returns.toList).subperm
  exact .ite (fun _ => .skip fun _ => .skip fun _ => hrest) fun _ => hrest

omit hg in
/-- No members are found in the type of a function or of a constructor. -/
theorem sealed_functionType {ctx : Context} {constructs : Bool} :
    Yields (functionType g ctx constructs) fun t => t.isSealed = true := by
  unfold functionType
  refine .bind fun start => ?_
  extract_lets rest
  have hrest : Yields (rest ()) fun t => t.isSealed = true := .bind fun f => .span fun _ => .pure rfl
  exact .ite (.bind fun _ => .bind fun _ => hrest) hrest

theorem reads_typeReference (ctx : Context) : Reads (typeReference g ctx) fun t => [t] := by
  intro lo
  unfold typeReference
  refine .here fun start => .skip fun _ => .skip fun entity => ?_
  obtain ⟨name, dotted, -⟩ := entity
  refine .skip fun _ => ?_
  refine .skip fun _ => .optional (reads_typeArgs hg ctx) fun args => .span fun _ => ?_
  refine .ite (fun _ => ?_) fun _ => ?_
  · exact .tree rfl rfl (.refl _) (.inl rfl)
  · exact .tree rfl rfl (.refl _) (.inl rfl)

theorem reads_importOptions (ctx : Context) : Reads (importOptions g ctx) fun ts => ts := by
  intro lo
  unfold importOptions
  refine .skip fun _ => .skip fun _ => .skip fun _ => .skip fun _ => .maybe ?_
  exact .step (hg.unary ctx) fun value => .skip fun _ => .skip fun _ => .pure (.refl _)

theorem reads_importType (ctx : Context) : Reads (importType g ctx) fun t => [t] := by
  intro lo
  unfold importType
  refine .here fun start => .skip fun _ => .skip fun _ => .skip fun _ => .skip fun _ => .skip fun _ => ?_
  refine .optional (reads_importOptions hg ctx) fun options => .skip fun _ => .skip fun _ => ?_
  refine .maybe <| .skip fun _ => .optional (reads_typeArgs hg ctx) fun args => .span fun _ => ?_
  exact .tree rfl rfl (List.perm_append_comm).subperm (.inl rfl)

theorem reads_typeQuery (ctx : Context) : Reads (typeQuery g ctx) fun t => [t] := by
  intro lo
  unfold typeQuery
  refine .here fun start => .skip fun _ => .skip fun _ => ?_
  extract_lets rest
  have hrest : ∀ queried, Lays start.offset start.offset queried (rest queried) fun t => [t] := by
    intro queried
    refine .skip fun _ => .skip fun _ => .optional (reads_typeArgs hg ctx) fun args => ?_
    exact .span fun _ => .tree rfl rfl (.refl _) (.inl rfl)
  refine .ite (fun _ => ?_) fun _ => .skip fun _ => .known <| hrest []
  exact .step (reads_importType hg ctx) fun type => .known <| hrest [type]

theorem lays_thisPredicate (ctx : Context) (start : Mark) :
    Lays start.offset start.offset [] (thisPredicate g ctx start) fun t => [t] :=
  .step (reads_typeAfterWord? hg ctx "is") fun _ => .span fun _ =>
    .tree rfl rfl (.refl _) (.inl rfl)

theorem reads_mappedType (ctx : Context) : Reads (mappedType g ctx) fun t => [t] := by
  intro lo
  unfold mappedType
  refine .here fun start => .skip fun _ => .skip fun _ => .skip fun _ => .skip fun _ => ?_
  refine .skip fun _ => .maybe <| .step (hg.type ctx) fun keys => ?_
  refine .step (reads_typeAfterWord? hg ctx "as") fun renamed => .skip fun _ => .skip fun _ => ?_
  refine .step (reads_typeAnnotation? hg ctx) fun type => .skip fun _ => .skip fun _ => ?_
  exact .span fun _ => .tree rfl rfl (.refl _) (.inl rfl)

omit hg in
/-- No members are found in a mapped type. -/
theorem sealed_mappedType {ctx : Context} : Yields (mappedType g ctx) fun t => t.isSealed = true := by
  unfold mappedType
  refine .bind fun start => .bind fun _ => .bind fun _ => .bind fun _ => .bind fun _ => ?_
  refine .bind fun _ => .maybe <| .bind fun _ => .bind fun _ => .bind fun _ => .bind fun _ => ?_
  exact .bind fun _ => .bind fun _ => .bind fun _ => .span fun _ => .pure rfl

theorem reads_tupleElement (ctx : Context) : Reads (tupleElement g ctx) fun t => [t] := by
  intro lo
  unfold tupleElement
  refine .here fun start => .skip fun _ => .skip fun _ => .ite (fun _ => ?_) fun _ => ?_
  · exact .step (hg.type ctx) fun type => .span fun _ => .tree rfl rfl (.refl _) (.inl rfl)
  · refine .step (hg.type ctx) fun type => .skip fun _ => .span fun _ => ?_
    exact .tree rfl rfl (.refl _) (.inl rfl)

omit hg in
theorem reads_templateParts {closed : Bool} {part : Parse Tree} (h : Reads part fun t => [t]) :
    Reads (templateParts closed part) fun ts => ts := by
  intro lo
  unfold templateParts
  refine .ite (fun _ => .skip fun _ => .pure (.refl _)) fun _ => .skip fun _ => ?_
  refine .loop (fun ts => ts) (.refl _) (fun parts => ?_) fun parts => ?_
  · refine .step h fun value => .skip fun _ => .maybe ?_
    refine .reread Token.Sound.readTemplate Token.start_readTemplate fun t => ?_
    have hperm : (value :: parts).Subperm (parts ++ [value]) :=
      (List.perm_append_singleton value parts).symm.subperm
    split
    · exact .skip fun _ => .pure hperm
    · exact .fail
    · exact .pure hperm
  · exact .pure (List.reverse_perm parts).subperm

theorem reads_nonArrayType (ctx : Context) : Reads (nonArrayType g ctx) fun t => [t] := by
  intro lo
  unfold nonArrayType
  refine .token fun t => ?_
  have hliteral : Lays t.start.offset t.start.offset [] (do
      bump
      return Tree.leaf ⟨t.start, t.stop⟩) fun t => [t] := .skip fun _ => .leaf rfl
  split
  · exact .failAtEnd
  · exact .fail
  · exact hliteral
  · exact hliteral
  · exact hliteral
  · exact hliteral
  · exact hliteral
  · refine .step (reads_templateParts (hg.type ctx)) fun parts => .span fun _ => ?_
    exact .tree rfl rfl (.refl _) (.inl rfl)
  · exact .skip fun _ => .skip fun _ => .maybe <| .skip fun _ => .span fun _ => .leaf rfl
  · exact reads_importType hg ctx _
  · refine .skip fun _ => .skip fun _ => .skip fun _ => .ite (fun _ => ?_) fun _ => .leaf rfl
    exact lays_thisPredicate hg ctx t.start
  · exact reads_typeQuery hg ctx _
  · refine .skip fun _ => .ite (fun _ => reads_mappedType hg ctx _) fun _ => ?_
    exact .step (reads_typeMembers hg ctx) fun members => .span fun _ =>
      .tree rfl rfl (.refl _) (.inl rfl)
  · refine .skip fun _ => .step (reads_typeListUntil (reads_tupleElement hg ctx)) fun elements => ?_
    exact .skip fun _ => .span fun _ => .tree rfl rfl (.refl _) (.inl rfl)
  · refine .skip fun _ => .step (hg.type ctx) fun type => .skip fun _ => .span fun _ => ?_
    exact .tree rfl rfl (.refl _) (.inl rfl)
  · refine .ite (fun _ => .unexpected) fun _ => .skip fun _ => .ite (fun _ => ?_) fun _ => ?_
    · exact .skip fun _ => .skip fun _ => lays_thisPredicate hg ctx t.start
    · exact .skip fun _ => .ite (fun _ => hliteral) fun _ => reads_typeReference hg ctx _
  · exact .unexpected

theorem reads_arrayType (ctx : Context) : Reads (arrayType g ctx) fun t => [t] := by
  intro lo
  unfold arrayType
  refine .here fun start => .step (reads_nonArrayType hg ctx) fun type => ?_
  refine .iterate (.refl _) fun type => ?_
  refine .skip fun _ => .skip fun _ => ?_
  refine .ite (fun _ => .pure (.refl _)) fun _ => .skip fun _ => .skip fun _ => ?_
  refine .ite (fun _ => .span fun _ => .tree rfl rfl (.refl _) (.inl rfl)) fun _ => ?_
  refine .step (hg.type ctx) fun index => .skip fun _ => .span fun _ => ?_
  exact .tree rfl rfl (.refl _) (.inl rfl)

omit hg in
theorem reads_inferConstraint? (ctx : Context) {plain : Context → Parse Tree}
    (h : ∀ ctx, Reads (plain ctx) fun t => [t]) :
    Reads (inferConstraint? ctx plain) Option.toList := by
  intro lo
  unfold inferConstraint?
  refine .attemptTree? <| .skip fun _ => .ite (fun _ => .pure (.refl _)) fun _ => ?_
  refine .step (h _) fun constraint => .skip fun _ => .ite (fun _ => .pure (.refl _)) fun _ => ?_
  exact .pure List.nil_subperm

omit hg in
theorem reads_typesBetween (sign : String) {one : Parse Tree} (h : Reads one fun t => [t]) :
    Reads (typesBetween sign one) fun t => [t] := by
  intro lo
  unfold typesBetween
  refine .here fun start => .skip fun _ => .step h fun first => .step (.trees fun lo => ?_) ?_
  · refine .skip fun _ => .ite (fun _ => ?_) fun _ => .pure (.refl _)
    exact .step h fun other => .pure (.refl _)
  · intro others
    refine .ite (fun _ => .pure (by simp)) fun _ => ?_
    exact .span fun _ => .tree rfl rfl (.refl _) (.inl rfl)

theorem reads_plainType (ctx : Context) : Reads (plainType g ctx) fun t => [t] := by
  intro lo
  unfold plainType
  refine .skip fun _ => .ite (fun _ => reads_functionType hg ctx false lo) fun _ => .skip fun _ => ?_
  extract_lets rest
  have hrest : ∀ constructs, Lays lo lo [] (rest constructs) fun t => [t] := by
    intro constructs
    refine .ite (fun _ => reads_functionType hg ctx true lo) fun _ => ?_
    exact reads_typesBetween "|" (reads_typesBetween "&" (hg.typeOperand ctx)) lo
  refine .ite (fun _ => .known (hrest true)) fun _ => .skip fun _ => ?_
  exact .skipEither fun constructs => hrest constructs

theorem reads_typeOperandOf (ctx : Context) : Reads (typeOperandOf g ctx) fun t => [t] := by
  intro lo
  unfold typeOperandOf
  refine .here fun start => .skip fun _ => .ite (fun _ => .skip fun _ => ?_) fun _ => ?_
  · exact .step (hg.typeOperand ctx) fun type => .span fun _ => .tree rfl rfl (.refl _) (.inl rfl)
  refine .skip fun _ => .ite (fun _ => .skip fun _ => ?_) fun _ => reads_arrayType hg ctx _
  refine .step (reads_inferConstraint? ctx (reads_plainType hg)) fun constraint => .span fun _ => ?_
  exact .tree rfl rfl (.refl _) (.inl rfl)

theorem reads_fullType (ctx : Context) : Reads (fullType g ctx) fun t => [t] := by
  intro lo
  unfold fullType
  refine .here fun start => .step (reads_plainType hg _) fun type => .skip fun _ => .skip fun _ => ?_
  refine .ite (fun _ => .pure (.refl _)) fun _ => .skip fun _ => ?_
  refine .step (reads_plainType hg _) fun bound => .skip fun _ => ?_
  refine .step (hg.type _) fun whenTrue => .skip fun _ => .step (hg.type _) fun whenFalse => ?_
  exact .span fun _ => .tree rfl rfl (.refl _) (.inl rfl)

end Parse
end TypeScript
end FetchClients
