/-
# Functions and classes as they are read

Blocks, functions and classes read trees that lie scattered. The trees of
decorators in front of a member or a class are in hand when it is read. What holds
of sealed members and of what is read as a method or a property holds of all members
of a class (`Parse.yields_classMember`): where they start, and how those were read that
count as members.

Key definitions: `Parse.OfMembers`, `Parse.Counted`.
Key theorems: `Parse.reads_block`, `Parse.reads_functionRest`,
`Parse.yields_classMember`, `Parse.reads_classMember`, `Parse.lays_classAt`.
-/
import FetchClients.Proofs.Reading.Types
import FetchClients.TypeScript.Parser.Classes

namespace FetchClients
namespace TypeScript
namespace Parse

open List (Subperm)

/-! ### Blocks and functions -/

instance : Moves atAsyncFunction := by unfold atAsyncFunction; infer_instance

section

variable {g : Grammar} (hg : g.Scatters)
include hg

theorem reads_statementsInBraces (ctx : Context) :
    Reads (statementsInBraces g ctx) fun ts => ts := by
  intro lo
  unfold statementsInBraces
  refine .pass (advances_expectSign (by decide)) fun _ => ?_
  refine .stepLate (.trees fun lo => ?_) fun items => .skip fun _ => .pure (.refl _)
  refine .skip fun _ => .ite (fun _ => .pure (.refl _)) fun _ => ?_
  exact .stepLate (hg.statement ctx true) fun item => .pure (.refl _)

theorem reads_block (ctx : Context) : Reads (block g ctx) fun t => [t] :=
  fun _ => .here fun _ => .step (reads_statementsInBraces hg _) fun _ => .span fun _ =>
    .tree rfl rfl (.refl _) (.inl rfl)

theorem reads_functionBody? (ctx : Context) : Reads (functionBody? g ctx) Option.toList := by
  intro lo
  unfold functionBody?
  have hblock : Reads (do return some (← block g ctx)) Option.toList :=
    fun lo => .step (reads_block hg ctx) fun body => .pure (.refl _)
  refine .skip fun _ => .ite (fun _ => hblock lo) fun _ => .skip fun _ => ?_
  exact .ite (fun _ => .pure (.refl _)) fun _ => hblock lo

theorem reads_functionWith (ctx : Context) (async generator : Bool)
    {parameters : Context → Parse (List Tree)} (hparams : ∀ ctx, Reads (parameters ctx) fun ts => ts) :
    Reads (functionWith g ctx async generator parameters) FunctionRest.parts := by
  intro lo
  unfold functionWith
  refine .step (reads_typeParams? hg ctx) fun typeParams => .skip fun _ => ?_
  refine .step (hparams _) fun params => .skip fun _ => .skip fun _ => ?_
  extract_lets rest
  have hrest : ∀ returns : Option Tree, Lays lo lo ([] ++ typeParams ++ params ++ returns.toList)
      (rest returns) FunctionRest.parts := by
    refine fun returns => .step (reads_functionBody? hg _) fun body => ?_
    refine .pure (subperm_of_count fun t => ?_)
    simp only [FunctionRest.parts, FunctionRest.afterParams, List.count_append, List.nil_append]
    omega
  refine .ite (fun _ => ?_) fun _ => .known ?_
  · exact .step (reads_returnType hg ctx ":") fun returns => .known <| hrest (some returns)
  · exact (hrest none).drop (by simp)

theorem reads_functionRest (ctx : Context) (async generator : Bool) :
    Reads (functionRest g ctx async generator) FunctionRest.parts :=
  reads_functionWith hg ctx async generator (reads_formalParams hg)

theorem lays_functionAt (ctx : Context) (start : Mark) (async isExpression needsName : Bool) :
    Lays start.offset start.offset [] (functionAt g ctx start async isExpression needsName)
      fun t => [t] := by
  unfold functionAt
  refine .skip fun _ => .skip fun generator => ?_
  extract_lets rest
  have hrest : Lays start.offset start.offset [] (rest ()) fun t => [t] :=
    .step (reads_functionRest hg ctx async generator) fun f => .maybe <| .span fun _ =>
      .tree rfl rfl (.refl _) (.inl rfl)
  exact .ite (fun _ => .skip fun _ => hrest) fun _ => .skip fun _ => hrest

theorem reads_maybeAsyncFunction (ctx : Context) (isExpression needsName : Bool) :
    Reads (maybeAsyncFunction g ctx isExpression needsName) fun t => [t] :=
  fun _ => .here fun start => .skip fun async =>
    lays_functionAt hg ctx start async isExpression needsName

end

/-! ### Members of classes -/

instance : Moves hiddenName := by
  unfold hiddenName
  exact .of_reads fun lo => .skip fun _ => .skip fun _ => .skip fun _ => .skip fun _ =>
    .maybe <| .skip fun _ => .pure (.refl _)

instance : Moves atMethod := by unfold atMethod; infer_instance
instance (breakEnds : Bool) : Moves (atProperty breakEnds) := by unfold atProperty; infer_instance

instance (isStatic : Bool) : Moves (laterModifiers isStatic) := by
  unfold laterModifiers
  refine .of_reads fun lo => .iterate (.refl _) fun (isStatic, fixed) => ?_
  refine .skip fun _ => .skip fun _ => ?_
  split
  · exact .pure (.refl _)
  · exact .skip fun _ => .pure (.refl _)
  · exact .pure (.refl _)
  · exact .pure (.refl _)

section

variable {g : Grammar} (hg : g.Scatters)
include hg

theorem reads_memberKey (ctx : Context) : Reads (memberKey g ctx) MemberKey.parts := by
  intro lo
  unfold memberKey
  refine .skip fun _ => .ite (fun _ => .skip fun _ => .pure (.refl _)) fun _ => ?_
  exact .step (reads_propertyName hg ctx) fun key => .pure (.refl _)

variable {ctx : Context} {start : Mark} {decorators : List Tree}

theorem lays_methodRest (key : MemberKey) (optional async generator : Bool) :
    Lays start.offset start.offset (decorators ++ key.parts)
      (methodRest g ctx start decorators key optional async generator) Tree.parts := by
  unfold methodRest
  refine .step (reads_functionRest hg ctx async generator) fun f => .span fun _ => ?_
  refine .ite (fun _ => .pure (subperm_of_count fun t => ?_)) fun _ =>
    .pure (subperm_of_count fun t => ?_)
  · simp only [Tree.parts, FunctionRest.parts, List.count_append]
    omega
  · simp only [Tree.parts, FunctionRest.parts, List.count_append]
    omega

theorem lays_propertyRest (key : MemberKey) (optional stored : Bool) :
    Lays start.offset start.offset (decorators ++ key.parts)
      (propertyRest g ctx start decorators key optional stored) Tree.parts := by
  unfold propertyRest
  refine .maybe <| .skipEither fun _ => .step (reads_typeAnnotation? hg ctx) fun type => ?_
  refine .step (reads_initializer? hg _) fun value => .skip fun _ => .span fun _ => ?_
  refine .ite (fun _ => .pure (subperm_of_count fun t => ?_)) fun _ =>
    .pure (subperm_of_count fun t => ?_)
  · simp only [Tree.parts, List.count_append]
    omega
  · simp only [Tree.parts, List.count_append]
    omega

theorem lays_modifierAsName (name : String) (span : Span) (breakEnds : Bool) :
    Lays start.offset start.offset decorators
      (modifierAsName g ctx start decorators name span breakEnds)
      fun o => o.elim decorators Tree.parts := by
  unfold modifierAsName
  have hmethod : ∀ optional, Lays start.offset start.offset decorators (do
      return some (← methodRest g ctx start decorators (.plain name span) optional false false))
      fun o => o.elim decorators Tree.parts := fun optional =>
    .bind ((lays_methodRest hg (.plain name span) optional false false).drop (by simp [MemberKey.plain]))
      fun member => .pure (.refl _)
  refine .skip fun _ => .ite (fun _ => hmethod false) fun _ => .skip fun _ => .skip fun _ => ?_
  refine .ite (fun _ => .skip fun optional => .skip fun _ => ?_) fun _ => .pure (.refl _)
  refine .ite (fun _ => hmethod true) fun _ => .bind ?_ fun member => .pure (.refl _)
  exact (lays_propertyRest hg (.plain name span) optional false).drop (by simp [MemberKey.plain])

theorem lays_constructorRest (key : MemberKey) :
    Lays start.offset start.offset key.parts (constructorRest g ctx start key) Tree.parts := by
  unfold constructorRest
  refine .step (reads_typeParams? hg ctx) fun typeParams => .skip fun _ => ?_
  refine .step (reads_constructorParams hg _) fun params => .skip fun _ => ?_
  refine .step (reads_typeAnnotation? hg ctx) fun type => ?_
  refine .step (reads_functionBody? hg _) fun body => .span fun _ => ?_
  refine .pure (subperm_of_count fun t => ?_)
  simp only [Tree.parts, List.count_append]
  omega

theorem lays_namedByWord (async optional fixed : Bool) :
    Lays start.offset start.offset decorators
      (namedByWord g ctx start decorators async optional fixed) Tree.parts := by
  unfold namedByWord
  refine .maybe <| .skipEither fun generator => .step (reads_memberKey hg ctx) fun key => ?_
  refine .maybe <| .maybe <| .skipEither fun optional => ?_
  exact lays_methodRest hg key optional async generator

theorem lays_staticBlock :
    Lays start.offset start.offset [] (staticBlock g ctx start) Tree.parts :=
  .step (reads_block hg _) fun _ => .span fun _ => .pure (.refl _)

/-- The name of a member after `readonly`, which may be the name itself. -/
theorem lays_keyAfter (fixed : Option Span) {rest : MemberKey → Parse Tree} :
    (∀ key, Lays start.offset start.offset (decorators ++ key.parts) (rest key) Tree.parts) →
    Lays start.offset start.offset decorators (match fixed with
      | some span => isOneOf ["!", ":", "=", "?", ";", "\x7d"] >>= fun named =>
        if named then rest (.plain "readonly" span) else memberKey g ctx >>= rest
      | none => memberKey g ctx >>= rest) Tree.parts := by
  intro hrest
  cases fixed with
  | none => exact .step (reads_memberKey hg ctx) hrest
  | some span =>
    refine .skip fun _ => .ite (fun _ => ?_) fun _ => .step (reads_memberKey hg ctx) hrest
    exact (hrest (.plain "readonly" span)).drop (by simp [MemberKey.plain])

theorem lays_memberAfterModifiers (fixed : Option Span) :
    Lays start.offset start.offset decorators
      (memberAfterModifiers g ctx start decorators fixed) Tree.parts := by
  unfold memberAfterModifiers
  refine .skip fun _ => .ite (fun _ => ?_) fun _ => ?_
  · exact .step (reads_memberKey hg ctx) fun key => lays_methodRest hg key false false true
  have hnamed : ∀ (key : MemberKey) (async optional fixed : Bool),
      Lays start.offset start.offset (decorators ++ key.parts)
        (namedByWord g ctx start decorators async optional fixed) Tree.parts :=
    fun key async optional fixed =>
      (lays_namedByWord hg async optional fixed).drop (List.sublist_append_left _ _).subperm
  refine lays_keyAfter hg fixed fun key => ?_
  refine .skip fun optional => .skip fun _ => .ite (fun _ => .maybe ?_) fun _ => ?_
  · refine .ite (fun _ => ?_) fun _ => lays_methodRest hg key optional false false
    exact (lays_constructorRest hg key).drop (List.sublist_append_right _ _).subperm
  refine .skip fun _ => .skip fun _ => .skip fun _ => .skip fun _ => ?_
  refine .ite (fun _ => lays_propertyRest hg key optional false) fun _ => .skip fun _ => ?_
  refine .ite (fun _ => hnamed key true optional _) fun _ => ?_
  exact .ite (fun _ => hnamed key false false false) fun _ => .unexpected

theorem lays_memberAfterStatic (isStatic : Bool) :
    Lays start.offset start.offset decorators
      (memberAfterStatic g ctx start decorators isStatic) Tree.parts := by
  unfold memberAfterStatic
  have hstatic : Lays start.offset start.offset decorators (staticBlock g ctx start) Tree.parts :=
    (lays_staticBlock hg).drop List.nil_subperm
  have hindex : Lays start.offset start.offset decorators (indexSignature g ctx start)
      Tree.parts := (lays_indexSignature hg ctx start).drop List.nil_subperm
  refine .skip fun (isStatic, fixed) => .skip fun _ => ?_
  extract_lets rest
  have hrest : Lays start.offset start.offset decorators (rest ()) Tree.parts := by
    refine .skip fun _ => .ite (fun _ => hstatic) fun _ => .skip fun _ => .skip fun _ => ?_
    refine .ite (fun _ => .skip fun _ => hstatic) fun _ => .skip fun _ => ?_
    exact .ite (fun _ => hindex) fun _ => lays_memberAfterModifiers hg fixed
  refine .ite (fun _ => .skip fun t => .skip fun _ => ?_) fun _ => hrest
  refine .foundOr (lays_modifierAsName hg "accessor" _ true) (fun member => .pure (.refl _)) ?_
  refine .skip fun _ => .ite (fun _ => ?_) fun _ => .bind .unexpected fun _ => hrest
  refine .step (reads_memberKey hg ctx) fun key => .skip fun optional => ?_
  exact lays_propertyRest hg key optional true

theorem lays_declareModifier :
    Lays start.offset start.offset decorators (declareModifier g ctx start decorators)
      fun o => o.elim decorators Tree.parts := by
  unfold declareModifier
  refine .skip fun t => .skip fun _ => .ite (fun _ => .pure (.refl _)) fun _ => ?_
  exact lays_modifierAsName hg "declare" _ true

end

/-- What makes a property hold of all members of a class that start at a place: sealed members have
it, and so has all that is read as a method or a property. -/
structure OfMembers (g : Grammar) (ctx : Context) (start : Mark) (P : Tree → Prop) : Prop where
  sealed : ∀ {span : Span} {parts : List Tree}, span.start = start → P (.sealed span parts)
  method : ∀ {decorators : List Tree} {key : MemberKey} {optional async generator : Bool},
    Yields (methodRest g ctx start decorators key optional async generator) P
  property : ∀ {decorators : List Tree} {key : MemberKey} {optional stored : Bool},
    Yields (propertyRest g ctx start decorators key optional stored) P

section

variable {g : Grammar} {ctx : Context} {start : Mark} {decorators : List Tree} {P : Tree → Prop}
  (h : OfMembers g ctx start P)
include h

theorem yields_modifierAsName (name : String) (span : Span) (breakEnds : Bool) :
    Yields (modifierAsName g ctx start decorators name span breakEnds) fun o => ∀ t ∈ o, P t := by
  have hsome : ∀ {p : Parse Tree}, Yields p P →
      Yields (p >>= fun t => Pure.pure (some t)) fun o => ∀ t ∈ o, P t :=
    fun hp => .bindKnown hp fun t ht => .pure (by simpa using ht)
  have hmethod : ∀ optional, Yields (do
      return some (← methodRest g ctx start decorators (.plain name span) optional false false))
      fun o => ∀ t ∈ o, P t :=
    fun optional => hsome h.method
  unfold modifierAsName
  refine .bind fun _ => .ite (hmethod false) <| .bind fun _ => .bind fun _ => ?_
  refine .ite (.bind fun optional => .bind fun _ => .ite (hmethod true) ?_) (.pure (by simp))
  exact hsome h.property

theorem yields_constructorRest (key : MemberKey) :
    Yields (constructorRest g ctx start key) P :=
  .bind fun _ => .bind fun _ => .bind fun _ => .bind fun _ => .bind fun _ => .bind fun _ =>
    .span fun _ => .pure (h.sealed rfl)

theorem yields_namedByWord (async optional fixed : Bool) :
    Yields (namedByWord g ctx start decorators async optional fixed) P := by
  unfold namedByWord
  refine .maybe <| .either fun generator => .bind fun key => ?_
  exact .maybe <| .maybe <| .either fun optional => h.method

theorem yields_staticBlock : Yields (staticBlock g ctx start) P :=
  .bind fun _ => .span fun _ => .pure (h.sealed rfl)

theorem yields_memberAfterModifiers (fixed : Option Span) :
    Yields (memberAfterModifiers g ctx start decorators fixed) P := by
  unfold memberAfterModifiers
  refine .bind fun _ => .ite (.bind fun key => h.method) ?_
  extract_lets rest
  have hrest : ∀ key : MemberKey, Yields (rest key) P := by
    refine fun key => .bind fun optional => .bind fun _ => .ite (.maybe ?_) ?_
    · exact .ite (yields_constructorRest h key) h.method
    refine .bind fun _ => .bind fun _ => .bind fun _ => .bind fun _ => ?_
    refine .ite h.property <| .bind fun _ => .ite (yields_namedByWord h true optional _) ?_
    exact .ite (yields_namedByWord h false false false) .unexpected
  cases fixed with
  | none => exact .bind hrest
  | some span => exact .bind fun _ => .either hrest

theorem yields_memberAfterStatic (isStatic : Bool) :
    Yields (memberAfterStatic g ctx start decorators isStatic) P := by
  unfold memberAfterStatic
  refine .bind fun (isStatic, fixed) => .bind fun _ => ?_
  extract_lets rest
  have hrest : Yields (rest ()) P := by
    refine .bind fun _ => .ite (yields_staticBlock h) <| .bind fun _ => .bind fun _ => ?_
    refine .ite (.bind fun _ => yields_staticBlock h) <| .bind fun _ => ?_
    exact .ite (yields_indexSignature h.sealed) (yields_memberAfterModifiers h fixed)
  refine .ite (.bind fun t => .bind fun _ => ?_) hrest
  refine .foundOr (yields_modifierAsName h "accessor" _ true) (fun _ => .pure) <| .bind fun _ => ?_
  exact .ite (.bind fun key => .bind fun optional => h.property) .unexpected

theorem yields_declareModifier :
    Yields (declareModifier g ctx start decorators) fun o => ∀ t ∈ o, P t :=
  .bind fun _ => .bind fun _ => .ite (.pure (by simp)) (yields_modifierAsName h "declare" _ true)

end

section

variable {g : Grammar} {ctx : Context}

/-- What holds of all members that start at a place holds of a member that is read there. -/
theorem yields_classMember {Q : Mark → Tree → Prop} (h : ∀ start, OfMembers g ctx start (Q start)) :
    YieldsAt (classMember g ctx) Q := by
  unfold classMember
  refine .here fun start => .bind fun decorators => ?_
  refine .foundOr (yields_declareModifier (h start)) (fun _ => .pure) <| .bind fun _ => ?_
  refine .foundOr (yields_declareModifier (h start)) (fun _ => .pure) <| .bind fun t => ?_
  refine .bind fun _ => .ite ?_ (yields_memberAfterStatic (h start) false)
  refine .foundOr (yields_modifierAsName (h start) "static" _ false) (fun _ => .pure) ?_
  exact .bind fun _ => yields_memberAfterStatic (h start) true

theorem ofMembers_isMemberAt (start : Mark) : OfMembers g ctx start (Tree.IsMemberAt start) where
  sealed h := ⟨h, rfl⟩
  method := .bind fun _ => .span fun _ => .ite (.pure ⟨rfl, rfl⟩) (.pure ⟨rfl, rfl⟩)
  property {decorators key optional stored} := by
    unfold propertyRest
    refine .maybe <| .either fun _ => .bind fun _ => .bind fun _ => .bind fun _ => .span fun _ => ?_
    exact .ite (.pure ⟨rfl, rfl⟩) (.pure ⟨rfl, rfl⟩)

theorem isMemberAt_classMember : YieldsAt (classMember g ctx) Tree.IsMemberAt :=
  yields_classMember ofMembers_isMemberAt

/-- How a tree was read that counts among the members of a class: as a method or a property, under a
name that is not private and not as an accessor with storage. -/
inductive Counted (g : Grammar) (ctx : Context) (t : Tree) : Prop where
  | method {start : Mark} {decorators : List Tree} {key : MemberKey}
    {optional async generator : Bool} {s next : State} : key.hidden = false →
      methodRest g ctx start decorators key optional async generator s = .done t next → Counted g ctx t
  | property {start : Mark} {decorators : List Tree} {key : MemberKey} {optional : Bool}
    {s next : State} : key.hidden = false →
      propertyRest g ctx start decorators key optional false s = .done t next → Counted g ctx t

/-- A private method is sealed. -/
theorem sealed_methodRest {start : Mark} {decorators : List Tree} {key : MemberKey}
    {optional async generator : Bool} (h : key.hidden = true) :
    Yields (methodRest g ctx start decorators key optional async generator)
      fun t => t.isSealed = true := by
  refine .bind fun f => .span fun stop => ?_
  rw [h]
  exact .pure rfl

/-- A private property is sealed, and an accessor with storage is. -/
theorem sealed_propertyRest {start : Mark} {decorators : List Tree} {key : MemberKey}
    {optional stored : Bool} (h : (key.hidden || stored) = true) :
    Yields (propertyRest g ctx start decorators key optional stored)
      fun t => t.isSealed = true := by
  unfold propertyRest
  rw [h]
  refine .maybe <| .either fun _ => .bind fun _ => .bind fun _ => .bind fun _ => .span fun _ => ?_
  exact .pure rfl

theorem ofMembers_counted (start : Mark) :
    OfMembers g ctx start fun t => t.isMember = true → Counted g ctx t where
  sealed _ hmember := by cases hmember
  method {decorators key optional async generator} := by
    cases hhidden : key.hidden with
    | false => exact fun s t next heq _ => .method hhidden heq
    | true =>
      refine (sealed_methodRest hhidden).mono fun t ht hmember => ?_
      rw [Tree.isMember_of_isSealed ht] at hmember
      cases hmember
  property {decorators key optional stored} := by
    cases hhidden : key.hidden || stored with
    | false =>
      obtain ⟨hopen, hplain⟩ := Bool.or_eq_false_iff.mp hhidden
      subst hplain
      exact fun s t next heq _ => .property hopen heq
    | true =>
      refine (sealed_propertyRest hhidden).mono fun t ht hmember => ?_
      rw [Tree.isMember_of_isSealed ht] at hmember
      cases hmember

/-- A property or method among the members of a class was read as one. -/
theorem counted_classMember :
    Yields (classMember g ctx) fun t => t.isMember = true → Counted g ctx t :=
  yields_classMember (Q := fun _ t => t.isMember = true → Counted g ctx t) ofMembers_counted

theorem yields_classMembers :
    Yields (classMembers g ctx) fun ts => ts.all Tree.isBodyMember = true := by
  unfold classMembers
  have hmember : Yields (advancing (classMember g ctx)) fun t => t.isBodyMember = true :=
    .advancing fun s t next heq => (isMemberAt_classMember s t next heq).2
  refine .bindKnown (.repeated (P := fun ts => ts.all Tree.isBodyMember = true) ?_) fun ts hts => ?_
  · refine .bind fun _ => .ite (.pure (by simp)) <| .bind fun _ => .ite (.pure (by simp)) ?_
    exact .bindKnown hmember fun t ht => .pure (by simpa using ht)
  · refine .pure (List.all_eq_true.mpr fun t ht => ?_)
    obtain ⟨members, hmembers, ht⟩ := List.mem_flatten.mp ht
    exact List.all_eq_true.mp (hts members hmembers) t ht

end

section

variable {g : Grammar} (hg : g.Scatters) {ctx : Context}
include hg

/-- A member may be a landmark that starts where it is read. -/
theorem reads_classMember : Reads (advancing (classMember g ctx)) (fun t => [t]) true := by
  refine .advancing (fun lo => ?_) isMemberAt_classMember
  unfold classMember
  refine .here fun start => .step (hg.decorators ctx) fun decorators => ?_
  have hrest : ∀ isStatic, Lays start.offset start.offset decorators
      (memberAfterStatic g ctx start decorators isStatic) Tree.parts :=
    lays_memberAfterStatic hg
  refine .foundOr (lays_declareModifier hg) (fun member => .pure (.refl _)) <| .skip fun _ => ?_
  refine .foundOr (lays_declareModifier hg) (fun member => .pure (.refl _)) <| .skip fun t => ?_
  refine .skip fun _ => .ite (fun _ => ?_) fun _ => hrest false
  refine .foundOr (lays_modifierAsName hg "static" _ false) (fun member => .pure (.refl _)) ?_
  exact .skip fun _ => hrest true

theorem reads_classMembers : Reads (classMembers g ctx) (fun ts => ts) true := by
  intro lo
  unfold classMembers
  refine .stepLate (.lists fun lo => ?_) fun members => .pure (.refl _)
  refine .skip fun _ => .ite (fun _ => .pure (.refl _)) fun _ => .skip fun _ => ?_
  refine .ite (fun _ => .pure (.refl _)) fun _ => ?_
  exact .stepLate (reads_classMember hg) fun member => .pure (.refl _)

end

/-! ### Classes -/

/-- The trees of what a class extends. -/
def Parent.trees (p : Parent) : List Tree := p.tree :: p.args

/-- The trees of what a class extends, if it extends something. -/
def Parent.treesOf (p : Option Parent) : List Tree := p.elim [] Parent.trees

section

variable {g : Grammar} (hg : g.Scatters) (ctx : Context)
include hg

omit hg in
/-- The type parameters of a class stand among what it extends and implements. -/
theorem Heritage.count_parts [DecidableEq Tree] (h : Heritage) (typeParams : List Tree) (t : Tree) :
    (h.parts typeParams).count t =
      typeParams.count t + (Parent.treesOf h.parent).count t + h.interfaces.count t := by
  obtain ⟨parent, interfaces⟩ := h
  cases parent with
  | some parent =>
    simp only [Heritage.parts, Parent.treesOf, Parent.trees, List.count_append, List.count_cons,
      Option.elim_some]
    omega
  | none => simp [Heritage.parts, Parent.treesOf]

theorem reads_heritageItem : Reads (heritageItem g ctx) fun t => [t] := by
  intro lo
  unfold heritageItem
  refine .here fun start => .skip fun _ => .skip fun _ => .skip fun _ => ?_
  refine .optional (reads_typeArgs hg ctx) fun args => .span fun _ => ?_
  exact .tree rfl rfl (.refl _) (.inl rfl)

theorem reads_heritageList : Reads (heritageList g ctx) fun ts => ts :=
  reads_typeListUntil (reads_heritageItem hg ctx)

theorem reads_superClass : Reads (superClass g ctx) Parent.trees := by
  intro lo
  unfold superClass
  refine .step (hg.call ctx) fun parent => ?_
  split
  · rename_i hnode
    rw [hnode]
    -- the type arguments were read with the parent, so they are taken out of it
    exact .opened (.pure (by simp [Tree.parts, Parent.trees]))
  · exact .skip fun _ => .optional (reads_typeArgs hg ctx) fun args => .pure (.refl _)

theorem reads_parent? : Reads (parent? g ctx) Parent.treesOf := by
  intro lo
  unfold parent?
  refine .skip fun _ => .ite (fun _ => ?_) fun _ => .pure (.refl _)
  exact .step (reads_superClass hg ctx) fun parent => .pure (.refl _)

theorem reads_firstParent? : Reads (firstParent? g ctx) Parent.treesOf := by
  intro lo
  unfold firstParent?
  refine .step (reads_parent? hg ctx) fun parent => ?_
  extract_lets rest
  have hrest : Lays lo lo ([] ++ Parent.treesOf parent) (rest ()) Parent.treesOf := .pure (.refl _)
  refine .ite (fun _ => .skip fun _ => .ite (fun _ => ?_) fun _ => hrest) fun _ => hrest
  exact .step (reads_heritageList hg ctx) fun others =>
    hrest.drop (List.sublist_append_left _ _).subperm

theorem reads_interfaces : Reads (interfaces g ctx) fun ts => ts := by
  intro lo
  unfold interfaces
  exact .skip fun _ => .ite (fun _ => reads_heritageList hg ctx lo) fun _ => .pure (.refl _)

theorem reads_classHeritage : Reads (classHeritage g ctx) fun h => h.parts [] := by
  intro lo
  unfold classHeritage
  refine .step (reads_firstParent? hg ctx) fun first => .step (reads_parent? hg ctx) fun _ => ?_
  refine .step (reads_interfaces hg ctx) fun kept => .step (reads_interfaces hg ctx) fun _ => ?_
  refine .step (reads_parent? hg ctx) fun late => .pure (subperm_of_count fun t => ?_)
  rw [Heritage.count_parts]
  simp only [List.count_append, List.count_nil]
  cases first with
  | some parent => simp only [Option.some_or]; omega
  | none => simp only [Option.none_or]; omega

/-- A class that starts at its decorators, or at its keyword after them. -/
theorem lays_classAt {lo least : Nat} {start : Mark} {past : Bool} (decorators : List Tree)
    (needsName declares : Bool) (hlo : lo ≤ start.offset) (hleast : start.offset ≤ least) :
    Lays lo least decorators (classAt g ctx start decorators needsName declares) (fun t => [t]) past
      fun t => declares && t.isDeclared := by
  unfold classAt
  extract_lets inner rest
  have hrest : ∀ name, Lays lo least decorators (rest name) (fun t => [t]) past
      fun t => declares && t.isDeclared := by
    intro name
    refine .step (reads_typeParams? hg inner) fun typeParams => ?_
    refine .step (reads_classHeritage hg inner) fun heritage => ?_
    -- The brace takes the state past the start of the class.
    refine .pass (advances_expectSign (by decide)) fun _ => ?_
    refine .bindKnown (.frame (reads_classMembers hg)) yields_classMembers fun members hmembers => ?_
    refine .skip fun _ => .maybe <| .span fun stop => ?_
    have hsub : ∀ declared, (Tree.class ⟨start, stop⟩ declared decorators members
        (heritage.parts typeParams)).parts.Subperm
          (decorators ++ typeParams ++ heritage.parts [] ++ members) := by
      refine fun declared => subperm_of_count fun t => ?_
      simp only [Tree.parts, List.count_append, Heritage.count_parts, List.count_nil]
      omega
    cases hdeclared : (if declares then name.map (·.1) else none) with
    | some name =>
      have hdeclares : declares = true := by
        cases declares with
        | true => rfl
        | false => cases hdeclared
      exact .declared rfl (by rw [hdeclares]; rfl) hmembers (hsub _) hlo (Nat.lt_succ_of_le hleast)
    | none =>
      exact .unmarked rfl rfl hmembers (hsub _) (.inr ⟨hlo, Nat.lt_succ_of_le hleast⟩)
  exact .skip fun _ => .ite (fun _ => .skip fun name => .known <| hrest _) fun _ => .skip hrest

/-- A class that declares nothing. -/
theorem lays_classExpression {lo least : Nat} {start : Mark} (decorators : List Tree)
    (hlo : lo ≤ start.offset) (hleast : start.offset ≤ least) :
    Lays lo least decorators (classAt g ctx start decorators false false) fun t => [t] :=
  lays_classAt hg ctx decorators false false hlo hleast

end

end Parse
end TypeScript
end FetchClients
