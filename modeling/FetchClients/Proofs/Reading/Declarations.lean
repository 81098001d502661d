/-
# Declarations as they are read

Declarations of types start where they are said to, and the name or the brace in
them takes the state past that place. Enumerations, modules and variables read
trees that lie scattered.

Key theorems: `Parse.lays_interfaceAfter`, `Parse.lays_aliasAfter`,
`Parse.lays_variableList`, `Parse.lays_declarationAfter?`, `Parse.lays_ambient?`.
-/
import FetchClients.Proofs.Reading.Expressions
import FetchClients.TypeScript.Parser.Declarations

namespace FetchClients
namespace TypeScript
namespace Parse

open List (Subperm)

instance : Moves letDeclares := by unfold letDeclares; infer_instance

section

variable {g : Grammar} (hg : g.Scatters) (ctx : Context)
include hg

/-! ### Interfaces and aliases -/

section

variable {lo least : Nat} {held : List Tree} {start : Mark} {past : Bool}
  (hlo : lo ≤ start.offset) (hleast : start.offset ≤ least)
include hlo hleast

theorem lays_interfaceAfter :
    Lays lo least held (interfaceAfter g ctx start) (fun t => [t]) past Tree.isDeclared := by
  unfold interfaceAfter
  refine .pass advances_identifierName fun bound => ?_
  obtain ⟨name, -⟩ := bound
  refine .step (reads_typeParams? hg ctx) fun typeParams => .skip fun _ => ?_
  refine .optional (reads_heritageList hg ctx) fun parents => .skip fun _ => .maybe ?_
  refine .bindKnown (.frame fun lo => (reads_typeMembers hg ctx lo).relax) (yields_typeMembers ctx)
    fun members hmembers => .span fun _ => ?_
  refine .declared rfl rfl hmembers (subperm_of_count fun t => ?_) hlo (Nat.lt_succ_of_le hleast)
  simp only [Tree.parts, List.count_append]
  omega

theorem lays_aliasAfter :
    Lays lo least held (aliasAfter g ctx start) (fun t => [t]) past Tree.isDeclared := by
  unfold aliasAfter
  refine .pass advances_identifierName fun bound => ?_
  obtain ⟨name, -⟩ := bound
  refine .step (reads_typeParams? hg ctx) fun typeParams => .skip fun _ => .maybe ?_
  refine .step (hg.type ctx) fun type => .skip fun _ => .span fun _ => ?_
  refine .declared rfl rfl rfl (subperm_of_count fun t => ?_) hlo (Nat.lt_succ_of_le hleast)
  simp only [Tree.parts, List.count_append]
  omega

end

/-! ### Enumerations and modules -/

theorem reads_enumMemberName : Reads (enumMemberName g ctx) fun _ => [] := by
  intro lo
  unfold enumMemberName
  refine .skip fun t => ?_
  split
  · exact .failAtEnd
  · exact .fail
  · exact Moves.reads lo
  · exact Moves.reads lo
  · refine .skip fun _ => .step (reads_fullSequence hg ctx) fun key => ?_
    exact (Moves.reads lo).drop List.nil_subperm
  · exact .skip fun _ => .pure (.refl _)

theorem reads_enumMember : Reads (enumMember g ctx) fun t => [t] := by
  intro lo
  unfold enumMember
  refine .here fun start => .passOver (reads_enumMemberName hg ctx) fun _ => ?_
  refine .step (reads_initializer? hg ctx) fun value => .span fun stop => .skip fun _ => ?_
  have hnode : Lays start.offset start.offset ([] ++ value.toList)
      (Pure.pure (Tree.node ⟨start, stop⟩ value.toList)) fun t => [t] :=
    .tree rfl rfl (.refl _) (.inl rfl)
  refine .ite (fun _ => .skip fun _ => ?_) fun _ => hnode
  refine .reread (fun h => ?_) (fun _ => rfl) fun _ => hnode
  exact h.longer (Nat.le_refl _) fun hsolid => by cases hsolid

variable (start : Mark)

theorem lays_enumAfter :
    Lays start.offset start.offset [] (enumAfter g ctx start) fun t => [t] := by
  unfold enumAfter
  refine .skip fun _ => .skip fun _ => .step (.trees fun lo => ?_) fun members => .skip fun _ => ?_
  · refine .skip fun _ => .ite (fun _ => .pure (.refl _)) fun _ => ?_
    exact .step (reads_enumMember hg ctx) fun member => .skip fun _ => .pure (.refl _)
  · exact .span fun _ => .tree rfl rfl (.refl _) (.inl rfl)

theorem reads_moduleBody : Reads (moduleBody g ctx) fun ts => ts :=
  reads_statementsInBraces hg _

theorem lays_moduleAfter :
    Lays start.offset start.offset [] (moduleAfter g ctx start) fun t => [t] := by
  unfold moduleAfter
  refine .skip fun _ => .skip fun _ => .step (reads_moduleBody hg ctx) fun items => .span fun _ => ?_
  exact .tree rfl rfl (.refl _) (.inl rfl)

theorem lays_ambientModule :
    Lays start.offset start.offset [] (ambientModule g ctx start) fun t => [t] := by
  unfold ambientModule
  refine .skip fun _ => .maybe <| .skip fun _ => .skip fun _ => .ite (fun _ => ?_) fun _ => ?_
  · refine .step (reads_moduleBody hg ctx) fun items => .span fun _ => ?_
    exact .tree rfl rfl (.refl _) (.inl rfl)
  · exact .skip fun _ => .span fun _ => .leaf rfl

/-! ### Variables -/

omit start in
theorem reads_oneVariable (forHead noLet : Bool) :
    Reads (oneVariable g ctx forHead noLet) fun t => [t] := by
  intro lo
  unfold oneVariable
  refine .here fun start => .step (reads_bindingTarget hg ctx noLet) fun target => ?_
  extract_lets rest
  have hrest : Lays start.offset start.offset [target] (rest ()) fun t => [t] := by
    refine .bind (lays_annotated hg ctx target) fun target => .skip fun _ => ?_
    refine .ite (fun _ => .pure (.refl _)) fun _ => .skip fun given => ?_
    cases given with
    | true =>
      refine .step (hg.expression ctx) fun value => .span fun _ => ?_
      exact .tree rfl rfl (.refl _) (.inl rfl)
    | false => exact .pure (.refl _)
  split
  · exact .skip fun _ => hrest
  · exact .skip fun _ => hrest

omit start in
/-- The variables behind the first one. -/
theorem reads_laterVariables (forHead noLet : Bool) :
    Reads (repeated do
      if !(← eatSign ",") then return none
      if ← isSign ";" then return some []
      return some [← oneVariable g ctx forHead noLet]) List.flatten := by
  refine .lists fun lo => .skip fun _ => .ite (fun _ => .pure (.refl _)) fun _ => .skip fun _ => ?_
  refine .ite (fun _ => .pure (.refl _)) fun _ => ?_
  exact .step (reads_oneVariable hg ctx forHead noLet) fun declared => .pure (.refl _)

theorem reads_skipToStatementEnd : Reads (skipToStatementEnd g ctx) fun _ => [] := by
  intro lo
  unfold skipToStatementEnd
  refine .step (reads_fullSequence hg ctx) fun _ => .skip fun _ => .pure List.nil_subperm

theorem lays_variableList (forHead : Bool) :
    Lays start.offset start.offset [] (variableList g ctx start forHead) fun t => [t] := by
  unfold variableList
  refine .skip fun noLet => ?_
  extract_lets inner rest
  have hrest : ∀ first, Lays start.offset start.offset first (rest first) fun t => [t] := by
    intro first
    refine .step (reads_laterVariables hg inner forHead noLet) fun others => .skipEither fun ended => ?_
    extract_lets node
    have hnode : Lays start.offset start.offset (first ++ others.flatten) (node ()) fun t => [t] :=
      .span fun _ => .tree rfl rfl (.refl _) (.inl rfl)
    exact .ite (fun _ => .passOver (reads_skipToStatementEnd hg inner) fun _ => hnode) fun _ => hnode
  refine .skip fun _ => .skip fun _ => .ite (fun _ => .known <| hrest []) fun _ => ?_
  exact .step (reads_oneVariable hg inner forHead noLet) fun declared => .known <| hrest [declared]

/-! ### Declarations behind a word -/

section

variable {lo least : Nat} {start : Mark} {past : Bool} (decorators : List Tree)
  (hlo : lo ≤ start.offset) (hleast : start.offset ≤ least)
include hlo hleast

theorem lays_declarationAfter? (word : String) (atWord : Bool) :
    Lays lo least decorators (declarationAfter? g ctx start decorators word atWord)
      (fun o => o.elim decorators fun t => [t]) past fun o => o.any Tree.isDeclared := by
  unfold declarationAfter?
  extract_lets skip declared named
  split
  · refine .skip fun _ => .skip fun _ => .ite (fun _ => .skip fun _ => .skip fun _ => ?_) fun _ => ?_
    · exact .maybe <| (lays_classAt hg ctx decorators true true hlo hleast).found
    · exact .pure (.refl _)
  · refine .skip fun _ => .ite (fun _ => .skip fun _ => ?_) fun _ => .pure (.refl _)
    exact ((lays_enumAfter hg ctx start).rebase hlo hleast).relax.found
  · refine .skip fun _ => .ite (fun _ => .skip fun _ => ?_) fun _ => .pure (.refl _)
    exact (lays_interfaceAfter hg ctx hlo hleast).found
  · have hnamed : Lays lo least decorators (named ()) (fun o => o.elim decorators fun t => [t]) past
        fun o => o.any Tree.isDeclared := by
      refine .skip fun _ => .skip fun _ => .ite (fun _ => ?_) fun _ => .skip fun _ => ?_
      · exact ((lays_ambientModule hg ctx start).rebase hlo hleast).relax.found
      · refine .ite (fun _ => ?_) fun _ => .pure (.refl _)
        exact ((lays_moduleAfter hg ctx start).rebase hlo hleast).relax.found
    refine .skip fun _ => .ite (fun _ => .ite (fun _ => .pure (.refl _)) fun _ => hnamed) ?_
    exact fun _ => hnamed
  · refine .skip fun _ => .ite (fun _ => .skip fun _ => ?_) fun _ => .pure (.refl _)
    exact ((lays_moduleAfter hg ctx start).rebase hlo hleast).relax.found
  · refine .skip fun _ => .skip fun _ => .ite (fun _ => .skip fun _ => ?_) fun _ => .pure (.refl _)
    exact (lays_aliasAfter hg ctx hlo hleast).found
  · exact .pure (.refl _)

theorem lays_ambient? :
    Lays lo least decorators (ambient? g ctx start decorators)
      (fun o => o.elim decorators fun t => [t]) past fun o => o.any Tree.isDeclared := by
  unfold ambient?
  dsimp only
  refine .skip fun t => ?_
  split
  · exact ((lays_functionAt hg _ start false false true).rebase hlo hleast).relax.found
  · exact (lays_classAt hg _ decorators true true hlo hleast).found
  · refine .skip fun _ => .ite (fun _ => .skip fun _ => .skip fun _ => ?_) fun _ => ?_
    · exact ((lays_enumAfter hg _ start).rebase hlo hleast).relax.found
    · exact ((lays_variableList hg _ start false).rebase hlo hleast).relax.found
  · exact ((lays_variableList hg _ start false).rebase hlo hleast).relax.found
  · exact ((lays_variableList hg _ start false).rebase hlo hleast).relax.found
  · exact ((lays_ambientModule hg _ start).rebase hlo hleast).relax.found
  · exact lays_declarationAfter? hg _ decorators hlo hleast _ true
  · exact .pure (.refl _)

theorem lays_declarationAfterName? (name : String) :
    Lays lo least decorators (declarationAfterName? g ctx start decorators name)
      (fun o => o.elim decorators fun t => [t]) past fun o => o.any Tree.isDeclared := by
  unfold declarationAfterName?
  split
  · exact lays_ambient? hg ctx decorators hlo hleast
  · refine .skip fun _ => .ite (fun _ => ?_) fun _ => .pure (.refl _)
    refine (Lays.rebase ?_ hlo hleast).relax
    refine .step (reads_moduleBody hg ctx) fun items => .span fun _ => ?_
    exact .tree rfl rfl (.refl _) (.inl rfl)
  · exact lays_declarationAfter? hg ctx decorators hlo hleast name false

end

end

end Parse
end TypeScript
end FetchClients
