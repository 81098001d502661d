/-
# The order of the types of a source

Every part of the grammar reads trees that lie scattered, by induction on how deep
sources may nest, so the searched parts of every source that was read lie apart.
Its types therefore stand at different places, and they are listed in the order of
the source exactly when at every tree that is searched the parts that hold
declarations are searched in the order in which they start. That is not so for all
syntax, for parts are searched in the order of the fields of a syntax node: the
condition of a `do` before its body, the body of a class before what it extends, the
value of a property before its type.

Key theorems: `Grammar.scatters_upTo`, `Module.scattered_of_parse`,
`Module.types_in_order_iff`.
-/
import FetchClients.Proofs.Reading.Starts
import FetchClients.Proofs.Results
import FetchClients.TypeScript.Parse

namespace FetchClients
namespace TypeScript

/-- The grammar of sources that nest at most so deep reads trees that lie scattered. -/
theorem Grammar.scatters_upTo (n : Nat) : (Grammar.upTo n).Scatters := by
  induction n with
  | zero =>
    have hfail : ∀ {α : Type} {out : α → List Tree} {past : Bool},
        Parse.Reads (Parse.fail .tooDeep) out past :=
      fun _ => .fail
    exact ⟨fun _ => hfail, fun _ => hfail, fun _ => hfail, fun _ => hfail, fun _ _ => hfail,
      fun _ => hfail, fun _ => hfail, fun _ => hfail, fun _ => hfail, fun _ => hfail⟩
  | succ n ih =>
    exact {
      expression := Parse.reads_expressionOf ih
      unary := Parse.reads_unaryOf ih
      member := Parse.reads_memberOf ih
      call := Parse.reads_callOf ih
      statement := Parse.reads_statementOf ih
      type := Parse.reads_fullType ih
      typeOperand := Parse.reads_typeOperandOf ih
      pattern := Parse.reads_bindingPattern ih
      decorators := Parse.reads_decoratorsOf ih
      element := Parse.reads_elementOf ih }

theorem Parse.reads_moduleItem {g : Grammar} (hg : g.Scatters) (ctx : Context) :
    Parse.Reads (do
      if ← test (· = .eof) then return none
      return some (← g.statement ctx true)) (fun o => o.elim [] fun t => [t]) true :=
  fun _ => .skip fun _ => .ite (fun _ => .pure (.refl _)) fun _ =>
    .stepLate (hg.statement ctx true) fun _ => .pure (.refl _)

theorem Parse.reads_moduleItems {g : Grammar} (hg : g.Scatters) (ctx : Context) :
    Parse.Reads (Parse.moduleItems g ctx) (fun ts => ts) true :=
  fun lo => (Parse.Reads.repeated (Parse.reads_moduleItem hg ctx) lo).weaken fun ts => by
    rw [List.flatMap_singleton']

theorem State.sound_start (text : List Char) : (State.start text).token.Sound :=
  Token.sound_afterGap _

namespace Module

variable {jsx : Bool} {source : String} {m : Module}

/-- The items of a source that was read are those that its tokens give. -/
theorem exists_of_parse (h : Module.parse jsx source = .ok m) :
    ∃ n s, Parse.moduleItems (Grammar.upTo (n + 1)) { jsx := jsx } (State.start source.toList) =
      .done m.items s := by
  unfold Module.parse at h
  dsimp only at h
  split at h
  · rename_i items s heq
    cases h
    exact ⟨4 * source.toList.length + 15, s, heq⟩
  · cases h

/-- The items of a source that was read lie scattered in it. -/
theorem scattered_of_parse (h : Module.parse jsx source = .ok m) :
    ∃ size, Scattered 0 size m.items := by
  obtain ⟨n, s, heq⟩ := exists_of_parse h
  have hread := Parse.reads_moduleItems (Grammar.scatters_upTo (n + 1)) { jsx := jsx } 0 _
    (.nothing (State.sound_start source.toList) (Nat.le_refl _) (Nat.zero_le _))
  rw [heq] at hread
  exact ⟨s.pos, hread.2.1.scattered⟩

/-- In a source that was read, the parts of all trees lie apart. -/
theorem laid_landmarks_of_parse (h : Module.parse jsx source = .ok m) :
    Search.landmarks.Laid m.root := by
  obtain ⟨size, hitems⟩ := scattered_of_parse h
  intro u hu
  rcases Search.searched_landmarks_iff.mp hu with rfl | ⟨item, hitem, hu⟩
  · exact hitems.apart
  · exact hitems.laid item hitem u hu

/-- In a source that was read, the bodies of all interfaces and classes are made of members. -/
theorem formed_of_parse (h : Module.parse jsx source = .ok m) : m.root.Formed := by
  obtain ⟨size, hitems⟩ := scattered_of_parse h
  intro u hu
  rcases Search.searched_landmarks_iff.mp hu with rfl | ⟨item, hitem, hu⟩
  · rfl
  · exact hitems.formed item hitem u hu

/-- The first item of a source that was read is the statement at its start, and the others are read
from where that ends. -/
theorem exists_statement_of_parse (h : Module.parse jsx source = .ok m) {item : Tree}
    {items : List Tree} (hitems : m.items = item :: items) :
    ∃ n k s u, Parse.statementOf (Grammar.upTo n) { jsx := jsx } true
        (State.start source.toList) = .done item u ∧
      Parse.repeatedUpTo (do
        if ← Parse.test (· = .eof) then return none
        return some (← (Grammar.upTo (n + 1)).statement { jsx := jsx } true)) k u =
          .done items s := by
  obtain ⟨n, s, heq⟩ := exists_of_parse h
  rw [hitems] at heq
  obtain ⟨k, u, hfirst, hlater⟩ := Parse.repeated_eq_done_cons heq
  refine ⟨n, k, s, u, ?_, hlater⟩
  obtain ⟨atEnd, v, htest, hrest⟩ := Parse.bind_eq_done_iff.mp hfirst
  cases htest
  split at hrest
  · cases hrest
  · obtain ⟨w, next, hdone, hsome⟩ := Parse.bind_eq_done_iff.mp hrest
    cases hsome
    exact hdone

/-- The first item of a source that was read starts before the landmarks in the others, and if it is
no declaration no landmark in it stands where it starts. -/
theorem start_not_mem_landmarks (h : Module.parse jsx source = .ok m) {item : Tree}
    {items : List Tree} (hitems : m.items = item :: items) (hnone : item.declaration? = none) :
    item.span.start.offset ∉ Search.landmarks.offsets m.root := by
  obtain ⟨n, k, s, u, hstatement, hlater⟩ := exists_statement_of_parse h hitems
  have hsound := State.sound_start source.toList
  obtain ⟨hlt, hself⟩ := Parse.unmarked_statementOf (Grammar.scatters_upTo n) hsound hstatement
  have hread := Parse.reads_moduleItem (Grammar.scatters_upTo (n + 1)) { jsx := jsx }
  have hitem := Parse.reads_statementOf (Grammar.scatters_upTo n) { jsx := jsx } true 0 _
    (.nothing hsound (Nat.le_refl _) (Nat.zero_le _))
  rw [hstatement] at hitem
  have hothers := hread.repeatedUpTo k u.pos u
    (.nothing hitem.2.1.sound (Nat.le_refl _) (Nat.le_refl _))
  rw [hlater] at hothers
  intro hmem
  obtain ⟨t, ht, ha⟩ := (Tree.mem_landmarks_of_isLandmark rfl).mp hmem
  change t ∈ m.items at ht
  rw [hitems] at ht
  rcases List.mem_cons.mp ht with rfl | ht
  · exact hself (by rw [Tree.isDeclaration, hnone]; rfl) ha
  · have hlater : t ∈ items.flatMap fun t => [t] := by rwa [List.flatMap_singleton']
    have hle := (hothers.2.1.scattered.within t hlater _ (Search.marked_of_mem_offsets ha)).1
    omega

/-- In a source that was read, the parts of all trees that are searched lie apart. -/
theorem laid_of_parse (h : Module.parse jsx source = .ok m) : m.root.Laid :=
  Search.declarations_of_landmarks (laid_landmarks_of_parse h)

/-- The types of a source that was read are its declarations. They start at different places, and
they come in the order of the source exactly when at every tree that is searched the parts that hold
declarations are searched in the order in which they start. -/
theorem types_in_order_iff {jsx : Bool} {source : String} {m : Module} (path : String)
    (h : Module.parse jsx source = .ok m) :
    (FileOutline.ofModule path m).types = m.root.declarations.map m.typeOutline ∧
      m.root.offsets.Nodup ∧
      (m.root.offsets.Pairwise (· < ·) ↔ ∀ t, m.root.Searched t →
        (t.parts.filter (·.offsets ≠ [])).Pairwise
          fun p q => p.span.start.offset < q.span.start.offset) := by
  have hlaid := laid_of_parse h
  exact ⟨FileOutline.types_ofModule path m, Tree.nodup_offsets_of_laid hlaid,
    Tree.pairwise_offsets_iff_of_laid hlaid⟩

end Module

/-- A source with one declaration at its top and two in a function. -/
def nestedSource : String :=
  "class A \x7b\x7d function f() \x7b interface B \x7b\x7d type C = B \x7d"

/-- What is found in a source, if a search to a depth of twenty finds it. -/
theorem exists_parse_of_offsetsUpTo {source : String} {found : List Nat}
    (h : ((Module.parse false source).map fun m => m.root.offsetsUpTo 20).toOption = some found) :
    ∃ m, Module.parse false source = .ok m ∧ found.Sublist m.root.offsets := by
  obtain ⟨m, hparse, rfl⟩ := toOption_map_eq_some_iff.mp h
  exact ⟨m, hparse, m.root.offsetsUpTo_sublist 20⟩

theorem types_in_order_nested : ∃ m, Module.parse false nestedSource = .ok m ∧
    [0, 26, 41].Sublist m.root.offsets ∧
    (FileOutline.ofModule "nested.ts" m).types = m.root.declarations.map m.typeOutline ∧
      m.root.offsets.Nodup ∧
      (m.root.offsets.Pairwise (· < ·) ↔ ∀ t, m.root.Searched t →
        (t.parts.filter (·.offsets ≠ [])).Pairwise
          fun p q => p.span.start.offset < q.span.start.offset) := by
  have hfound : ((Module.parse false nestedSource).map fun m =>
      m.root.offsetsUpTo 20).toOption = some [0, 26, 41] := by decide +kernel
  obtain ⟨m, hparse, hsub⟩ := exists_parse_of_offsetsUpTo hfound
  exact ⟨m, hparse, hsub, Module.types_in_order_iff "nested.ts" hparse⟩

/-- A loop with a declaration in its body and one in a class in its condition. -/
def loopSource : String :=
  "do \x7b interface A \x7b\x7d \x7d while (class \x7b m() \x7b interface B \x7b\x7d \x7d \x7d);"

/-- The condition of a `do` statement is searched before its body. -/
theorem not_in_order_loop : ∃ m, Module.parse false loopSource = .ok m ∧
    ¬ (m.root.declarations.map fun d => d.place.offset).Pairwise (· < ·) := by
  have hfound : ((Module.parse false loopSource).map fun m =>
      m.root.offsetsUpTo 20).toOption = some [43, 5] := by decide +kernel
  obtain ⟨m, hparse, hsub⟩ := exists_parse_of_offsetsUpTo hfound
  exact ⟨m, hparse, fun horder => absurd (horder.sublist hsub) (by decide)⟩

end TypeScript
end FetchClients
