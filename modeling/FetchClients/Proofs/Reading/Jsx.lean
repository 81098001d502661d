/-
# Elements as they are read

Elements read trees that lie scattered, also where the text between tags is
taken as it is.

Key theorem: `Parse.reads_elementOf`.
-/
import FetchClients.Proofs.Reading.Expressions
import FetchClients.TypeScript.Parser.Jsx

namespace FetchClients
namespace TypeScript
namespace Parse

open List (Subperm)

/-! ### Tags and text -/

instance : Moves bumpIntoText := by
  refine .of_forall fun s hs => ?_
  have hstart : (Token.readJsxText ⟨s.token.stop, s.token.rest⟩).start = s.token.stop :=
    Token.start_readJsxText _
  refine ⟨?_, Token.sound_readJsxText _⟩
  change s.token.start.offset ≤ (Token.readJsxText ⟨s.token.stop, s.token.rest⟩).start.offset
  rw [hstart]
  exact hs.le

instance (text : String) : Moves (expectSignThenText text) := by
  unfold expectSignThenText
  infer_instance

instance : Moves bumpIntoAttribute := by
  refine .of_forall fun s hs => ?_
  have hend : ∃ t, bumpIntoAttribute s = .done () t ∧ s.pos ≤ t.pos ∧ t.token.Sound := by
    obtain ⟨hle, hsound⟩ := stop_le_stepped s
    have hgap := Gap.offset_le_after (some s.token.kind) ⟨s.token.stop, s.token.rest⟩
    unfold bumpIntoAttribute
    dsimp only
    split
    · split
      · exact ⟨_, rfl, Nat.le_trans hs.le hgap, Token.sound_at fun hsolid => by cases hsolid⟩
      · exact ⟨_, rfl, Nat.le_trans hs.le hle, hsound⟩
    · exact ⟨_, rfl, Nat.le_trans hs.le hle, hsound⟩
  obtain ⟨t, heq, hend⟩ := hend
  rw [heq]
  exact hend

instance : Moves elementWord := by
  refine .of_reads fun lo => .tokenHere fun s hs => ?_
  split
  · rename_i name hkind
    refine .reread (.nothing hs (Nat.le_refl _) (Nat.le_refl _)) ?_ rfl (Moves.reads _)
    exact hs.longer (Cursor.offset_le_advance _ ⟨s.token.stop, s.token.rest⟩) fun _ => by
      rw [hkind]
      rfl
  · exact Lays.unexpected.readsAt hs

instance : Moves tagName := by unfold tagName; infer_instance

/-! ### Elements -/

section

variable {g : Grammar} (hg : g.Scatters) (ctx : Context)
include hg

theorem reads_attributeValue : Reads (attributeValue g ctx) fun ts => ts := by
  intro lo
  unfold attributeValue
  refine .skip fun t => ?_
  split
  · exact .skip fun _ => .pure (.refl _)
  · exact .skip fun _ => .step (reads_fullSequence hg ctx) fun value => .skip fun _ => .pure (.refl _)
  · exact .step (hg.element ctx) fun value => .skip fun _ => .pure (.refl _)
  · exact .fail

theorem reads_elementAttribute : Reads (elementAttribute g ctx) fun ts => ts := by
  intro lo
  unfold elementAttribute
  refine .skip fun _ => .ite (fun _ => .skip fun _ => ?_) fun _ => .skip fun _ => .skip fun _ => ?_
  · exact .step (reads_fullExpression hg ctx) fun value => .skip fun _ => .pure (.refl _)
  · refine .maybe <| .skip fun _ => .ite (fun _ => .skip fun _ => ?_) fun _ => .pure (.refl _)
    exact reads_attributeValue hg ctx lo

theorem reads_child? : Reads (child? g ctx) fun o => o.getD [] := by
  intro lo
  unfold child?
  refine .skip fun t => ?_
  split
  · exact .skip fun _ => .pure (.refl _)
  · refine .skip fun _ => .skip fun _ => .ite (fun _ => .skip fun _ => .pure (.refl _)) fun _ => ?_
    refine .skip fun _ => .step (reads_fullSequence hg ctx) fun value => ?_
    exact .skip fun _ => .pure (.refl _)
  · exact .step (hg.element ctx) fun value => .skip fun _ => .pure (.refl _)
  · exact .pure (.refl _)

theorem reads_elementOf : Reads (elementOf g ctx) fun t => [t] := by
  intro lo
  unfold elementOf
  extract_lets inner
  refine .here fun start => ?_
  extract_lets rest
  have hrest : ∀ opening, Lays start.offset start.offset opening (rest opening) fun t => [t] := by
    intro opening
    refine .skip fun _ => .ite (fun _ => .skip fun _ => .maybe <| .span fun _ => ?_) fun _ => ?_
    · exact .tree rfl rfl (.refl _) (.inl rfl)
    refine .skip fun _ => .step (.lists (reads_child? hg inner)) fun children => .skip fun _ => ?_
    refine .skip fun _ => .maybe <| .skip fun _ => .maybe <| .span fun _ => ?_
    exact .tree rfl rfl (.refl _) (.inl rfl)
  refine .skip fun _ => .skip fun _ => .ite (fun _ => .known <| hrest []) fun _ => .skip fun _ => ?_
  refine .skip fun _ => .optional (reads_typeArgs hg inner) fun types => ?_
  refine .step (.lists fun lo => ?_) fun attributes => .known <| (hrest _).drop ?_
  · refine .skip fun _ => .ite (fun _ => .pure (.refl _)) fun _ => ?_
    exact .step (reads_elementAttribute hg _) fun parts => .pure (.refl _)
  · exact List.perm_append_comm.subperm

end

end Parse
end TypeScript
end FetchClients
