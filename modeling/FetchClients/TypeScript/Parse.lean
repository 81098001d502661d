/-
# Reading a source

The parts of the grammar are tied together with a bound on their nesting that
no source of its length exceeds, and a source is read item by item.

Key definitions: `Grammar.upTo`, `Module.parse`.
-/
import FetchClients.TypeScript.Parser.Statements

namespace FetchClients
namespace TypeScript

/-- The grammar of sources that nest at most so deep. -/
def Grammar.upTo : Nat → Grammar
  | 0 => .bottom
  | n + 1 => {
      expression := fun ctx s => Parse.expressionOf (Grammar.upTo n) ctx s
      unary := fun ctx s => Parse.unaryOf (Grammar.upTo n) ctx s
      member := fun ctx s => Parse.memberOf (Grammar.upTo n) ctx s
      call := fun ctx s => Parse.callOf (Grammar.upTo n) ctx s
      statement := fun ctx declarations s => Parse.statementOf (Grammar.upTo n) ctx declarations s
      type := fun ctx s => Parse.fullType (Grammar.upTo n) ctx s
      typeOperand := fun ctx s => Parse.typeOperandOf (Grammar.upTo n) ctx s
      pattern := fun ctx s => Parse.bindingPattern (Grammar.upTo n) ctx s
      decorators := fun ctx s => Parse.decoratorsOf (Grammar.upTo n) ctx s
      element := fun ctx s => Parse.elementOf (Grammar.upTo n) ctx s }

/-- The items of a source. -/
def Parse.moduleItems (g : Grammar) (ctx : Context) : Parse (List Tree) :=
  repeated do
    if ← test (· = .eof) then return none
    return some (← g.statement ctx true)

/-- Reads a source, which may hold elements if `jsx`. -/
def Module.parse (jsx : Bool) (source : String) : Except Failure Module :=
  let text := source.toList
  let grammar := Grammar.upTo (4 * text.length + 16)
  match Parse.moduleItems grammar { jsx := jsx } (State.start text) with
  | .done items s => .ok ⟨text, items, s.comments.reverse⟩
  | .failed failure _ => .error failure

end TypeScript
end FetchClients
