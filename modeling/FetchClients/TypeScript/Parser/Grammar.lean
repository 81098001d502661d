/-
# The grammar's recursive parts

Expressions, statements, types and patterns hold one another. Each module of
the grammar takes these parts as given; they are tied together at the end, with
a bound on how deep a source may nest.

Key definitions: `Shape`, `Operand`, `Grammar`, `Grammar.bottom`.
-/
import FetchClients.TypeScript.Parser.Basic

namespace FetchClients
namespace TypeScript

/-- What form an expression has, as far as what follows it depends on that. -/
inductive Shape where
  | name (text : String)
  | object (plain : Bool)
  | array
  | arrow
  /-- Signs and words in front of an operand. -/
  | unary
  | awaiting
  /-- Other operations that cannot be assigned to. -/
  | operation
  /-- A `new` without arguments. -/
  | bareNew
  /-- A chain that ends early on nothing. -/
  | optionalChain
  /-- Type arguments after an operand. -/
  | instantiation
  | other
deriving DecidableEq, Repr, Inhabited

/-- An expression with its form. -/
structure Operand where
  tree : Tree
  shape : Shape
deriving Inhabited

/-- The parts of the grammar that hold one another. -/
structure Grammar where
  /-- An expression without commas. -/
  expression : Context → Parse Operand
  /-- An operand with the signs in front of it. -/
  unary : Context → Parse Operand
  /-- What `new` makes, or an operand with its properties but no call. -/
  member : Context → Parse Operand
  /-- An operand with its properties and calls. -/
  call : Context → Parse Operand
  /-- A statement, and whether it may be a declaration. -/
  statement : Context → Bool → Parse Tree
  type : Context → Parse Tree
  /-- A type without `|`, `&` and conditions. -/
  typeOperand : Context → Parse Tree
  /-- A bound name or pattern. -/
  pattern : Context → Parse Tree
  decorators : Context → Parse (List Tree)
  element : Context → Parse Tree

/-- The grammar of no source: everything nests too deep. -/
def Grammar.bottom : Grammar where
  expression _ := .fail .tooDeep
  unary _ := .fail .tooDeep
  member _ := .fail .tooDeep
  call _ := .fail .tooDeep
  statement _ _ := .fail .tooDeep
  type _ := .fail .tooDeep
  typeOperand _ := .fail .tooDeep
  pattern _ := .fail .tooDeep
  decorators _ := .fail .tooDeep
  element _ := .fail .tooDeep

end TypeScript
end FetchClients
