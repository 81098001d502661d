/-
# Blocks and functions

Key definitions: `Parse.block`, `Parse.functionRest`, `Parse.functionAt`.
-/
import FetchClients.TypeScript.Parser.Types

namespace FetchClients
namespace TypeScript
namespace Parse

/-- Statements up to a closing brace, which is taken; the end of the source closes all blocks. -/
def statementsInBraces (g : Grammar) (ctx : Context) : Parse (List Tree) := do
  expectSign "\x7b"
  let items ← repeated do
    if ← test fun kind => kind = .eof || kind.isSign "\x7d" then return none
    return some (← g.statement ctx true)
  let _ ← eatSign "\x7d"
  return items

/-- A block of statements. -/
def block (g : Grammar) (ctx : Context) : Parse Tree := do
  let start ← here
  let items ← statementsInBraces g { ctx with exports := false }
  return .node (← spanFrom start) items

/-- What a function's body allows. -/
def bodyContext (ctx : Context) (async generator : Bool) : Context :=
  { ctx with
    async := async, generator := generator, noIn := false, conditional := false,
    awaitsColon := false, exports := false }

/-- The body of a function; a declaration may do without. -/
def functionBody? (g : Grammar) (ctx : Context) : Parse (Option Tree) := do
  if ← isSign "\x7b" then return some (← block g ctx)
  if ← eatStatementEnd then return none
  return some (← block g ctx)

/-- A function after its name. -/
structure FunctionRest where
  params : List Tree
  body : Option Tree
  typeParams : List Tree
  returns : Option Tree

namespace FunctionRest

/-- What is searched between the parameters and the return type. -/
def afterParams (f : FunctionRest) : List Tree := f.body.toList ++ f.typeParams

/-- All that is searched in a function. -/
def parts (f : FunctionRest) : List Tree := f.params ++ f.afterParams ++ f.returns.toList

end FunctionRest

/-- The parameters, the return type and the body of a function whose parameters are read so. -/
def functionWith (g : Grammar) (ctx : Context) (async generator : Bool)
    (parameters : Context → Parse (List Tree)) : Parse FunctionRest := do
  let inner := bodyContext ctx async generator
  let typeParams ← typeParams? g ctx
  expectSign "("
  let params ← parameters inner
  expectSign ")"
  let returns ← do
    if ← isSign ":" then pure (some (← returnType g ctx ":")) else pure none
  let body ← functionBody? g inner
  return ⟨params, body, typeParams, returns⟩

/-- The parameters, the return type and the body of a function. -/
def functionRest (g : Grammar) (ctx : Context) (async generator : Bool) : Parse FunctionRest :=
  functionWith g ctx async generator (formalParams g)

/-- A function at its keyword. An expression needs a body, and a declaration a name. -/
def functionAt (g : Grammar) (ctx : Context) (start : Mark) (async isExpression needsName : Bool) :
    Parse Tree := do
  bump
  let generator ← eatSign "*"
  if needsName then
    let _ ← bindingIdentifier ctx false
  else
    let _ ← bindingIdentifier? ctx false
  let f ← functionRest g ctx async generator
  if isExpression && f.body.isNone then unexpected "\x7b"
  return .node (← spanFrom start) f.parts

/-- Whether an async function comes next. -/
def atAsyncFunction : Parse Bool := do
  if ← isWord "async" then peekOnLine (·.isWord "function") else return false

/-- A function at its keyword, or at `async` in front of it. -/
def maybeAsyncFunction (g : Grammar) (ctx : Context) (isExpression needsName : Bool) :
    Parse Tree := do
  let start ← here
  let async ← eatWord "async"
  functionAt g ctx start async isExpression needsName

end Parse
end TypeScript
end FetchClients
