/-
# Expressions

Operators are read without their precedence, since an outline only needs the
operands in order. A parenthesis may open an expression or the parameters of an
arrow function: its items are read as expressions that may carry types, and an
arrow after it decides.

Key definitions: `Parse.expressionOf`, `Parse.unaryOf`, `Parse.memberOf`,
`Parse.callOf`, `Parse.sequence`, `Parse.decoratorsOf`.
-/
import FetchClients.TypeScript.Parser.Classes

namespace FetchClients
namespace TypeScript
namespace Parse

/-- An operand of other form than the named ones. -/
def plainOperand (tree : Tree) : Operand := ⟨tree, .other⟩

/-- Expressions with `,` between them. -/
def sequence (g : Grammar) (ctx : Context) : Parse Operand := do
  let start ← here
  let first ← g.expression ctx
  let others ← repeated do
    if ← eatSign "," then return some (← g.expression ctx).tree else return none
  if others.isEmpty then return first
  return plainOperand (.node (← spanFrom start) (first.tree :: others))

/-- Expressions with `,` between them, in which `in` is an operator. -/
def fullSequence (g : Grammar) (ctx : Context) : Parse Tree := do
  return (← sequence g { ctx with noIn := false }).tree

/-- An expression that `...` may spread. -/
def spreadable (g : Grammar) (ctx : Context) : Parse Tree := do
  let _ ← eatSign "..."
  fullExpression g ctx

/-- The arguments of a call, in parentheses. -/
def arguments (g : Grammar) (ctx : Context) : Parse (List Tree) := do
  expectSign "("
  commaListUntil ")" (spreadable g { ctx with awaitsColon := false })

/-- An array. -/
def arrayLiteral (g : Grammar) (ctx : Context) : Parse Operand := do
  let start ← here
  bump
  let items ← repeated do
    if ← isSign "]" then return none
    if ← eatSign "," then return some []
    let item ← spreadable g ctx
    if !(← isSign "]") then expectSign ","
    return some [item]
  expectSign "]"
  return ⟨.node (← spanFrom start) items.flatten, .array⟩

/-- A method of an object, after its name. -/
def objectMethod (g : Grammar) (ctx : Context) (start : Mark) (key : List Tree)
    (async generator : Bool) : Parse (Tree × Bool) := do
  let f ← functionRest g ctx async generator
  return (.node (← spanFrom start) (key ++ f.parts), false)

/-- A getter or setter of an object, after its name. A getter keeps its return type and its body,
a setter its first two parameters and its body. -/
def objectAccessor (g : Grammar) (ctx : Context) (start : Mark) (key : List Tree)
    (getter : Bool) : Parse (Tree × Bool) := do
  let f ← functionWith g ctx false false (bareParams g)
  let kept := if getter then f.returns.toList else f.params.take 2
  return (.node (← spanFrom start) (key ++ kept ++ f.body.toList), false)

/-- Whether something that may follow the name of an object's property comes next. -/
def afterObjectName (key : PropertyName) : Parse Bool :=
  test fun kind => match kind with
    | .word _ | .string _ | .number | .bigint => true
    | .sign "\x7d" => key.name.isSome
    | .sign text => ["(", "[", ":", ",", "?", "=", "*", "<"].contains text
    | _ => false

/-- A property of an object, and whether a pattern may hold it. -/
def objectProperty (g : Grammar) (ctx : Context) : Parse (Tree × Bool) := do
  let start ← here
  if ← eatSign "..." then return (← fullExpression g ctx, true)
  if ← eatSign "*" then
    let key ← propertyName g ctx
    return ← objectMethod g ctx start key.parts false true
  eatParamModifier
  let key ← propertyName g ctx
  if !(← afterObjectName key) then return (.node (← spanFrom start) key.parts, true)
  if ← eatSign ":" then
    let value ← fullExpression g ctx
    return (.node (← spanFrom start) (key.parts ++ [value]), true)
  if ← atMethod then return ← objectMethod g ctx start key.parts false false
  let some name := key.name | unexpected "identifier"
  let _ ← eatSign "?"
  if ← isOneOf ["=", ",", "\x7d"] then
    let value ← initializer? g ctx
    return (.node (← spanFrom start) value.toList, true)
  if !(["get", "set", "async"].contains name) then
    unexpected
      "... , *,  (, [, :, , ?, =, an identifier, public, protected, private, readonly, <."
  let generator ← if name = "async" then eatSign "*" else pure false
  let inner ← propertyName g ctx
  if name = "async" then objectMethod g ctx start inner.parts true generator
  else objectAccessor g ctx start inner.parts (name = "get")

/-- An object. -/
def objectLiteral (g : Grammar) (ctx : Context) : Parse Operand := do
  let start ← here
  bump
  let items ← repeated do
    if ← isSign "\x7d" then return none
    let item ← objectProperty g ctx
    if !(← isSign "\x7d") then expectSign ","
    return some item
  expectSign "\x7d"
  return ⟨.node (← spanFrom start) (items.map (·.1)), .object (items.all (·.2))⟩

/-- The body of an arrow function. -/
def arrowBody (g : Grammar) (ctx : Context) (async : Bool) : Parse Tree := do
  if ← isSign "\x7b" then block g (bodyContext ctx async false)
  else return (← g.expression { ctx with async := async, generator := false }).tree

/-- An arrow function at its arrow. -/
def arrowRest (g : Grammar) (ctx : Context) (start : Mark) (async : Bool)
    (typeParams params : List Tree) (returns : Option Tree) : Parse Operand := do
  expectSign "=>"
  let body ← arrowBody g ctx async
  return ⟨.arrow (← spanFrom start) params body typeParams returns, .arrow⟩

/-- An item in parentheses: whether it is spread, whether it can only be a pattern, and its
expression. -/
structure ParenItem where
  operand : Operand
  spread : Bool
  isPattern : Bool

/-- Reads what assigns to an operand, if an assignment sign comes next. -/
def assignTo (g : Grammar) (ctx : Context) (start : Mark) (target : Operand) : Parse Operand := do
  reread (← token).readOperator
  let t ← token
  if !t.kind.isAssignment then return target
  if t.kind = .sign "=" && target.shape = .object false then failAt start.line .notPattern
  bump
  let value ← g.expression ctx
  return plainOperand (.node (← spanFrom start) [target.tree, value.tree])

/-- A conditional expression at its `?`. -/
def conditionalRest (g : Grammar) (ctx : Context) (start : Mark) (condition : Operand) :
    Parse Operand := do
  expectSign "?"
  let whenTrue ← g.expression { ctx with conditional := true, awaitsColon := true, noIn := false }
  expectSign ":"
  let whenFalse ← g.expression { ctx with conditional := true, awaitsColon := false }
  return ⟨.node (← spanFrom start) [condition.tree, whenTrue.tree, whenFalse.tree], .operation⟩

/-- The expression of an item in parentheses; a `?` after a name is left. -/
def parenOperand (g : Grammar) (ctx : Context) (binary : Context → Parse Operand) :
    Parse (Operand × Bool) := do
  let start ← here
  let inner := { ctx with arrowAt := some start.offset, awaitsColon := false }
  let named ← do
    if ← atIdentifier then pure true
    else if ← isSign "..." then peekIs TokenKind.isIdentifier
    else pure false
  if named then
    let spread ← eatSign "..."
    let operand ← binary inner
    if spread || operand.shape = .arrow then return (operand, spread)
    return (← assignTo g inner start operand, false)
  else
    let spread ← eatSign "..."
    return (← g.expression { inner with noIn := false }, spread)

/-- An item in parentheses. -/
def parenItem (g : Grammar) (ctx : Context) (binary : Context → Parse Operand) :
    Parse ParenItem := do
  eatParamModifier
  let start ← here
  let (operand, spread) ← parenOperand g ctx binary
  let question ← isSign "?"
  let optional ← do
    if question then
      peekIs fun kind => [",", "=", ")", ":"].any kind.isSign
    else pure false
  if optional then
    bump
    match operand.shape with
    | .name _ => pure ()
    | _ => failAt start.line .optionalPattern
  let operand ← do
    if question && !optional && !spread then
      conditionalRest g { ctx with awaitsColon := false } start operand
    else pure operand
  if optional || (← isSign ":") then
    if operand.shape = .object false then failAt start.line .notPattern
    let type ← typeAnnotation? g ctx
    let value ← initializer? g ctx
    return ⟨plainOperand (.node (← spanFrom start) (operand.tree :: type.toList ++ value.toList)),
      spread, true⟩
  return ⟨operand, spread, false⟩

/-- The type after a parenthesis, if an arrow follows it. -/
def arrowType? (g : Grammar) (ctx : Context) : Parse (Option Tree) := do
  if ctx.awaitsColon || !(← isSign ":") then return none
  attempt do
    let type ← returnType g ctx ":"
    if !(← isSign "=>") then unexpected "fail"
    return type

/-- In a conditional expression, an arrow function whose return type follows the parenthesis. -/
def conditionalArrow? (g : Grammar) (ctx : Context) (start : Mark) (async : Bool)
    (params : List Tree) : Parse (Option Operand) := do
  if !ctx.conditional || !(← isSign ":") then return none
  attempt do
    let type ← returnType g ctx ":"
    let arrow ← arrowRest g ctx start async [] params (some type)
    if ctx.awaitsColon && !(← isSign ":") then unexpected "fail"
    return arrow

/-- A parenthesis: an expression, the parameters of an arrow function, or after `async` perhaps
the arguments of a call. -/
def parenthesis (g : Grammar) (ctx : Context) (binary : Context → Parse Operand) (start : Mark)
    (async arrowAllowed : Bool) : Parse Operand := do
  bump
  let items ← repeated do
    if ← isSign ")" then return none
    let item ← parenItem g ctx binary
    if !(← isSign ")") then expectSign ","
    return some item
  expectSign ")"
  let trees := items.map (·.operand.tree)
  if let some arrow ← conditionalArrow? g ctx start async trees then return arrow
  let type ← arrowType? g ctx
  if items.any (·.isPattern) || type.isSome || (← isSign "=>") then
    if ← broken then failAt start.line .breakBeforeArrow
    if !arrowAllowed then failAt start.line .misplacedArrow
    if !(← isSign "=>") then expectSign "=>"
    if items.any (·.operand.shape = .object false) then failAt start.line .notPattern
    return ← arrowRest g ctx start async [] trees type
  if async then return plainOperand (.node (← spanFrom start) trees)
  if items.isEmpty then failAt start.line .emptyParens
  if items.any (·.spread) then failAt start.line .spreadInParens
  return plainOperand (.node (← spanFrom start) trees)

/-- An async arrow function with type parameters, after `async`. -/
def genericAsyncArrow (g : Grammar) (ctx : Context) (start : Mark) : Parse Operand := do
  let types ← typeParams g ctx
  expectSign "("
  let params ← bareParams g { ctx with async := true, noIn := false }
  expectSign ")"
  let type ← do if ← isSign ":" then pure (some (← returnType g ctx ":")) else pure none
  arrowRest g ctx start true types params type

/-- A name, or an arrow function whose only parameter it is. -/
def nameOrArrow (g : Grammar) (ctx : Context) (arrowAllowed : Bool) : Parse Operand := do
  let start ← here
  let (name, span) ← identifierName
  if arrowAllowed && name = "async" && !(← broken) && (← atIdentifier) then
    let next ← token
    bump
    if next.kind.isWord "as" && !(← isSign "=>") then
      let type ← g.type ctx
      return plainOperand (.node (← spanFrom start) [type])
    return ← arrowRest g ctx start true [] [] none
  if arrowAllowed && !(← broken) && (← isSign "=>") then
    return ← arrowRest g ctx start false [] [] none
  return ⟨.leaf span, .name name⟩

/-- The parts of a template with expressions in it. -/
def templateLiteral (g : Grammar) (ctx : Context) (closed : Bool) : Parse (List Tree) :=
  templateParts closed (fullSequence g { ctx with awaitsColon := false })

/-- An expression without operators, properties or calls. -/
def primary (g : Grammar) (ctx : Context) (binary : Context → Parse Operand) : Parse Operand := do
  let t ← token
  let start := t.start
  let arrowAllowed := ctx.arrowAt = some start.offset
  let literal : Parse Operand := do
    bump
    return plainOperand (.leaf ⟨t.start, t.stop⟩)
  match t.kind with
  | .bad fault => fail fault
  | .number | .bigint | .string _ | .word "this" | .word "null" | .word "true" | .word "false" =>
    literal
  | .template closed =>
    let parts ← templateLiteral g ctx closed
    return plainOperand (.node (← spanFrom start) parts)
  | .sign "/" | .sign "/=" =>
    let slash := if t.kind = .sign "/" then ['/'] else ['/', '=']
    reread (t.readRegex (slash ++ t.rest))
    let t ← token
    match t.kind with
    | .bad fault => fail fault
    | _ =>
      bump
      return plainOperand (.leaf ⟨t.start, t.stop⟩)
  | .sign "[" => arrayLiteral g ctx
  | .sign "\x7b" => objectLiteral g ctx
  | .sign "(" => parenthesis g ctx binary start false arrowAllowed
  | .sign "@" =>
    let decorators ← g.decorators ctx
    if !(← isWord "class") then expectWord "class"
    return plainOperand (← classAt g ctx start decorators false false)
  | .sign "#" =>
    bump
    let _ ← identifierName
    return plainOperand (.leaf (← spanFrom start))
  | .word "function" => return plainOperand (← maybeAsyncFunction g ctx true false)
  | .word "class" => return plainOperand (← classAt g ctx start [] false false)
  | .word "async" =>
    if ← atAsyncFunction then return plainOperand (← maybeAsyncFunction g ctx true false)
    if arrowAllowed then
      if ← peekIs (·.isSign "<") then
        if let some arrow ← attempt (do bump; genericAsyncArrow g ctx start) then return arrow
      if ← peekOnLine (·.isSign "(") then
        bump
        return ← parenthesis g ctx binary start true arrowAllowed
    nameOrArrow g ctx arrowAllowed
  | .word name =>
    if isReserved name then fail .expressionExpected else nameOrArrow g ctx arrowAllowed
  | _ => fail .expressionExpected

/-- What properties and calls are taken of. -/
inductive Base where
  | operand
  | super
  | importCall
deriving DecidableEq

/-- An operand that properties and calls are taken of. -/
structure Chain where
  operand : Operand
  base : Base

/-- A longer chain. -/
def longer (start : Mark) (chain : Chain) (parts : List Tree) (shape : Shape) : Parse Chain := do
  let shape := if chain.operand.shape = .optionalChain then .optionalChain else shape
  return ⟨⟨.node (← spanFrom start) (chain.operand.tree :: parts), shape⟩, .operand⟩

/-- A template after an operand, if one comes next. -/
def taggedTemplate? (g : Grammar) (ctx : Context) : Parse (Option (List Tree)) := do
  match (← token).kind with
  | .template closed => return some (← templateLiteral g ctx closed)
  | _ => return none

/-- Type arguments after an operand with the call or template that they belong to, and whether
the chain goes on. -/
def typedCall? (g : Grammar) (ctx : Context) (start : Mark) (noCall : Bool) (chain : Chain) :
    Parse (Option (Chain × Bool)) :=
  attempt? do
    if !noCall && chain.operand.shape = .name "async" then
      if let some arrow ← attempt (genericAsyncArrow g ctx start) then
        return some (⟨arrow, .operand⟩, true)
    let types ← typeArgs g ctx
    if !noCall && (← isSign "(") then
      let args ← arguments g ctx
      return some (← longer start chain (args ++ types) .other, true)
    if let some parts ← taggedTemplate? g ctx then
      return some (← longer start chain (types ++ parts) .other, true)
    if ← test fun kind => kind.isSign "=" || kind.isWord "as" || kind.isWord "satisfies" then
      return some (← longer start chain types .other, false)
    return none

/-- The name of a property, which may be private. -/
def memberName : Parse Unit := do
  if ← isSign "#" then
    let _ ← hiddenName
  else
    let _ ← identifierName

/-- One property, call or template more, and whether the chain goes on. -/
def chainLink (g : Grammar) (ctx : Context) (start : Mark) (noCall : Bool) (chain : Chain) :
    Parse (Chain × Bool) := do
  if !(← broken) && (← isSign "!") then
    if chain.base = .super then failAt start.line .superNonNull
    bump
    return (← longer start chain [] .other, true)
  if chain.base = .operand && (← isSign "<") then
    if let some result ← typedCall? g ctx start noCall chain then return result
  let optional ← eatSign "?."
  let shape : Shape := if optional then .optionalChain else .other
  let types ← do
    if optional && (← isSign "<") then typeArgs g ctx else pure []
  if ← eatSign "[" then
    let index ← fullSequence g ctx
    expectSign "]"
    return (← longer start chain [index] shape, true)
  if (optional || !noCall) && (← isSign "(") then
    let args ← arguments g ctx
    return (← longer start chain (args ++ types) shape, true)
  let dotted ← if optional then pure true else eatSign "."
  if dotted then
    memberName
    return (← longer start chain [] shape, true)
  match chain.base with
  | .super => fail .misplacedSuper
  | .importCall => fail .misplacedImport
  | .operand =>
    match ← taggedTemplate? g ctx with
    | some parts => return (← longer start chain parts .other, true)
    | none => return (chain, false)

/-- An operand with all properties and calls that follow it. -/
def chained (g : Grammar) (ctx : Context) (start : Mark) (noCall : Bool) (operand : Operand)
    (base : Base) : Parse Operand := do
  let chain ← iterate (chainLink g ctx start noCall) ⟨operand, base⟩
  return chain.operand

/-- `import(…)`, `import.meta` and what follows. -/
def importExpression (g : Grammar) (ctx : Context) (noCall : Bool) : Parse Operand := do
  let t ← token
  let operand := plainOperand (.leaf ⟨t.start, t.stop⟩)
  bump
  if ← eatSign "." then
    match (← identifierName).1 with
    | "meta" => chained g ctx t.start noCall operand .operand
    | "defer" | "source" => chained g ctx t.start noCall operand .importCall
    | _ => unexpected "meta"
  else chained g ctx t.start noCall operand .importCall

/-- Whether an expression may start here. -/
def startsExpression : Parse Bool :=
  test fun kind => match kind with
    | .word name =>
      !isReserved name || ["this", "super", "null", "true", "false", "function", "class", "new",
        "delete", "typeof", "void", "await", "yield", "import"].contains name
    | .number | .bigint | .string _ | .regex | .template _ => true
    | .sign text =>
      ["(", "[", "\x7b", "+", "-", "~", "!", "++", "--", "<", "#", "/", "/="].contains text
    | _ => false

/-- Type arguments of an operand that is no call, if they can be nothing else. -/
def instantiation? (g : Grammar) (ctx : Context) : Parse (Option (List Tree)) :=
  attempt? do
    let types ← typeArgs g ctx
    if ← test fun kind => kind.isTemplate || ["<", ">", "+", "-", "("].any kind.isSign then
      return none
    if (← broken) || (← test TokenKind.isOperator) || !(← startsExpression) then
      return some types
    return none

/-- A `new` after its keyword. -/
def newExpression (g : Grammar) (ctx : Context) (start : Mark) : Parse Operand := do
  if ← eatSign "." then
    if !(← eatWord "target") then unexpected "target"
    return ← chained g ctx start true (plainOperand (.leaf (← spanFrom start))) .operand
  let callee ← g.member { ctx with arrowAt := none }
  if callee.shape = .optionalChain then failAt start.line .optionalNew
  let types ← do
    if ← isSign "<" then
      attempt do
        let types ← typeArgs g ctx
        if !(← isSign "(") then expectSign "("
        return types
    else pure none
  let types := types.getD []
  if ← isSign "(" then
    let args ← arguments g ctx
    let tree := .node (← spanFrom start) (callee.tree :: args ++ types)
    chained g ctx start true (plainOperand tree) .operand
  else return ⟨.node (← spanFrom start) (callee.tree :: types), .bareNew⟩

/-- What `new` makes, or an operand with its properties but no call. -/
def memberWith (g : Grammar) (ctx : Context) (binary : Context → Parse Operand) :
    Parse Operand := do
  let t ← token
  let start := t.start
  match t.kind with
  | .word "new" =>
    bump
    newExpression g ctx start
  | .word "super" =>
    bump
    chained g ctx start true (plainOperand (.leaf ⟨t.start, t.stop⟩)) .super
  | .word "import" => importExpression g ctx true
  | _ =>
    let operand ← primary g ctx binary
    if operand.shape = .arrow then return operand
    let types ← do if ← isSign "<" then instantiation? g ctx else pure none
    let operand ← match types with
      | some types => do
        pure ⟨.node (← spanFrom start) (operand.tree :: types), .instantiation⟩
      | none => pure operand
    chained g ctx start true operand .operand

/-- Type arguments in front of the arguments of a call. -/
def callTypes? (g : Grammar) (ctx : Context) : Parse (Option (List Tree)) := do
  if !(← isSign "<") then return none
  attempt? do
    let types ← typeArgs g ctx
    return if ← isSign "(" then some types else none

/-- An operand with its properties and calls. -/
def callWith (g : Grammar) (ctx : Context) (binary : Context → Parse Operand) : Parse Operand := do
  let t ← token
  let start := t.start
  match t.kind with
  | .sign "<" =>
    if !ctx.jsx then fail .expressionExpected
    let element ← g.element ctx
    expectSign ">"
    return plainOperand element
  | .word "super" =>
    bump
    chained g ctx start false (plainOperand (.leaf ⟨t.start, t.stop⟩)) .super
  | .word "import" => importExpression g ctx false
  | _ =>
    let callee ← memberWith g ctx binary
    if callee.shape = .arrow || callee.shape = .bareNew then return callee
    let types ← callTypes? g ctx
    if ← isSign "(" then
      let args ← arguments g ctx
      let shape : Shape := if callee.shape = .optionalChain then .optionalChain else .other
      let tree := .node (← spanFrom start) (callee.tree :: args ++ types.getD [])
      chained g ctx start false ⟨tree, shape⟩ .operand
    else return callee

/-- An `await` with its operand. Outside of async functions it may be a name. -/
def awaitExpression (g : Grammar) (ctx : Context) : Parse Operand := do
  let t ← token
  bump
  if ← isSign "*" then fail .awaitStar
  if !ctx.async && (← isOneOf [")", "]", ";", ","]) then
    return ⟨.leaf ⟨t.start, t.stop⟩, .name "await"⟩
  let operand ← g.unary ctx
  return ⟨.node (← spanFrom t.start) [operand.tree], .awaiting⟩

/-- A type assertion `<T>x`. -/
def typeAssertion (g : Grammar) (ctx : Context) : Parse Operand := do
  let start ← here
  bump
  let type ← do
    if ← eatWord "const" then pure [] else pure [← g.type ctx]
  expectSign ">"
  let operand ← g.unary ctx
  return plainOperand (.node (← spanFrom start) (operand.tree :: type))

/-- An operand with the signs in front of it and after it. The operand of a sign may be missing. -/
def unaryWith (g : Grammar) (ctx : Context) (binary : Context → Parse Operand) :
    Parse Operand := do
  let t ← token
  let start := t.start
  if t.kind = .sign "<" && !ctx.jsx then return ← typeAssertion g ctx
  if ← isOneOf ["++", "--"] then
    bump
    let operand ← g.unary ctx
    return ⟨.node (← spanFrom start) [operand.tree], .operation⟩
  let signed ← test fun kind =>
    ["+", "-", "~", "!"].any kind.isSign || ["delete", "typeof", "void"].any kind.isWord
  if signed then
    bump
    let operand ← orElseThere (g.unary ctx) fun _ => return plainOperand Tree.nothing
    return ⟨.node (← spanFrom start) [operand.tree], .unary⟩
  if ← isWord "await" then return ← awaitExpression g ctx
  let operand ← callWith g ctx binary
  if operand.shape = .arrow || (← broken) then return operand
  if ← isOneOf ["++", "--"] then
    bump
    return ⟨.node (← spanFrom start) [operand.tree], .operation⟩
  return operand

/-- Whether an operator comes next; a longer sign is read where one stands. -/
def atOperator (ctx : Context) : Parse Bool := do
  reread (← token).readOperator
  test fun kind =>
    kind.isOperator || kind.isWord "instanceof" || (!ctx.noIn && kind.isWord "in")

/-- One operator with its right operand more, or one type that an operand is taken to have. -/
def binaryLink (g : Grammar) (ctx : Context) (start : Mark)
    (unary : Context → Parse Operand) (left : Operand × Shape) :
    Parse ((Operand × Shape) × Bool) := do
  let (whole, lastShape) := left
  if !(← broken) && (← test fun kind => kind.isWord "as" || kind.isWord "satisfies") then
    let asConst ← do
      if ← isWord "as" then peekIs (·.isWord "const") else pure false
    bump
    let type ← do
      if asConst then
        bump
        pure []
      else pure [← g.type ctx]
    let tree := .node (← spanFrom start) (whole.tree :: type)
    return ((plainOperand tree, .other), true)
  if !(← atOperator ctx) then return (left, false)
  let power ← isSign "**"
  bump
  if power && (lastShape = .unary || lastShape = .awaiting) then fail .powerOfUnary
  let right ← unary ctx
  let tree := .node (← spanFrom start) [whole.tree, right.tree]
  return ((⟨tree, .operation⟩, right.shape), true)

/-- Operands with operators between them. The first operand may be missing. -/
def binaryWith (g : Grammar) (ctx : Context) (unary : Context → Parse Operand) :
    Parse Operand := do
  let start ← here
  let first ← orElseThere (unary ctx) fun failure => do
    if ← atOperator ctx then return plainOperand Tree.nothing
    failAt failure.line failure.fault
  if first.shape = .arrow then return first
  let result ← iterate (binaryLink g ctx start unary) (first, first.shape)
  return result.1

/-- Operands and operators without knowing how deep parentheses nest: the inner ones are left to
the grammar. -/
def binaryOf (g : Grammar) : Context → Parse Operand := fun ctx =>
  binaryWith g ctx g.unary

/-- What `new` makes, or an operand with its properties but no call. -/
def memberOf (g : Grammar) (ctx : Context) : Parse Operand := memberWith g ctx (binaryOf g)

/-- An operand with its properties and calls. -/
def callOf (g : Grammar) (ctx : Context) : Parse Operand := callWith g ctx (binaryOf g)

/-- An operand with the signs in front of it and after it. -/
def unaryOf (g : Grammar) (ctx : Context) : Parse Operand := unaryWith g ctx (binaryOf g)

/-- An expression without commas and assignments. -/
def conditionalExpression (g : Grammar) (ctx : Context) : Parse Operand := do
  let start ← here
  let condition ← binaryWith g ctx (unaryOf g)
  if condition.shape = .arrow || !(← isSign "?") then return condition
  conditionalRest g ctx start condition

/-- An expression without commas that has no type parameters in front. -/
def assignmentExpression (g : Grammar) (outer : Context) : Parse Operand := do
  let start ← here
  let opens ← test fun kind => kind.isAnyWord || kind.isSign "("
  let ctx := { outer with arrowAt := if opens then some start.offset else none }
  let operand ← conditionalExpression g ctx
  match operand.shape with
  | .arrow | .operation | .unary => return operand
  | _ => assignTo g ctx start operand

/-- A `yield` with its operand, if it has one. -/
def yieldExpression (g : Grammar) (ctx : Context) : Parse Operand := do
  let start ← here
  bump
  if (← atStatementEnd) || !((← isSign "*") || (← startsExpression)) then
    return plainOperand (.leaf (← spanFrom start))
  let _ ← eatSign "*"
  let operand ← g.expression ctx
  return plainOperand (.node (← spanFrom start) [operand.tree])

/-- Whether an angle bracket opens type parameters where it could open an element. -/
def atArrowTypeParams (ctx : Context) : Parse Bool := do
  if !(← isSign "<") then return false
  if !(← peekIs TokenKind.isAnyWord) then return false
  if !ctx.jsx then return true
  lookAhead do
    bump
    let _ ← eatWord "const"
    bump
    if ← eatWord "extends" then
      test fun kind => !(["=", ">", "/"].any kind.isSign)
    else isOneOf [",", "="]

/-- An arrow function with type parameters, which take the place of its own. -/
def genericArrow (g : Grammar) (ctx : Context) : Parse Operand := do
  let start ← here
  let types ← typeParams g ctx
  match (← assignmentExpression g ctx).tree with
  | .arrow _ params body _ returns =>
    return ⟨.arrow (← spanFrom start) params body types returns, .arrow⟩
  | _ => unexpected "("

/-- An expression without commas. -/
def expressionOf (g : Grammar) (ctx : Context) : Parse Operand := do
  if ← atArrowTypeParams ctx then
    if let some arrow ← attempt (genericArrow g { ctx with awaitsColon := false }) then
      return arrow
  if ctx.generator && (← isWord "yield") then return ← yieldExpression g ctx
  assignmentExpression g ctx

/-- A decorator. -/
def decorator (g : Grammar) (ctx : Context) : Parse Tree := do
  bump
  if ← eatSign "(" then
    let inner ← fullSequence g ctx
    expectSign ")"
    return inner
  let start ← here
  let _ ← identifier ctx
  let _ ← repeated do
    if ← eatSign "." then
      memberName
      return some ()
    else return none
  let types ← do if ← isSign "<" then typeArgs g ctx else pure []
  let args ← do if ← isSign "(" then arguments g ctx else pure []
  return .node (← spanFrom start) (args ++ types)

/-- Decorators, if there are any. -/
def decoratorsOf (g : Grammar) (ctx : Context) : Parse (List Tree) :=
  repeated do
    if ← isSign "@" then return some (← decorator g ctx) else return none

end Parse
end TypeScript
end FetchClients
