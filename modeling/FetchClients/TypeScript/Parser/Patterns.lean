/-
# Names, patterns and parameters

Key definitions: `Parse.identifierName`, `Parse.bindingIdentifier`,
`Parse.propertyName`, `Parse.bindingPattern`, `Parse.formalParams`,
`Parse.bareParams`.
-/
import FetchClients.TypeScript.Parser.Grammar

namespace FetchClients
namespace TypeScript
namespace Parse

/-- Any word, also a reserved one. -/
def identifierName : Parse (String × Span) := do
  let t ← token
  match t.kind with
  | .word name =>
    bump
    return (name, ⟨t.start, t.stop⟩)
  | _ => fail .identifierExpected

/-- A word that may name something here. -/
def identifierWith (ctx : Context) (yieldAllowed : Bool) : Parse (String × Span) := do
  let t ← token
  match t.kind with
  | .word "await" => if ctx.ambient then identifierName else fail .awaitAsName
  | .word "this" => identifierName
  | .word "yield" => if yieldAllowed then identifierName else fail .identifierExpected
  | .word name => if reservedWords.contains name then fail .identifierExpected else identifierName
  | _ => fail .identifierExpected

/-- A name that refers to something. -/
def identifier (ctx : Context) : Parse (String × Span) :=
  identifierWith ctx false

/-- A name that is bound; where `let` declares, it cannot be `let`. -/
def bindingIdentifier (ctx : Context) (noLet : Bool) : Parse (String × Span) := do
  if noLet && (← isWord "let") then unexpected "let is reserved in const, let, class declaration"
  else identifierWith ctx true

/-- A name that is bound, if there is one. -/
def bindingIdentifier? (ctx : Context) (noLet : Bool) : Parse (Option (String × Span)) := do
  if ← test fun kind => kind.isWord "this" || kind.isIdentifier then
    return some (← bindingIdentifier ctx noLet)
  else return none

/-- Whether the next token may be an identifier. -/
def atIdentifier : Parse Bool := test TokenKind.isIdentifier

/-- Whether a modifier may stand before the next token. -/
def modifierMayEnd : Parse Bool := do
  if ← broken then return false
  test fun kind => match kind with
    | .word _ | .string _ | .number | .bigint => true
    | .sign text => ["[", "\x7b", "*", "...", "#"].contains text
    | _ => false

/-- One of some modifiers, if what follows it shows that it is no name. -/
def modifier? (allowed : List String) (beforeBlock : Bool) : Parse (Option String) := do
  let t ← token
  match t.kind with
  | .word name =>
    if !allowed.contains name then return none
    if !beforeBlock && name = "static" && (← peekIs (·.isSign "\x7b")) then return none
    attempt? do
      bump
      return if ← modifierMayEnd then some name else none
  | _ => return none

/-- Takes a modifier of a parameter. -/
def eatParamModifier : Parse Unit := do
  let here ← test fun kind => ["private", "protected", "public", "readonly"].any kind.isWord
  if here && (← peekIs fun kind => kind.isAnyWord || kind.isSign "\x7b" || kind.isSign "[") then
    let _ ← modifier? ["public", "protected", "private", "readonly"] true
    return ()
  else return ()

/-- A `:` with a type, if there is one. -/
def typeAnnotation? (g : Grammar) (ctx : Context) : Parse (Option Tree) := do
  if ← eatSign ":" then return some (← g.type ctx) else return none

/-- An expression in which `in` is an operator. -/
def fullExpression (g : Grammar) (ctx : Context) : Parse Tree := do
  return (← g.expression { ctx with noIn := false }).tree

/-- The name of a property, with its text if it is a plain name. -/
structure PropertyName where
  span : Span
  parts : List Tree
  name : Option String
  /-- The text of a plain or quoted name. -/
  text : Option String

/-- A `[…]` name. -/
def computedName (g : Grammar) (ctx : Context) : Parse (List Tree) := do
  bump
  let first ← fullExpression g ctx
  let others ← repeated do
    if ← eatSign "," then return some (← fullExpression g ctx) else return none
  expectSign "]"
  return first :: others

/-- The name of a property of an object or a class. -/
def propertyName (g : Grammar) (ctx : Context) : Parse PropertyName := do
  let t ← token
  let span : Span := ⟨t.start, t.stop⟩
  match t.kind with
  | .word name =>
    bump
    return ⟨span, [], some name, some name⟩
  | .string raw =>
    bump
    return ⟨span, [], none, some raw⟩
  | .number | .bigint =>
    bump
    return ⟨span, [], none, none⟩
  | .sign "[" =>
    let parts ← computedName g ctx
    return ⟨← spanFrom t.start, parts, none, none⟩
  | _ => unexpected "identifier, string literal, numeric literal or [ for the computed key"

/-- A `=` with a value, if there is one. -/
def initializer? (g : Grammar) (ctx : Context) : Parse (Option Tree) := do
  if ← eatSign "=" then return some (← fullExpression g ctx) else return none

/-- A pattern with the value that stands in for a missing one. -/
def withInitializer (g : Grammar) (ctx : Context) (start : Mark) (target : Tree) : Parse Tree := do
  match ← initializer? g ctx with
  | some value => return .initialized (← spanFrom start) target value
  | none => return target

/-- An element of a pattern. -/
def bindingElement (g : Grammar) (ctx : Context) : Parse Tree := do
  let start ← here
  let target ← g.pattern ctx
  withInitializer g ctx start target

/-- A `?` that marks a whole pattern as optional below `declare`. -/
def eatAmbientOptional (ctx : Context) : Parse Unit := do
  if ctx.ambient then
    let _ ← eatSign "?"
    return ()
  else return ()

/-- A pattern `[…]`. -/
def arrayPattern (g : Grammar) (ctx : Context) : Parse Tree := do
  let start ← here
  bump
  let parts ← repeated do
    if ← isSign "]" then return none
    if ← eatSign "," then return some []
    let begin ← here
    let element ← do
      if ← eatSign "..." then
        let argument ← g.pattern ctx
        pure (Tree.rest (← spanFrom begin) argument none)
      else bindingElement g ctx
    if !(← isSign "]") then expectSign ","
    return some [element]
  expectSign "]"
  eatAmbientOptional ctx
  return .pattern (← spanFrom start) parts.flatten none

/-- A property of a pattern `{…}`. -/
def patternProperty (g : Grammar) (ctx : Context) : Parse Tree := do
  let start ← here
  if ← eatSign "..." then
    let argument ← g.pattern ctx
    return .rest (← spanFrom start) argument none
  let key ← propertyName g ctx
  if ← eatSign ":" then
    let value ← bindingElement g ctx
    return .node (← spanFrom start) (key.parts ++ [value])
  if key.name.isNone then unexpected "an identifier"
  let value ← initializer? g ctx
  return .node (← spanFrom start) value.toList

/-- The items before a closing sign, with `,` between them. -/
def commaListUntil (close : String) (item : Parse Tree) : Parse (List Tree) := do
  let items ← repeated do
    if ← isSign close then return none
    let value ← item
    if !(← isSign close) then expectSign ","
    return some value
  expectSign close
  return items

/-- A pattern `{…}`. -/
def objectPattern (g : Grammar) (ctx : Context) : Parse Tree := do
  let start ← here
  bump
  let parts ← commaListUntil "\x7d" (patternProperty g ctx)
  eatAmbientOptional ctx
  return .pattern (← spanFrom start) parts none

/-- A name or a pattern that is bound; where `let` declares, it cannot be `let`. -/
def bindingTarget (g : Grammar) (ctx : Context) (noLet : Bool) : Parse Tree := do
  let t ← token
  match t.kind with
  | .word _ =>
    let (name, span) ← bindingIdentifier ctx noLet
    return .binding span name none
  | .sign "[" => arrayPattern g ctx
  | .sign "\x7b" => objectPattern g ctx
  | .bad fault => fail fault
  | _ => unexpected "yield, an identifier, [ or \x7b"

/-- A name or a pattern that is bound. -/
def bindingPattern (g : Grammar) (ctx : Context) : Parse Tree :=
  bindingTarget g ctx false

/-- A pattern with its type; the span of a pattern takes its type in, that of a name does not. -/
def annotate (target : Tree) (stop : Mark) (type : Option Tree) : Tree :=
  match target, type with
  | .binding span name none, _ => .binding span name type
  | .pattern span parts none, some _ => .pattern ⟨span.start, stop⟩ parts type
  | .rest span argument none, some _ => .rest ⟨span.start, stop⟩ argument type
  | _, _ => target

/-- A pattern with the type that follows it. -/
def annotated (g : Grammar) (ctx : Context) (target : Tree) : Parse Tree := do
  let type ← typeAnnotation? g ctx
  return annotate target (← lastEnd) type

/-- A parameter that is no rest parameter. -/
def formalParam (g : Grammar) (ctx : Context) : Parse Tree := do
  let start ← here
  eatParamModifier
  let target ← bindingElement g ctx
  if ← eatSign "?" then
    match target with
    | .binding .. | .pattern .. => pure ()
    | _ => if ctx.ambient then pure () else failAt start.line .optionalPattern
  let target ← annotated g ctx target
  withInitializer g ctx start target

/-- A rest parameter after its dots. -/
def restParam (g : Grammar) (ctx : Context) (start : Mark) : Parse Tree := do
  let begin ← here
  let argument ← g.pattern ctx
  let argument ← withInitializer g ctx begin argument
  let type ← typeAnnotation? g ctx
  let span ← spanFrom start
  let _ ← eatSign "?"
  return .rest span argument type

/-- A parameter with its decorators, if there is a place for these. -/
def decorated (start : Mark) (decorators : List Tree) (target : Tree) (kept : Bool) :
    Parse Tree := do
  if decorators.isEmpty || !kept then return target
  return .parameter (← spanFrom start) decorators target

/-- The parameters up to the closing parenthesis, which is not taken; their decorators may be
kept. -/
def paramsWith (g : Grammar) (ctx : Context) (one : Parse Tree) (kept : Bool) :
    Parse (List Tree) :=
  repeated do
    if ← isSign ")" then return none
    let start ← here
    let decorators ← g.decorators ctx
    let begin ← here
    let target ← do if ← eatSign "..." then restParam g ctx begin else one
    let param ← decorated start decorators target kept
    if !(← isSign ")") then expectSign ","
    return some param

/-- The parameters of a function up to the closing parenthesis. -/
def formalParams (g : Grammar) (ctx : Context) : Parse (List Tree) :=
  paramsWith g ctx (formalParam g ctx) true

/-- The parameters up to the closing parenthesis, where these are patterns without decorators. -/
def bareParams (g : Grammar) (ctx : Context) : Parse (List Tree) :=
  paramsWith g ctx (formalParam g ctx) false

/-- A parameter of a constructor, which may declare a property. -/
def constructorParam (g : Grammar) (ctx : Context) : Parse Tree := do
  let access ← modifier? ["public", "protected", "private", "in", "out"] true
  let overriding ← modifier? ["override"] true
  let fixed ← modifier? ["readonly"] true
  let start ← here
  let target ← formalParam g ctx
  if access.isNone && overriding.isNone && fixed.isNone then return target
  match target with
  | .binding .. | .initialized .. => return target
  | _ => failAt start.line .badParameterProperty

/-- The parameters of a constructor up to the closing parenthesis. -/
def constructorParams (g : Grammar) (ctx : Context) : Parse (List Tree) :=
  paramsWith g ctx (constructorParam g ctx) true

end Parse
end TypeScript
end FetchClients
