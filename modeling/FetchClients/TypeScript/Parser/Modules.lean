/-
# Imports and exports

Key definitions: `Parse.importDeclaration`, `Parse.exportDeclaration`.
-/
import FetchClients.TypeScript.Parser.Declarations

namespace FetchClients
namespace TypeScript
namespace Parse

/-- A string that names a module. -/
def moduleString : Parse Unit := do
  if !(← test TokenKind.isString) then unexpected "a string literal"
  bump

/-- The attributes after a module's name. -/
def importAttributes (g : Grammar) (ctx : Context) : Parse (List Tree) := do
  if ← broken then return []
  if (← isWord "assert") || (← isWord "with") then
    bump
    if !(← isSign "\x7b") then expectSign "\x7b"
    return [(← objectLiteral g ctx).tree]
  return []

/-- `from` with a module, its attributes, and perhaps a `;`. -/
def fromClause (g : Grammar) (ctx : Context) : Parse (List Tree) := do
  expectWord "from"
  moduleString
  let attributes ← importAttributes g ctx
  let _ ← eatStatementEnd
  return attributes

/-- A name that is imported or exported, and whether it is a plain one. -/
def moduleName : Parse (String × Bool) := do
  match (← token).kind with
  | .string raw =>
    bump
    return (raw, false)
  | .word _ => return ((← identifierName).1, true)
  | _ => unexpected "identifier or string"

/-- What follows a leading `type` in a list of names: whether it is all of the item. -/
def typedName (bound : Parse Unit) : Parse (Option (String × Bool)) := do
  let (name, _) ← identifierName
  if name ≠ "as" then return some (name, false)
  if !(← test TokenKind.isAnyWord) then return some (name, true)
  let again ← isWord "as"
  bound
  if again && (← test TokenKind.isAnyWord) then bound
  return some (name, true)

/-- A name in the list of an import. -/
def importItem (ctx : Context) : Parse Tree := do
  let start ← here
  let bound : Parse Unit := do
    let _ ← bindingIdentifier ctx false
  let (name, plain) ← moduleName
  let typed ← do
    if name = "type" && plain && (← test TokenKind.isAnyWord) then typedName bound else pure none
  let (name, done) := typed.getD (name, false)
  if done then return .leaf (← spanFrom start)
  if ← eatWord "as" then
    bound
    return .leaf (← spanFrom start)
  if !plain then failAt start.line (.stringImport name)
  if isReserved name then failAt start.line .reservedImport
  return .leaf (← spanFrom start)

/-- A name in the list of an export. -/
def exportItem : Parse Tree := do
  let start ← here
  let bound : Parse Unit := do
    let _ ← identifierName
  let (name, plain) ← moduleName
  let typed ← do
    if name = "type" && plain && (← test TokenKind.isAnyWord) then typedName bound else pure none
  let (_, done) := typed.getD (name, false)
  let renamed ← if done then pure false else eatWord "as"
  if renamed then
    let _ ← moduleName
  return .leaf (← spanFrom start)

/-- What `import x =` and `export import x =` stand for. -/
def importEquals (ctx : Context) : Parse Unit := do
  expectSign "="
  if (← isWord "require") && (← peekIs (·.isSign "(")) then
    bump
    expectSign "("
    moduleString
    expectSign ")"
  else
    let _ ← entityName ctx false
  expectStatementEnd

/-- The default name of an import: whether names follow it, or nothing if it stands alone. -/
inductive ImportHead where
  /-- Names in braces or a `*` come next. -/
  | names
  /-- The import is a whole `x = …`. -/
  | equals

/-- What stands between `import` and the names in braces. -/
def importHead (ctx : Context) : Parse ImportHead := do
  if !(← atIdentifier) then return .names
  let (name, _) ← bindingIdentifier ctx false
  let mut bound := name
  if bound = "type" then
    if ← isOneOf ["\x7b", "*"] then return .names
    if ← atIdentifier then
      if !(← isWord "from") || (← peekIs (·.isWord "from")) then
        bound := (← bindingIdentifier ctx false).1
      else if ← peekIs (·.isSign "=") then
        bound := (← identifierName).1
  if ← isSign "=" then
    importEquals ctx
    return .equals
  if bound = "defer" && (← isSign "*") then return .names
  if bound = "defer" || bound = "source" then
    if (← atIdentifier) && (!(← isWord "from") || (← peekIs (·.isWord "from"))) then
      let _ ← bindingIdentifier ctx false
  if !(← isWord "from") then expectSign ","
  return .names

/-- An import at its keyword. -/
def importDeclaration (g : Grammar) (ctx : Context) (start : Mark) : Parse Tree := do
  bump
  if ← test TokenKind.isString then
    bump
    let attributes ← importAttributes g ctx
    let _ ← eatStatementEnd
    return .node (← spanFrom start) attributes
  match ← importHead ctx with
  | .equals => return .leaf (← spanFrom start)
  | .names =>
    if ← eatSign "*" then
      expectWord "as"
      let _ ← bindingIdentifier ctx false
    else if ← eatSign "\x7b" then
      let _ ← commaListUntil "\x7d" (importItem ctx)
    expectWord "from"
    moduleString
    let attributes ← importAttributes g ctx
    expectStatementEnd
    return .node (← spanFrom start) attributes

/-- Decorators between `export` and a class; there must be none in front of `export` then. -/
def laterDecorators (g : Grammar) (ctx : Context) (decorators : List Tree) : Parse (List Tree) := do
  if !(← isSign "@") then return decorators
  let start ← here
  let later ← g.decorators ctx
  if !decorators.isEmpty then failAt start.line .decoratorsTwice
  return later

/-- What `export default` exports. -/
def exportDefault (g : Grammar) (ctx : Context) (start : Mark) (before : List Tree) :
    Parse Tree := do
  let decorators ← laterDecorators g ctx before
  let begin ← here
  if ← isWord "abstract" then
    if ← peekOnLine (·.isWord "class") then
      bump
      let declared ← classAt g ctx begin decorators false true
      return .exported (← spanFrom start) declared
    if ← peekIs (·.isWord "interface") then bump
  if ← isWord "interface" then
    let begin ← here
    bump
    let declared ← interfaceAfter g ctx begin
    return .exported (← spanFrom start) declared
  if ← isWord "class" then
    let declared ← classAt g ctx begin decorators false true
    return .exported (← spanFrom start) declared
  if (← isWord "function") || (← atAsyncFunction) then
    let declared ← maybeAsyncFunction g ctx false false
    return .exported (← spanFrom start) declared
  let value ← fullExpression g ctx
  expectStatementEnd
  return .node (← spanFrom start) [value]

/-- The names of an export in braces, or `*`, with the attributes of the module they come from. -/
def exportNames (g : Grammar) (ctx : Context) : Parse (List Tree) := do
  if ← isSign "*" then
    if ← peekIs (·.isWord "as") then
      bump
      expectWord "as"
      let _ ← moduleName
    else bump
    fromClause g ctx
  else
    expectSign "\x7b"
    let _ ← commaListUntil "\x7d" exportItem
    if ← isWord "from" then fromClause g ctx
    else
      let _ ← eatStatementEnd
      return []

/-- A declaration after `export`, if one comes next that needs no attempt. -/
def exportedDeclaration? (g : Grammar) (ctx : Context) (start : Mark) (decorators : List Tree) :
    Parse (Option Tree) := do
  let begin ← here
  if ← isWord "class" then return some (← classAt g ctx begin decorators true true)
  if (← isWord "function") || (← atAsyncFunction) then
    return some (← maybeAsyncFunction g ctx false true)
  if ← isWord "const" then
    if ← peekIs (·.isWord "enum") then
      bump
      bump
      return some (← enumAfter g ctx begin)
  if (← isWord "var") || (← isWord "const") then return some (← variableList g ctx start false)
  if ← isWord "let" then
    if ← letDeclares then return some (← variableList g ctx start false)
  return none

/-- An export at its keyword. A declaration that a word may start is tried first, and its faults
are not told. -/
def exportDeclaration (g : Grammar) (ctx : Context) (before : List Tree) : Parse Tree := do
  let start ← here
  bump
  let begin ← here
  if ← eatWord "declare" then
    if let some declared ← ambient? g ctx begin before then
      return .exported (← spanFrom start) declared
  if let .word word := (← token).kind then
    let begin ← here
    if let some declared ← attempt? (declarationAfter? g ctx begin before word true) then
      return .exported (← spanFrom start) declared
  if ← eatWord "import" then
    if ← isWord "type" then
      if ← peekIs TokenKind.isAnyWord then bump
    let _ ← identifierName
    importEquals ctx
    return .leaf (← spanFrom start)
  if ← eatSign "=" then
    let value ← fullSequence g ctx
    expectStatementEnd
    return .node (← spanFrom start) [value]
  if ← eatWord "as" then
    expectWord "namespace"
    let _ ← identifier ctx
    expectStatementEnd
    return .leaf (← spanFrom start)
  let typeOnly ← eatWord "type"
  if !typeOnly then
    if ← eatWord "default" then return ← exportDefault g ctx start before
  let decorators ← laterDecorators g ctx before
  if !typeOnly then
    if let some declared ← exportedDeclaration? g ctx start decorators then
      return .exported (← spanFrom start) declared
  let attributes ← exportNames g ctx
  return .node (← spanFrom start) attributes

end Parse
end TypeScript
end FetchClients
