/-
# Declarations of types, enumerations and modules

Key definitions: `Parse.interfaceAfter`, `Parse.typeAliasAfter`, `Parse.enumAfter`,
`Parse.moduleAfter`, `Parse.declarationAfter?`, `Parse.ambient?`,
`Parse.variableList`.
-/
import FetchClients.TypeScript.Parser.Expressions

namespace FetchClients
namespace TypeScript
namespace Parse

/-- An interface after its keyword. -/
def interfaceAfter (g : Grammar) (ctx : Context) (start : Mark) : Parse Tree := do
  let (name, _) ← identifierName
  let typeParams ← typeParams? g ctx
  let parents ← do if ← eatWord "extends" then heritageList g ctx else pure []
  if ← isWord "extends" then
    let _ ← repeated do
      if ← test fun kind => kind = .eof || kind.isSign "\x7b" then return none
      bump
      return some ()
  let members ← typeMembers g ctx
  return .interface (← spanFrom start) name (typeParams ++ parents) members

/-- A type alias after its keyword. -/
def aliasAfter (g : Grammar) (ctx : Context) (start : Mark) : Parse Tree := do
  let (name, _) ← identifierName
  let typeParams ← typeParams? g ctx
  if !(← eatSign "=") then unexpected "="
  let type ← g.type ctx
  expectStatementEnd
  return .typeAlias (← spanFrom start) name typeParams type

/-- The name of a member of an enumeration. What stands in `[…]` is no part of the member. -/
def enumMemberName (g : Grammar) (ctx : Context) : Parse Unit := do
  match (← token).kind with
  | .eof => failAtEnd
  | .bad fault => fail fault
  | .string _ | .number => bump
  | .sign "[" =>
    bump
    let _ ← fullSequence g ctx
    expectSign "]"
  | _ =>
    let _ ← identifierName

/-- A member of an enumeration. A token that cannot follow it is passed over like a `,`. -/
def enumMember (g : Grammar) (ctx : Context) : Parse Tree := do
  let start ← here
  enumMemberName g ctx
  let value ← initializer? g ctx
  let span ← spanFrom start
  if value.isNone && !(← isOneOf [",", "\x7d"]) then
    bump
    reread { (← token) with kind := .sign "," }
  return .node span value.toList

/-- An enumeration after its keyword. A missing `,` between members is passed over. -/
def enumAfter (g : Grammar) (ctx : Context) (start : Mark) : Parse Tree := do
  let _ ← identifierName
  expectSign "\x7b"
  let members ← repeated do
    if ← isSign "\x7d" then return none
    let member ← enumMember g ctx
    let _ ← eatSign ","
    return some member
  expectSign "\x7d"
  return .node (← spanFrom start) members

/-- The items of a namespace or a declared module, in braces. -/
def moduleBody (g : Grammar) (ctx : Context) : Parse (List Tree) :=
  statementsInBraces g { ctx with exports := true }

/-- A namespace after its keyword, with a dotted name. -/
def moduleAfter (g : Grammar) (ctx : Context) (start : Mark) : Parse Tree := do
  let _ ← identifierName
  let _ ← repeated do
    if ← eatSign "." then
      let _ ← identifierName
      return some ()
    else return none
  let items ← moduleBody g ctx
  return .node (← spanFrom start) items

/-- A declared module that a string or `global` names. -/
def ambientModule (g : Grammar) (ctx : Context) (start : Mark) : Parse Tree := do
  if !(← test fun kind => kind.isString || kind.isWord "global") then
    unexpected "global or a string literal"
  bump
  if ← isSign "\x7b" then
    let items ← moduleBody g ctx
    return .node (← spanFrom start) items
  expectStatementEnd
  return .leaf (← spanFrom start)

/-- A declaration whose first word is known; the word is still to be taken if `atWord`. -/
def declarationAfter? (g : Grammar) (ctx : Context) (start : Mark) (decorators : List Tree)
    (word : String) (atWord : Bool) : Parse (Option Tree) := do
  let skip : Parse Unit := if atWord then bump else pure ()
  match word with
  | "abstract" =>
    if atWord || ((← isWord "class") && !(← broken)) then
      skip
      if !(← isWord "class") then expectWord "class"
      return some (← classAt g ctx start decorators true true)
    return none
  | "enum" =>
    if atWord || (← atIdentifier) then
      skip
      return some (← enumAfter g ctx start)
    return none
  | "interface" =>
    if atWord || (← atIdentifier) then
      skip
      return some (← interfaceAfter g ctx start)
    return none
  | "module" =>
    if ← broken then
      if !atWord then return none
    skip
    if ← test TokenKind.isString then return some (← ambientModule g ctx start)
    if atWord || (← atIdentifier) then return some (← moduleAfter g ctx start)
    return none
  | "namespace" =>
    if atWord || (← atIdentifier) then
      skip
      return some (← moduleAfter g ctx start)
    return none
  | "type" =>
    if atWord || (!(← broken) && (← atIdentifier)) then
      skip
      return some (← aliasAfter g ctx start)
    return none
  | _ => return none

/-- One declared variable. -/
def oneVariable (g : Grammar) (ctx : Context) (forHead noLet : Bool) : Parse Tree := do
  let start ← here
  let target ← bindingTarget g ctx noLet
  match target with
  | .binding .. =>
    let _ ← eatSign "!"
  | _ => pure ()
  let target ← annotated g ctx target
  if forHead && (← test fun kind => kind.isWord "in" || kind.isWord "of") then return target
  match ← eatSign "=" with
  | true =>
    let value ← g.expression ctx
    return .initialized (← spanFrom start) target value.tree
  | false => return target

/-- Passes over what stands where a declaration of variables should have ended. -/
def skipToStatementEnd (g : Grammar) (ctx : Context) : Parse Unit := do
  let _ ← fullSequence g ctx
  let _ ← repeated do
    if ← eatStatementEnd then return none
    bump
    if ← test fun kind => match kind with
      | .bad _ => true
      | _ => false
    then return none
    return some ()
  return ()

/-- Declared variables at their keyword. -/
def variableList (g : Grammar) (outer : Context) (start : Mark) (forHead : Bool) : Parse Tree := do
  let noLet ← test fun kind => kind.isWord "let" || kind.isWord "const"
  let ctx := { outer with noIn := forHead && !noLet }
  bump
  let first ← do if ← isSign ";" then pure [] else pure [← oneVariable g ctx forHead noLet]
  let others ← repeated do
    if !(← eatSign ",") then return none
    if ← isSign ";" then return some []
    return some [← oneVariable g ctx forHead noLet]
  let ended ← if forHead then pure true else eatStatementEnd
  if !ended then skipToStatementEnd g ctx
  return .node (← spanFrom start) (first ++ others.flatten)

/-- Whether a word that may be bound follows `let`. -/
def letDeclares : Parse Bool :=
  peekIs fun kind => match kind with
    | .word name => !reservedWords.contains name || name = "this"
    | .sign text => ["[", "\x7b"].contains text
    | _ => false

/-- What `declare` stands in front of, if it declares something. -/
def ambient? (g : Grammar) (outer : Context) (start : Mark) (decorators : List Tree) :
    Parse (Option Tree) := do
  let ctx := { outer with ambient := true }
  let t ← token
  match t.kind with
  | .word "function" => return some (← functionAt g ctx start false false true)
  | .word "class" => return some (← classAt g ctx start decorators true true)
  | .word "const" =>
    if ← peekIs (·.isWord "enum") then
      bump
      bump
      return some (← enumAfter g ctx start)
    return some (← variableList g ctx start false)
  | .word "var" | .word "let" => return some (← variableList g ctx start false)
  | .word "global" => return some (← ambientModule g ctx start)
  | .word name => declarationAfter? g ctx start decorators name true
  | _ => return none

/-- A declaration after a name that may be its first word. -/
def declarationAfterName? (g : Grammar) (ctx : Context) (start : Mark) (decorators : List Tree)
    (name : String) : Parse (Option Tree) := do
  match name with
  | "declare" => ambient? g ctx start decorators
  | "global" =>
    if ← isSign "\x7b" then
      let items ← moduleBody g ctx
      return some (.node (← spanFrom start) items)
    return none
  | _ => declarationAfter? g ctx start decorators name false

end Parse
end TypeScript
end FetchClients
