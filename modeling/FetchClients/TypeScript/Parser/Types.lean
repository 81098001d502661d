/-
# Types

Type annotations, type parameters and arguments, and the members of interfaces
and type literals.

Key definitions: `Parse.fullType`, `Parse.typeOperandOf`, `Parse.typeArgs`,
`Parse.typeParams?`, `Parse.typeMembers`, `Parse.returnType`.
-/
import FetchClients.TypeScript.Parser.Patterns

namespace FetchClients
namespace TypeScript
namespace Parse

/-- The items of a list with `,` between them, up to a sign that is not taken. -/
def typeListUntil (atEnd : Parse Bool) (item : Parse Tree) : Parse (List Tree) :=
  repeated do
    if ← atEnd then return none
    let value ← item
    if ← eatSign "," then return some value
    if ← atEnd then return some value
    expectSign ","
    return some value

/-- Type arguments `<…>`. -/
def typeArgs (g : Grammar) (ctx : Context) : Parse (List Tree) := do
  expectSign "<"
  let args ← typeListUntil (isSign ">") (g.type ctx)
  expectSign ">"
  return args

/-- A word or sign with a type, if the word or sign is there. -/
def typeAfterWord? (g : Grammar) (ctx : Context) (name : String) : Parse (Option Tree) := do
  if ← eatWord name then return some (← g.type ctx) else return none

/-- Takes modifiers of a type parameter. -/
def eatTypeParamModifiers : Parse Unit := do
  let _ ← repeated (modifier? ["public", "private", "protected", "readonly", "abstract", "const",
    "override", "in", "out"] true)
  return ()

/-- A type parameter. -/
def typeParam (g : Grammar) (ctx : Context) : Parse Tree := do
  let start ← here
  eatTypeParamModifiers
  let _ ← identifierName
  let constraint ← typeAfterWord? g ctx "extends"
  let default ← do if ← eatSign "=" then pure (some (← g.type ctx)) else pure none
  return .node (← spanFrom start) (constraint.toList ++ default.toList)

/-- Type parameters `<…>`. -/
def typeParams (g : Grammar) (ctx : Context) : Parse (List Tree) := do
  if !(← isSign "<") then unexpected "< (jsx tag start)"
  bump
  let params ← typeListUntil (isSign ">") (typeParam g ctx)
  expectSign ">"
  return params

/-- Type parameters, if there are any. -/
def typeParams? (g : Grammar) (ctx : Context) : Parse (List Tree) := do
  if ← isSign "<" then typeParams g ctx else return []

/-- A type after `:` or `=>`, or what the function asserts of a parameter. -/
def returnType (g : Grammar) (ctx : Context) (sign : String) : Parse Tree := do
  expectSign sign
  let start ← here
  let asserts ← do
    if ← isWord "asserts" then peekIs TokenKind.isIdentifier else pure false
  if asserts then bump
  let guard ← do
    if ← atIdentifier then peekOnLine (·.isWord "is") else pure false
  if !asserts && !guard then g.type ctx
  else
    let _ ← identifierName
    let type ← if guard then do
        bump
        pure [← g.type ctx]
      else pure []
    return .node (← spanFrom start) type

/-- The parameters of a signature with the parenthesis that closes them; defaults are refused. -/
def signatureParams (g : Grammar) (ctx : Context) : Parse (List Tree) := do
  let params ← bareParams g ctx
  let undefaulted := params.all fun param => match param with
    | .initialized .. => false
    | _ => true
  if !undefaulted then
    unexpected
      "an identifier, [ for an array pattern, \x7b for an object patter or ... for a rest pattern"
  expectSign ")"
  return params

/-- Takes the sign that divides members. -/
def endTypeMember : Parse Unit := do
  if ← eatSign "," then return ()
  expectStatementEnd

/-- The parameters and the return type of a signature: type parameters, then the others. -/
def signature (g : Grammar) (ctx : Context) (sign : String) (needed : Bool) :
    Parse (List Tree × List Tree × Option Tree) := do
  let typeParams ← typeParams? g ctx
  expectSign "("
  let params ← signatureParams g ctx
  let returns ← do
    if needed || (← isSign sign) then pure (some (← returnType g ctx sign)) else pure none
  return (typeParams, params, returns)

/-- Whether an index signature comes next. -/
def atIndexSignature : Parse Bool := do
  if !(← isSign "[") then return false
  lookAhead do
    bump
    if !(← test TokenKind.isAnyWord) then return false
    bump
    isOneOf [":", ","]

/-- An index signature after its modifiers. -/
def indexSignature (g : Grammar) (ctx : Context) (start : Mark) : Parse Tree := do
  expectSign "["
  let _ ← identifierName
  if !(← eatSign ",") then expectSign ":"
  let key ← g.type ctx
  expectSign "]"
  let type ← typeAnnotation? g ctx
  endTypeMember
  return .sealed (← spanFrom start) (key :: type.toList)

/-- The name of a member of a type: its parts, and its span. -/
def typeMemberName (g : Grammar) (ctx : Context) : Parse (List Tree × Span) := do
  let t ← token
  match t.kind with
  | .sign "[" =>
    bump
    let key ← fullExpression g ctx
    expectSign "]"
    return ([key], key.span)
  | .number | .string _ =>
    let key ← g.member ctx
    return ([key.tree], key.tree.span)
  | .eof => failAtEnd
  | .bad fault => fail fault
  | .sign "#" =>
    bump
    let (_, span) ← identifierName
    return ([], ⟨t.start, span.stop⟩)
  | _ =>
    let (_, span) ← identifierName
    return ([], span)

/-- A getter or setter of a type. A setter keeps its first parameter alone. -/
def accessorSignature (g : Grammar) (ctx : Context) (start : Mark) : Parse (Option Tree) := do
  let getter ← eatWord "get"
  if !getter then expectWord "set"
  let (key, _) ← typeMemberName g ctx
  expectSign "("
  if getter then
    expectSign ")"
    let type ← typeAnnotation? g ctx
    endTypeMember
    return some (.sealed (← spanFrom start) (key ++ type.toList))
  else
    let params ← signatureParams g ctx
    if params.isEmpty then fail .setterWithoutParam
    endTypeMember
    return some (.sealed (← spanFrom start) (key ++ params.take 1))

/-- A property or method of a type. -/
def propertySignature (g : Grammar) (ctx : Context) (start : Mark) (fixed : Bool) : Parse Tree := do
  let (key, name) ← typeMemberName g ctx
  let optional ← eatSign "?"
  if ← isOneOf ["(", "<"] then
    if fixed then fail .readonlyMethod
    let (typeParams, params, returns) ← signature g ctx ":" false
    endTypeMember
    return .method ⟨← spanFrom start, name, optional⟩ false key params returns typeParams
  else
    let type ← typeAnnotation? g ctx
    endTypeMember
    return .property ⟨← spanFrom start, name, optional⟩ key none type []

/-- A signature of a call or of `new`. Its type parameters are searched after its return type. -/
def callSignature (g : Grammar) (ctx : Context) (start : Mark) : Parse Tree := do
  let (typeParams, params, returns) ← signature g ctx ":" false
  endTypeMember
  return .sealed (← spanFrom start) (params ++ returns.toList ++ typeParams)

/-- A member of an interface or type literal. -/
def typeMember (g : Grammar) (ctx : Context) : Parse Tree := do
  let start ← here
  if ← isOneOf ["(", "<"] then return ← callSignature g ctx start
  let constructs ← do
    if ← isWord "new" then peekIs fun kind => kind.isSign "(" || kind.isSign "<" else pure false
  if constructs then
    bump
    return ← callSignature g ctx start
  let fixed := (← modifier? ["readonly"] true).isSome
  if ← atIndexSignature then return ← indexSignature g ctx start
  if !fixed then
    if let some member ← attempt? (accessorSignature g ctx start) then return member
  propertySignature g ctx start fixed

/-- The members of an interface or type literal, in braces. -/
def typeMembers (g : Grammar) (ctx : Context) : Parse (List Tree) := do
  expectSign "\x7b"
  let members ← repeated do
    if ← isSign "\x7d" then return none
    return some (← advancing (typeMember g ctx))
  expectSign "\x7d"
  return members

/-- Whether a parameter comes next, as far as one token or pattern shows. -/
def skipParamStart (g : Grammar) (ctx : Context) : Parse Bool := do
  eatParamModifier
  if ← test TokenKind.isAnyWord then
    bump
    return true
  if ← isOneOf ["[", "\x7b"] then
    let _ ← g.pattern ctx
    return true
  return false

/-- Whether a parenthesis opens the parameters of a function type. -/
def atFunctionType (g : Grammar) (ctx : Context) : Parse Bool := do
  if ← isSign "<" then return true
  if !(← isSign "(") then return false
  lookAhead do
    bump
    if ← isOneOf [")", "..."] then return true
    if !(← skipParamStart g ctx) then return false
    if ← isOneOf [":", ",", "?", "="] then return true
    if ← eatSign ")" then isSign "=>" else return false

/-- A function or constructor type. Its type parameters are searched after its parameters. -/
def functionType (g : Grammar) (ctx : Context) (constructs : Bool) : Parse Tree := do
  let start ← here
  if constructs then
    let _ ← eatWord "abstract"
    expectWord "new"
  let (typeParams, params, returns) ← signature g ctx "=>" true
  return .sealed (← spanFrom start) (params ++ typeParams ++ returns.toList)

/-- A dotted name: its first word, whether it is more than that, and its span. -/
def entityName (ctx : Context) (reservedAllowed : Bool) : Parse (String × Bool × Span) := do
  let start ← here
  let (name, _) ← identifierName
  let dotted ← repeated do
    if !(← isSign ".") then return none
    bump
    if (← isSign "#") || (← test TokenKind.isAnyWord) then
      let _ ← if reservedAllowed then identifierName else identifier ctx
      return some ()
    else return none
  return (name, !dotted.isEmpty, ← spanFrom start)

/-- A named type with its arguments. -/
def typeReference (g : Grammar) (ctx : Context) : Parse Tree := do
  let start ← here
  eatParamModifier
  let (name, dotted, _) ← entityName ctx true
  let args ← do
    if !(← broken) && (← isSign "<") then typeArgs g ctx else pure []
  let span ← spanFrom start
  if dotted then return .node span args else return .reference span name args

/-- The words of the built-in types. -/
def builtinTypes : List String := [
  "void", "null", "any", "boolean", "bigint", "never", "number", "object", "string", "symbol",
  "unknown", "undefined", "intrinsic"]

/-- The `{ with: {…} }` after the module of an imported type. -/
def importOptions (g : Grammar) (ctx : Context) : Parse (List Tree) := do
  bump
  expectWord "with"
  expectSign ":"
  if !(← isSign "\x7b") then expectSign "\x7b"
  let value ← g.unary ctx
  let _ ← eatSign ","
  expectSign "\x7d"
  return [value.tree]

/-- A type `import("module").Name<…>`; its options are searched after its arguments. -/
def importType (g : Grammar) (ctx : Context) : Parse Tree := do
  let start ← here
  bump
  expectSign "("
  bump
  let options ← do
    if (← eatSign ",") && (← isSign "\x7b") then importOptions g ctx else pure []
  expectSign ")"
  if ← eatSign "." then
    let _ ← entityName ctx false
  let args ← do if ← isSign "<" then typeArgs g ctx else pure []
  return .node (← spanFrom start) (args ++ options)

/-- A type `typeof name`. -/
def typeQuery (g : Grammar) (ctx : Context) : Parse Tree := do
  let start ← here
  bump
  let queried ← do
    if ← isWord "import" then pure [← importType g ctx]
    else
      let _ ← entityName ctx true
      pure []
  let args ← do
    if !(← broken) && (← isSign "<") then typeArgs g ctx else pure []
  return .node (← spanFrom start) (queried ++ args)

/-- What a type `this is …` says, after `this`. -/
def thisPredicate (g : Grammar) (ctx : Context) (start : Mark) : Parse Tree := do
  let type ← typeAfterWord? g ctx "is"
  return .node (← spanFrom start) type.toList

/-- Whether a brace opens a mapped type. -/
def atMappedType : Parse Bool :=
  lookAhead do
    bump
    if ← isOneOf ["+", "-"] then
      bump
      return ← isWord "readonly"
    let _ ← eatWord "readonly"
    if !(← eatSign "[") then return false
    if !(← atIdentifier) then return false
    bump
    isWord "in"

/-- A sign before a modifier of a mapped type, and the modifier. -/
def mappedModifier (expectModifier eatModifier : Parse Unit) : Parse Unit := do
  if ← isOneOf ["+", "-"] then
    bump
    expectModifier
  else eatModifier

/-- A mapped type. -/
def mappedType (g : Grammar) (ctx : Context) : Parse Tree := do
  let start ← here
  expectSign "\x7b"
  mappedModifier (expectWord "readonly") (do let _ ← eatWord "readonly")
  expectSign "["
  let _ ← identifierName
  if !(← eatWord "in") then unexpected "in"
  let keys ← g.type ctx
  let renamed ← typeAfterWord? g ctx "as"
  expectSign "]"
  mappedModifier (expectSign "?") (do let _ ← eatSign "?")
  let type ← typeAnnotation? g ctx
  expectStatementEnd
  expectSign "\x7d"
  return .sealed (← spanFrom start) (keys :: renamed.toList ++ type.toList)

/-- The name of an element of a tuple. -/
def tupleLabel : Parse (Option Unit) :=
  attempt do
    let _ ← eatSign "..."
    let _ ← identifierName
    let _ ← eatSign "?"
    expectSign ":"

/-- An element of a tuple. -/
def tupleElement (g : Grammar) (ctx : Context) : Parse Tree := do
  let start ← here
  let _ ← tupleLabel
  if ← eatSign "..." then
    let type ← g.type ctx
    return .node (← spanFrom start) [type]
  let type ← g.type ctx
  let _ ← eatSign "?"
  return .node (← spanFrom start) [type]

/-- The substitutions of a template, up to its end; each part is read with `part`. -/
def templateParts (closed : Bool) (part : Parse Tree) : Parse (List Tree) := do
  if closed then
    bump
    return []
  bump
  let parts ← iterate (fun parts => do
    let value ← part
    if !(← isSign "\x7d") then expectSign "\x7d"
    let t := (← token).readTemplate
    reread t
    match t.kind with
    | .templateEnd more =>
      bump
      return (value :: parts, !more)
    | .bad fault => fail fault
    | _ => return (value :: parts, false)) []
  return parts.reverse

/-- A type that is one operand: a name, a literal, or something in brackets. -/
def nonArrayType (g : Grammar) (ctx : Context) : Parse Tree := do
  let t ← token
  let start := t.start
  match t.kind with
  | .eof => failAtEnd
  | .bad fault => fail fault
  | .number | .bigint | .string _ | .word "true" | .word "false" =>
    bump
    return .leaf ⟨t.start, t.stop⟩
  | .template closed =>
    let parts ← templateParts closed (g.type ctx)
    return .node (← spanFrom start) parts
  | .sign "-" =>
    bump
    if !(← test fun kind => kind = .number || kind = .bigint) then
      unexpected "numeric literal or bigint literal"
    bump
    return .leaf (← spanFrom start)
  | .word "import" => importType g ctx
  | .word "this" =>
    bump
    if !(← broken) && (← isWord "is") then thisPredicate g ctx start
    else return .leaf ⟨t.start, t.stop⟩
  | .word "typeof" => typeQuery g ctx
  | .sign "\x7b" =>
    if ← atMappedType then mappedType g ctx
    else
      let members ← typeMembers g ctx
      return .node (← spanFrom start) members
  | .sign "[" =>
    bump
    let elements ← typeListUntil (isSign "]") (tupleElement g ctx)
    expectSign "]"
    return .node (← spanFrom start) elements
  | .sign "(" =>
    bump
    let type ← g.type ctx
    expectSign ")"
    return .node (← spanFrom start) [type]
  | .word name =>
    if isReserved name && !(["void", "yield", "null", "await", "break"].contains name) then
      unexpected wanted
    else if name = "asserts" && (← peekIs (·.isWord "this")) then
      bump
      bump
      thisPredicate g ctx start
    else if builtinTypes.contains name && !(← peekIs (·.isSign ".")) then
      bump
      return .leaf ⟨t.start, t.stop⟩
    else typeReference g ctx
  | _ => unexpected wanted
where
  /-- What may start a type. -/
  wanted : String :=
    "an identifier, void, yield, null, await, break, a string literal, a numeric literal, true, " ++
      "false, `, -, import, this, typeof, \x7b, [, ("

/-- A type with the `[]` and `[…]` after it. -/
def arrayType (g : Grammar) (ctx : Context) : Parse Tree := do
  let start ← here
  let type ← nonArrayType g ctx
  iterate (fun type => do
    if (← broken) || !(← isSign "[") then return (type, false)
    bump
    if ← eatSign "]" then return (.node (← spanFrom start) [type], true)
    let index ← g.type ctx
    expectSign "]"
    return (.node (← spanFrom start) [type, index], true)) type

/-- The constraint of an inferred type, unless it turns out to be the condition around it. -/
def inferConstraint? (ctx : Context) (plain : Context → Parse Tree) : Parse (Option Tree) :=
  attempt? do
    if !(← eatWord "extends") then return none
    let constraint ← plain { ctx with plainType := true }
    if ctx.plainType || !(← isSign "?") then return some constraint
    return none

/-- The types that signs divide; a sign in front of the first is passed over. -/
def typesBetween (sign : String) (one : Parse Tree) : Parse Tree := do
  let start ← here
  let _ ← eatSign sign
  let first ← one
  let others ← repeated do
    if ← eatSign sign then return some (← one) else return none
  if others.isEmpty then return first
  return .node (← spanFrom start) (first :: others)

/-- A type without conditions. -/
def plainType (g : Grammar) (ctx : Context) : Parse Tree := do
  if ← atFunctionType g ctx then return ← functionType g ctx false
  let constructs ← do
    if ← isWord "new" then pure true
    else if ← isWord "abstract" then peekIs (·.isWord "new")
    else pure false
  if constructs then return ← functionType g ctx true
  typesBetween "|" (typesBetween "&" (g.typeOperand ctx))

/-- A type without `|`, `&` and conditions. -/
def typeOperandOf (g : Grammar) (ctx : Context) : Parse Tree := do
  let start ← here
  if ← test fun kind => ["unique", "keyof", "readonly"].any kind.isWord then
    bump
    let type ← g.typeOperand ctx
    return .node (← spanFrom start) [type]
  if ← eatWord "infer" then
    let _ ← identifierName
    let constraint ← inferConstraint? ctx (plainType g)
    return .node (← spanFrom start) constraint.toList
  arrayType g ctx

/-- A type. -/
def fullType (g : Grammar) (outer : Context) : Parse Tree := do
  let ctx := { outer with plainType := false }
  let start ← here
  let type ← plainType g ctx
  if (← broken) || !(← isWord "extends") then return type
  bump
  let bound ← plainType g { ctx with plainType := true }
  expectSign "?"
  let whenTrue ← g.type ctx
  expectSign ":"
  let whenFalse ← g.type ctx
  return .node (← spanFrom start) [type, bound, whenTrue, whenFalse]

end Parse
end TypeScript
end FetchClients
