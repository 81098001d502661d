/-
# Statements

A statement ends at a `;`, before a `}`, at a line break or at the end. A name
that starts one may be the first word of a declaration.

Key definitions: `Parse.statementOf`.
-/
import FetchClients.TypeScript.Parser.Jsx
import FetchClients.TypeScript.Parser.Modules

namespace FetchClients
namespace TypeScript
namespace Parse

/-- A statement that cannot be a declaration. -/
def substatement (g : Grammar) (ctx : Context) : Parse Tree :=
  g.statement { ctx with exports := false } false

/-- An expression in parentheses. -/
def parenthesized (g : Grammar) (ctx : Context) : Parse Tree := do
  expectSign "("
  let inner ← fullSequence g ctx
  expectSign ")"
  return inner

/-- The else branch of an `if`, if there is one. -/
def elseBranch (g : Grammar) (ctx : Context) : Parse (List Tree) := do
  if ← eatWord "else" then return [← substatement g ctx] else return []

/-- An `if` statement. A missing closing parenthesis is passed over. -/
def ifStatement (g : Grammar) (ctx : Context) (start : Mark) : Parse Tree := do
  bump
  expectSign "("
  let condition ← fullSequence g ctx
  let _ ← eatSign ")"
  let whenTrue ← substatement g ctx
  let whenFalse ← elseBranch g ctx
  return .node (← spanFrom start) (condition :: whenTrue :: whenFalse)

/-- A `do` statement; its condition is searched before its body. -/
def doStatement (g : Grammar) (ctx : Context) (start : Mark) : Parse Tree := do
  expectWord "do"
  let body ← substatement g ctx
  expectWord "while"
  let condition ← parenthesized g ctx
  let _ ← eatStatementEnd
  return .node (← spanFrom start) [condition, body]

/-- A `while` or `with` statement. -/
def headedStatement (g : Grammar) (ctx : Context) (start : Mark) : Parse Tree := do
  bump
  let head ← parenthesized g ctx
  let body ← substatement g ctx
  return .node (← spanFrom start) [head, body]

/-- The rest of the head of a loop over items, at its `of` or `in`. -/
def eachHead (g : Grammar) (ctx : Context) (target : Tree) : Parse (List Tree) := do
  let isOf ← isWord "of"
  bump
  let source ← if isOf then fullExpression g ctx else fullSequence g ctx
  return [target, source]

/-- The rest of the head of a counting loop, after its first `;`. -/
def countingHead (g : Grammar) (ctx : Context) (first : List Tree) : Parse (List Tree) := do
  let test ← do
    if ← eatSign ";" then pure []
    else
      let test ← fullSequence g ctx
      expectSign ";"
      pure [test]
  let update ← do if ← isSign ")" then pure [] else pure [← fullSequence g ctx]
  return first ++ test ++ update

/-- Whether the `of` or `in` of a loop comes next. -/
def atEach : Parse Bool := test fun kind => kind.isWord "of" || kind.isWord "in"

/-- The head of a loop. -/
def forHead (g : Grammar) (ctx : Context) : Parse (List Tree) := do
  let start ← here
  let declares ← do
    if ← test fun kind => kind.isWord "var" || kind.isWord "const" then pure true
    else if ← isWord "let" then letDeclares
    else pure false
  if declares then
    let target ← variableList g ctx start true
    if ← atEach then return ← eachHead g ctx target
    expectSign ";"
    return ← countingHead g ctx [target]
  if ← eatSign ";" then return ← countingHead g ctx []
  let first ← sequence g { ctx with noIn := true }
  let named : Bool := match first.shape with
    | .name "using" | .awaiting => true
    | _ => false
  if named && !(← isWord "of") && (← atIdentifier) then
    let (name, span) ← bindingIdentifier ctx false
    return ← eachHead g ctx (.node (← spanFrom start) [first.tree, .binding span name none])
  if ← atEach then
    if first.shape = .object false then failAt start.line .notPattern
    return ← eachHead g ctx first.tree
  expectSign ";"
  countingHead g ctx [first.tree]

/-- A `for` statement. -/
def forStatement (g : Grammar) (ctx : Context) (start : Mark) : Parse Tree := do
  bump
  let _ ← eatWord "await"
  expectSign "("
  let head ← forHead g ctx
  expectSign ")"
  let body ← substatement g ctx
  return .node (← spanFrom start) (head ++ [body])

/-- A case of a `switch`, if there is one. -/
def switchCase? (g : Grammar) (ctx : Context) : Parse (Option (List Tree)) := do
  let isCase ← isWord "case"
  if !isCase && !(← isWord "default") then return none
  bump
  let tested ← if isCase then pure [← fullSequence g ctx] else pure []
  expectSign ":"
  let body ← repeated do
    if ← test fun kind => kind.isWord "case" || kind.isWord "default" || kind.isSign "\x7d" then
      return none
    return some (← g.statement { ctx with exports := false } true)
  return some (tested ++ body)

/-- A `switch` statement. -/
def switchStatement (g : Grammar) (ctx : Context) (start : Mark) : Parse Tree := do
  bump
  let subject ← parenthesized g ctx
  expectSign "\x7b"
  let cases ← repeated (switchCase? g ctx)
  expectSign "\x7d"
  return .node (← spanFrom start) (subject :: cases.flatten)

/-- A `catch` with its block, if there is one. -/
def catchClause (g : Grammar) (ctx : Context) : Parse (List Tree) := do
  if !(← eatWord "catch") then return []
  let caught ← do
    if ← eatSign "(" then
      let target ← g.pattern ctx
      let target ← annotated g ctx target
      expectSign ")"
      pure [target]
    else pure []
  return caught ++ [← block g ctx]

/-- A `finally` with its block, if there is one. -/
def finallyClause (g : Grammar) (ctx : Context) : Parse (List Tree) := do
  if ← eatWord "finally" then return [← block g ctx] else return []

/-- A `try` statement. -/
def tryStatement (g : Grammar) (ctx : Context) (start : Mark) : Parse Tree := do
  bump
  let body ← block g ctx
  let handler ← catchClause g ctx
  let finalizer ← finallyClause g ctx
  return .node (← spanFrom start) (body :: handler ++ finalizer)

/-- Passes over a `catch` or `finally` that no `try` opens. -/
def strayClause (g : Grammar) (ctx : Context) (start : Mark) : Parse Tree := do
  let clause : Parse Unit := do
    let _ ← orElseThere (catchClause g ctx) fun _ => return []
    let _ ← orElseThere (finallyClause g ctx) fun _ => return []
  clause
  return .leaf (← spanFrom start)

/-- A `break` or `continue` statement. -/
def jumpStatement (ctx : Context) (start : Mark) : Parse Tree := do
  bump
  if !(← eatStatementEnd) then
    let _ ← identifierWith ctx true
    expectStatementEnd
  return .leaf (← spanFrom start)

/-- A `return` statement. -/
def returnStatement (g : Grammar) (ctx : Context) (start : Mark) : Parse Tree := do
  bump
  let value ← do if ← atStatementEnd then pure [] else pure [← fullSequence g ctx]
  expectStatementEnd
  return .node (← spanFrom start) value

/-- A `throw` statement. -/
def throwStatement (g : Grammar) (ctx : Context) (start : Mark) : Parse Tree := do
  bump
  if ← broken then fail .breakInThrow
  let value ← fullSequence g ctx
  expectStatementEnd
  return .node (← spanFrom start) [value]

/-- A `using` declaration, if it is one. -/
def usingDeclaration? (g : Grammar) (ctx : Context) (start : Mark) : Parse (Option Tree) := do
  if !(← peekOnLine TokenKind.isIdentifier) then return none
  bump
  let first ← oneVariable g ctx false false
  let others ← repeated do
    if !(← eatSign ",") then return none
    if ← isSign ";" then return some []
    return some [← oneVariable g ctx false false]
  expectStatementEnd
  return some (.node (← spanFrom start) (first :: others.flatten))

/-- A statement that starts with an expression: a label, a declaration behind a name, or the
expression alone. Only a declaration has a place for decorators. -/
def expressionStatement (g : Grammar) (ctx : Context) (start : Mark) (decorators : List Tree) :
    Parse Tree := do
  let begin ← here
  let expression ← sequence g { ctx with noIn := false }
  let finish : Parse Tree := do
    if ← eatStatementEnd then
      return .node (← spanFrom start) [expression.tree]
    if ← atOperator ctx then
      let more ← iterate (binaryLink g ctx begin (unaryOf g)) (expression, expression.shape)
      return .node (← spanFrom start) [more.1.tree]
    fail .semicolonExpected
  match expression.shape with
  | .name name =>
    if ← eatSign ":" then
      let body ← do
        if ← isWord "function" then functionAt g ctx (← here) false false true
        else substatement g ctx
      return .node (← spanFrom start) [body]
    match ← declarationAfterName? g ctx begin decorators name with
    | some declaration => return declaration
    | none => finish
  | _ => finish

/-- A statement after its decorators that is no import or export. -/
def plainStatement (g : Grammar) (ctx : Context) (start : Mark) (decorators : List Tree)
    (declarations : Bool) : Parse Tree := do
  let t ← token
  match t.kind with
  | .word "const" =>
    if ← peekIs (·.isWord "enum") then
      bump
      bump
      return ← enumAfter g ctx start
    if declarations then return ← variableList g ctx start false
    expressionStatement g ctx start decorators
  | .word "await" =>
    if declarations && (← peekOnLine (·.isWord "using")) then
      let declaration ← attempt? do
        bump
        usingDeclaration? g ctx start
      if let some declaration := declaration then return declaration
    expressionStatement g ctx start decorators
  | .word "break" | .word "continue" => jumpStatement ctx start
  | .word "debugger" =>
    bump
    expectStatementEnd
    return .leaf (← spanFrom start)
  | .word "do" => doStatement g ctx start
  | .word "for" => forStatement g ctx start
  | .word "function" => functionAt g ctx t.start false false true
  | .word "class" => classAt g ctx start decorators true true
  | .word "if" => ifStatement g ctx start
  | .word "return" => returnStatement g ctx start
  | .word "switch" => switchStatement g ctx start
  | .word "throw" => throwStatement g ctx start
  | .word "catch" | .word "finally" => strayClause g ctx start
  | .word "try" => tryStatement g ctx start
  | .word "while" | .word "with" => headedStatement g ctx start
  | .word "var" => variableList g ctx start false
  | .word "let" =>
    if declarations && (← letDeclares) then return ← variableList g ctx start false
    expressionStatement g ctx start decorators
  | .word "using" =>
    if declarations then
      if let some declaration ← usingDeclaration? g ctx start then return declaration
    expressionStatement g ctx start decorators
  | .word "interface" =>
    if ← peekOnLine TokenKind.isAnyWord then
      bump
      return ← interfaceAfter g ctx t.start
    expressionStatement g ctx start decorators
  | .word "type" =>
    if ← peekOnLine TokenKind.isAnyWord then
      bump
      return ← aliasAfter g ctx t.start
    expressionStatement g ctx start decorators
  | .word "enum" =>
    if ← peekOnLine TokenKind.isAnyWord then
      bump
      return ← enumAfter g ctx start
    expressionStatement g ctx start decorators
  | .sign "\x7b" => block g ctx
  | .sign ";" =>
    bump
    return .leaf ⟨t.start, t.stop⟩
  | .word "async" =>
    if ← atAsyncFunction then return ← maybeAsyncFunction g ctx false true
    expressionStatement g ctx start decorators
  | _ => expressionStatement g ctx start decorators

/-- A statement, an import or an export after its decorators. -/
def statementAfter (g : Grammar) (ctx : Context) (start : Mark) (decorators : List Tree)
    (declarations : Bool) : Parse Tree := do
  let isImport ← isWord "import"
  if isImport && (← peekIs fun kind => kind.isSign "(" || kind.isSign ".") then
    let expression ← fullSequence g ctx
    let _ ← eatStatementEnd
    return .node (← spanFrom start) [expression]
  if isImport then
    if !ctx.exports then fail .exportInside
    return ← importDeclaration g ctx start
  if ← isWord "export" then
    if !ctx.exports then fail .exportInside
    return ← exportDeclaration g ctx decorators
  plainStatement g ctx start decorators declarations

/-- A statement, an import or an export. -/
def statementOf (g : Grammar) (outer : Context) (declarations : Bool) : Parse Tree := do
  let ctx := { outer with
    noIn := false, conditional := false, awaitsColon := false, arrowAt := none }
  let start ← here
  let decorators ← g.decorators ctx
  advancing (statementAfter g ctx start decorators declarations)

end Parse
end TypeScript
end FetchClients
