/-
# Elements

Elements are markup in expressions. Between tags the text is taken as it is, so
comments there are text; inside tags and braces tokens are read as elsewhere.

Key definitions: `Parse.elementOf`.
-/
import FetchClients.TypeScript.Parser.Expressions

namespace FetchClients
namespace TypeScript
namespace Parse

/-- Takes the next token; what follows it is text up to a brace or a tag. -/
def bumpIntoText : Parse Unit := fun s =>
  .done () { s with token := Token.readJsxText ⟨s.token.stop, s.token.rest⟩, last := s.token.stop }

/-- Takes this sign or fails; what follows it is text. -/
def expectSignThenText (text : String) : Parse Unit := do
  if ← isSign text then bumpIntoText else expectSign text

/-- Takes `=`; a string after it ends only at its quote. -/
def bumpIntoAttribute : Parse Unit := fun s =>
  let gap := Gap.after (some s.token.kind) ⟨s.token.stop, s.token.rest⟩
  match gap.cursor.rest with
  | q :: rest =>
    if q = '"' || q = '\'' then
      let count := countWhile (· ≠ q) rest
      let kind := TokenKind.string (String.ofList (rest.take count))
      let token := Token.at_ gap.cursor gap.broken kind (count + 2)
      .done () { s with token := token, last := s.token.stop }
    else bump s
  | [] => bump s

/-- A name of a tag or attribute, which may have hyphens. -/
def elementWord : Parse Unit := do
  let t ← token
  match t.kind with
  | .word name =>
    let more := countWhile (fun c => Text.isIdentifierPart c || c = '-') t.rest
    let stop := Cursor.advance more ⟨t.stop, t.rest⟩
    reread { t with
      kind := .word (name ++ String.ofList (t.rest.take more)), stop := stop.mark,
      rest := stop.rest }
    bump
  | _ => unexpected "jsx identifier"

/-- The name of a tag: words divided by `.` or `:`. -/
def tagName : Parse Unit := do
  elementWord
  let _ ← repeated do
    if !(← isOneOf [".", ":"]) then return none
    bump
    elementWord
    return some ()

/-- The value of an attribute. -/
def attributeValue (g : Grammar) (ctx : Context) : Parse (List Tree) := do
  match (← token).kind with
  | .string _ =>
    bump
    return []
  | .sign "\x7b" =>
    bump
    let value ← fullSequence g ctx
    expectSign "\x7d"
    return [value]
  | .sign "<" =>
    let value ← g.element ctx
    expectSign ">"
    return [value]
  | _ => fail .jsxAttributeValue

/-- An attribute of a tag. -/
def elementAttribute (g : Grammar) (ctx : Context) : Parse (List Tree) := do
  if ← eatSign "\x7b" then
    expectSign "..."
    let value ← fullExpression g ctx
    expectSign "\x7d"
    return [value]
  elementWord
  if ← eatSign ":" then elementWord
  if ← isSign "=" then
    bumpIntoAttribute
    attributeValue g ctx
  else return []

/-- A child of an element, if there is one. -/
def child? (g : Grammar) (ctx : Context) : Parse (Option (List Tree)) := do
  match (← token).kind with
  | .jsxText =>
    bumpIntoText
    return some []
  | .sign "\x7b" =>
    bump
    if ← isSign "\x7d" then
      bumpIntoText
      return some []
    let _ ← eatSign "..."
    let value ← fullSequence g ctx
    expectSignThenText "\x7d"
    return some [value]
  | .sign "<" =>
    let value ← g.element ctx
    expectSignThenText ">"
    return some [value]
  | _ => return none

/-- An element up to its last `>`, which is not taken. -/
def elementOf (g : Grammar) (outer : Context) : Parse Tree := do
  let ctx := { outer with noIn := false, conditional := false, awaitsColon := false }
  let start ← here
  expectSign "<"
  let opening ← do
    if ← isSign ">" then pure []
    else
      tagName
      let types ← do if ← isSign "<" then typeArgs g ctx else pure []
      let attributes ← repeated do
        if ← isOneOf ["/", ">"] then return none
        return some (← elementAttribute g ctx)
      pure (attributes.flatten ++ types)
  if ← eatSign "/" then
    if !(← isSign ">") then expectSign ">"
    return .node (← spanFrom start) opening
  expectSignThenText ">"
  let children ← repeated (child? g ctx)
  expectSign "</"
  if !(← isSign ">") then tagName
  if !(← isSign ">") then expectSign ">"
  return .node (← spanFrom start) (opening ++ children.flatten)

end Parse
end TypeScript
end FetchClients
