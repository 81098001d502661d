/-
# Classes

A class has members of six kinds: properties and methods, which may carry
annotations, and constructors, private members, accessors with storage and
static blocks, which may not.

Key definitions: `Parse.classAt`, `Parse.classMember`.
-/
import FetchClients.TypeScript.Parser.Functions

namespace FetchClients
namespace TypeScript
namespace Parse

/-- The name of a class member, and whether it is private. -/
structure MemberKey where
  span : Span
  parts : List Tree
  name : Option String
  text : Option String
  hidden : Bool

namespace MemberKey

/-- Whether the name is the constructor's. -/
def isConstructor (k : MemberKey) : Bool := !k.hidden && k.text = some "constructor"

/-- A plain name. -/
def plain (name : String) (span : Span) : MemberKey := ⟨span, [], some name, some name, false⟩

end MemberKey

/-- A `#name`. -/
def hiddenName : Parse Span := do
  let start ← here
  bump
  if (← here) ≠ (← lastEnd) then failAt start.line .spaceAfterHash
  let (_, span) ← identifierName
  return ⟨start, span.stop⟩

/-- The name of a class member. -/
def memberKey (g : Grammar) (ctx : Context) : Parse MemberKey := do
  if ← isSign "#" then
    return ⟨← hiddenName, [], none, none, true⟩
  let key ← propertyName g ctx
  return ⟨key.span, key.parts, key.name, key.text, false⟩

/-- Whether a method's parameters come next. -/
def atMethod : Parse Bool := isOneOf ["(", "<"]

/-- Whether the rest of a property comes next; a line break may end it. -/
def atProperty (breakEnds : Bool) : Parse Bool := do
  if ← isOneOf ["!", ":", "=", "\x7d"] then return true
  if breakEnds then atStatementEnd else isSign ";"

/-- A method after its name. -/
def methodRest (g : Grammar) (ctx : Context) (start : Mark) (decorators : List Tree)
    (key : MemberKey) (optional async generator : Bool) : Parse Tree := do
  let f ← functionRest g ctx async generator
  let span ← spanFrom start
  if key.hidden then
    return .sealed span (key.parts ++ f.params ++ (decorators ++ f.afterParams) ++ f.returns.toList)
  return .method ⟨span, key.span, optional⟩ true key.parts f.params f.returns
    (decorators ++ f.afterParams)

/-- A property after its name. -/
def propertyRest (g : Grammar) (ctx : Context) (start : Mark) (decorators : List Tree)
    (key : MemberKey) (optional stored : Bool) : Parse Tree := do
  if key.isConstructor then failAt key.span.start.line .constructorProperty
  let _ ← if optional then pure false else eatSign "!"
  let type ← typeAnnotation? g ctx
  let value ← initializer? g (bodyContext ctx false false)
  let _ ← eatStatementEnd
  let span ← spanFrom start
  if key.hidden || stored then
    return .sealed span (key.parts ++ value.toList ++ type.toList ++ decorators)
  return .property ⟨span, key.span, optional⟩ key.parts value type decorators

/-- A member that is named like a modifier, if what follows shows that it is one. -/
def modifierAsName (g : Grammar) (ctx : Context) (start : Mark) (decorators : List Tree)
    (name : String) (span : Span) (breakEnds : Bool) : Parse (Option Tree) := do
  let key := MemberKey.plain name span
  if ← atMethod then
    return some (← methodRest g ctx start decorators key false false false)
  if (← atProperty breakEnds) || (name ≠ "declare" && (← isSign "?")) then
    let optional ← eatSign "?"
    if optional && (← atMethod) then
      return some (← methodRest g ctx start decorators key true false false)
    return some (← propertyRest g ctx start decorators key optional false)
  return none

/-- A constructor after its name. It keeps its parameters and its body alone. -/
def constructorRest (g : Grammar) (ctx : Context) (start : Mark) (key : MemberKey) :
    Parse Tree := do
  let inner := bodyContext ctx false false
  let _ ← typeParams? g ctx
  expectSign "("
  let params ← constructorParams g inner
  expectSign ")"
  let _ ← typeAnnotation? g ctx
  let body ← functionBody? g inner
  return .sealed (← spanFrom start) (key.parts ++ params ++ body.toList)

/-- A getter, setter or async method after that word. -/
def namedByWord (g : Grammar) (ctx : Context) (start : Mark) (decorators : List Tree)
    (async optional fixed : Bool) : Parse Tree := do
  if async then
    let _ ← modifier? ["override"] true
  let generator ← if async then eatSign "*" else pure false
  let key ← memberKey g ctx
  if async && key.isConstructor then failAt key.span.start.line .asyncConstructor
  if async && fixed then fail .readonlyMethod
  let optional ← if optional then pure true else eatSign "?"
  methodRest g ctx start decorators key optional async generator

/-- A static block. -/
def staticBlock (g : Grammar) (ctx : Context) (start : Mark) : Parse Tree := do
  let body ← block g (bodyContext ctx false false)
  return .sealed (← spanFrom start) [body]

/-- A member after its modifiers. -/
def memberAfterModifiers (g : Grammar) (ctx : Context) (start : Mark) (decorators : List Tree)
    (fixed : Option Span) : Parse Tree := do
  if ← eatSign "*" then
    let key ← memberKey g ctx
    return ← methodRest g ctx start decorators key false false true
  let key ← do
    match fixed with
    | some span =>
      if ← isOneOf ["!", ":", "=", "?", ";", "\x7d"] then pure (MemberKey.plain "readonly" span)
      else memberKey g ctx
    | none => memberKey g ctx
  let optional ← eatSign "?"
  if ← atMethod then
    if fixed.isSome then failAt start.line .readonlyMethod
    if key.isConstructor then return ← constructorRest g ctx start key
    return ← methodRest g ctx start decorators key optional false false
  let generatorBelow := (← broken) && (← isSign "*")
  let accessor := (key.name = some "get" || key.name = some "set") && !(← atProperty false) &&
    !generatorBelow
  if !accessor && (← atProperty true) then
    return ← propertyRest g ctx start decorators key optional false
  if key.name = some "async" && !(← broken) then
    return ← namedByWord g ctx start decorators true optional fixed.isSome
  if accessor then
    return ← namedByWord g ctx start decorators false false false
  unexpected "* for generator, private key, identifier or async"

/-- The modifiers after access and `static`: whether one is `static`, and where `readonly` is. -/
def laterModifiers (isStatic : Bool) : Parse (Bool × Option Span) :=
  iterate (fun (isStatic, fixed) => do
    let start ← here
    match ← modifier? ["abstract", "readonly", "override", "static"] false with
    | some "static" => return ((true, fixed), true)
    | some "readonly" => return ((isStatic, some (fixed.getD ⟨start, ← lastEnd⟩)), true)
    | some _ => return ((isStatic, fixed), true)
    | none => return ((isStatic, fixed), false)) (isStatic, none)

/-- A member after `static`, or where it would stand. -/
def memberAfterStatic (g : Grammar) (ctx : Context) (start : Mark) (decorators : List Tree)
    (isStatic : Bool) : Parse Tree := do
  let (isStatic, fixed) ← laterModifiers isStatic
  if fixed.isNone && (← isWord "accessor") then
    let t ← token
    bump
    let span : Span := ⟨t.start, t.stop⟩
    if let some member ← modifierAsName g ctx start decorators "accessor" span true then
      return member
    if !(← broken) then
      let key ← memberKey g ctx
      let optional ← eatSign "?"
      return ← propertyRest g ctx start decorators key optional true
    unexpected "* for generator, private key, identifier or async"
  if isStatic && (← isSign "\x7b") then return ← staticBlock g ctx start
  if (← isWord "static") && (← peekIs (·.isSign "\x7b")) then
    bump
    return ← staticBlock g ctx start
  if ← atIndexSignature then return ← indexSignature g ctx start
  memberAfterModifiers g ctx start decorators fixed

/-- Takes `declare`; gives the member of that name if it is one. -/
def declareModifier (g : Grammar) (ctx : Context) (start : Mark) (decorators : List Tree) :
    Parse (Option Tree) := do
  let t ← token
  if !(← eatWord "declare") then return none
  modifierAsName g ctx start decorators "declare" ⟨t.start, t.stop⟩ true

/-- A member of a class. -/
def classMember (g : Grammar) (ctx : Context) : Parse Tree := do
  let start ← here
  let decorators ← g.decorators ctx
  if let some member ← declareModifier g ctx start decorators then return member
  let _ ← modifier? ["public", "protected", "private", "in", "out"] true
  if let some member ← declareModifier g ctx start decorators then return member
  let t ← token
  if ← eatWord "static" then
    if let some member ← modifierAsName g ctx start decorators "static" ⟨t.start, t.stop⟩ false then
      return member
    let _ ← modifier? ["public", "protected", "private", "in", "out"] true
    memberAfterStatic g ctx start decorators true
  else memberAfterStatic g ctx start decorators false

/-- The members of a class up to its closing brace. -/
def classMembers (g : Grammar) (ctx : Context) : Parse (List Tree) := do
  let members ← repeated do
    if ← test fun kind => kind = .eof || kind.isSign "\x7d" then return none
    if ← eatSign ";" then return some []
    return some [← advancing (classMember g ctx)]
  return members.flatten

/-- An interface or class that is extended or implemented. -/
def heritageItem (g : Grammar) (ctx : Context) : Parse Tree := do
  let start ← here
  let _ ← identifierName
  let _ ← repeated do
    if !(← isOneOf [".", "?."]) then return none
    bump
    let _ ← identifierName
    return some ()
  let args ← do if ← isSign "<" then typeArgs g ctx else pure []
  return .node (← spanFrom start) args

/-- The list after `extends` or `implements`. -/
def heritageList (g : Grammar) (ctx : Context) : Parse (List Tree) :=
  typeListUntil
    (test fun kind => kind.isSign "\x7b" || kind.isWord "implements" || kind.isWord "extends")
    (heritageItem g ctx)

/-- What a class extends, with its type arguments. -/
structure Parent where
  tree : Tree
  args : List Tree

/-- The class that is extended. Type arguments that were read with it are its own. -/
def superClass (g : Grammar) (ctx : Context) : Parse Parent := do
  let parent ← g.call ctx
  match parent.shape, parent.tree with
  | .instantiation, .node _ (target :: args) => return ⟨target, args⟩
  | _, tree =>
    let args ← do if ← isSign "<" then typeArgs g ctx else pure []
    return ⟨tree, args⟩

/-- What follows the name of a class. -/
structure Heritage where
  parent : Option Parent
  interfaces : List Tree

namespace Heritage

/-- The trees of what a class extends and implements, with its type parameters between. -/
def parts (h : Heritage) (typeParams : List Tree) : List Tree :=
  match h.parent with
  | some parent => parent.tree :: typeParams ++ parent.args ++ h.interfaces
  | none => typeParams ++ h.interfaces

end Heritage

/-- A parent after `extends`, if there is one. -/
def parent? (g : Grammar) (ctx : Context) : Parse (Option Parent) := do
  if ← eatWord "extends" then return some (← superClass g ctx) else return none

/-- The first parent of a class. Others in a list with it are read and left out. -/
def firstParent? (g : Grammar) (ctx : Context) : Parse (Option Parent) := do
  let parent ← parent? g ctx
  if parent.isSome then
    if ← eatSign "," then
      let _ ← heritageList g ctx
  return parent

/-- The interfaces after `implements`, if there are any. -/
def interfaces (g : Grammar) (ctx : Context) : Parse (List Tree) := do
  if ← eatWord "implements" then heritageList g ctx else return []

/-- What follows the name of a class. Further parents and interfaces are read and left out, but a
parent after the interfaces counts if none stands before them. -/
def classHeritage (g : Grammar) (ctx : Context) : Parse Heritage := do
  let first ← firstParent? g ctx
  let _ ← parent? g ctx
  let kept ← interfaces g ctx
  let _ ← interfaces g ctx
  let late ← parent? g ctx
  return ⟨first.or late, kept⟩

/-- A class at its keyword. The name is kept if the class is a declaration. Its type parameters are
searched between what it extends and the type arguments of that. -/
def classAt (g : Grammar) (outer : Context) (start : Mark) (decorators : List Tree)
    (needsName declares : Bool) : Parse Tree := do
  let ctx := { outer with noIn := false, exports := false }
  bump
  let name ← do
    if needsName then pure (some (← bindingIdentifier ctx true))
    else bindingIdentifier? ctx true
  let typeParams ← typeParams? g ctx
  let heritage ← classHeritage g ctx
  expectSign "\x7b"
  let members ← classMembers g ctx
  if !(← test (· = .eof)) then expectSign "\x7d"
  let declared := if declares then name.map (·.1) else none
  return .class (← spanFrom start) declared decorators members (heritage.parts typeParams)

end Parse
end TypeScript
end FetchClients
