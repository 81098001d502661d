/-
# Faults of the syntax

Why a source cannot be read, and the line where the first such fault lies.

Key definitions: `Fault`, `Fault.message`, `Failure`.
-/

namespace FetchClients
namespace TypeScript

/-- Why reading stops. -/
inductive Fault where
  | expressionExpected
  | identifierExpected
  | unexpectedEnd
  | semicolonExpected
  | expected (wanted found : String)
  | unexpected (found wanted : String)
  | unterminatedTemplate
  | unterminatedRegex
  | badEscape (wanted : String)
  | badUnicodeEscape
  | escapedKeyword (word : String)
  | identifierAfterNumber
  | digitExpected (radix : Nat)
  | exponentExpected
  | strayCharacter (shown : String)
  | spaceAfterHash
  | readonlyMethod
  | asyncConstructor
  | constructorProperty
  | exportInside
  | decoratorsTwice
  | awaitAsName
  | breakInThrow
  | setterWithoutParam
  | optionalPattern
  | badParameterProperty
  | emptyParens
  | spreadInParens
  | breakBeforeArrow
  | misplacedArrow
  | notPattern
  | powerOfUnary
  | misplacedSuper
  | misplacedImport
  | superNonNull
  | optionalNew
  | reservedImport
  | stringImport (name : String)
  | awaitStar
  | jsxAttributeValue
  | tooDeep
deriving DecidableEq, Repr, Inhabited

/-- The name of a number system. -/
def radixName (radix : Nat) : String :=
  match radix with
  | 2 => "binary"
  | 8 => "octal"
  | 16 => "hex"
  | _ => "decimal"

/-- The fault in words. -/
def Fault.message : Fault → String
  | expressionExpected => "Expression expected"
  | identifierExpected => "Expected ident"
  | unexpectedEnd => "Unexpected eof"
  | semicolonExpected => "Expected ';', '\x7d' or <eof>"
  | expected wanted found => "Expected '" ++ wanted ++ "', got '" ++ found ++ "'"
  | unexpected found wanted => "Unexpected token `" ++ found ++ "`. Expected " ++ wanted
  | unterminatedTemplate => "Unterminated template"
  | unterminatedRegex => "Unterminated regexp literal"
  | badEscape wanted => "Bad character escape sequence, expected " ++ wanted
  | badUnicodeEscape => "Invalid unicode escape"
  | escapedKeyword word => "Unexpected escape sequence in reserved word: " ++ word
  | identifierAfterNumber => "Identifier cannot follow number"
  | digitExpected radix => "Expected " ++ radixName radix ++ " digits"
  | exponentExpected => "Expected +, - or decimal digit after e"
  | strayCharacter shown => "Unexpected character " ++ shown
  | spaceAfterHash => "Unexpected space between # and identifier"
  | readonlyMethod => "A method cannot be readonly"
  | asyncConstructor => "Constructor can't be an async function"
  | constructorProperty => "Classes may not have a non-private field named 'constructor'"
  | exportInside => "'import', and 'export' cannot be used outside of module code"
  | decoratorsTwice =>
    "Decorators may not appear after 'export' or 'export default' if they also appear before " ++
      "'export'."
  | awaitAsName => "`await` cannot be used as an identifier in an async context"
  | breakInThrow => "LineBreak cannot follow 'throw'"
  | setterWithoutParam => "Setter should have exactly one parameter"
  | optionalPattern =>
    "A binding pattern parameter cannot be optional in an implementation signature."
  | badParameterProperty =>
    "Typescript parameter property must be an identifier or assignment pattern"
  | emptyParens => "Parenthesized expression cannot be empty"
  | spreadInParens => "Parenthesized expression cannot contain spread operator"
  | breakBeforeArrow => "Unexpected line break between arrow head and arrow"
  | misplacedArrow => "Arrow function is not allowed here"
  | notPattern => "Not a pattern"
  | powerOfUnary => "** cannot be applied to unary expression"
  | misplacedSuper => "Invalid access to super"
  | misplacedImport => "Import is not allowed here"
  | superNonNull => "Typescript non-null assertion operator is not allowed with 'super'"
  | optionalNew => "Constructor in/after an Optional Chaining is not allowed."
  | reservedImport => "cannot import as reserved word"
  | stringImport name =>
    "A string literal \"" ++ name ++ "\" cannot be used as an imported binding.\n" ++
      "- did you mean `import \x7b \"" ++ name ++ "\" as foo \x7d`?"
  | awaitStar =>
    "await* has been removed from the async functions proposal. Use Promise.all() instead."
  | jsxAttributeValue => "JSX value should be either an expression or a quoted JSX text"
  | tooDeep => "Nesting too deep"

/-- A fault and the line it lies on. -/
structure Failure where
  fault : Fault
  line : Nat
deriving DecidableEq, Repr, Inhabited

/-- The failure in words. -/
def Failure.message (f : Failure) : String :=
  "Failed to parse at line " ++ toString f.line ++ ": " ++ f.fault.message

end TypeScript
end FetchClients
