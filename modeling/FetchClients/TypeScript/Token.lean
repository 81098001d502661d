/-
# Tokens

The words, signs and literals of a source. A `<` or `>` is a token of its own,
since types nest between them; where an operator may stand, the longer signs
are read instead.

Key definitions: `TokenKind`, `Token`, `TokenKind.shown`, `isReserved`,
`TokenKind.isOperator`, `TokenKind.isAssignment`.
-/
import FetchClients.TypeScript.Fault
import FetchClients.TypeScript.Source

namespace FetchClients
namespace TypeScript

/-- What a token is. The name of a word has its escapes decoded; a string is its text between the
quotes as it is written. -/
inductive TokenKind where
  | word (name : String)
  | sign (text : String)
  | number
  | bigint
  | string (raw : String)
  | regex
  | template (closed : Bool)
  | templateEnd (closed : Bool)
  | jsxText
  | eof
  | bad (fault : Fault)
deriving DecidableEq, Repr, Inhabited

/-- A token with its place, whether a line break is before it, and the text after it. -/
structure Token where
  kind : TokenKind
  start : Mark
  stop : Mark
  afterBreak : Bool
  rest : List Char
deriving Inhabited

/-- Words that are never identifiers. -/
def reservedWords : List String := [
  "break", "case", "catch", "class", "const", "continue", "debugger", "default", "delete", "do",
  "else", "enum", "export", "extends", "false", "finally", "for", "function", "if", "import", "in",
  "instanceof", "new", "null", "return", "super", "switch", "this", "throw", "true", "try",
  "typeof", "var", "void", "while", "with"]

/-- Further words that are no identifiers in a module, which is always strict. -/
def strictWords : List String := [
  "await", "implements", "interface", "let", "package", "private", "protected", "public", "static",
  "yield"]

/-- Whether a word cannot be an identifier in a module. -/
def isReserved (word : String) : Bool :=
  reservedWords.contains word || strictWords.contains word

/-- Words that are only ever keywords, after which a comment belongs to what follows. -/
def isKeyword (word : String) : Bool :=
  (reservedWords.contains word && !(["enum", "false", "null", "true"].contains word)) ||
    ["await", "let", "yield"].contains word

/-- Signs that stand between two operands. -/
def operatorSigns : List String := [
  "!=", "!==", "%", "&", "&&", "*", "**", "+", "-", "/", "<", "<<", "<=", "==", "===", ">", ">=",
  ">>", ">>>", "??", "^", "|", "||"]

/-- Signs that assign. -/
def assignmentSigns : List String := [
  "=", "%=", "&&=", "&=", "**=", "*=", "+=", "-=", "/=", "<<=", ">>=", ">>>=", "??=", "^=", "|=",
  "||="]

namespace TokenKind

/-- How a token is named in a fault. -/
def shown : TokenKind → String
  | word name =>
    if isReserved name || contextual.contains name then name else "ident"
  | sign text => text
  | number => "numeric literal"
  | bigint => "bigint literal"
  | string _ => "string literal"
  | regex => "regexp literal"
  | template _ => "template"
  | templateEnd _ => "template"
  | jsxText => "jsx text"
  | eof => "<eof>"
  | bad _ => "<lexing error>"
where
  /-- Words with a meaning of their own in some places. -/
  contextual : List String := [
    "abstract", "accessor", "any", "as", "assert", "asserts", "async", "bigint", "boolean",
    "constructor", "declare", "defer", "from", "get", "global", "infer", "intrinsic", "is", "keyof",
    "meta", "module", "namespace", "never", "number", "object", "of", "out", "override", "readonly",
    "require", "satisfies", "set", "source", "string", "symbol", "target", "type", "undefined",
    "unique", "unknown", "using"]

/-- Whether the token is this word. -/
def isWord (kind : TokenKind) (name : String) : Bool :=
  kind = word name

/-- Whether the token is this sign. -/
def isSign (kind : TokenKind) (text : String) : Bool :=
  kind = sign text

/-- Whether the token is a word of any kind. -/
def isAnyWord : TokenKind → Bool
  | word _ => true
  | _ => false

/-- Whether the token may be an identifier. -/
def isIdentifier : TokenKind → Bool
  | word name => !isReserved name
  | _ => false

/-- Whether the token is a string. -/
def isString : TokenKind → Bool
  | string _ => true
  | _ => false

/-- Whether the token starts a template. -/
def isTemplate : TokenKind → Bool
  | template _ => true
  | _ => false

/-- Whether the token is an operator sign. -/
def isOperator : TokenKind → Bool
  | sign text => operatorSigns.contains text
  | _ => false

/-- Whether the token assigns. -/
def isAssignment : TokenKind → Bool
  | sign text => assignmentSigns.contains text
  | _ => false

/-- Whether a block comment on the same line after the token belongs to the token. -/
def keepsBlockComment : TokenKind → Bool
  | word name => !isKeyword name
  | sign text => [";", "\x7b", "\x7d"].contains text
  | number | bigint | string _ | regex | jsxText => true
  | template closed | templateEnd closed => !closed
  | eof | bad _ => false

end TokenKind

end TypeScript
end FetchClients
