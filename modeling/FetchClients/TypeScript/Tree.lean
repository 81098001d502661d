/-
# Syntax trees

A tree keeps what an outline needs: declarations, members with their types, and
the patterns of parameters. All other syntax is a plain node with its parts. The
parts stand in the order in which they are searched for declarations, which is
the order of the fields of a syntax node. It is that of the source except where a
comment says otherwise, here or where a node is read. Syntax that no field holds
is read and left out.

Key definitions: `Tree`, `MemberHead`, `Tree.span`, `Tree.parts`.
-/
import FetchClients.TypeScript.Comment
import FetchClients.TypeScript.Source

namespace FetchClients
namespace TypeScript

/-- The place of a member, of its name, and whether it is optional. -/
structure MemberHead where
  span : Span
  name : Span
  optional : Bool
deriving DecidableEq, Repr, Inhabited

/-- The syntax of a source. -/
inductive Tree where
  /-- Syntax of no interest beyond its parts. -/
  | node (span : Span) (parts : List Tree)
  /-- A type that is named by one identifier, with its arguments. -/
  | reference (span : Span) (name : String) (args : List Tree)
  /-- Syntax none of whose inner members belong to the declaration around it. -/
  | sealed (span : Span) (parts : List Tree)
  /-- A property. Its value is searched before its type, and its decorators come last. -/
  | property (head : MemberHead) (key : List Tree) (value type : Option Tree)
      (decorators : List Tree)
  /-- A method of a class or a signature. The decorators, the body and the type parameters of a
  method are searched between its parameters and its return type, the type parameters of a
  signature after its return type. -/
  | method (head : MemberHead) (inClass : Bool) (key params : List Tree) (returns : Option Tree)
      (others : List Tree)
  | interface (span : Span) (name : String) (heritage members : List Tree)
  | typeAlias (span : Span) (name : String) (params : List Tree) (type : Tree)
  /-- A class with the name it declares, if it is a declaration with a name. What it extends, its
  type parameters and what it implements are searched after its members. -/
  | class (span : Span) (name : Option String) (decorators members heritage : List Tree)
  /-- A declaration below `export`. -/
  | exported (span : Span) (declaration : Tree)
  /-- An identifier that is bound. -/
  | binding (span : Span) (name : String) (type : Option Tree)
  /-- An object or array pattern; the span takes in the type. -/
  | pattern (span : Span) (parts : List Tree) (type : Option Tree)
  /-- A rest pattern with what it binds. -/
  | rest (span : Span) (argument : Tree) (type : Option Tree)
  /-- A pattern with a default value. -/
  | initialized (span : Span) (target value : Tree)
  /-- A parameter with its decorators. -/
  | parameter (span : Span) (decorators : List Tree) (target : Tree)
  /-- An arrow function. Its type parameters are searched after its body, before its return type. -/
  | arrow (span : Span) (params : List Tree) (body : Tree) (typeParams : List Tree)
      (returns : Option Tree)
deriving Inhabited, Repr

namespace Tree

/-- The piece of the source that a tree stands for. -/
def span : Tree → Span
  | node span _ | reference span _ _ | sealed span _ | interface span .. | typeAlias span ..
  | .class span .. | exported span _ | binding span .. | pattern span .. | rest span ..
  | initialized span .. | parameter span .. | arrow span .. => span
  | property head .. | method head .. => head.span

/-- The trees that a tree is made of, in the order in which they are searched. -/
def parts : Tree → List Tree
  | node _ parts | sealed _ parts => parts
  | reference _ _ args => args
  | property _ key value type decorators => key ++ value.toList ++ type.toList ++ decorators
  | method _ true key params returns others => key ++ params ++ others ++ returns.toList
  | method _ false key params returns others => key ++ params ++ returns.toList ++ others
  | interface _ _ heritage members => heritage ++ members
  | typeAlias _ _ params type => params ++ [type]
  | .class _ _ decorators members heritage => decorators ++ members ++ heritage
  | exported _ declaration => [declaration]
  | binding _ _ type => type.toList
  | pattern _ parts type => parts ++ type.toList
  | rest _ argument type => argument :: type.toList
  | initialized _ target value => [target, value]
  | parameter _ decorators target => decorators ++ [target]
  | arrow _ params body typeParams returns => params ++ body :: typeParams ++ returns.toList

/-- A tree without parts. -/
def leaf (span : Span) : Tree := node span []

/-- A tree for no syntax at all. -/
def nothing : Tree := leaf ⟨Mark.origin, Mark.origin⟩

end Tree

/-- A source that was read: its text, its items and its comments by the place of the token they
belong to. -/
structure Module where
  source : List Char
  items : List Tree
  comments : List (Nat × List Comment)
deriving Inhabited

namespace Module

/-- The comments that belong to the token at a place. -/
def commentsAt (m : Module) (place : Mark) : List Comment :=
  match m.comments.find? (·.1 = place.offset) with
  | some (_, comments) => comments
  | none => []

/-- The comments of the first token that has any. -/
def firstComments (m : Module) : List Comment :=
  match m.comments.head? with
  | some (_, comments) => comments
  | none => []

end Module

end TypeScript
end FetchClients
