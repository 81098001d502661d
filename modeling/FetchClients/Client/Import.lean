/-
# Import specifiers

How a generated file names the module it imports from: up from its directory to
the part that both paths share, then down to the module. Paths that do not
start in the same place, or that climb, are first made absolute.

Key definitions: `Client.importPath`, `Client.resolveImport`, `Client.ImportFault`.
-/
import FetchClients.Path.Lexical

namespace FetchClients
namespace Client

/-- The only fault of a specifier: a path to be made absolute is empty. -/
inductive ImportFault where
  | emptyPath
deriving DecidableEq, Repr

/-- The fault in words. -/
def ImportFault.message : ImportFault → String
  | emptyPath => "cannot make an empty path absolute"

/-- The steps of a path without those that stay. -/
def moves (p : Path) : List Component :=
  p.components.filter (· ≠ .here)

/-- Two lists without the part that opens both. -/
def dropCommon {α : Type} [DecidableEq α] : List α → List α → List α × List α
  | x :: xs, y :: ys => if x = y then dropCommon xs ys else (x :: xs, y :: ys)
  | xs, ys => (xs, ys)

/-- The specifier's parts from one directory to another. -/
def specifierParts (fromSteps toSteps : List Component) (stem : String) : List String :=
  let (up, down) := dropCommon fromSteps toSteps
  up.map (fun _ => "..") ++ down.map Component.text ++ [stem]

/-- The specifier of `source` in a file in `fromDir`, both taken below the same directory. -/
def importPath (fromDir source : Path) : String :=
  let moduleDir := source.parent?.getD ⟨""⟩
  let parts := specifierParts (moves fromDir) (moves moduleDir) (source.stem?.getD "")
  let joined := String.intercalate "/" parts
  if joined.startsWith ".." then joined else "./" ++ joined

/-- Whether a path climbs. -/
def climbs (p : Path) : Bool :=
  p.components.contains .up

/-- The specifier of `source` in a file in `fromDir`, either below the working directory. -/
def resolveImport (cwd fromDir source : Path) : Except ImportFault String :=
  if fromDir.isAbsolute = source.isAbsolute ∧ !climbs fromDir ∧ !climbs source then
    .ok (importPath fromDir source)
  else match fromDir.absolute? cwd, source.absolute? cwd with
    | some dir, some file => .ok (importPath dir file)
    | _, _ => .error .emptyPath

end Client
end FetchClients
