/-
# Names of generated files

A client is written to a file named after its service: every upper-case letter
becomes lower case, with a `_` in front of it unless it opens the name.

Key definitions: `Client.snakeCase`, `Client.outputPath`, `Client.outputDirectory`.
Key theorem: `Client.outputPath_eq_join`.
-/
import FetchClients.Path.Basic
import FetchClients.Text.LetterCase

namespace FetchClients
namespace Client

/-- How a character after the first stands in a file name. -/
def snakePart (c : Char) : List Char :=
  if Text.isUpper c then '_' :: Text.toLower c else [c]

/-- A name in lower case, its words divided by `_`. -/
def snakeCase (name : String) : String :=
  match name.toList with
  | [] => ""
  | c :: cs =>
    String.ofList ((if Text.isUpper c then Text.toLower c else [c]) ++ cs.flatMap snakePart)

/-- The end of the name of every generated file. -/
def fileSuffix : String := "_gen.ts"

/-- Where the client of a service is written: in the output directory, or else beside its
source. -/
def outputPath (source : Path) (service : String) (outputDir : Option Path) : Path :=
  let file : Path := ⟨snakeCase service ++ fileSuffix⟩
  match outputDir, source.parent? with
  | some dir, _ => dir.join file
  | none, some dir => dir.join file
  | none, none => file

/-- The directory that a client is written to. -/
def outputDirectory (source : Path) (outputDir : Option Path) : Path :=
  (outputDir.or source.parent?).getD ⟨""⟩

/-- A client is written to its file in the output directory. -/
theorem outputPath_eq_join (source : Path) (name : String) (outputDir : Option Path) :
    outputPath source name outputDir =
      (outputDirectory source outputDir).join ⟨snakeCase name ++ fileSuffix⟩ := by
  have hempty : ∀ p : Path, (Path.mk "").join p = p := by
    intro p
    unfold Path.join
    split <;> simp
  cases outputDir with
  | some dir => rfl
  | none => cases hparent : source.parent? <;> simp [outputPath, outputDirectory, hparent, hempty]

end Client
end FetchClients
