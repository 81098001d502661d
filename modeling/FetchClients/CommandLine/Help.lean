/-
# Help texts

What the program prints when it is asked for help or for its version.

Key definitions: `CommandLine.Topic`, `CommandLine.Topic.text`,
`CommandLine.versionText`.
-/

namespace FetchClients
namespace CommandLine

/-- What help is given on. -/
inductive Topic where
  | program
  | generate
  | inspect
  | init
  | help
deriving DecidableEq, Repr

/-- The commands as they are written. -/
def Topic.ofCommand? (text : String) : Option Topic :=
  match text with
  | "generate" => some .generate
  | "inspect" => some .inspect
  | "init" => some .init
  | "help" => some .help
  | _ => none

/-- The help on a topic, as lines. -/
def Topic.lines : Topic → List String
  | program => [
    "Generate HTTP client stubs from @-annotations in TypeScript doc comments",
    "",
    "Usage: stubgen [COMMAND]",
    "",
    "Commands:",
    "  generate  Generate HTTP clients for annotated declarations",
    "  inspect   Print the annotations of a source file as JSON",
    "  init      Initialize a new .stubgenrc.json configuration file",
    "  help      Print this message or the help of the given subcommand(s)",
    "",
    "Options:",
    "  -h, --help     Print help",
    "  -V, --version  Print version"]
  | generate => [
    "Generate HTTP clients for annotated declarations",
    "",
    "Usage: stubgen generate [OPTIONS]",
    "",
    "Options:",
    "      --source-root <SOURCE_ROOT>  Source code root directory (default: current directory)",
    "  -v, --verbose                    Enable verbose output",
    "      --output-dir <OUTPUT_DIR>    Directory for generated files (overrides config file)",
    "      --dry-run                    Report what would be generated without writing files",
    "  -h, --help                       Print help"]
  | inspect => [
    "Print the annotations of a source file as JSON",
    "",
    "Usage: stubgen inspect [OPTIONS] <FILE>",
    "",
    "Arguments:",
    "  <FILE>  Source file to inspect",
    "",
    "Options:",
    "  -v, --verbose  Enable verbose output",
    "  -h, --help     Print help"]
  | init => [
    "Initialize a new .stubgenrc.json configuration file",
    "",
    "Usage: stubgen init",
    "",
    "Options:",
    "  -h, --help  Print help"]
  | help => [
    "Print this message or the help of the given subcommand(s)",
    "",
    "Usage: stubgen help [COMMAND]...",
    "",
    "Arguments:",
    "  [COMMAND]...  Print help for the subcommand(s)"]

/-- The help on a topic. -/
def Topic.text (topic : Topic) : String :=
  String.join (topic.lines.map (· ++ "\n"))

/-- The version of the program. -/
def versionText : String := "stubgen 0.1.0\n"

end CommandLine
end FetchClients
