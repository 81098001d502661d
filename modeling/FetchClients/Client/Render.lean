/-
# The text of a client

A client is a class that implements a declared type by sending every request to
the method's path. Names, paths and types stand in the text as they are.

Key definitions: `Client.render`, `Client.methodLines`.
-/
import FetchClients.Service.Basic

namespace FetchClients
namespace Client

/-- The text of lines, each ended by a line break. -/
def unlines (lines : List String) : String :=
  String.join (lines.map (· ++ "\n"))

/-- The lines of one method, after the blank line that divides it from the last. -/
def methodLines (m : Method) : List String := [
  "",
  "  async " ++ m.name ++ "(req: " ++ m.requestType ++ "): Promise<" ++ m.responseType ++ "> \x7b",
  "    const resp = await this.fetchFn(this.endpoint + this.path + \"" ++ m.path ++ "\", \x7b",
  "      method: \"POST\",",
  "      headers: \x7b \"Content-Type\": \"application/json\" \x7d,",
  "      body: JSON.stringify(req),",
  "    \x7d);",
  "    if (!resp.ok) \x7b",
  "      throw new Error(`" ++ m.name ++ ": HTTP $\x7bresp.status\x7d`);",
  "    \x7d",
  "    return (await resp.json()) as " ++ m.responseType ++ ";",
  "  \x7d"]

/-- The names that a client imports: its interface, then the types of its methods. -/
def importedNames (s : Service) : List String :=
  s.interface :: s.imports

/-- The lines above the methods. -/
def headerLines (s : Service) (source specifier : String) : List String := [
  "// Code generated by stubgen. DO NOT EDIT.",
  "// source: " ++ source,
  "",
  "import type \x7b " ++ String.intercalate ", " (importedNames s) ++ " \x7d from \"" ++
    specifier ++ "\";",
  "",
  "export class " ++ s.className ++ " implements " ++ s.interface ++ " \x7b",
  "  constructor(",
  "    private readonly endpoint: string,",
  "    private readonly path: string,",
  "    private readonly fetchFn: typeof fetch = fetch,",
  "  ) \x7b\x7d"]

/-- The client of a service that is declared in `source` and imported as `specifier`. -/
def render (s : Service) (source specifier : String) : String :=
  unlines (headerLines s source specifier ++ s.methods.flatMap methodLines ++ ["\x7d"])

end Client
end FetchClients
