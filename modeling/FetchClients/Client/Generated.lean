/-
# Generated files

A generated file is the client of one service with the path it is written to.
Its import specifier leads from that path's directory to the source.

Key definitions: `Client.Generated`, `Client.generate`.
Key theorem: `Client.generate_eq_ok_iff`.
-/
import FetchClients.Client.Import
import FetchClients.Client.Name
import FetchClients.Client.Render

namespace FetchClients
namespace Client

/-- A client that is not yet written. -/
structure Generated where
  path : Path
  source : String
  service : String
  contents : String
deriving DecidableEq, Repr, Inhabited

/-- The client of a service that is declared in `source`. -/
def generate (cwd : Path) (s : Service) (source : String) (outputDir : Option Path) :
    Except ImportFault Generated :=
  let path := outputPath ⟨source⟩ s.name outputDir
  match resolveImport cwd (path.parent?.getD ⟨""⟩) ⟨source⟩ with
  | .error fault => .error fault
  | .ok specifier => .ok ⟨path, source, s.name, render s source specifier⟩

theorem generate_eq_ok_iff {cwd : Path} {s : Service} {source : String} {outputDir : Option Path}
    {client : Generated} :
    generate cwd s source outputDir = .ok client ↔
      client.path = outputPath ⟨source⟩ s.name outputDir ∧ client.source = source ∧
        client.service = s.name ∧ ∃ specifier,
          resolveImport cwd (client.path.parent?.getD ⟨""⟩) ⟨source⟩ = .ok specifier ∧
            client.contents = render s source specifier := by
  unfold generate
  constructor
  · intro h
    dsimp only at h
    split at h
    · cases h
    · rename_i specifier hspecifier
      obtain rfl := Except.ok.inj h
      exact ⟨rfl, rfl, rfl, specifier, hspecifier, by dsimp only⟩
  · obtain ⟨path, file, service, contents⟩ := client
    dsimp only
    rintro ⟨rfl, rfl, rfl, specifier, hspecifier, rfl⟩
    rw [hspecifier]

end Client
end FetchClients
