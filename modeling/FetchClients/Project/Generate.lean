/-
# Generating the clients of a project

Every marked declaration of every source that has an outline is planned in
order. The first service that claims an output path gets it, and a later one
with the same path is an issue, as is every declaration that is no service and
every source without an outline. Only when all is planned are the clients
written, one after the other.

Key definitions: `Marked`, `Plan`, `Plan.of`, `Plan.write`, `Generation`,
`Project.generate`.
-/
import FetchClients.Client.Generated
import FetchClients.Disk.Change
import FetchClients.Issue
import FetchClients.Project.Basic
import FetchClients.Service.FromType

namespace FetchClients

open Client (Generated)

/-- A marked declaration in a source. -/
structure Marked where
  source : String
  candidate : Candidate

namespace Marked

/-- The issue that a fault makes of a declaration. -/
def issue (m : Marked) (fault : ServiceFault) : Issue :=
  .invalidService m.source m.candidate.type.decl.node.line m.candidate.type.decl.node.name fault

/-- The marked declarations of the sources that have an outline. -/
def ofOutlines (keys : Keys) : List (String × Except SourceFault FileOutline) → List Marked
  | [] => []
  | (source, .ok file) :: rest =>
    (file.candidates keys).map (⟨source, ·⟩) ++ ofOutlines keys rest
  | (_, .error _) :: rest => ofOutlines keys rest

end Marked

/-- The clients that will be written, and the declarations that will have none. -/
structure Plan where
  clients : List Generated
  rejected : List Issue
deriving DecidableEq, Repr

namespace Plan

/-- The service whose client is written to a path. -/
def owner? (p : Plan) (path : Path) : Option String :=
  (p.clients.find? fun client => client.path.sameSteps path).map (·.service)

/-- The plan with one more declaration. -/
def add (cwd : Path) (outputDir : Option Path) (p : Plan) (m : Marked) :
    Except Client.ImportFault Plan :=
  match m.candidate.result with
  | .error fault => .ok { p with rejected := p.rejected ++ [m.issue fault] }
  | .ok service =>
    match Client.generate cwd service m.source outputDir with
    | .error fault => .error fault
    | .ok client =>
      match p.owner? client.path with
      | some other =>
        let fault := ServiceFault.duplicateOutput client.path.text other
        .ok { p with rejected := p.rejected ++ [m.issue fault] }
      | none => .ok { p with clients := p.clients ++ [client] }

/-- The plan for declarations, after what is planned already. -/
def extend (cwd : Path) (outputDir : Option Path) (p : Plan) :
    List Marked → Except Client.ImportFault Plan
  | [] => .ok p
  | m :: rest =>
    match p.add cwd outputDir m with
    | .error fault => .error fault
    | .ok p => p.extend cwd outputDir rest

/-- The plan for declarations. -/
def of (cwd : Path) (outputDir : Option Path) (marked : List Marked) :
    Except Client.ImportFault Plan :=
  (Plan.mk [] []).extend cwd outputDir marked

end Plan

/-- Why clients cannot be written. -/
inductive WriteFault where
  | directory (path : Path) (problem : Problem)
  | file (path : Path) (problem : Problem)
deriving DecidableEq, Repr

/-- The fault in words. -/
def WriteFault.message : WriteFault → String
  | directory path problem => "Failed to create directory " ++ path.text ++ ": " ++ problem.message
  | file path problem => "Failed to write " ++ path.text ++ ": " ++ problem.message

/-- Writes a client, after the directories that lead to it. -/
@[irreducible] def Client.Generated.write (d : Disk) (client : Generated) : Disk × Option WriteFault :=
  let directory := client.path.parent?.getD ⟨""⟩
  match d.makeDirectories directory with
  | (d, some problem) => (d, some (.directory directory problem))
  | (d, none) =>
    match d.writeFile client.path (some client.contents) with
    | .error problem => (d, some (.file client.path problem))
    | .ok d => (d, none)

/-- Writes clients, up to the first that cannot be written. -/
def writeClients (d : Disk) : List Generated → Disk × Option WriteFault
  | [] => (d, none)
  | client :: clients =>
    match client.write d with
    | (d, some fault) => (d, some fault)
    | (d, none) => writeClients d clients

/-- How a run is asked for. -/
structure GenerateOptions where
  sourceRoot : Option Path
  outputDir : Option Path
  dryRun : Bool
  verbose : Bool
deriving DecidableEq, Repr

/-- What a run did. -/
structure Generation where
  scanned : Nat
  clients : List Generated
  dryRun : Bool
  skipped : Nat
  issues : List Issue
deriving DecidableEq, Repr

/-- Why a run ended early. -/
inductive GenerateFault where
  | config (fault : Config.LoadFault)
  | importPath (fault : Client.ImportFault)
  | write (fault : WriteFault)
deriving DecidableEq, Repr

/-- The fault in words. -/
def GenerateFault.message : GenerateFault → String
  | config fault => fault.message
  | importPath fault => fault.message
  | write fault => fault.message

/-- The issues of the sources that have no outline. -/
def unreadableIssues : List (String × Except SourceFault FileOutline) → List Issue
  | [] => []
  | (path, .error fault) :: rest => .unreadable path fault.summary :: unreadableIssues rest
  | (_, .ok _) :: rest => unreadableIssues rest

/-- The working directory as a path. -/
def Disk.cwdPath (d : Disk) : Path :=
  Path.ofLocation d.cwd

/-- What a run plans to do: the clients it writes, and what it reports. -/
def planGeneration (d : Disk) (options : GenerateOptions) : Except GenerateFault Generation :=
  match Project.load d (options.sourceRoot.getD ⟨"."⟩) with
  | .error fault => .error (.config fault)
  | .ok project =>
    let outlines := project.outlines d
    let marked := Marked.ofOutlines project.config.keys outlines
    match Plan.of d.cwdPath (options.outputDir.or project.outputDir) marked with
    | .error fault => .error (.importPath fault)
    | .ok plan =>
      .ok ⟨project.files.length, plan.clients, options.dryRun, project.skipped,
        unreadableIssues outlines ++ plan.rejected⟩

/-- Generates the clients of a project; a dry run writes nothing. -/
def generate (d : Disk) (options : GenerateOptions) : Disk × Except GenerateFault Generation :=
  match planGeneration d options with
  | .error fault => (d, .error fault)
  | .ok generation =>
    if options.dryRun then (d, .ok generation)
    else match writeClients d generation.clients with
      | (d, some fault) => (d, .error (.write fault))
      | (d, none) => (d, .ok generation)

end FetchClients
