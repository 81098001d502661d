/-
# Running again

What stands above a client and was not there before is named by a step of the output
directory or of the client's file (`Path.opens_fold`). So where these spell neither a
configuration nor a repository, a run only adds output (`addsOutput_of_writeClients`),
and a second run finds the same project where nothing climbs out of a directory that
was not there before. It plans the same clients, and writes the same files
(`generate_stable`).

Key definitions: `Path.IsPlain`, `Disk.LeadsPlainly`.
Key theorems: `Path.opens_fold`, `addsOutput_of_writeClients`,
`planGeneration_of_addsOutput`, `generate_stable`, `not_generate_stable`.
-/
import FetchClients.Proofs.AnchoredScans
import FetchClients.Proofs.Rewriting

namespace FetchClients

open Client (Generated)

/-! ### Names of new directories -/

namespace Path

/-- Every place above the one that steps lead to is above their start, or ends in a name of theirs. -/
theorem opens_fold (start : Location) (cs : List Component) : ∀ {place : Location},
    place <+: fold start cs → place <+: start ∨ ∃ above n, place = above ++ [n] ∧ .name n ∈ cs := by
  induction cs using List.reverseRecOn with
  | nil => exact fun hplace => .inl hplace
  | append_singleton cs c ih =>
    intro place hplace
    have hmore : place <+: fold start cs →
        place <+: start ∨ ∃ above n, place = above ++ [n] ∧ .name n ∈ cs ++ [c] := fun hopens =>
      (ih hopens).imp_right fun ⟨above, n, heq, hn⟩ => ⟨above, n, heq, List.mem_append_left _ hn⟩
    rw [fold_append] at hplace
    cases c with
    | root => exact .inl (List.prefix_nil.mp hplace ▸ List.nil_prefix)
    | here => exact hmore hplace
    | up => exact hmore (hplace.trans (List.dropLast_prefix _))
    | name n =>
      rcases List.prefix_concat_iff.mp hplace with heq | hopens
      · exact .inr ⟨_, n, heq, by simp⟩
      · exact hmore hopens

/-- Whether a path spells neither a configuration nor a repository. -/
def IsPlain (p : Path) : Prop :=
  .name Config.fileName ∉ p.steps ∧ .name Config.repositoryName ∉ p.steps

instance (p : Path) : Decidable p.IsPlain := inferInstanceAs (Decidable (_ ∧ _))

theorem IsPlain.ne_of_mem {p : Path} (h : p.IsPlain) {n : String} (hn : .name n ∈ p.steps) :
    n ≠ Config.fileName ∧ n ≠ Config.repositoryName :=
  ⟨fun heq => h.1 (heq ▸ hn), fun heq => h.2 (heq ▸ hn)⟩

end Path

namespace Disk

/-- Whether what a path goes through and is not there is named like neither a configuration nor a
repository. -/
def LeadsPlainly (d : Disk) (p : Path) : Prop :=
  ∀ cs, cs <+: p.steps → ∀ above n, above ++ [n] <+: Path.fold (p.base d.cwd) cs →
    d.get? (above ++ [n]) = none → n ≠ Config.fileName ∧ n ≠ Config.repositoryName

namespace LeadsPlainly

variable {d : Disk} (htree : d.IsTree)
include htree

theorem of_passes {p : Path} (h : d.Passes p) : d.LeadsPlainly p := by
  intro cs hcs above n hopens hnone
  have hthere := htree.get?_prefix (h cs hcs) _ hopens
  rw [hnone] at hthere
  cases hthere

theorem of_isPlain {p : Path} (h : p.IsPlain) : d.LeadsPlainly p := by
  intro cs hcs above n hopens hnone
  rcases Path.opens_fold _ cs hopens with hbase | ⟨above', n', heq, hn⟩
  · have hthere : d.get? (p.base d.cwd) = some .directory := by
      unfold Path.base
      split
      · rfl
      · exact htree.cwd
    rw [htree.get?_prefix hthere _ hbase] at hnone
    cases hnone
  · obtain ⟨-, rfl⟩ := List.append_singleton_inj.mp heq
    exact h.ne_of_mem (hcs.subset hn)

/-- The steps of another path add its names. -/
theorem join {p q : Path} (hp : d.LeadsPlainly p) (hq : q.IsPlain) : d.LeadsPlainly (p.join q) := by
  rcases Path.steps_join_cases p q with ⟨heq, -⟩ | ⟨habs, more, hsteps, hmore⟩
  · rw [heq]
    exact of_isPlain htree hq
  · intro cs hcs above n hopens hnone
    rw [Path.base, habs] at hopens
    rw [hsteps] at hcs
    rcases List.prefix_or_prefix_of_prefix hcs (List.prefix_append p.steps more) with
      hcs | ⟨rest, rfl⟩
    · exact hp cs hcs above n hopens hnone
    · have hrest : rest <+: more := (List.prefix_append_right_inj p.steps).mp hcs
      rw [Path.fold_append] at hopens
      rcases Path.opens_fold _ rest hopens with hstart | ⟨above', n', heq, hn⟩
      · exact hp p.steps List.prefix_rfl above n hstart hnone
      · obtain ⟨-, rfl⟩ := List.append_singleton_inj.mp heq
        exact hq.ne_of_mem ((hmore n).mp (hrest.subset hn))

end LeadsPlainly

end Disk

/-! ### A run adds output -/

/-- A directory of a client is one that its path goes through. -/
theorem Client.Generated.steps_of_mem_directories {client : Generated} (hends : client.endsInSuffix)
    {p : Path} (hp : p ∈ client.directories) :
    p.isAbsolute = client.path.isAbsolute ∧ p.steps <+: client.path.steps := by
  obtain ⟨before, hname⟩ := hends
  obtain ⟨parent, hparent, -⟩ := Path.exists_parent? hname
  rw [directories, hparent] at hp
  obtain ⟨habs, hsteps⟩ := Path.steps_of_mem_ancestorsUpTo hp
  obtain ⟨habs', last, hlast⟩ := Path.steps_parent? hparent
  exact ⟨habs.trans habs', hsteps.trans ⟨[last], hlast.symm⟩⟩

/-- Clients that lead plainly are all that is added by writing them. -/
theorem addsOutput_of_spares {d last : Disk} {clients : List Generated} (htree : d.IsTree)
    (hspares : SparesSources d last clients) (hnamed : ∀ client ∈ clients, client.endsInSuffix)
    (hplain : ∀ client ∈ clients, d.LeadsPlainly client.path) : AddsOutput d last clients := by
  refine ⟨hspares, htree, fun above name hnone hthere => ?_⟩
  have hchanged : last.get? (above ++ [name]) ≠ d.get? (above ++ [name]) := by
    rw [hnone]
    exact Option.isSome_iff_ne_none.mp hthere
  rcases hspares.change _ hchanged with
    ⟨client, -, ⟨before, hname⟩, hplace, -⟩ | ⟨-, hdirectory, client, hclient, p, hp, hplace⟩
  · -- the name of a client's file says enough
    obtain ⟨parent, hparent⟩ := Path.locationFrom_fileName? (.ofLocation d.cwd) hname
    obtain ⟨-, rfl⟩ := List.append_singleton_inj.mp (hplace.trans hparent)
    have hends := Client.endsWith_fileSuffix before
    have hfile : Config.fileName.endsWith Client.fileSuffix = false := by decide +kernel
    have hrepository : Config.repositoryName.endsWith Client.fileSuffix = false := by decide +kernel
    refine ⟨fun heq => ?_, fun heq => ?_, .inr hends⟩
    · rw [heq, hfile] at hends
      cases hends
    · rw [heq, hrepository] at hends
      cases hends
  · obtain ⟨habs, hsteps⟩ := Client.Generated.steps_of_mem_directories (hnamed client hclient) hp
    rw [Disk.locationFrom_cwd htree, Path.base, habs] at hplace
    have hopens : above ++ [name] <+: Path.fold (client.path.base d.cwd) p.steps :=
      hplace ▸ List.prefix_rfl
    obtain ⟨hfile, hrepository⟩ := hplain client hclient p.steps hsteps above name hopens hnone
    exact ⟨hfile, hrepository, .inl hdirectory⟩

/-- The source of a client is a file that the scan has found. -/
theorem MarkedType.path_mem_files {d : Disk} {project : Project} {x : MarkedType}
    (hx : x ∈ ofSources project.config.keys.marker (project.extracted d)) :
    x.path ∈ project.files := by
  have hpath := (extracted_sublist (project.outlines d)).subset (path_mem_of_mem_ofSources hx)
  rwa [Project.map_fst_outlines] at hpath

section Runs

variable {d : Disk} (htree : d.IsTree) {options : GenerateOptions} {project : Project}
  (hload : Project.load d (options.sourceRoot.getD ⟨"."⟩) = .ok project)
include htree hload

/-- The sources of a project have the outlines that they had. -/
theorem outlines_of_addsOutput {last : Disk} {clients : List Generated}
    (h : AddsOutput d last clients) : project.outlines last = project.outlines d := by
  refine List.map_congr_left fun path hpath => ?_
  obtain ⟨-, -, hfiles, -⟩ := Project.load_eq_ok_iff.mp hload
  obtain ⟨hfile, name, hname, hspared⟩ := Scan.fileName?_of_mem_files (hfiles ▸ hpath)
  rw [outlineOf, outlineOf, h.readText htree hname hspared hfile]

variable {g : Generation} (hplan : planGeneration d options = .ok g)
include hplan

/-- A client leads plainly where the output directory and its file's name are plain: the directory
of its source is there. -/
theorem leadsPlainly_of_mem_clients {client : Generated} (hclient : client ∈ g.clients)
    (hdir : ∀ dir, options.outputDir.or project.outputDir = some dir → dir.IsPlain)
    (hname : Path.IsPlain ⟨Client.snakeCase client.service ++ Client.fileSuffix⟩) :
    d.LeadsPlainly client.path := by
  obtain ⟨project', x, service, hload', hx, -, hgenerate⟩ := exists_of_mem_clients hplan hclient
  obtain rfl := Except.ok.inj (hload'.symm.trans hload)
  obtain ⟨hpath, -, hservice, -⟩ := Client.generate_eq_ok_iff.mp hgenerate
  rw [hservice] at hname
  rw [hpath, Client.outputPath_eq_join]
  refine Disk.LeadsPlainly.join htree ?_ hname
  cases houtput : options.outputDir.or project'.outputDir with
  | some dir => exact Disk.LeadsPlainly.of_isPlain htree (hdir dir houtput)
  | none =>
    obtain ⟨-, -, hfiles, -⟩ := Project.load_eq_ok_iff.mp hload
    obtain ⟨hfile, name, hfileName, -⟩ :=
      Scan.fileName?_of_mem_files (hfiles ▸ MarkedType.path_mem_files hx)
    obtain ⟨place, contents, hlookup⟩ := Disk.isFile_eq_true_iff.mp hfile
    obtain ⟨hlocate, -⟩ := Disk.lookup_eq_ok_iff.mp hlookup
    obtain ⟨parent, hparent, -⟩ := Path.exists_parent? hfileName
    have hpasses := Disk.passes_of_parent? htree hlocate hparent
    rw [Client.outputDirectory, Option.none_or, hparent, Option.getD_some]
    exact Disk.LeadsPlainly.of_passes htree hpasses

/-- A run whose clients lead plainly only adds output. -/
theorem addsOutput_of_writeClients {last : Disk} (hwrite : writeClients d g.clients = (last, none))
    (hdir : ∀ dir, options.outputDir.or project.outputDir = some dir → dir.IsPlain)
    (hnames : ∀ client ∈ g.clients,
      Path.IsPlain ⟨Client.snakeCase client.service ++ Client.fileSuffix⟩) :
    AddsOutput d last g.clients := by
  have hnamed : ∀ client ∈ g.clients, client.endsInSuffix := fun client hclient =>
    @endsInSuffix_of_mem_plannedClients d options client (by rwa [plannedClients, hplan])
  refine addsOutput_of_spares htree (sparesSources_of_writeClients htree hnamed hwrite) hnamed ?_
  exact fun client hclient =>
    leadsPlainly_of_mem_clients htree hload hplan hclient hdir (hnames client hclient)

/-! ### The second run -/

/-- The same project with the same outlines is planned in the same way. -/
theorem planGeneration_of_addsOutput {last : Disk} {clients : List Generated}
    (h : AddsOutput d last clients)
    (hagain : Project.load last (options.sourceRoot.getD ⟨"."⟩) = .ok project) :
    planGeneration last options = .ok g := by
  obtain ⟨project', plan, hload', hof, rfl⟩ := exists_plan hplan
  obtain rfl := Except.ok.inj (hload'.symm.trans hload)
  have hcwd : last.cwdPath = d.cwdPath := by rw [Disk.cwdPath, Disk.cwdPath, h.cwd]
  unfold planGeneration
  rw [hagain]
  dsimp only
  rw [outlines_of_addsOutput htree hload h, hcwd, hof]

end Runs

/-- A run without a fault has changed nothing, or has written some clients. -/
theorem writeClients_of_generate {d last : Disk} {options : GenerateOptions} {g : Generation}
    (h : generate d options = (last, .ok g)) : planGeneration d options = .ok g ∧
      (last = d ∨ options.dryRun = false ∧ g.clients ≠ [] ∧
        writeClients d g.clients = (last, none)) := by
  have hplan : planGeneration d options = .ok g := planGeneration_of_generate (by rw [h])
  refine ⟨hplan, ?_⟩
  rw [generate, hplan] at h
  dsimp only at h
  split at h
  · exact .inl (Prod.mk.inj h).1.symm
  · rename_i hdry
    split at h
    · cases (Prod.mk.inj h).2
    · rename_i written hwrite
      obtain rfl := (Prod.mk.inj h).1
      by_cases hclients : g.clients = []
      · rw [hclients] at hwrite
        exact .inl (Prod.mk.inj hwrite).1.symm
      · exact .inr ⟨Bool.eq_false_iff.mpr hdry, hclients, hwrite⟩

/-- A run that ends without a fatal fault can be repeated: it finds the same project, reports the
same, and leaves the disk as it is. Nothing may climb out of what is not there, and what the run
makes must not be named like a configuration or a repository. -/
theorem generate_stable (colours : Bool) {d last : Disk} {options : GenerateOptions}
    {project : Project} {g : Generation} (htree : d.IsTree)
    (hload : Project.load d (options.sourceRoot.getD ⟨"."⟩) = .ok project)
    (hrun : generate d options = (last, .ok g))
    (hroot : d.Anchored (options.sourceRoot.getD ⟨"."⟩))
    (hincludes : ∀ text ∈ project.config.includes,
      Scan.isAnchored d (options.sourceRoot.getD ⟨"."⟩) text = true)
    (hdir : ∀ dir, options.outputDir.or project.outputDir = some dir → dir.IsPlain)
    (hnames : ∀ client ∈ g.clients,
      Path.IsPlain ⟨Client.snakeCase client.service ++ Client.fileSuffix⟩) :
    Project.load last (options.sourceRoot.getD ⟨"."⟩) = .ok project ∧
      ∃ again, generate last options = (again, .ok g) ∧
        (Program.generate colours last options).2 = (Program.generate colours d options).2 ∧
        again.cwd = last.cwd ∧ ∀ place, again.get? place = last.get? place := by
  obtain ⟨hplan, hcases⟩ := writeClients_of_generate hrun
  have hending : ∀ {again}, generate last options = (again, .ok g) →
      (Program.generate colours last options).2 = (Program.generate colours d options).2 := by
    intro again hagain
    rw [Program.generate, Program.generate, hagain, hrun]
  rcases hcases with rfl | ⟨hdry, hclients, hwrite⟩
  · exact ⟨hload, last, hrun, rfl, rfl, fun place => rfl⟩
  · have hadds := addsOutput_of_writeClients htree hload hplan hwrite hdir hnames
    obtain ⟨client, hclient⟩ := List.exists_mem_of_ne_nil _ hclients
    obtain ⟨project', x, service, hload', hx, -, -⟩ := exists_of_mem_clients hplan hclient
    obtain rfl := Except.ok.inj (hload'.symm.trans hload)
    have hagain := Project.load_of_addsOutput hadds hload hroot hincludes
      (MarkedType.path_mem_files hx)
    obtain ⟨again, hrewrite, hcwd, hsame⟩ := writeClients_again htree hwrite
    have hrepeat : generate last options = (again, .ok g) := by
      rw [generate, planGeneration_of_addsOutput htree hload hplan hadds hagain]
      simp only [hdry, Bool.false_eq_true, if_false, hrewrite]
    exact ⟨hagain, again, hrepeat, hending hrepeat, hcwd, hsame⟩

/-- A source below a directory that a wildcard includes. -/
def configuredDisk : Disk where
  entries := [
    ([".stubgenrc.json"], .file (some "\x7b\"includes\": [\"s*\"], \"outputDir\": \"gen\"\x7d")),
    (["src"], .directory),
    (["src", "user.ts"], .file (some "// @HttpClient\nexport interface User \x7b\n\x7d\n"))]
  cwd := []

def configuredOptions : GenerateOptions := ⟨none, none, false, false⟩

theorem load_configuredDisk : ∃ project, Project.load configuredDisk ⟨"."⟩ = .ok project ∧
    project.config.includes = ["s*"] ∧ project.outputDir = some ⟨"./gen"⟩ := by
  have h : (Project.load configuredDisk ⟨"."⟩).toOption.map
      (fun project => (project.config.includes, project.outputDir)) =
        some (["s*"], some ⟨"./gen"⟩) := by decide +kernel
  obtain ⟨project, hload, hfields⟩ := Option.map_eq_some_iff.mp h
  obtain ⟨hincludes, houtput⟩ := Prod.mk.inj hfields
  exact ⟨project, toOption_eq_some_iff.mp hload, hincludes, houtput⟩

theorem generate_stable_configured : ∃ project last g,
    Project.load configuredDisk ⟨"."⟩ = .ok project ∧
      generate configuredDisk configuredOptions = (last, .ok g) ∧
      last.isFile ⟨"gen/user_gen.ts"⟩ = true ∧
      Project.load last ⟨"."⟩ = .ok project ∧
      ∃ again, generate last configuredOptions = (again, .ok g) ∧
        (Program.generate false last configuredOptions).2 =
          (Program.generate false configuredDisk configuredOptions).2 ∧
        again.cwd = last.cwd ∧ ∀ place, again.get? place = last.get? place := by
  have hclients : (generate configuredDisk configuredOptions).2.toOption.map
      (·.clients.map (·.service)) = some ["User"] := by decide +kernel
  have hwritten : (generate configuredDisk configuredOptions).1.isFile ⟨"gen/user_gen.ts"⟩ = true := by
    decide +kernel
  obtain ⟨project, hload, hincludes, houtput⟩ := load_configuredDisk
  have hdir : ∀ dir, configuredOptions.outputDir.or project.outputDir = some dir → dir.IsPlain := by
    intro dir hdir
    obtain rfl := Option.some.inj (houtput.symm.trans hdir)
    decide +kernel
  have hanchored : ∀ text ∈ project.config.includes,
      Scan.isAnchored configuredDisk ⟨"."⟩ text = true := by
    rw [hincludes]
    decide +kernel
  cases hrun : generate configuredDisk configuredOptions with
  | mk last result =>
    rw [hrun] at hclients hwritten
    cases result with
    | error fault => cases hclients
    | ok g =>
      have hservices : g.clients.map (·.service) = ["User"] := Option.some.inj hclients
      have hnames : ∀ client ∈ g.clients,
          Path.IsPlain ⟨Client.snakeCase client.service ++ Client.fileSuffix⟩ := by
        intro client hclient
        have hservice := List.mem_map_of_mem (f := (·.service)) hclient
        rw [hservices, List.mem_singleton] at hservice
        rw [hservice]
        decide +kernel
      exact ⟨project, last, g, hload, rfl, hwritten,
        @generate_stable false configuredDisk last configuredOptions project g (by decide +kernel)
          hload hrun (by decide +kernel) hanchored hdir hnames⟩

/-! ### Runs that cannot be repeated -/

/-- Whether a run writes clients on a tree, with includes that spell no `..` and a plain output
directory. -/
structure Modest (d : Disk) (options : GenerateOptions) : Prop where
  tree : d.IsTree
  writes : options.dryRun = false
  project : ∀ project ∈ (Project.load d (options.sourceRoot.getD ⟨"."⟩)).toOption,
    (∀ text ∈ project.config.includes, Client.climbs ⟨text⟩ = false) ∧
      ∀ dir ∈ options.outputDir.or project.outputDir, dir.IsPlain

instance (d : Disk) (options : GenerateOptions) : Decidable (Modest d options) :=
  decidable_of_iff (d.IsTree ∧ options.dryRun = false ∧
    ∀ project ∈ (Project.load d (options.sourceRoot.getD ⟨"."⟩)).toOption,
      (∀ text ∈ project.config.includes, Client.climbs ⟨text⟩ = false) ∧
        ∀ dir ∈ options.outputDir.or project.outputDir, dir.IsPlain)
    ⟨fun ⟨htree, hwrites, hproject⟩ => ⟨htree, hwrites, hproject⟩,
      fun h => ⟨h.tree, h.writes, h.project⟩⟩

/-- How many sources a run and a second one scan, if both come to their ends. -/
def scannedTwice (d : Disk) (options : GenerateOptions) : Option (Nat × Nat) :=
  (generate d options).2.toOption.bind fun g =>
    (generate (generate d options).1 options).2.toOption.map fun other => (g.scanned, other.scanned)

def userSource : Entry :=
  .file (some "// @HttpClient\nexport interface User \x7b\n\x7d\n")

/-- The include matches `..` in every directory. -/
def dotsDisk : Disk where
  entries := [
    ([".stubgenrc.json"], .file (some "\x7b\"includes\": [\"*/.*\"]\x7d")),
    (["src"], .directory),
    (["src", "user.ts"], userSource)]
  cwd := []

/-- A source root that climbs out of a missing directory has the configuration above it. -/
def detourDisk : Disk where
  entries := [
    ([".stubgenrc.json"], .file (some "\x7b\"includes\": [\"/src\"]\x7d")),
    (["src"], .directory),
    (["src", "user.ts"], userSource),
    (["lib"], .directory),
    (["lib", ".stubgenrc.json"], .file (some "\x7b\x7d"))]
  cwd := []

/-- A declaration whose name has a slash, as only an escape can put it there. -/
def escapeDisk : Disk where
  entries := [
    ([".stubgenrc.json"], .file (some "\x7b\"ignores\": [\"b.ts\"]\x7d")),
    (["src"], .directory),
    (["src", "b.ts"], userSource),
    (["src", "user.ts"],
      .file (some "// @HttpClient\nexport interface \\u002egit\\u002fUser \x7b\n\x7d\n"))]
  cwd := []

/-- Includes that spell no `..` and a plain output directory are not enough: a second run also finds
the source by the `..` of the new `gen`, or finds the configuration that its root now leads to, or
stops its search for a configuration at the new `src/.git`. -/
theorem not_generate_stable :
    (Modest dotsDisk ⟨none, some ⟨"gen"⟩, false, false⟩ ∧
      scannedTwice dotsDisk ⟨none, some ⟨"gen"⟩, false, false⟩ = some (2, 3)) ∧
    (Modest detourDisk ⟨some ⟨"gen/../lib"⟩, some ⟨"gen"⟩, false, false⟩ ∧
      scannedTwice detourDisk ⟨some ⟨"gen/../lib"⟩, some ⟨"gen"⟩, false, false⟩ = some (1, 0)) ∧
    (Modest escapeDisk ⟨some ⟨"src"⟩, none, false, false⟩ ∧
      scannedTwice escapeDisk ⟨some ⟨"src"⟩, none, false, false⟩ = some (1, 2)) := by
  refine ⟨⟨?_, ?_⟩, ⟨?_, ?_⟩, ?_, ?_⟩ <;> decide +kernel

end FetchClients
