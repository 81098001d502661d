/-
# A project after `init`

`init` writes the settings that a project has without a configuration: what it writes
is read back as them (`Config.read_default`). So a run of `generate` that found no
configuration plans the same with the new file, whether it finds it or not, unless the
scan takes the file for a source (`planGeneration_of_gainsFile`); and it writes the
same, unless a directory has to be made where the file stands
(`generate_of_gainsFile`). Both can happen, and where the name of the new file is that
of a link, it is made elsewhere (`not_init_transparent`).

Key definitions: `Disk.Scans`, `Generation.outcome`, `Project.SameSources`,
`Disk.NewConfig`.
Key theorems: `Config.read_default`, `Config.findIn_of_gainsFile`,
`planGeneration_of_gainsFile`, `generate_of_gainsFile`, `Disk.NewConfig.not_scans`,
`init_transparent`.
-/
import FetchClients.Proofs.DryRuns
import FetchClients.Proofs.NewFileWrites

namespace FetchClients

variable {d e : Disk} {place : Location}

/-! ### The default configuration -/

namespace Config

/-- What `init` writes is read as the default settings. -/
theorem read_default : read default.toJson.pretty = .ok default := by decide +kernel

theorem fault?_default : default.fault? = none := by decide +kernel

/-- Where no configuration was found, none but the new file is. -/
theorem findIn_of_gainsFile {contents : Option String} (h : d.GainsFile e place contents) :
    ∀ {directories : List Path}, findIn d directories = none →
      findIn e directories = none ∨ ∃ path, findIn e directories = some path ∧
        e.locate true path = .ok place ∧ d.get? place = none
  | [], _ => .inl rfl
  | directory :: directories, hnone => by
    unfold findIn at hnone ⊢
    dsimp only at hnone ⊢
    split at hnone
    · cases hnone
    · rename_i hold
      split
      · rename_i hnew
        exact .inr ⟨_, rfl, h.locate_of_has hnew (by simpa using hold)⟩
      · split
        · exact .inl rfl
        · rename_i hrepository
          have hold' : ¬ d.has (directory.join ⟨repositoryName⟩) = true := fun hhas =>
            hrepository (h.has_of_has hhas)
          rw [if_neg hold'] at hnone
          exact findIn_of_gainsFile h hnone

/-- Without a configuration and with one of the default settings the settings are the same. -/
theorem load_of_gainsFile {text : String} (hread : read text = .ok default)
    (h : d.GainsFile e place (some text)) {root : Path} (hnone : find? d root = none) :
    load d root = .ok ⟨default, none⟩ ∧ ∃ path, load e root = .ok ⟨default, path⟩ := by
  refine ⟨by rw [load, hnone], ?_⟩
  rcases findIn_of_gainsFile h hnone with hfind | ⟨path, hfind, hlocate, hplace⟩
  · exact ⟨none, by rw [load, find?, hfind]⟩
  · refine ⟨some path, ?_⟩
    rw [load, find?, hfind]
    dsimp only
    rw [h.readText_place hlocate hplace rfl]
    dsimp only
    rw [hread]
    dsimp only
    rw [fault?_default]

end Config

/-! ### Runs beside the new configuration -/

/-- Whether a scan with the default settings takes what stands at a place for a source. -/
def Disk.Scans (d : Disk) (root : Path) (place : Location) : Prop :=
  ∃ path ∈ (Scan.run d root Config.default.scanOptions).files, d.locate true ⟨path⟩ = .ok place

instance (d : Disk) (root : Path) (place : Location) : Decidable (d.Scans root place) :=
  inferInstanceAs (Decidable (∃ path ∈ (Scan.run d root Config.default.scanOptions).files,
    d.locate true ⟨path⟩ = .ok place))

/-- What a run did, but not how many paths it passed over. -/
def Generation.outcome (g : Generation) : Generation :=
  { g with skipped := 0 }

/-- Projects with the same sources, settings and outlines. -/
structure Project.SameSources (p p' : Project) (d e : Disk) : Prop where
  root : p'.root = p.root
  config : p'.config = p.config
  files : p'.files = p.files
  outlines : p'.outlines e = p.outlines d

section New

variable (h : d.GainsFile e place (some Config.default.toJson.pretty)) (hrooted : d.Rooted)
  (hspelled : Disk.Spelled place) (hlanding : d.Landing place)
include h hrooted hspelled hlanding

theorem Project.load_of_gainsFile {root : Path} (hnone : Config.find? d root = none)
    (hscans : ¬ e.Scans root place) : ∃ p p', Project.load d root = .ok p ∧
      Project.load e root = .ok p' ∧ p.SameSources p' d e := by
  obtain ⟨hold, path, hnew⟩ := Config.load_of_gainsFile Config.read_default h hnone
  cases hp : Project.load d root with
  | error fault =>
    rw [Project.load, hold] at hp
    cases hp
  | ok p =>
  cases hp' : Project.load e root with
  | error fault =>
    rw [Project.load, hnew] at hp'
    cases hp'
  | ok p' =>
  obtain ⟨hconfig, hroot, hfiles, -⟩ := Project.load_eq_ok_iff.mp hp
  obtain ⟨hconfig', hroot', hfiles', -⟩ := Project.load_eq_ok_iff.mp hp'
  have hdefault : p.config = .default := by
    rw [hold] at hconfig
    exact (Config.Loaded.mk.inj (Except.ok.inj hconfig)).1.symm
  have hdefault' : p'.config = .default := by
    rw [hnew] at hconfig'
    exact (Config.Loaded.mk.inj (Except.ok.inj hconfig')).1.symm
  rw [hdefault] at hfiles
  rw [hdefault'] at hfiles'
  have hsame : p'.files = p.files := by
    rw [hfiles, hfiles']
    refine Scan.files_of_gainsFile h hrooted hspelled hlanding rfl fun path hpath hlocate => ?_
    exact hscans ⟨path, hpath, hlocate⟩
  refine ⟨p, p', rfl, rfl, hroot'.trans hroot.symm, hdefault'.trans hdefault.symm, hsame, ?_⟩
  rw [outlines, outlines, hsame]
  refine List.map_congr_left fun path hpath => ?_
  obtain ⟨hfile, -⟩ := Scan.fileName?_of_mem_files (hfiles ▸ hpath)
  rw [outlineOf, outlineOf, h.readText_of_isFile hfile]

/-- A run that found no configuration plans the same with the new one. -/
theorem planGeneration_of_gainsFile {options : GenerateOptions}
    (hnone : Config.find? d (options.sourceRoot.getD ⟨"."⟩) = none)
    (hscans : ¬ e.Scans (options.sourceRoot.getD ⟨"."⟩) place) : ∃ skipped,
      planGeneration e options =
        (planGeneration d options).map fun g => { g with skipped := skipped } := by
  obtain ⟨p, p', hp, hp', hsame⟩ :=
    Project.load_of_gainsFile h hrooted hspelled hlanding hnone hscans
  refine ⟨p'.skipped, ?_⟩
  have houtput : p'.outputDir = p.outputDir := by
    rw [Project.outputDir, Project.outputDir, hsame.root, hsame.config]
  have hcwd : e.cwdPath = d.cwdPath := congrArg Path.ofLocation h.cwd
  unfold planGeneration
  rw [hp, hp']
  dsimp only
  rw [houtput, hcwd, hsame.config, hsame.outlines, hsame.files]
  cases Plan.of d.cwdPath (options.outputDir.or p.outputDir)
      (Marked.ofOutlines p.config.keys (p.outlines d)) with
  | error fault => rfl
  | ok plan => rfl

/-- Such a run does the same, if it leaves no directory where the new configuration stands. -/
theorem generate_of_gainsFile {options : GenerateOptions}
    (hnone : Config.find? d (options.sourceRoot.getD ⟨"."⟩) = none)
    (hscans : ¬ e.Scans (options.sourceRoot.getD ⟨"."⟩) place)
    (hplace : (generate d options).1.get? place ≠ some .directory) :
    (generate e options).2.toOption.map Generation.outcome =
        (generate d options).2.toOption.map Generation.outcome ∧
      (generate d options).1.GainsFile (generate e options).1 place
        (some Config.default.toJson.pretty) := by
  obtain ⟨skipped, hplan'⟩ := planGeneration_of_gainsFile h hrooted hspelled hlanding hnone hscans
  unfold generate at hplace ⊢
  rw [hplan']
  cases hplan : planGeneration d options with
  | error fault => exact ⟨rfl, h⟩
  | ok g =>
    rw [hplan] at hplace
    dsimp only [Except.map] at hplace ⊢
    by_cases hdry : options.dryRun = true
    · rw [if_pos hdry, if_pos hdry]
      exact ⟨rfl, h⟩
    · rw [if_neg hdry] at hplace
      rw [if_neg hdry, if_neg hdry]
      cases hwrite : writeClients d g.clients with
      | mk last fault =>
      rw [hwrite] at hplace
      have hlast : last.get? place ≠ some .directory := by
        cases fault <;> exact hplace
      obtain ⟨last', fault', hwrite', hgains, hfault⟩ := writeClients_of_gainsFile h hwrite hlast
      rw [hwrite']
      cases fault with
      | none =>
        obtain rfl : fault' = none := by simpa using hfault
        exact ⟨rfl, hgains⟩
      | some x =>
        obtain ⟨y, rfl⟩ := Option.isSome_iff_exists.mp hfault
        exact ⟨rfl, hgains⟩

end New

/-! ### What `init` makes -/

/-- What `init` makes of a disk without a configuration: one file more, in the working directory
unless its name is that of a link. -/
structure Disk.NewConfig (d e : Disk) (place : Location) : Prop where
  leads : d.locate true ⟨Config.fileName⟩ = .ok place
  here : (∀ target, d.get? (d.cwd ++ [Config.fileName]) ≠ some (.link target)) →
    place = d.cwd ++ [Config.fileName]
  nothing : d.get? place = none
  made : e.get? place = some (.file (some Config.default.toJson.pretty))
  other : ∀ q, q ≠ place → e.get? q = d.get? q
  cwd : e.cwd = d.cwd

theorem Disk.NewConfig.gainsFile (h : d.NewConfig e place) :
    d.GainsFile e place (some Config.default.toJson.pretty) :=
  ⟨h.cwd, h.other, .inl ⟨h.nothing, h.made⟩⟩

/-- On a tree no path of a source leads to the new file, since none is named like it. -/
theorem Disk.NewConfig.not_scans (h : d.NewConfig e place) (htree : d.IsTree) (root : Path) :
    ¬ e.Scans root place := by
  rintro ⟨path, hpath, hlocate⟩
  obtain ⟨-, -, p, -, hsource, rfl⟩ := Scan.mem_files_iff.mp hpath
  simp only [Scan.isSource, Bool.and_eq_true, Option.any_eq_true] at hsource
  obtain ⟨-, name, hname, hsourceName⟩ := hsource
  have hplace := Disk.locationFrom_of_locate htree (h.gainsFile.locate_iff.mp hlocate)
  rw [h.here fun _ => htree.get?_ne_link _ _] at hplace
  obtain ⟨above, hlast⟩ := Path.locationFrom_fileName? (.ofLocation d.cwd) hname
  rw [hlast] at hplace
  obtain ⟨-, rfl⟩ := List.append_singleton_inj.mp hplace
  exact absurd hsourceName (by decide +kernel)

namespace Program

variable (colours : Bool)

theorem init_of_has (h : d.has ⟨Config.fileName⟩ = true) :
    (init colours d).1 = d ∧ (init colours d).2.exitCode = 2 := by
  unfold init
  dsimp only
  rw [if_pos h]
  exact ⟨rfl, rfl⟩

theorem init_of_error {problem : Problem} (hnone : d.has ⟨Config.fileName⟩ = false)
    (h : d.locate true ⟨Config.fileName⟩ = .error problem) :
    (init colours d).1 = d ∧ (init colours d).2.exitCode = 2 := by
  unfold init
  dsimp only
  rw [hnone, if_neg Bool.false_ne_true, Disk.writeFile, h]
  exact ⟨rfl, rfl⟩

theorem nothing_of_locate (hnone : d.has ⟨Config.fileName⟩ = false)
    (h : d.locate true ⟨Config.fileName⟩ = .ok place) : d.get? place = none := by
  by_contra hsome
  rw [Disk.has_eq_true_iff.mpr ⟨place, h, Option.isSome_iff_ne_none.mpr hsome⟩] at hnone
  cases hnone

theorem init_of_locate (hnone : d.has ⟨Config.fileName⟩ = false)
    (h : d.locate true ⟨Config.fileName⟩ = .ok place) :
    (init colours d).1 = d.put place (.file (some Config.default.toJson.pretty)) ∧
      (init colours d).2.exitCode = 0 := by
  unfold init
  dsimp only
  rw [hnone, if_neg Bool.false_ne_true, Disk.writeFile, h]
  dsimp only
  rw [if_neg (by simp [nothing_of_locate hnone h])]
  exact ⟨rfl, rfl⟩

/-- `init` succeeds where its file's name leads to a place at which nothing stands. -/
theorem exitCode_init_eq_zero_iff : (init colours d).2.exitCode = 0 ↔
    d.has ⟨Config.fileName⟩ = false ∧ ∃ place, d.locate true ⟨Config.fileName⟩ = .ok place := by
  cases hhas : d.has ⟨Config.fileName⟩ with
  | true => simp [(init_of_has colours hhas).2]
  | false =>
    cases hlocate : d.locate true ⟨Config.fileName⟩ with
    | error problem => simp [(init_of_error colours hhas hlocate).2]
    | ok place => simp [(init_of_locate colours hhas hlocate).2]

theorem newConfig_of_init (h : (init colours d).2.exitCode = 0) :
    ∃ place, d.NewConfig (init colours d).1 place := by
  obtain ⟨hnone, place, hlocate⟩ := (exitCode_init_eq_zero_iff colours).mp h
  have hnothing := nothing_of_locate hnone hlocate
  have hne : place ≠ [] := fun heq => by simp [heq, Disk.get?] at hnothing
  rw [(init_of_locate colours hnone hlocate).1]
  exact ⟨place, hlocate, Disk.eq_of_locate_name (by decide) hlocate, hnothing,
    Disk.get?_put_self hne, fun q hq => Disk.get?_put_of_ne hq, rfl⟩

theorem run_eq_generate {arguments : List String} {options : GenerateOptions}
    (hparse : CommandLine.parse arguments = .run (.generate options)) (d : Disk) :
    run colours d arguments = generate colours d options := by
  unfold run
  rw [hparse]

theorem fst_generate (d : Disk) (options : GenerateOptions) :
    (generate colours d options).1 = (FetchClients.generate d options).1 := by
  unfold generate
  split <;> rename_i heq <;> rw [heq]

end Program

/-- Where the name of configuration files leads to something, `init` fails and changes nothing. It
succeeds where the name leads to a place at which nothing stands. There it has made one file, and a run
of `generate` that found no configuration before does the same now, and writes the same, whatever its
arguments. Only the scan must not take the new file for a source, and the run must not leave a directory
in its place. -/
theorem init_transparent {colours : Bool} {asked : List String} {ending : Program.Ending}
    (hrooted : d.Rooted) (hcwd : Disk.Spelled d.cwd) (hasked : CommandLine.parse asked = .run .init)
    (hinit : Program.run colours d asked = (e, ending)) :
    (d.has ⟨Config.fileName⟩ = true → e = d ∧ ending.exitCode = 2) ∧
    (ending.exitCode = 0 ↔ d.has ⟨Config.fileName⟩ = false ∧
      ∃ place, d.locate true ⟨Config.fileName⟩ = .ok place) ∧
    (ending.exitCode = 0 → ∃ place, d.NewConfig e place ∧
      (d.IsTree → ∀ root, ¬ e.Scans root place) ∧
      ∀ arguments options, CommandLine.parse arguments = .run (.generate options) →
        Config.find? d (options.sourceRoot.getD ⟨"."⟩) = none →
        ¬ e.Scans (options.sourceRoot.getD ⟨"."⟩) place →
        (Program.run colours d arguments).1.get? place ≠ some .directory →
        (generate e options).2.toOption.map Generation.outcome =
            (generate d options).2.toOption.map Generation.outcome ∧
          (Program.run colours e arguments).2.exitCode =
            (Program.run colours d arguments).2.exitCode ∧
          (Program.run colours d arguments).1.GainsFile (Program.run colours e arguments).1 place
            (some Config.default.toJson.pretty)) := by
  have hmade : Program.init colours d = (e, ending) := by
    rw [Program.run, hasked] at hinit
    exact hinit
  refine ⟨fun hhas => ?_, ?_, fun hzero => ?_⟩
  · have hsame := Program.init_of_has colours hhas
    rwa [hmade] at hsame
  · have hiff := @Program.exitCode_init_eq_zero_iff d colours
    rwa [hmade] at hiff
  · have hnew := @Program.newConfig_of_init d colours
    rw [hmade] at hnew
    obtain ⟨place, hnew⟩ := hnew hzero
    refine ⟨place, hnew, hnew.not_scans, fun arguments options hparse hnone hscans hplace => ?_⟩
    rw [Program.run_eq_generate colours hparse, Program.fst_generate] at hplace
    obtain ⟨houtcome, hgains⟩ := generate_of_gainsFile hnew.gainsFile hrooted
      (Disk.spelled_of_locate hcwd hnew.leads) (Disk.locate_lands hrooted hnew.leads) hnone hscans
      hplace
    rw [Program.run_eq_generate colours hparse, Program.run_eq_generate colours hparse,
      Program.fst_generate, Program.fst_generate]
    refine ⟨houtcome, Program.exitCode_generate_congr colours ?_, hgains⟩
    have hissues := congrArg (Option.map (·.issues)) houtcome
    rwa [Option.map_map, Option.map_map] at hissues

/-- A project with one service and no configuration. -/
def unconfiguredDisk (more : List (Location × Entry)) : Disk where
  entries := [
    (["project"], .directory),
    (["project", "user.ts"], .file (some "// @HttpClient\nexport interface User \x7b\n\x7d\n"))] ++ more
  cwd := ["project"]

def unconfiguredOptions : GenerateOptions := ⟨none, some ⟨"out"⟩, false, false⟩

/-- The project after `init`. -/
def initialisedDisk : Disk := (Program.run false (unconfiguredDisk []) ["init"]).1

/-- The service has its client with the new configuration as without one, and a second `init` fails. -/
theorem init_transparent_user :
    (Program.run false (unconfiguredDisk []) ["init"]).2.exitCode = 0 ∧
      CommandLine.parse ["generate", "--output-dir", "out"] = .run (.generate unconfiguredOptions) ∧
      Config.find? (unconfiguredDisk []) ⟨"."⟩ = none ∧
      ¬ initialisedDisk.Scans ⟨"."⟩ ["project", ".stubgenrc.json"] ∧
      (unconfiguredDisk []).NewConfig initialisedDisk ["project", ".stubgenrc.json"] ∧
      (generate (unconfiguredDisk []) unconfiguredOptions).2.toOption.map
        (fun g => g.clients.map (·.path.text)) = some ["out/user_gen.ts"] ∧
      (generate initialisedDisk unconfiguredOptions).2.toOption.map Generation.outcome =
        (generate (unconfiguredDisk []) unconfiguredOptions).2.toOption.map Generation.outcome ∧
      (Program.run false initialisedDisk ["generate", "--output-dir", "out"]).2.exitCode =
        (Program.run false (unconfiguredDisk []) ["generate", "--output-dir", "out"]).2.exitCode ∧
      (Program.run false (unconfiguredDisk []) ["generate", "--output-dir", "out"]).1.GainsFile
        (Program.run false initialisedDisk ["generate", "--output-dir", "out"]).1
        ["project", ".stubgenrc.json"] (some Config.default.toJson.pretty) ∧
      initialisedDisk.has ⟨Config.fileName⟩ = true ∧
      (Program.run false initialisedDisk ["init"]).1 = initialisedDisk ∧
      (Program.run false initialisedDisk ["init"]).2.exitCode = 2 := by
  have htree : (unconfiguredDisk []).IsTree := by decide +kernel
  have hrooted' : initialisedDisk.Rooted := Disk.IsTree.rooted (by decide +kernel)
  have heta : ∀ disk, Program.run false disk ["init"] =
      ((Program.run false disk ["init"]).1, (Program.run false disk ["init"]).2) :=
    fun _ => (Prod.eta _).symm
  obtain ⟨-, -, hsucceeds⟩ := @init_transparent (unconfiguredDisk []) initialisedDisk false ["init"]
    (Program.run false (unconfiguredDisk []) ["init"]).2 htree.rooted (by decide +kernel) rfl (heta _)
  obtain ⟨hfails, -⟩ := @init_transparent initialisedDisk (Program.run false initialisedDisk ["init"]).1
    false ["init"] (Program.run false initialisedDisk ["init"]).2 hrooted' (by decide +kernel) rfl
    (heta _)
  have hzero : (Program.run false (unconfiguredDisk []) ["init"]).2.exitCode = 0 := by decide +kernel
  have hparse : CommandLine.parse ["generate", "--output-dir", "out"] =
      .run (.generate unconfiguredOptions) := by decide +kernel
  have hnone : Config.find? (unconfiguredDisk []) ⟨"."⟩ = none := by decide +kernel
  have hthere : initialisedDisk.has ⟨Config.fileName⟩ = true := by decide +kernel
  obtain ⟨place, hnew, hscans, hsame⟩ := hsucceeds hzero
  have hfree : (unconfiguredDisk []).get? ["project", ".stubgenrc.json"] = none := by decide +kernel
  obtain rfl : place = ["project", ".stubgenrc.json"] := hnew.here fun target hlink => by
    change (unconfiguredDisk []).get? ["project", ".stubgenrc.json"] = _ at hlink
    rw [hfree] at hlink
    cases hlink
  obtain ⟨houtcome, hexit, hgains⟩ := hsame ["generate", "--output-dir", "out"] unconfiguredOptions
    hparse hnone (hscans htree _) (by decide +kernel)
  exact ⟨hzero, hparse, hnone, hscans htree _, hnew, by decide +kernel, houtcome, hexit, hgains, hthere,
    hfails hthere⟩

/-- The project with a source that is a link to where the configuration will be. -/
def linkedSourceDisk : Disk :=
  unconfiguredDisk [(["project", "conf.ts"], .link ".stubgenrc.json")]

/-- The project with a link that has the name of a configuration. -/
def linkedConfigDisk : Disk :=
  unconfiguredDisk [(["project", "conf"], .directory),
    (["project", ".stubgenrc.json"], .link "conf/x.json")]

/-- `init` is felt where the run makes a directory in its place, where a source is a link to that
place, and where its name is that of a link. -/
theorem not_init_transparent :
    (Config.find? (unconfiguredDisk []) ⟨"."⟩ = none ∧
      (Program.run false (unconfiguredDisk []) ["init"]).2.exitCode = 0 ∧
      (Program.run false (unconfiguredDisk [])
        ["generate", "--output-dir", ".stubgenrc.json"]).2.exitCode = 0 ∧
      (Program.run false initialisedDisk
        ["generate", "--output-dir", ".stubgenrc.json"]).2.exitCode = 2) ∧
    (Config.find? linkedSourceDisk ⟨"."⟩ = none ∧
      (Program.run false linkedSourceDisk ["init"]).2.exitCode = 0 ∧
      (Program.run false linkedSourceDisk ["generate"]).2.exitCode = 0 ∧
      (Program.run false (Program.run false linkedSourceDisk ["init"]).1 ["generate"]).2.exitCode = 1) ∧
    (Config.find? linkedConfigDisk ⟨"."⟩ = none ∧
      (Program.run false linkedConfigDisk ["init"]).2.exitCode = 0 ∧
      (Program.run false linkedConfigDisk ["init"]).1.isFile ⟨"conf/x.json"⟩ = true) := by
  refine ⟨⟨?_, ?_, ?_, ?_⟩, ⟨?_, ?_, ?_, ?_⟩, ⟨?_, ?_, ?_⟩⟩ <;> decide +kernel

end FetchClients
