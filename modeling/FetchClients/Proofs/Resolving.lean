/-
# Every import can be resolved

A specifier cannot be made only of an empty path that has to be made absolute. The
directory of a client is empty only if the client stands beside a source that is
written as a bare name, and then nothing has to be made absolute
(`Client.exists_generate`). So with the paths that a command line gives, which are
not empty, a project that can be loaded can also be planned
(`exists_planGeneration`), and no run ends for a specifier that cannot be made
(`generate_resolves_imports`).

Key definitions: `Client.NeedsAbsolute`, `Client.importDir`.
Key theorems: `Path.steps_ne_nil`, `Client.resolveImport_eq_error_iff`,
`Client.exists_generate`, `exists_planGeneration`, `generate_resolves_imports`.
-/
import FetchClients.Proofs.Accounting
import FetchClients.Proofs.ArgumentValues
import FetchClients.Proofs.ImportTarget
import FetchClients.Proofs.Sources

namespace FetchClients

namespace Path

/-- A relative path that is not empty takes a step, be it one that stays. -/
theorem steps_ne_nil {p : Path} (habs : p.isAbsolute = false) (hne : p.text ≠ "") :
    p.steps ≠ [] := by
  obtain ⟨inner, htext, hhead⟩ := exists_inner p
  rw [steps_eq, body_eq_of_toList htext hhead, habs]
  rw [habs, if_neg Bool.false_ne_true, List.nil_append] at htext
  obtain ⟨c, cs, hinner⟩ := List.exists_cons_of_ne_nil fun hnil : inner = [] =>
    hne (String.ext (htext.trans hnil))
  have hc : c ≠ '/' := fun he => hhead habs (by simp [hinner, he])
  obtain ⟨part, parts, hparts⟩ := List.exists_cons_of_ne_nil (@Text.fields_ne_nil '/' cs)
  have hnames : fieldNames true (c :: part) = true := by
    unfold fieldNames
    split <;> simp_all
  simp [hinner, Text.fields, hc, hparts, fieldComponents, hnames]

theorem text_ne_empty_of_components {p : Path} (h : p.components ≠ []) : p.text ≠ "" := by
  obtain ⟨text⟩ := p
  rintro rfl
  exact h rfl

theorem text_ne_empty_of_isAbsolute {p : Path} (h : p.isAbsolute = true) : p.text ≠ "" :=
  text_ne_empty_of_components (List.ne_nil_of_mem (isAbsolute_iff.mp h))

/-- The directory of a file below a path that is not empty is not empty. -/
theorem parent?_join_ne_empty {dir file parent : Path} {name : String} (hdir : dir.text ≠ "")
    (hname : file.fileName? = some name) (hparent : (dir.join file).parent? = some parent) :
    parent.text ≠ "" := by
  obtain ⟨habs, last, hsteps⟩ := steps_parent? hparent
  rcases steps_join_cases dir file with ⟨hjoin, hfile⟩ | ⟨hsame, more, hjoined, hnames⟩
  · rw [hjoin] at habs
    exact text_ne_empty_of_isAbsolute (habs.trans hfile)
  · by_cases hrooted : dir.isAbsolute = true
    · exact text_ne_empty_of_isAbsolute ((habs.trans hsame).trans hrooted)
    · have hrelative := Bool.eq_false_iff.mpr hrooted
      have hdirSteps := steps_ne_nil hrelative hdir
      -- the steps of the path are those of `dir`, and at least the name
      obtain ⟨above, -, hcomponents⟩ := exists_parent? hname
      have hmem : .name name ∈ file.steps := by
        have hlast : .name name ∈ file.components := by simp [hcomponents]
        rw [components_eq, List.mem_append] at hlast
        exact hlast.resolve_left (by split <;> simp)
      have hmore : more ≠ [] := List.ne_nil_of_mem ((hnames name).mpr hmem)
      have hparentSteps : parent.steps ≠ [] := by
        intro hnil
        have hlength := congrArg List.length (hsteps.symm.trans hjoined)
        rw [hnil, List.length_append, List.length_append] at hlength
        have hdirLength := List.length_pos_iff.mpr hdirSteps
        have hmoreLength := List.length_pos_iff.mpr hmore
        simp only [List.length_nil, List.length_singleton] at hlength
        omega
      refine text_ne_empty_of_components fun hnil => hparentSteps ?_
      rw [components_eq, habs, hsame, hrelative, if_neg Bool.false_ne_true] at hnil
      exact hnil

end Path

namespace Client

/-- A specifier is made from the absolute forms of its paths if these do not start in the same place
or one of them climbs. -/
def NeedsAbsolute (fromDir source : Path) : Prop :=
  fromDir.isAbsolute ≠ source.isAbsolute ∨ climbs fromDir ∨ climbs source

/-- The directory that a client's specifier starts from. -/
def importDir (source : Path) (service : String) (outputDir : Option Path) : Path :=
  (outputPath source service outputDir).parent?.getD ⟨""⟩

/-- There is no specifier exactly if an absolute form is needed and a path is empty. -/
theorem resolveImport_eq_error_iff {cwd fromDir source : Path} {fault : ImportFault} :
    resolveImport cwd fromDir source = .error fault ↔
      NeedsAbsolute fromDir source ∧ (fromDir.text = "" ∨ source.text = "") := by
  have hneeds : NeedsAbsolute fromDir source ↔
      ¬ (fromDir.isAbsolute = source.isAbsolute ∧ !climbs fromDir ∧ !climbs source) := by
    simp only [NeedsAbsolute, Bool.not_eq_true', not_and_or, Bool.not_eq_false]
  cases fault
  unfold resolveImport
  rw [hneeds]
  split
  · rename_i hdirect
    simp [hdirect]
  · rename_i hneeded
    rw [and_iff_right hneeded]
    by_cases hdir : fromDir.text = ""
    · simp [Path.absolute?, hdir]
    · by_cases hsource : source.text = "" <;> simp [Path.absolute?, hdir, hsource]

/-- Two paths that are not empty have a specifier between them. -/
theorem exists_resolveImport {cwd fromDir source : Path} (hdir : fromDir.text ≠ "")
    (hsource : source.text ≠ "") : ∃ specifier, resolveImport cwd fromDir source = .ok specifier := by
  unfold resolveImport
  split
  · exact ⟨_, rfl⟩
  · simp [Path.absolute?, hdir, hsource]

/-- Beside a source that is written as a bare name, nothing has to be made absolute. -/
theorem exists_resolveImport_bare {cwd fromDir source : Path} {name : String}
    (hdir : fromDir.text = "") (hsource : source.components = [.name name]) :
    ∃ specifier, resolveImport cwd fromDir source = .ok specifier := by
  have hrelative : source.isAbsolute = false := by
    rw [Bool.eq_false_iff, ne_eq, Path.isAbsolute_iff, hsource]
    simp
  obtain ⟨text⟩ := fromDir
  obtain rfl : text = "" := hdir
  have hdirect : (Path.mk "").isAbsolute = source.isAbsolute ∧ (!climbs (Path.mk "")) = true ∧
      (!climbs source) = true := by
    refine ⟨hrelative.symm, rfl, ?_⟩
    rw [climbs, hsource]
    rfl
  exact ⟨importPath ⟨""⟩ source, by rw [resolveImport, if_pos hdirect]⟩

/-- A service in a source has a client, if no output directory is set to the empty path. -/
theorem exists_generate (cwd : Path) (s : Service) {source : String} {outputDir : Option Path}
    (hsource : ∃ name, (Path.mk source).fileName? = some name)
    (hdir : ∀ dir, outputDir = some dir → dir.text ≠ "") :
    ∃ client, generate cwd s source outputDir = .ok client := by
  suffices hspecifier : ∃ specifier, resolveImport cwd
      ((outputPath ⟨source⟩ s.name outputDir).parent?.getD ⟨""⟩) ⟨source⟩ = .ok specifier by
    obtain ⟨specifier, hspecifier⟩ := hspecifier
    unfold generate
    dsimp only
    rw [hspecifier]
    exact ⟨_, rfl⟩
  obtain ⟨name, hname⟩ := hsource
  obtain ⟨above, habove, hcomponents⟩ := Path.exists_parent? hname
  have hsourceText : (Path.mk source).text ≠ "" := by
    refine Path.text_ne_empty_of_components ?_
    rw [hcomponents]
    simp
  obtain ⟨before, hfile⟩ := exists_fileName?_outputPath ⟨source⟩ s.name outputDir
  obtain ⟨parent, hparent, -⟩ := Path.exists_parent? hfile
  rw [hparent, Option.getD_some]
  obtain ⟨suffixed, hsuffixed⟩ :=
    @Path.fileName?_append (snakeCase s.name) fileSuffix (by decide) (by decide)
  rw [outputPath_eq_join] at hparent
  by_cases hbare : (outputDirectory ⟨source⟩ outputDir).text = ""
  · by_cases hempty : parent.text = ""
    · -- only the directory of the source can be empty
      cases outputDir with
      | some dir => exact absurd hbare (hdir dir rfl)
      | none =>
        rw [outputDirectory, Option.none_or, habove, Option.getD_some] at hbare
        obtain ⟨text⟩ := above
        obtain rfl : text = "" := hbare
        exact exists_resolveImport_bare hempty hcomponents
    · exact exists_resolveImport hempty hsourceText
  · exact exists_resolveImport (Path.parent?_join_ne_empty hbare hsuffixed hparent) hsourceText

end Client

/-! ### Plans -/

theorem Marked.source_mem_of_mem_ofOutlines {keys : Keys} {m : Marked} :
    ∀ {outlines : List (String × Except SourceFault FileOutline)},
    m ∈ ofOutlines keys outlines → m.source ∈ outlines.map Prod.fst
  | [], h => by cases h
  | (path, .ok file) :: rest, h => by
    rcases List.mem_append.mp h with h | h
    · obtain ⟨candidate, -, rfl⟩ := List.mem_map.mp h
      exact List.mem_cons_self
    · exact List.mem_cons_of_mem path (source_mem_of_mem_ofOutlines h)
  | (path, .error fault) :: rest, h => by
    have hrest : m ∈ ofOutlines keys rest := h
    exact List.mem_cons_of_mem path (source_mem_of_mem_ofOutlines hrest)

/-- Declarations all of whose services have clients can be planned. -/
theorem Plan.exists_extend {cwd : Path} {outputDir : Option Path} : ∀ {ms : List Marked} (p : Plan),
    (∀ m ∈ ms, ∀ service, ∃ client,
      Client.generate cwd service m.source outputDir = .ok client) →
    ∃ q, p.extend cwd outputDir ms = .ok q
  | [], p, _ => ⟨p, rfl⟩
  | m :: ms, p, h => by
    have hrest := fun other hother => h other (List.mem_cons_of_mem m hother)
    unfold extend
    split
    · rename_i fault hadd
      unfold add at hadd
      split at hadd
      · cases hadd
      · rename_i service hservice
        obtain ⟨client, hclient⟩ := h m List.mem_cons_self service
        rw [hclient] at hadd
        dsimp only at hadd
        split at hadd <;> cases hadd
    · exact exists_extend _ hrest

theorem Path.text_join_ne_empty {p : Path} (h : p.text ≠ "") (q : Path) :
    (p.join q).text ≠ "" := by
  by_cases hq : q.isAbsolute = true
  · rw [join, if_pos hq]
    exact text_ne_empty_of_isAbsolute hq
  · intro hempty
    have hjoin := toList_join_relative p (Bool.eq_false_iff.mpr hq)
    have hne : p.text.toList ≠ [] := fun he => h (String.ext he)
    rw [hempty] at hjoin
    split at hjoin
    · exact hne (List.append_eq_nil_iff.mp hjoin.symm).1
    · exact hne (List.append_eq_nil_iff.mp hjoin.symm).1

section Runs

variable {arguments : List String} {options : GenerateOptions} {d : Disk} {project : Project}

/-- Every service in a source of a project has a client where the paths that a command line gives
put it. -/
theorem Project.exists_generate
    (hparse : CommandLine.parse arguments = .run (.generate options))
    (hload : Project.load d (options.sourceRoot.getD ⟨"."⟩) = .ok project) :
    ∀ m ∈ Marked.ofOutlines project.config.keys (project.outlines d), ∀ service, ∃ client,
      Client.generate d.cwdPath service m.source (options.outputDir.or project.outputDir) =
        .ok client := by
  obtain ⟨hroot, hdir⟩ := CommandLine.ne_empty_of_parse hparse
  obtain ⟨-, hrootEq, hfiles, -⟩ := Project.load_eq_ok_iff.mp hload
  have hrootText : project.root.text ≠ "" := by
    rw [hrootEq]
    cases hsourceRoot : options.sourceRoot with
    | none => simp
    | some root => exact hroot root hsourceRoot
  have houtputDir : ∀ dir, options.outputDir.or project.outputDir = some dir → dir.text ≠ "" := by
    intro dir hor
    rcases Option.or_eq_some_iff.mp hor with hset | ⟨-, hconfig⟩
    · exact hdir dir hset
    · obtain ⟨text, -, rfl⟩ := Option.map_eq_some_iff.mp hconfig
      exact Path.text_join_ne_empty hrootText ⟨text⟩
  intro m hm service
  have hfile := Marked.source_mem_of_mem_ofOutlines hm
  rw [project.map_fst_outlines d, hfiles] at hfile
  obtain ⟨-, name, hname, -⟩ := Scan.fileName?_of_mem_files hfile
  exact Client.exists_generate _ service ⟨name, hname⟩ houtputDir

/-- A project that can be loaded can be planned with the paths that a command line gives. -/
theorem exists_planGeneration
    (hparse : CommandLine.parse arguments = .run (.generate options))
    (hload : Project.load d (options.sourceRoot.getD ⟨"."⟩) = .ok project) :
    ∃ g, planGeneration d options = .ok g := by
  obtain ⟨plan, hplan⟩ := Plan.exists_extend ⟨[], []⟩ (Project.exists_generate hparse hload)
  unfold planGeneration
  rw [hload]
  simp [Plan.of, hplan]

/-- No run that a command line asks for ends because a specifier cannot be made: where a client of
a service needs absolute forms, neither its directory nor its source is the empty path, and every
service has a client. -/
theorem generate_resolves_imports
    (hparse : CommandLine.parse arguments = .run (.generate options)) :
    (∀ fault, (generate d options).2 ≠ .error (.importPath fault)) ∧
      ∀ project, Project.load d (options.sourceRoot.getD ⟨"."⟩) = .ok project →
        ∀ m ∈ Marked.ofOutlines project.config.keys (project.outlines d), ∀ service,
          (Client.NeedsAbsolute
              (Client.importDir ⟨m.source⟩ service.name (options.outputDir.or project.outputDir))
              ⟨m.source⟩ →
            (Client.importDir ⟨m.source⟩ service.name
              (options.outputDir.or project.outputDir)).text ≠ "" ∧ m.source ≠ "") ∧
          ∃ client, Client.generate d.cwdPath service m.source
            (options.outputDir.or project.outputDir) = .ok client := by
  refine ⟨fun fault hrun => ?_, fun project hload m hm service => ?_⟩
  · unfold generate at hrun
    cases hload : Project.load d (options.sourceRoot.getD ⟨"."⟩) with
    | error early =>
      rw [planGeneration, hload] at hrun
      cases hrun
    | ok project =>
      obtain ⟨g, hg⟩ := exists_planGeneration hparse hload
      rw [hg] at hrun
      dsimp only at hrun
      split at hrun
      · cases hrun
      · split at hrun <;> cases hrun
  · obtain ⟨client, hclient⟩ := Project.exists_generate hparse hload m hm service
    refine ⟨fun hneeds => ?_, client, hclient⟩
    obtain ⟨hpath, -, -, specifier, hspecifier, -⟩ := Client.generate_eq_ok_iff.mp hclient
    rw [hpath] at hspecifier
    have hnoFault : Client.resolveImport d.cwdPath (Client.importDir ⟨m.source⟩ service.name
        (options.outputDir.or project.outputDir)) ⟨m.source⟩ ≠ .error .emptyPath := by
      rw [Client.importDir, hspecifier]
      simp
    rw [ne_eq, Client.resolveImport_eq_error_iff] at hnoFault
    exact ⟨fun hdir => hnoFault ⟨hneeds, .inl hdir⟩, fun hsource => hnoFault ⟨hneeds, .inr hsource⟩⟩

end Runs

/-- A project whose sources are one file above the working directory, with the empty path as its
output directory. -/
def climbingDisk : Disk where
  entries := [
    (["app"], .directory),
    (["app", ".stubgenrc.json"], .file (some "\x7b\"outputDir\": \"\"\x7d")),
    (["app", "api.ts"], .file (some "// @HttpClient\nexport interface User \x7b\n\x7d\n")),
    (["app", "work"], .directory)]
  cwd := ["app", "work"]

def climbingOptions : GenerateOptions := ⟨some ⟨"../api.ts"⟩, none, true, false⟩

/-- The client below the file needs absolute forms, and it is planned. -/
theorem generate_resolves_imports_climbing :
    CommandLine.parse ["generate", "--source-root", "../api.ts", "--dry-run"] =
        .run (.generate climbingOptions) ∧
      (generate climbingDisk climbingOptions).2.toOption.map
        (·.clients.map (·.path.text)) = some ["../api.ts/user_gen.ts"] ∧
      Client.NeedsAbsolute (Client.importDir ⟨"../api.ts"⟩ "User" (some ⟨"../api.ts/"⟩))
        ⟨"../api.ts"⟩ ∧
      (∀ fault, (generate climbingDisk climbingOptions).2 ≠ .error (.importPath fault)) ∧
      ∃ project m service,
        Project.load climbingDisk (climbingOptions.sourceRoot.getD ⟨"."⟩) = .ok project ∧
        m ∈ Marked.ofOutlines project.config.keys (project.outlines climbingDisk) ∧
        m.candidate.result = .ok service ∧
        (Client.NeedsAbsolute
            (Client.importDir ⟨m.source⟩ service.name
              (climbingOptions.outputDir.or project.outputDir)) ⟨m.source⟩ →
          (Client.importDir ⟨m.source⟩ service.name
            (climbingOptions.outputDir.or project.outputDir)).text ≠ "" ∧ m.source ≠ "") ∧
        ∃ client, Client.generate climbingDisk.cwdPath service m.source
          (climbingOptions.outputDir.or project.outputDir) = .ok client := by
  have hparse : CommandLine.parse ["generate", "--source-root", "../api.ts", "--dry-run"] =
      .run (.generate climbingOptions) := by decide +kernel
  obtain ⟨hfaults, hservices⟩ := @generate_resolves_imports _ climbingOptions climbingDisk hparse
  refine ⟨hparse, by decide +kernel, .inr (.inl (by decide +kernel)), hfaults, ?_⟩
  have hmarked : (Project.load climbingDisk (climbingOptions.sourceRoot.getD ⟨"."⟩)).toOption.map
      (fun project => (Marked.ofOutlines project.config.keys (project.outlines climbingDisk)).map
        fun m => m.candidate.result.isOk) = some [true] := by decide +kernel
  cases hload : Project.load climbingDisk (climbingOptions.sourceRoot.getD ⟨"."⟩) with
  | error fault =>
    rw [hload] at hmarked
    cases hmarked
  | ok project =>
    rw [hload] at hmarked
    obtain ⟨m, hms, hok⟩ := List.map_eq_singleton_iff.mp (Option.some.inj hmarked)
    have hm := hms ▸ List.mem_singleton_self m
    cases hservice : m.candidate.result with
    | error fault =>
      rw [hservice] at hok
      cases hok
    | ok service => exact ⟨project, m, service, rfl, hm, hservice, hservices project hload m hm service⟩

end FetchClients
