/-
# The account of a run

A run of `generate` that does not end in a fatal fault loses nothing. Every
path of the scan is that of a source with an outline or of an issue, and of one
of the two only. Every marked type of those outlines has one verdict
(`Verdict.Of`), and the clients and the issues of the run are what the verdicts
hold, in the order of the types. The exit code tells whether there are issues.

Key definitions: `MarkedType.ofSources`, `Project.extracted`, `Verdict.Of`,
`Account`.
Key theorem: `generate_accounts`.
-/
import FetchClients.Program
import FetchClients.Proofs.Planning

namespace FetchClients

open Client (Generated)

/-- A marked type, with the path and the outline of its source. -/
structure MarkedType where
  path : String
  file : FileOutline
  type : TypeOutline

namespace MarkedType

/-- The service that a marked type is, or its fault. -/
def service (keys : Keys) (x : MarkedType) : Except ServiceFault Service :=
  Service.ofType x.file.file.node.module x.type keys

/-- The issue that a fault makes of a marked type. -/
def issue (x : MarkedType) (fault : ServiceFault) : Issue :=
  .invalidService x.path x.type.decl.node.line x.type.decl.node.name fault

/-- The marked types of sources, in the order of the sources and then of their types. -/
def ofSources (marker : String) (sources : List (String × FileOutline)) : List MarkedType :=
  sources.flatMap fun (path, file) =>
    (file.types.filter (·.decl.has marker)).map fun type => ⟨path, file, type⟩

/-- A marked type as it is planned. -/
def marked (keys : Keys) (x : MarkedType) : Marked :=
  ⟨x.path, x.type, x.service keys⟩

end MarkedType

/-- The sources that have an outline. -/
def extracted (outlines : List (String × Except SourceFault FileOutline)) :
    List (String × FileOutline) :=
  outlines.filterMap fun (path, outline) => outline.toOption.map (path, ·)

/-- The sources of a project that have an outline. -/
def Project.extracted (p : Project) (d : Disk) : List (String × FileOutline) :=
  FetchClients.extracted (p.outlines d)

/-- The verdicts that a marked type can have: the client of its service, or an issue about the type
itself, because it is no service or because its client has the path of another service's. -/
inductive Verdict.Of (cwd : Path) (outputDir : Option Path) (keys : Keys) (x : MarkedType) :
    Verdict → Prop
  | client {service client} (hservice : x.service keys = .ok service)
      (hclient : Client.generate cwd service x.path outputDir = .ok client) :
      Verdict.Of cwd outputDir keys x (.accepted client)
  | fault {fault} (hfault : x.service keys = .error fault) :
      Verdict.Of cwd outputDir keys x (.rejected (x.issue fault))
  | duplicate {service client} (other : String) (hservice : x.service keys = .ok service)
      (hclient : Client.generate cwd service x.path outputDir = .ok client) :
      Verdict.Of cwd outputDir keys x
        (.rejected (x.issue (.duplicateOutput client.path.text other)))

namespace Generation

/-- The issues of sources without an outline. -/
def parseErrors (g : Generation) : List Issue :=
  g.issues.filter (·.rule = .parseError)

/-- The issues of marked types. -/
def invalidServices (g : Generation) : List Issue :=
  g.issues.filter (·.rule = .invalidService)

end Generation

/-- What a run accounts for: its project is `p`, and it ends with `g`. -/
structure Account (d : Disk) (options : GenerateOptions) (p : Project) (g : Generation) : Prop where
  ordered : p.files.Pairwise (· < ·)
  scanned : g.scanned = p.files.length
  issues : g.issues = g.parseErrors ++ g.invalidServices
  /-- A source with an outline is a path of the scan. -/
  mem_extracted : ∀ path file,
    (path, file) ∈ p.extracted d ↔ path ∈ p.files ∧ outlineOf d path = .ok file
  /-- An issue of a source is about a path of the scan that has no outline. -/
  mem_parseErrors : ∀ issue, issue ∈ g.parseErrors ↔
    ∃ path ∈ p.files, ∃ fault, outlineOf d path = .error fault ∧
      issue = .unreadable path fault.summary
  /-- Every path is in exactly one of the two. -/
  sources : ((p.extracted d).map Prod.fst ++ g.parseErrors.map Issue.file).Perm p.files
  extracted_sublist : ((p.extracted d).map Prod.fst).Sublist p.files
  parseErrors_sublist : (g.parseErrors.map Issue.file).Sublist p.files
  /-- Every marked type has one verdict, and the run holds nothing but these verdicts. -/
  types : ∃ verdicts,
    List.Forall₂
      (Verdict.Of d.cwdPath (options.outputDir.or p.outputDir) p.config.keys)
      (MarkedType.ofSources p.config.keys.marker (p.extracted d)) verdicts ∧
    g.clients = verdicts.filterMap Verdict.client? ∧
    g.invalidServices = verdicts.filterMap Verdict.issue?
  clients_ordered : (g.clients.map Generated.source).Pairwise (· ≤ ·)
  invalidServices_ordered : (g.invalidServices.map Issue.file).Pairwise (· ≤ ·)
  count_sources : g.scanned = (p.extracted d).length + g.parseErrors.length
  count_types : (MarkedType.ofSources p.config.keys.marker (p.extracted d)).length =
    g.clients.length + g.invalidServices.length

/-! ### Sources -/

section Sources

variable {outlines : List (String × Except SourceFault FileOutline)}

theorem mem_extracted_iff {path : String} {file : FileOutline} :
    (path, file) ∈ extracted outlines ↔ (path, .ok file) ∈ outlines := by
  simp only [extracted, List.mem_filterMap, Option.map_eq_some_iff, Prod.mk.injEq, Prod.exists]
  constructor
  · rintro ⟨_, outline, hmem, _, hfile, rfl, rfl⟩
    cases outline with
    | error fault => cases hfile
    | ok file => cases hfile; exact hmem
  · intro hmem
    exact ⟨path, .ok file, hmem, file, rfl, rfl, rfl⟩

theorem mem_unreadableIssues_iff {issue : Issue} :
    ∀ {outlines : List (String × Except SourceFault FileOutline)},
    issue ∈ unreadableIssues outlines ↔
      ∃ path fault, (path, .error fault) ∈ outlines ∧ issue = .unreadable path fault.summary
  | [] => by simp [unreadableIssues]
  | (path, .ok file) :: rest => by
    have ih := @mem_unreadableIssues_iff issue rest
    simp [unreadableIssues, ih]
  | (path, .error fault) :: rest => by
    have ih := @mem_unreadableIssues_iff issue rest
    simp only [unreadableIssues, List.mem_cons, ih, Prod.mk.injEq, Except.error.injEq]
    constructor
    · rintro (rfl | ⟨path', fault', hmem, rfl⟩)
      · exact ⟨path, fault, .inl ⟨rfl, rfl⟩, rfl⟩
      · exact ⟨path', fault', .inr hmem, rfl⟩
    · rintro ⟨path', fault', ⟨rfl, rfl⟩ | hmem, rfl⟩
      · exact .inl rfl
      · exact .inr ⟨path', fault', hmem, rfl⟩

theorem rule_of_mem_unreadableIssues {issue : Issue} (h : issue ∈ unreadableIssues outlines) :
    issue.rule = .parseError := by
  obtain ⟨path, fault, -, rfl⟩ := mem_unreadableIssues_iff.mp h
  rfl

/-- A source has an outline or an issue, and not both. -/
theorem sources_perm : ∀ outlines : List (String × Except SourceFault FileOutline),
    ((extracted outlines).map Prod.fst ++ (unreadableIssues outlines).map Issue.file).Perm
      (outlines.map Prod.fst)
  | [] => .refl _
  | (path, .ok file) :: rest => by
    have ih := sources_perm rest
    simpa [extracted, unreadableIssues, Except.toOption] using ih
  | (path, .error fault) :: rest => by
    have ih := sources_perm rest
    have hmiddle : ((extracted rest).map Prod.fst ++
        path :: (unreadableIssues rest).map Issue.file).Perm (path :: rest.map Prod.fst) :=
      List.perm_middle.trans (ih.cons path)
    simpa [extracted, unreadableIssues, Except.toOption, Issue.file] using hmiddle

theorem extracted_sublist : ∀ outlines : List (String × Except SourceFault FileOutline),
    ((extracted outlines).map Prod.fst).Sublist (outlines.map Prod.fst)
  | [] => .slnil
  | (path, .ok file) :: rest => by
    simpa [extracted, Except.toOption] using extracted_sublist rest
  | (path, .error fault) :: rest => by
    have h : ((extracted rest).map Prod.fst).Sublist (path :: rest.map Prod.fst) :=
      (extracted_sublist rest).cons path
    simpa [extracted, Except.toOption] using h

theorem unreadableIssues_sublist : ∀ outlines : List (String × Except SourceFault FileOutline),
    ((unreadableIssues outlines).map Issue.file).Sublist (outlines.map Prod.fst)
  | [] => .slnil
  | (path, .ok _) :: rest => (unreadableIssues_sublist rest).cons path
  | (path, .error _) :: rest => (unreadableIssues_sublist rest).cons_cons path

end Sources

theorem Project.map_fst_outlines (p : Project) (d : Disk) :
    (p.outlines d).map Prod.fst = p.files := by
  simp [Project.outlines, Function.comp_def]

theorem Project.mem_outlines_iff {p : Project} {d : Disk} {path : String}
    {outline : Except SourceFault FileOutline} :
    (path, outline) ∈ p.outlines d ↔ path ∈ p.files ∧ outlineOf d path = outline := by
  simp [Project.outlines]

/-- How a configuration has its project scanned. -/
def Config.scanOptions (c : Config) : ScanOptions :=
  ⟨c.includes, c.ignores, c.ignoreTestFiles⟩

/-- A project is its configuration and the scan that this asks for. -/
theorem Project.load_eq_ok_iff {d : Disk} {root : Path} {p : Project} :
    Project.load d root = .ok p ↔ Config.load d root = .ok ⟨p.config, p.configPath⟩ ∧
      p.root = root ∧ p.files = (Scan.run d root p.config.scanOptions).files ∧
      p.skipped = (Scan.run d root p.config.scanOptions).skipped := by
  unfold Project.load
  constructor
  · intro h
    split at h
    · cases h
    · rename_i config path hconfig
      obtain rfl := Except.ok.inj h
      exact ⟨hconfig, rfl, rfl, rfl⟩
  · obtain ⟨root', config, path, files, skipped⟩ := p
    dsimp only
    rintro ⟨hconfig, rfl, rfl, rfl⟩
    rw [hconfig]
    rfl

/-- The scan lists its sources in order. -/
theorem Project.pairwise_files {d : Disk} {root : Path} {p : Project}
    (h : Project.load d root = .ok p) : p.files.Pairwise (· < ·) := by
  obtain ⟨-, -, hfiles, -⟩ := Project.load_eq_ok_iff.mp h
  rw [hfiles]
  exact Text.pairwise_sorted _

/-! ### Marked types -/

/-- What is planned are the marked types of the sources with an outline. -/
theorem Marked.ofOutlines_eq (keys : Keys) :
    ∀ outlines : List (String × Except SourceFault FileOutline),
    Marked.ofOutlines keys outlines =
      (MarkedType.ofSources keys.marker (extracted outlines)).map (MarkedType.marked keys)
  | [] => rfl
  | (path, .error fault) :: rest => by
    have ih := Marked.ofOutlines_eq keys rest
    simpa [Marked.ofOutlines, extracted, Except.toOption] using ih
  | (path, .ok file) :: rest => by
    have ih := Marked.ofOutlines_eq keys rest
    have hfile : (file.candidates keys).map (Marked.mk path) =
        ((file.types.filter (·.decl.has keys.marker)).map
          fun type => MarkedType.mk path file type).map (MarkedType.marked keys) := by
      simp [FileOutline.candidates, MarkedType.marked, MarkedType.service, Function.comp_def]
    simp only [Marked.ofOutlines, ih, hfile]
    simp [extracted, MarkedType.ofSources, Except.toOption]

/-- A type has the verdict of the step that plans it. -/
theorem Verdict.of_step {cwd : Path} {outputDir : Option Path} {keys : Keys} {before : Plan}
    {x : MarkedType} {v : Verdict} (h : Plan.Step cwd outputDir before (x.marked keys) v) :
    Verdict.Of cwd outputDir keys x v := by
  cases h with
  | faulty hfault => exact .fault hfault
  | @taken service client other hservice hclient _ => exact .duplicate other hservice hclient
  | fresh hservice hclient _ => exact .client hservice hclient

section Verdicts

variable {cwd : Path} {outputDir : Option Path} {keys : Keys} {x : MarkedType} {v : Verdict}

/-- An accepted client is that of the type's source. -/
theorem Verdict.Of.source_eq {client : Generated} (h : Verdict.Of cwd outputDir keys x v)
    (hv : v.client? = some client) : client.source = x.path := by
  cases h with
  | client hservice hclient =>
    cases hv
    exact (Client.generate_eq_ok_iff.mp hclient).2.1
  | fault => cases hv
  | duplicate => cases hv

/-- The issue of a rejected type is found in the type's source. -/
theorem Verdict.Of.file_eq {issue : Issue} (h : Verdict.Of cwd outputDir keys x v)
    (hv : v.issue? = some issue) : issue.file = x.path := by
  cases h <;> cases hv <;> rfl

theorem Verdict.Of.rule_eq {issue : Issue} (h : Verdict.Of cwd outputDir keys x v)
    (hv : v.issue? = some issue) : issue.rule = .invalidService := by
  cases h <;> cases hv <;> rfl

end Verdicts

/-- What is taken from the second of two aligned lists keeps a value that it shares with the
first. -/
theorem sublist_of_forall₂ {α β γ δ : Type} {R : α → β → Prop} {f : β → Option γ} {g : γ → δ}
    {k : α → δ} {as : List α} {bs : List β} (h : List.Forall₂ R as bs)
    (hshared : ∀ a b c, R a b → f b = some c → g c = k a) :
    ((bs.filterMap f).map g).Sublist (as.map k) := by
  induction h with
  | nil => exact .slnil
  | @cons a b as bs hab _ ih =>
    cases hb : f b with
    | none =>
      simp only [List.filterMap_cons, hb, List.map_cons]
      exact ih.cons (k a)
    | some c =>
      simp only [List.filterMap_cons, hb, List.map_cons, hshared a b c hab hb]
      exact ih.cons_cons (k a)

namespace MarkedType

variable {marker : String}

theorem path_mem_of_mem_ofSources {sources : List (String × FileOutline)} {x : MarkedType}
    (h : x ∈ ofSources marker sources) : x.path ∈ sources.map Prod.fst := by
  obtain ⟨source, hsource, hx⟩ := List.mem_flatMap.mp h
  obtain ⟨type, -, rfl⟩ := List.mem_map.mp hx
  exact List.mem_map.mpr ⟨source, hsource, rfl⟩

/-- The marked types follow the order of the sources. -/
theorem pairwise_path : ∀ {sources : List (String × FileOutline)},
    (sources.map Prod.fst).Pairwise (· < ·) →
      ((ofSources marker sources).map path).Pairwise (· ≤ ·)
  | [], _ => .nil
  | (path, file) :: rest, h => by
    obtain ⟨hpath, hrest⟩ := List.pairwise_cons.mp h
    have hcons : ofSources marker ((path, file) :: rest) =
        (file.types.filter (·.decl.has marker)).map (⟨path, file, ·⟩) ++ ofSources marker rest := by
      simp [ofSources]
    rw [hcons, List.map_append, List.pairwise_append]
    refine ⟨?_, pairwise_path hrest, fun a ha b hb => ?_⟩
    · rw [List.map_map, List.pairwise_map]
      exact List.pairwise_of_forall fun _ _ => String.le_refl path
    · simp only [List.mem_map] at ha hb
      obtain ⟨_, ⟨type, -, rfl⟩, rfl⟩ := ha
      obtain ⟨x, hx, rfl⟩ := hb
      exact String.not_lt.mp (String.lt_asymm (hpath x.path (path_mem_of_mem_ofSources hx)))

end MarkedType

/-! ### The run -/

/-- A run that comes to an end has planned the marked types of its project. -/
theorem exists_plan {d : Disk} {options : GenerateOptions} {g : Generation}
    (h : planGeneration d options = .ok g) :
    ∃ project plan, Project.load d (options.sourceRoot.getD ⟨"."⟩) = .ok project ∧
      Plan.of d.cwdPath (options.outputDir.or project.outputDir)
        (Marked.ofOutlines project.config.keys (project.outlines d)) = .ok plan ∧
      g = ⟨project.files.length, plan.clients, options.dryRun, project.skipped,
        unreadableIssues (project.outlines d) ++ plan.rejected⟩ := by
  unfold planGeneration at h
  split at h
  · cases h
  · rename_i project hload
    dsimp only at h
    split at h
    · cases h
    · rename_i plan hplan
      exact ⟨project, plan, hload, hplan, (Except.ok.inj h).symm⟩

/-- Only the planning decides what a run reports. -/
theorem planGeneration_of_generate {d : Disk} {options : GenerateOptions} {g : Generation}
    (h : (generate d options).2 = .ok g) : planGeneration d options = .ok g := by
  unfold generate at h
  split at h
  · cases h
  · rename_i generation hplan
    rw [hplan]
    split at h
    · exact h
    · split at h
      · cases h
      · exact h

/-- The verdicts on the marked types of a project make its plan. -/
theorem exists_verdicts {cwd : Path} {outputDir : Option Path} {keys : Keys}
    {outlines : List (String × Except SourceFault FileOutline)} {plan : Plan}
    (h : Plan.of cwd outputDir (Marked.ofOutlines keys outlines) = .ok plan) :
    ∃ verdicts, List.Forall₂ (Verdict.Of cwd outputDir keys)
        (MarkedType.ofSources keys.marker (extracted outlines)) verdicts ∧
      plan.clients = verdicts.filterMap Verdict.client? ∧
      plan.rejected = verdicts.filterMap Verdict.issue? := by
  rw [Marked.ofOutlines_eq] at h
  obtain ⟨verdicts, hrun⟩ := Plan.extend_eq_ok_iff.mp h
  refine ⟨verdicts, ?_, by simpa using hrun.clients_eq, by simpa using hrun.rejected_eq⟩
  have haligned := List.forall₂_map_left_iff.mp hrun.forall₂
  exact haligned.imp fun x v ⟨before, hstep⟩ => Verdict.of_step hstep

/-- What is in the second of two aligned lists is aligned with something. -/
theorem exists_of_mem_right {α β : Type} {R : α → β → Prop} {as : List α} {bs : List β}
    (h : List.Forall₂ R as bs) {b : β} (hb : b ∈ bs) : ∃ a ∈ as, R a b := by
  induction h with
  | nil => cases hb
  | @cons a b' as bs hab _ ih =>
    rcases List.mem_cons.mp hb with rfl | hb
    · exact ⟨a, List.mem_cons_self, hab⟩
    · obtain ⟨a', ha', hr⟩ := ih hb
      exact ⟨a', List.mem_cons_of_mem a ha', hr⟩

/-- A planned client is that of a marked type in a source with an outline. -/
theorem exists_of_mem_clients {d : Disk} {options : GenerateOptions} {g : Generation}
    {client : Generated} (h : planGeneration d options = .ok g) (hclient : client ∈ g.clients) :
    ∃ project x service, Project.load d (options.sourceRoot.getD ⟨"."⟩) = .ok project ∧
      x ∈ MarkedType.ofSources project.config.keys.marker (project.extracted d) ∧
      x.service project.config.keys = .ok service ∧
      Client.generate d.cwdPath service x.path (options.outputDir.or project.outputDir) =
        .ok client := by
  obtain ⟨project, plan, hload, hplan, rfl⟩ := exists_plan h
  obtain ⟨verdicts, haligned, hclients, -⟩ := exists_verdicts hplan
  obtain ⟨v, hv, hsome⟩ := List.mem_filterMap.mp (hclients ▸ hclient)
  obtain ⟨x, hx, hof⟩ := exists_of_mem_right haligned hv
  cases hof with
  | client hservice hgenerate =>
    obtain rfl := Option.some.inj hsome
    exact ⟨project, x, _, hload, hx, hservice, hgenerate⟩
  | fault => cases hsome
  | duplicate => cases hsome

theorem rule_of_mem_issues {cwd : Path} {outputDir : Option Path} {keys : Keys}
    {types : List MarkedType} {verdicts : List Verdict}
    (h : List.Forall₂ (Verdict.Of cwd outputDir keys) types verdicts) :
    ∀ issue ∈ verdicts.filterMap Verdict.issue?, issue.rule = .invalidService := by
  intro issue hissue
  have hsub : ((verdicts.filterMap Verdict.issue?).map Issue.rule).Sublist
      (types.map fun _ => Rule.invalidService) :=
    sublist_of_forall₂ h fun _ _ _ => Verdict.Of.rule_eq
  have hmem := hsub.subset (List.mem_map_of_mem hissue)
  obtain ⟨_, -, hrule⟩ := List.mem_map.mp hmem
  exact hrule.symm

/-- The rules of issues tell those of sources from those of types. -/
theorem filter_rule_append {unreadable invalid : List Issue}
    (hu : ∀ i ∈ unreadable, i.rule = .parseError) (hi : ∀ i ∈ invalid, i.rule = .invalidService) :
    (unreadable ++ invalid).filter (·.rule = .parseError) = unreadable ∧
      (unreadable ++ invalid).filter (·.rule = .invalidService) = invalid := by
  have hu' : unreadable.filter (·.rule = .invalidService) = [] :=
    List.filter_eq_nil_iff.mpr fun i h => by simp [hu i h]
  have hi' : invalid.filter (·.rule = .parseError) = [] :=
    List.filter_eq_nil_iff.mpr fun i h => by simp [hi i h]
  have hu'' : unreadable.filter (·.rule = .parseError) = unreadable :=
    List.filter_eq_self.mpr fun i h => by simp [hu i h]
  have hi'' : invalid.filter (·.rule = .invalidService) = invalid :=
    List.filter_eq_self.mpr fun i h => by simp [hi i h]
  rw [List.filter_append, List.filter_append, hu', hi', hu'', hi'']
  simp

/-- What a run plans is an account of its project. -/
theorem exists_account {d : Disk} {options : GenerateOptions} {g : Generation}
    (h : planGeneration d options = .ok g) :
    ∃ project, Project.load d (options.sourceRoot.getD ⟨"."⟩) = .ok project ∧
      Account d options project g := by
  obtain ⟨project, plan, hload, hplan, rfl⟩ := exists_plan h
  obtain ⟨verdicts, haligned, hclients, hrejected⟩ := exists_verdicts hplan
  have hinvalid : ∀ i ∈ plan.rejected, i.rule = .invalidService :=
    hrejected ▸ rule_of_mem_issues haligned
  obtain ⟨hparse, htypes⟩ :=
    filter_rule_append (fun i => @rule_of_mem_unreadableIssues (project.outlines d) i) hinvalid
  set g : Generation := ⟨project.files.length, plan.clients, options.dryRun, project.skipped,
    unreadableIssues (project.outlines d) ++ plan.rejected⟩ with hg
  have hparseErrors : g.parseErrors = unreadableIssues (project.outlines d) := hparse
  have hinvalidServices : g.invalidServices = plan.rejected := htypes
  have hfiles := project.map_fst_outlines d
  have hordered := Project.pairwise_files hload
  have hsources := sources_perm (project.outlines d)
  have hextracted := extracted_sublist (project.outlines d)
  rw [hfiles] at hsources hextracted
  have hpaths : ((MarkedType.ofSources project.config.keys.marker (project.extracted d)).map
      MarkedType.path).Pairwise (· ≤ ·) :=
    MarkedType.pairwise_path (hordered.sublist hextracted)
  refine ⟨project, hload, ?_⟩
  exact {
    ordered := hordered
    scanned := rfl
    issues := by rw [hparseErrors, hinvalidServices]
    mem_extracted := fun path file => mem_extracted_iff.trans Project.mem_outlines_iff
    mem_parseErrors := fun issue => by
      rw [hparseErrors, mem_unreadableIssues_iff]
      simp only [Project.mem_outlines_iff]
      constructor
      · rintro ⟨path, fault, ⟨hpath, hfault⟩, rfl⟩
        exact ⟨path, hpath, fault, hfault, rfl⟩
      · rintro ⟨path, hpath, fault, hfault, rfl⟩
        exact ⟨path, fault, ⟨hpath, hfault⟩, rfl⟩
    sources := by rw [hparseErrors]; exact hsources
    extracted_sublist := hextracted
    parseErrors_sublist := by
      rw [hparseErrors, ← hfiles]
      exact unreadableIssues_sublist _
    types := ⟨verdicts, haligned, hclients, hinvalidServices.trans hrejected⟩
    clients_ordered := by
      refine hpaths.sublist ?_
      rw [show g.clients = verdicts.filterMap Verdict.client? from hclients]
      exact sublist_of_forall₂ haligned fun _ _ _ => Verdict.Of.source_eq
    invalidServices_ordered := by
      refine hpaths.sublist ?_
      rw [hinvalidServices, hrejected]
      exact sublist_of_forall₂ haligned fun _ _ _ => Verdict.Of.file_eq
    count_sources := by
      rw [hparseErrors]
      simpa [Project.extracted] using hsources.length_eq.symm
    count_types := by
      rw [hinvalidServices, hrejected,
        show g.clients = verdicts.filterMap Verdict.client? from hclients,
        Verdict.length_filterMap_add]
      exact haligned.length_eq }

/-- A run ends in a fatal fault, or it accounts for every path of its scan and for every marked type
of its sources, and its exit code tells whether there are issues. -/
theorem generate_accounts (colours : Bool) (d : Disk) (options : GenerateOptions) :
    (∃ message, (Program.generate colours d options).2 = .fatal message) ∨
      ∃ project g, Project.load d (options.sourceRoot.getD ⟨"."⟩) = .ok project ∧
        (generate d options).2 = .ok g ∧ Account d options project g ∧
        (Program.generate colours d options).2.exitCode = if g.issues = [] then 0 else 1 := by
  cases hrun : generate d options with
  | mk after result =>
    cases result with
    | error fault => exact .inl ⟨fault.message, by simp [Program.generate, hrun]⟩
    | ok g =>
      right
      have hplan : planGeneration d options = .ok g := planGeneration_of_generate (by rw [hrun])
      obtain ⟨project, hload, haccount⟩ := exists_account hplan
      refine ⟨project, g, hload, rfl, haccount, ?_⟩
      have hending : (Program.generate colours d options).2 =
          Program.finish colours (Issue.errorCount g.issues = 0)
            (Report.ofGeneration g options.verbose) := by
        rw [Program.generate, hrun]
      rw [hending, Program.exitCode_finish, Issue.errorCount_eq_length]
      simp

end FetchClients
