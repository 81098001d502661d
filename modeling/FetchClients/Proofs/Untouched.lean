/-
# What a run leaves as it was

On a tree of files and directories a path leads to the place that its text names, so
a client is written to a place whose last name ends in the suffix of generated files
(`Generated.endsInSuffix`). A run keeps the disk a tree (`AllWritten.isTree`), takes
nothing away from it, and every file with another name has the contents that it had:
the sources of its scan, for none of them is named like a generated file, the
configuration, and all files that the run never looks at.

Key definitions: `plannedClients`, `SparesSources`.
Key theorems: `Disk.IsTree.put`, `AllWritten.isTree`, `SparesSources.readText`,
`generate_spares_sources`.
-/
import FetchClients.Proofs.Accounting
import FetchClients.Proofs.ConfigSearch
import FetchClients.Proofs.ImportTarget
import FetchClients.Proofs.Sources
import FetchClients.Proofs.Writing

namespace FetchClients

open Client (Generated)

/-! ### Trees stay trees -/

namespace Disk

variable {d : Disk} (h : d.IsTree)
include h

/-- A tree with something new below one of its directories, or with other contents in a file, is a
tree. -/
theorem IsTree.put {place : Location} {entry : Entry} (hentry : isLink entry = false)
    (hnamed : ∀ n ∈ place, StoredName n) (hparent : d.get? place.dropLast = some .directory)
    (hfree : d.get? place ≠ some .directory) : (d.put place entry).IsTree := by
  have hkeep : ∀ other, d.get? other = some .directory →
      (d.put place entry).get? other = some .directory := by
    intro other hother
    rwa [get?_put_of_ne fun heq : other = place => hfree (heq ▸ hother)]
  have hentries : ∀ e ∈ (d.put place entry).entries, e = (place, entry) ∨ e ∈ d.entries := by
    intro e he
    rcases List.mem_cons.mp he with he | he
    · exact .inl he
    · exact .inr (List.mem_filter.mp he).1
  refine ⟨fun e he => ?_, fun e he => ?_, fun e he => ?_, hkeep _ h.cwd⟩
  · rcases hentries e he with rfl | he
    · exact hentry
    · exact h.linkless e he
  · rcases hentries e he with rfl | he
    · exact hnamed
    · exact h.named e he
  · rcases hentries e he with rfl | he
    · exact hkeep _ hparent
    · exact hkeep _ (h.parent e he)

theorem Grown.isTree {paths : List Path} {last : Disk} (hgrown : Grown paths d last) :
    last.IsTree := by
  induction hgrown with
  | refl => exact h
  | @make d p place last _ hplace _ ih =>
    have hvacant := vacant_of_newPlace hplace
    refine ih (h.put rfl (fun n hn => ?_) hvacant.landing.directory (by simp [hvacant.nothing]))
    obtain ⟨above, name, rfl, hname, habove⟩ := hvacant.named
    rcases List.mem_append.mp hn with hn | hn
    · exact h.storedName habove n hn
    · exact List.mem_singleton.mp hn ▸ hname

theorem storedName_of_locate {p : Path} {place : Location} (hlocate : d.locate true p = .ok place) :
    ∀ n ∈ place, StoredName n := by
  obtain ⟨hreadable, hway⟩ := locate_eq_ok_iff_way.mp hlocate
  have hbase : ∀ n ∈ p.base d.cwd, StoredName n := by
    unfold Path.base
    split
    · simp
    · exact h.storedName h.cwd
  exact hway.storedName h hbase (fun f hf => Path.not_slash_of_mem_body f hf)
    fun f hf hzero => hreadable.no_zero (Path.mem_text_of_mem_body hf hzero)

end Disk

theorem Written.isTree {d last : Disk} {client : Generated} (h : Written d client last)
    (htree : d.IsTree) : last.IsTree := by
  cases h with
  | file hmade hplace hfree =>
    have hmadeTree := hmade.isTree htree
    exact hmadeTree.put rfl (Disk.storedName_of_locate hmadeTree hplace)
      (Disk.locate_lands hmadeTree.rooted hplace).directory hfree

theorem AllWritten.isTree {d last : Disk} {clients : List Generated}
    (h : AllWritten d clients last) (htree : d.IsTree) : last.IsTree := by
  induction h with
  | nil => exact htree
  | cons hwrite _ ih => exact ih (hwrite.isTree htree)

/-! ### The names of clients and of sources -/

/-- The clients that a run has planned, if it has come to a plan. -/
def plannedClients (d : Disk) (options : GenerateOptions) : List Generated :=
  match planGeneration d options with
  | .ok g => g.clients
  | .error _ => []

/-- Whether a client is written to a file with the suffix of generated files. -/
def Client.Generated.endsInSuffix (client : Generated) : Prop :=
  ∃ before, client.path.fileName? = some (before ++ Client.fileSuffix)

theorem endsInSuffix_of_mem_plannedClients {d : Disk} {options : GenerateOptions}
    {client : Generated} (h : client ∈ plannedClients d options) : client.endsInSuffix := by
  unfold plannedClients at h
  split at h
  · rename_i g hplan
    obtain ⟨project, x, service, -, -, -, hgenerate⟩ := exists_of_mem_clients hplan h
    obtain ⟨hpath, -⟩ := Client.generate_eq_ok_iff.mp hgenerate
    rw [Client.Generated.endsInSuffix, hpath]
    exact Client.exists_fileName?_outputPath _ _ _
  · cases h

theorem Client.endsWith_fileSuffix (before : String) :
    (before ++ fileSuffix).endsWith fileSuffix = true :=
  String.Slice.endsWith_string_iff.mpr ⟨before.toList, by simp⟩

theorem Path.locationFrom_fileName? {p : Path} {name : String} (cwd : Path)
    (h : p.fileName? = some name) : ∃ above, p.locationFrom cwd = above ++ [name] := by
  obtain ⟨parent, -, hcomponents⟩ := exists_parent? h
  exact ⟨_, locationFrom_concat cwd hcomponents⟩

theorem Path.fileName?_join (p : Path) {name : String} (h : ProperName name) :
    (p.join ⟨name⟩).fileName? = some name := by
  rw [fileName?, components_eq, steps_join p h, ← List.append_assoc, List.getLast?_concat]

/-- A configuration that is found is there, below one of the directories. -/
theorem Config.exists_join_of_findIn {d : Disk} {path : Path} : ∀ {directories : List Path},
    findIn d directories = some path →
      (∃ directory ∈ directories, path = directory.join ⟨fileName⟩) ∧ d.has path = true
  | [], h => by cases h
  | directory :: directories, h => by
    unfold findIn at h
    dsimp only at h
    split at h
    · rename_i hhas
      obtain rfl := Option.some.inj h
      exact ⟨⟨directory, by simp, rfl⟩, hhas⟩
    · split at h
      · cases h
      · obtain ⟨⟨other, hother, heq⟩, hhas⟩ := exists_join_of_findIn h
        exact ⟨⟨other, List.mem_cons_of_mem directory hother, heq⟩, hhas⟩

/-- A configuration that was loaded was found first, and then read. -/
theorem Config.exists_text_of_load {d : Disk} {root path : Path} {config : Config}
    (h : load d root = .ok ⟨config, some path⟩) :
    find? d root = some path ∧ ∃ text, d.readText path = .ok text := by
  unfold load at h
  split at h
  · cases (Loaded.mk.inj (Except.ok.inj h)).2
  · rename_i found hfind
    split at h
    · cases h
    · rename_i text htext
      split at h
      · cases h
      · split at h
        · cases h
        · obtain rfl := Option.some.inj (Loaded.mk.inj (Except.ok.inj h)).2
          exact ⟨hfind, text, htext⟩

/-- The configuration of a project was read from a file that is not named like a generated one. -/
theorem fileName?_of_configPath {d : Disk} {root path : Path} {project : Project}
    (hload : Project.load d root = .ok project) (hpath : project.configPath = some path) :
    path.fileName? = some Config.fileName ∧ ∃ text, d.readText path = .ok text := by
  obtain ⟨hconfig, -⟩ := Project.load_eq_ok_iff.mp hload
  rw [hpath] at hconfig
  obtain ⟨hfind, htext⟩ := Config.exists_text_of_load hconfig
  obtain ⟨⟨directory, -, rfl⟩, -⟩ := Config.exists_join_of_findIn hfind
  exact ⟨Path.fileName?_join directory Config.properName_fileName, htext⟩

/-! ### What is left alone -/

/-- What a run leaves of a tree: no file and no directory is gone, and what is not named like a
generated file has not changed. -/
structure SparesSources (d last : Disk) (clients : List Generated) : Prop where
  cwd : last.cwd = d.cwd
  tree : last.IsTree
  directory : ∀ place, d.get? place = some .directory → last.get? place = some .directory
  file : ∀ place contents, d.get? place = some (.file contents) →
    ∃ now, last.get? place = some (.file now)
  kept : ∀ above name contents, d.get? (above ++ [name]) = some (.file contents) →
    name.endsWith Client.fileSuffix = false →
      last.get? (above ++ [name]) = some (.file contents)
  /-- What has changed is the file of a client, or a directory that leads to one and was not there. -/
  change : ∀ place, last.get? place ≠ d.get? place →
    (∃ client ∈ clients, client.endsInSuffix ∧
      place = client.path.locationFrom (.ofLocation d.cwd) ∧
      last.get? place = some (.file (some client.contents))) ∨
    (d.get? place = none ∧ last.get? place = some .directory ∧
      ∃ client ∈ clients, ∃ p ∈ client.directories, place = p.locationFrom (.ofLocation d.cwd))

namespace SparesSources

variable {d last : Disk} {clients : List Generated}

/-- Whatever the changes are, they spare all other files. -/
theorem of_changedBy {done : List Generated} {directories : List Path} (htree : last.IsTree)
    (h : Disk.ChangedBy done directories d last) (hdone : ∀ client ∈ done, client ∈ clients)
    (hdirectories : ∀ p ∈ directories, ∃ client ∈ clients, p ∈ client.directories)
    (hnamed : ∀ client ∈ clients, client.endsInSuffix) : SparesSources d last clients := by
  have hplace : ∀ p place, last.locate true p = .ok place →
      place = p.locationFrom (.ofLocation d.cwd) := by
    intro p place hlocate
    rw [← h.cwd]
    exact (Disk.locationFrom_of_locate htree hlocate).symm
  refine ⟨h.cwd, htree, h.directory, fun place contents hfile => ?_,
    fun above name contents hfile hname => ?_, fun place hchanged => ?_⟩
  · rcases h.change place with hsame | ⟨client, -, -, hnow⟩ | ⟨hnone, -, -⟩
    · exact ⟨contents, hsame.trans hfile⟩
    · exact ⟨_, hnow⟩
    · rw [hnone] at hfile
      cases hfile
  · rcases h.change (above ++ [name]) with hsame | ⟨client, hclient, hlocate, -⟩ | ⟨hnone, -, -⟩
    · exact hsame.trans hfile
    · -- the place of a client has another name
      obtain ⟨before, hbefore⟩ := hnamed client (hdone client hclient)
      obtain ⟨parent, hparent⟩ := Path.locationFrom_fileName? (.ofLocation d.cwd) hbefore
      have hends := (hplace client.path _ hlocate).trans hparent
      obtain rfl := (List.append_singleton_inj.mp hends).2
      rw [Client.endsWith_fileSuffix] at hname
      cases hname
    · rw [hnone] at hfile
      cases hfile
  · rcases h.change place with hsame | ⟨client, hclient, hlocate, hnow⟩ | ⟨hnone, hnow, p, hp, hlocate⟩
    · exact absurd hsame hchanged
    · exact .inl ⟨client, hdone client hclient, hnamed client (hdone client hclient),
        hplace _ _ hlocate, hnow⟩
    · obtain ⟨client, hclient, hp⟩ := hdirectories p hp
      exact .inr ⟨hnone, hnow, client, hclient, p, hp, hplace _ _ hlocate⟩

/-- On a tree, every way leads where it led. -/
theorem keepsWays (h : SparesSources d last clients) (htree : d.IsTree) : d.KeepsWays last :=
  ⟨h.cwd, h.directory, fun place link =>
    iff_of_false (h.tree.get?_ne_link place link) (htree.get?_ne_link place link)⟩

/-- A path with another file name leads to the same file with the same contents. -/
theorem lookup (h : SparesSources d last clients) (htree : d.IsTree) {p : Path} {name : String}
    (hname : p.fileName? = some name) (hspared : name.endsWith Client.fileSuffix = false)
    {place : Location} {contents : Option String}
    (hlookup : d.lookup true p = .ok (place, .file contents)) :
    last.lookup true p = .ok (place, .file contents) := by
  obtain ⟨hlocate, hfile⟩ := Disk.lookup_eq_ok_iff.mp hlookup
  refine Disk.lookup_eq_ok_iff.mpr ⟨Disk.locate_keep (h.keepsWays htree) hlocate, ?_⟩
  obtain ⟨above, habove⟩ := Path.locationFrom_fileName? (.ofLocation d.cwd) hname
  obtain rfl := (Disk.locationFrom_of_locate htree hlocate).symm.trans habove
  exact h.kept above name contents hfile hspared

theorem readText (h : SparesSources d last clients) (htree : d.IsTree) {p : Path} {name : String}
    (hname : p.fileName? = some name) (hspared : name.endsWith Client.fileSuffix = false)
    (hfile : d.isFile p = true) : last.readText p = d.readText p := by
  obtain ⟨place, contents, hlookup⟩ := Disk.isFile_eq_true_iff.mp hfile
  unfold Disk.readText
  rw [hlookup, h.lookup htree hname hspared hlookup]

end SparesSources

theorem Disk.isFile_of_readText {d : Disk} {p : Path} {text : String}
    (h : d.readText p = .ok text) : d.isFile p = true := by
  unfold readText at h
  split at h
  · cases h
  · rename_i place contents hlookup
    exact isFile_eq_true_iff.mpr ⟨place, _, hlookup⟩
  · cases h
  · cases h

section Runs

variable {d : Disk} (htree : d.IsTree)
include htree

/-- Writing clients spares all other files, whether it comes to its end or not. -/
theorem sparesSources_of_writeClients {clients : List Generated} {last : Disk}
    {result : Option WriteFault} (hnamed : ∀ client ∈ clients, client.endsInSuffix)
    (h : writeClients d clients = (last, result)) : SparesSources d last clients := by
  cases result with
  | none =>
    have hwritten := writeClients_eq_none h
    refine .of_changedBy (hwritten.isTree htree) (hwritten.changedBy htree.rooted) (fun _ hc => hc)
      (fun p hp => ?_) hnamed
    exact List.mem_flatMap.mp hp
  | some fault =>
    obtain ⟨done, client, rest, rfl, hinterrupted⟩ := interrupted_of_writeClients h
    obtain ⟨before, hdone, -, hgrown⟩ := hinterrupted.written
    refine .of_changedBy (hgrown.isTree (hdone.isTree htree))
      (hinterrupted.confined htree.rooted) (fun _ hc => List.mem_append_left _ hc)
      (fun p hp => ?_) hnamed
    obtain ⟨other, hother, hp⟩ := List.mem_flatMap.mp hp
    have hsub : done ++ [client] <+: done ++ client :: rest :=
      ⟨rest, by rw [List.append_assoc, List.singleton_append]⟩
    exact ⟨other, hsub.subset hother, hp⟩

theorem sparesSources_generate (options : GenerateOptions) :
    SparesSources d (generate d options).1 (plannedClients d options) := by
  have hnamed : ∀ client ∈ plannedClients d options, client.endsInSuffix :=
    fun client hclient => endsInSuffix_of_mem_plannedClients hclient
  have hsame : Disk.ChangedBy [] [] d d := .refl htree.rooted
  have hnothing : SparesSources d d (plannedClients d options) :=
    .of_changedBy htree hsame (by simp) (by simp) hnamed
  cases hplan : planGeneration d options with
  | error fault =>
    rw [generate, hplan]
    exact hnothing
  | ok g =>
    have hclients : plannedClients d options = g.clients := by rw [plannedClients, hplan]
    rw [generate, hplan]
    by_cases hdry : options.dryRun = true
    · simp only [hdry, if_true]
      exact hnothing
    · simp only [hdry, Bool.false_eq_true, if_false]
      rw [hclients] at hnamed ⊢
      cases hwrite : writeClients d g.clients with
      | mk last result =>
        have hspares := sparesSources_of_writeClients htree hnamed hwrite
        cases result <;> exact hspares

/-- However a run ends, it removes nothing, and every file that is not named like a generated file
keeps its contents; what changes are files of clients, and directories that lead to them and were not
there. The sources of the run and its configuration read as before. -/
theorem generate_spares_sources (options : GenerateOptions) :
    SparesSources d (generate d options).1 (plannedClients d options) ∧
      ∀ project, Project.load d (options.sourceRoot.getD ⟨"."⟩) = .ok project →
        (∀ path ∈ project.files,
          (generate d options).1.readText ⟨path⟩ = d.readText ⟨path⟩) ∧
        ∀ path, project.configPath = some path →
          (generate d options).1.readText path = d.readText path := by
  have hspares := sparesSources_generate htree options
  refine ⟨hspares, fun project hload => ⟨fun path hpath => ?_, fun path hpath => ?_⟩⟩
  · obtain ⟨-, -, hfiles, -⟩ := Project.load_eq_ok_iff.mp hload
    obtain ⟨hfile, name, hname, hspared⟩ := Scan.fileName?_of_mem_files (hfiles ▸ hpath)
    exact hspares.readText htree hname hspared hfile
  · obtain ⟨hname, text, htext⟩ := fileName?_of_configPath hload hpath
    exact hspares.readText htree hname (by decide +kernel) (Disk.isFile_of_readText htext)

end Runs

theorem generate_spares_sources_blocked :
    (generate blockedDisk blockedOptions).1.readText ⟨"out/a_gen.ts"⟩ ≠
        blockedDisk.readText ⟨"out/a_gen.ts"⟩ ∧
      SparesSources blockedDisk (generate blockedDisk blockedOptions).1
        (plannedClients blockedDisk blockedOptions) ∧
      ∀ project, Project.load blockedDisk (blockedOptions.sourceRoot.getD ⟨"."⟩) = .ok project →
        (∀ path ∈ project.files,
          (generate blockedDisk blockedOptions).1.readText ⟨path⟩ = blockedDisk.readText ⟨path⟩) ∧
        ∀ path, project.configPath = some path →
          (generate blockedDisk blockedOptions).1.readText path = blockedDisk.readText path :=
  ⟨by decide +kernel, generate_spares_sources (by decide) blockedOptions⟩

end FetchClients
