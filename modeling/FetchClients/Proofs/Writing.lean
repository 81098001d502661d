/-
# What writing leaves behind

A directory is made where nothing stood, in a directory that is there, and the path
that named it leads to it from then on (`Disk.locate_put_newPlace`). So the
directories for a client are added to a disk one by one (`Disk.Grown`), and its file
is put where its path leads. No way is lost by that, and what changes is known from
the clients alone (`Disk.ChangedBy`): their files, and directories that lead to
them. A run whose writing fails has written the clients before the failing one, and
for that one made directories at most (`generate_interrupted`).

Key definitions: `Disk.Vacant`, `Disk.Grown`, `Client.Generated.directories`,
`Written`, `AllWritten`, `Disk.ChangedBy`, `Interrupted`.
Key theorems: `Disk.vacant_of_newPlace`, `Disk.grown_makeChain`,
`writeClients_eq_some`, `AllWritten.changedBy`, `generate_interrupted`.
-/
import FetchClients.Project.Generate
import FetchClients.Proofs.Results
import FetchClients.Proofs.Ways
import Mathlib.Data.List.TakeWhile

namespace FetchClients

open Client (Generated)

namespace Disk

/-! ### New places -/

/-- A place where nothing stands, for a name in a directory. -/
structure Vacant (d : Disk) (place : Location) : Prop where
  nothing : d.get? place = none
  named : ∃ above name, place = above ++ [name] ∧ StoredName name ∧
    d.get? above = some .directory

namespace Vacant

variable {d : Disk} {place : Location}

theorem ne_nil (h : d.Vacant place) : place ≠ [] := by
  obtain ⟨above, name, rfl, -, -⟩ := h.named
  simp

/-- Whatever is put where nothing stands, no way is lost. -/
theorem keepsWays (h : d.Vacant place) : d.KeepsWays (d.put place .directory) :=
  .put h.ne_nil (by simp [h.nothing]) (by simp [h.nothing]) rfl

end Vacant

/-- Only empty fields are cut off a path. -/
theorem trimmedFields_eq (p : Path) : (trimmedFields p).1 = p.isAbsolute ∧
    (trimmedFields p).2.getLast? ≠ some [] ∧
    ∃ empties, p.body.2 = (trimmedFields p).2 ++ empties ∧ ∀ f ∈ empties, f = [] := by
  refine ⟨rfl, ?_, (p.body.2.reverse.takeWhile (· = [])).reverse, ?_, fun f hf => ?_⟩
  · rw [trimmedFields, List.getLast?_reverse]
    intro hhead
    have hnot := List.head?_dropWhile_not (fun f : List Char => decide (f = [])) p.body.2.reverse
    rw [hhead] at hnot
    simp at hnot
  · rw [trimmedFields, ← List.reverse_append, List.takeWhile_append_dropWhile, List.reverse_reverse]
  · simpa using List.mem_takeWhile_imp (List.mem_reverse.mp hf)

/-- Where a new name is made: it is the last field that is not empty, in the directory that the
fields before it lead to. -/
theorem newPlace_eq_ok {d : Disk} {p : Path} {place : Location} (h : d.newPlace p = .ok place) :
    Readable p.text ∧ ∃ before name empties above,
      p.body.2 = before ++ name :: empties ∧ (∀ f ∈ empties, f = []) ∧ NameField name ∧
      (String.ofList name).utf8ByteSize ≤ nameLimit ∧
      d.Way true linkLimit (p.base d.cwd) (before ++ [[]]) above ∧
      place = above ++ [String.ofList name] ∧ d.get? place = none := by
  obtain ⟨hrooted, hlast, empties, hbody, hempties⟩ := trimmedFields_eq p
  unfold newPlace at h
  split at h
  · cases h
  · rename_i hzero
    split at h
    · cases h
    · rename_i hempty
      split at h
      · cases h
      · rename_i hlong
        dsimp only at h
        split at h
        · cases h
        · rename_i name hname
          split at h
          · cases h
          · rename_i above hway
            split at h
            · cases h
            · rename_i hdots
              split at h
              · cases h
              · rename_i hlongName
                split at h
                · cases h
                · rename_i hfree
                  obtain rfl := Except.ok.inj h
                  have hsplit : (trimmedFields p).2 = (trimmedFields p).2.dropLast ++ [name] :=
                    (List.dropLast_append_getLast? name hname).symm
                  have hne : name ≠ [] := fun he => hlast (he ▸ hname)
                  obtain ⟨hhere, hup⟩ := not_or.mp hdots
                  refine ⟨⟨by simpa using hzero, by simpa using hempty, Nat.not_lt.mp hlong⟩,
                    (trimmedFields p).2.dropLast, name, empties, above, ?_, hempties,
                    ⟨hne, hhere, hup⟩, Nat.not_lt.mp hlongName, ?_, rfl, by simpa using hfree⟩
                  · rw [hbody]
                    nth_rewrite 1 [hsplit]
                    simp
                  · rw [hrooted] at hway
                    exact resolve_eq_ok_iff.mp hway

theorem vacant_of_newPlace {d : Disk} {p : Path} {place : Location} (h : d.newPlace p = .ok place) :
    d.Vacant place := by
  obtain ⟨hreadable, before, name, empties, above, hbody, -, hname, hshort, hway, rfl, hnone⟩ :=
    newPlace_eq_ok h
  have hmem : name ∈ p.body.2 := by simp [hbody]
  refine ⟨hnone, above, _, rfl, ?_, hway.directory_of_slash rfl⟩
  exact hname.storedName hshort (Path.not_slash_of_mem_body name hmem)
    fun hzero => hreadable.no_zero (Path.mem_text_of_mem_body hmem hzero)

/-- The path of a directory that was made leads to it. -/
theorem locate_put_newPlace {d : Disk} {p : Path} {place : Location}
    (h : d.newPlace p = .ok place) : (d.put place .directory).locate true p = .ok place := by
  have hvacant := vacant_of_newPlace h
  have hmade : (d.put place .directory).get? place = some .directory := get?_put_self hvacant.ne_nil
  obtain ⟨hreadable, before, name, empties, above, hbody, hempties, hname, hshort, hway, heq, -⟩ :=
    newPlace_eq_ok h
  have hkept := hway.keep hvacant.keepsWays
  refine locate_eq_ok_iff_way.mpr ⟨hreadable, ?_⟩
  rw [hbody]
  refine hkept.append fun links => ?_
  rw [heq] at hmade ⊢
  refine .down (heq ▸ hkept.directory_of_slash rfl) hname hshort (by simp [hmade]) ?_
  exact Way.stays (heq ▸ hmade) hempties

/-! ### Directories that are made -/

/-- Later disks on which some directories were made, each where nothing stood. -/
inductive Grown (paths : List Path) : Disk → Disk → Prop
  | refl {d} : Grown paths d d
  | make {d p place last} (hp : p ∈ paths) (hplace : d.newPlace p = .ok place)
      (hrest : Grown paths (d.put place .directory) last) : Grown paths d last

namespace Grown

variable {paths more : List Path} {d mid last : Disk}

theorem trans (h : Grown paths d mid) (hmore : Grown paths mid last) : Grown paths d last := by
  induction h with
  | refl => exact hmore
  | make hp hplace _ ih => exact .make hp hplace (ih hmore)

theorem mono (h : Grown paths d last) (hsub : ∀ p ∈ paths, p ∈ more) : Grown more d last := by
  induction h with
  | refl => exact .refl
  | make hp hplace _ ih => exact .make (hsub _ hp) hplace ih

end Grown

theorem grown_makeDirectory {d made : Disk} {p : Path} (h : d.makeDirectory p = .ok made) :
    Grown [p] d made := by
  obtain ⟨place, hplace, rfl⟩ := map_eq_ok_iff.mp h
  exact .make (by simp) hplace .refl

/-- Making a directory with those that it needs adds some of them, whether it succeeds or not. -/
theorem grown_makeChain : ∀ {paths : List Path} {d last : Disk} {problem : Option Problem},
    d.makeChain paths = (last, problem) → Grown paths d last
  | [], d, last, problem, h => by
    cases h
    exact .refl
  | p :: parents, d, last, problem, h => by
    have hfirst : ∀ {d made : Disk}, d.makeDirectory p = .ok made → Grown (p :: parents) d made :=
      fun hmade => (grown_makeDirectory hmade).mono (by simp)
    have hothers : ∀ {made problem}, d.makeChain parents = (made, problem) →
        Grown (p :: parents) d made :=
      fun hmade => (grown_makeChain hmade).mono fun q hq => List.mem_cons_of_mem p hq
    unfold makeChain at h
    split at h
    · rename_i made hmade
      cases h
      exact hfirst hmade
    · split at h
      · rename_i made failed hchain
        cases h
        exact hothers hchain
      · rename_i made hchain
        split at h
        · rename_i final hfinal
          cases h
          exact (hothers hchain).trans (hfirst hfinal)
        · cases h
          exact hothers hchain
    · cases h
      exact .refl

theorem grown_makeDirectories {d last : Disk} {p : Path} {problem : Option Problem}
    (h : d.makeDirectories p = (last, problem)) : Grown p.ancestors d last :=
  (grown_makeChain h).mono fun _ hq => (List.takeWhile_sublist _).subset hq

end Disk

/-! ### Clients that are written -/

/-- The directories that are made for a client if they are not there. -/
def Client.Generated.directories (client : Generated) : List Path :=
  (client.path.parent?.getD ⟨""⟩).ancestors

/-- What writing a client makes of a disk: some of its directories are added, and its file is put
where its path then leads. -/
inductive Written (d : Disk) (client : Generated) : Disk → Prop
  | file {made place} (hmade : Disk.Grown client.directories d made)
      (hplace : made.locate true client.path = .ok place)
      (hfree : made.get? place ≠ some .directory) :
      Written d client (made.put place (.file (some client.contents)))

/-- What writing clients one after another makes of a disk. -/
inductive AllWritten : Disk → List Generated → Disk → Prop
  | nil {d} : AllWritten d [] d
  | cons {d client next clients last} (hwrite : Written d client next)
      (hrest : AllWritten next clients last) : AllWritten d (client :: clients) last

theorem written_of_write {d last : Disk} {client : Generated}
    (h : client.write d = (last, none)) : Written d client last := by
  unfold Client.Generated.write at h
  dsimp only at h
  split at h
  · cases h
  · rename_i made hmade
    split at h
    · cases h
    · rename_i final hwrite
      cases h
      unfold Disk.writeFile at hwrite
      split at hwrite
      · cases hwrite
      · rename_i place hplace
        split at hwrite
        · cases hwrite
        · rename_i hfree
          obtain rfl := Except.ok.inj hwrite
          exact .file (Disk.grown_makeDirectories hmade) hplace hfree

/-- A client that cannot be written leaves some of its directories at most. -/
theorem grown_of_write {d last : Disk} {client : Generated} {fault : WriteFault}
    (h : client.write d = (last, some fault)) : Disk.Grown client.directories d last := by
  unfold Client.Generated.write at h
  dsimp only at h
  split at h
  · rename_i made problem hmade
    cases h
    exact Disk.grown_makeDirectories hmade
  · rename_i made hmade
    split at h
    · cases h
      exact Disk.grown_makeDirectories hmade
    · cases h

theorem writeClients_eq_none : ∀ {clients : List Generated} {d last : Disk},
    writeClients d clients = (last, none) → AllWritten d clients last
  | [], d, last, h => by
    cases h
    exact .nil
  | client :: clients, d, last, h => by
    unfold writeClients at h
    split at h
    · cases h
    · rename_i next hwrite
      exact .cons (written_of_write hwrite) (writeClients_eq_none h)

/-- Writing stops at the first client that cannot be written. -/
theorem writeClients_eq_some {fault : WriteFault} : ∀ {clients : List Generated} {d last : Disk},
    writeClients d clients = (last, some fault) → ∃ done client rest before,
      clients = done ++ client :: rest ∧ AllWritten d done before ∧
        client.write before = (last, some fault)
  | [], d, last, h => by cases h
  | client :: clients, d, last, h => by
    unfold writeClients at h
    split at h
    · rename_i next failed hwrite
      cases h
      exact ⟨[], client, clients, d, rfl, .nil, hwrite⟩
    · rename_i next hwrite
      obtain ⟨done, failing, rest, before, rfl, hdone, hfailed⟩ := writeClients_eq_some h
      exact ⟨client :: done, failing, rest, before, rfl,
        .cons (written_of_write hwrite) hdone, hfailed⟩

/-! ### What has changed -/

namespace Disk

/-- A later disk on which nothing has changed but the files of some clients, and some directories
that were not there. -/
structure ChangedBy (clients : List Generated) (directories : List Path) (d last : Disk) : Prop
    extends KeepsWays d last where
  rooted : last.Rooted
  change : ∀ place, last.get? place = d.get? place ∨
    (∃ client ∈ clients, last.locate true client.path = .ok place ∧
      last.get? place = some (.file (some client.contents))) ∨
    (d.get? place = none ∧ last.get? place = some .directory ∧
      ∃ p ∈ directories, last.locate true p = .ok place)

namespace ChangedBy

variable {clients others : List Generated} {directories more : List Path} {d mid last : Disk}

theorem refl (hrooted : d.Rooted) : ChangedBy clients directories d d :=
  ⟨KeepsWays.refl d, hrooted, fun _ => .inl rfl⟩

theorem mono (h : ChangedBy clients directories d last) (hclients : ∀ c ∈ clients, c ∈ others)
    (hdirectories : ∀ p ∈ directories, p ∈ more) : ChangedBy others more d last := by
  refine ⟨h.toKeepsWays, h.rooted, fun place => ?_⟩
  rcases h.change place with hsame | ⟨client, hclient, hfile⟩ | ⟨hnone, hmade, p, hp, hplace⟩
  · exact .inl hsame
  · exact .inr (.inl ⟨client, hclients client hclient, hfile⟩)
  · exact .inr (.inr ⟨hnone, hmade, p, hdirectories p hp, hplace⟩)

theorem trans (h : ChangedBy clients directories d mid)
    (h' : ChangedBy clients directories mid last) : ChangedBy clients directories d last := by
  refine ⟨h.toKeepsWays.trans h'.toKeepsWays, h'.rooted, fun place => ?_⟩
  have hkeep := fun p => @locate_keep mid last true p place h'.toKeepsWays
  rcases h'.change place with hsame | hfile | ⟨hnone, hmade, hnew⟩
  · rw [hsame]
    rcases h.change place with hsame | ⟨client, hclient, hplace, hget⟩ | ⟨hnone, hmade, p, hp, hplace⟩
    · exact .inl hsame
    · exact .inr (.inl ⟨client, hclient, hkeep _ hplace, hget⟩)
    · exact .inr (.inr ⟨hnone, hmade, p, hp, hkeep _ hplace⟩)
  · exact .inr (.inl hfile)
  · -- nothing stood there in between, so nothing did at first
    refine .inr (.inr ⟨?_, hmade, hnew⟩)
    rcases h.change place with hsame | ⟨client, -, -, hget⟩ | ⟨-, hget, -⟩
    · rw [← hsame, hnone]
    · rw [hnone] at hget
      cases hget
    · rw [hnone] at hget
      cases hget

end ChangedBy

/-- What is put below a directory stands in it, and so does everything else. -/
theorem Rooted.put {d : Disk} (hrooted : d.Rooted) {place : Location} {entry : Entry}
    (hlanding : d.Landing place) (hfree : d.get? place ≠ some .directory) :
    (d.put place entry).Rooted := by
  have hne : place ≠ [] := fun he => hfree (by simp [he, get?])
  have hkeep : ∀ other, d.get? other = some .directory →
      (d.put place entry).get? other = some .directory := by
    intro other hother
    rwa [get?_put_of_ne fun heq : other = place => hfree (heq ▸ hother)]
  intro other hsome
  by_cases heq : other = place
  · exact heq ▸ hkeep _ hlanding.directory
  · rw [get?_put_of_ne heq] at hsome
    exact hkeep _ (hrooted other hsome)

theorem Vacant.landing {d : Disk} {place : Location} (h : d.Vacant place) : d.Landing place := by
  refine ⟨?_, by simp [h.nothing]⟩
  obtain ⟨above, name, rfl, -, habove⟩ := h.named
  rwa [List.dropLast_concat]

theorem Grown.changedBy {paths : List Path} {d last : Disk} (h : Grown paths d last)
    (hrooted : d.Rooted) (clients : List Generated) : ChangedBy clients paths d last := by
  induction h with
  | refl => exact .refl hrooted
  | @make d p place last hp hplace _ ih =>
    have hvacant := vacant_of_newPlace hplace
    have hmade : ChangedBy clients paths d (d.put place .directory) := by
      have hrooted' : (d.put place .directory).Rooted :=
        hrooted.put hvacant.landing (by simp [hvacant.nothing])
      refine ⟨hvacant.keepsWays, hrooted', fun other => ?_⟩
      by_cases heq : other = place
      · subst heq
        exact .inr (.inr ⟨hvacant.nothing, get?_put_self hvacant.ne_nil, p, hp,
          locate_put_newPlace hplace⟩)
      · exact .inl (get?_put_of_ne heq)
    exact hmade.trans (ih hmade.rooted)

theorem locate_lands {d : Disk} (hrooted : d.Rooted) {p : Path} {place : Location}
    (h : d.locate true p = .ok place) : d.Landing place := by
  obtain ⟨-, hway⟩ := locate_eq_ok_iff_way.mp h
  exact hway.lands hrooted fun hnil => absurd hnil p.body_ne_nil

/-- A file that is written is the only change, and its path still leads to it. -/
theorem changedBy_put_file {client : Generated} {d : Disk} {place : Location}
    (hrooted : d.Rooted) (hplace : d.locate true client.path = .ok place)
    (hfree : d.get? place ≠ some .directory) :
    ChangedBy [client] [] d (d.put place (.file (some client.contents))) := by
  have hlanding := locate_lands hrooted hplace
  have hne : place ≠ [] := fun he => hfree (by simp [he, get?])
  have hkeeps : d.KeepsWays (d.put place (.file (some client.contents))) :=
    .put hne hfree hlanding.not_link rfl
  refine ⟨hkeeps, hrooted.put hlanding hfree, fun other => ?_⟩
  by_cases heq : other = place
  · subst heq
    exact .inr (.inl ⟨client, by simp, locate_keep hkeeps hplace, get?_put_self hne⟩)
  · exact .inl (get?_put_of_ne heq)

end Disk

theorem Written.changedBy {d last : Disk} {client : Generated} (h : Written d client last)
    (hrooted : d.Rooted) : Disk.ChangedBy [client] client.directories d last := by
  cases h with
  | file hmade hplace hfree =>
    have hgrown := hmade.changedBy hrooted [client]
    exact hgrown.trans ((Disk.changedBy_put_file hgrown.rooted hplace hfree).mono (by simp) (by simp))

/-- Writing clients changes their files and adds directories that lead to them, and nothing else. -/
theorem AllWritten.changedBy {d last : Disk} {clients : List Generated}
    (h : AllWritten d clients last) (hrooted : d.Rooted) :
    Disk.ChangedBy clients (clients.flatMap Generated.directories) d last := by
  induction h with
  | nil => exact .refl hrooted
  | @cons d client next clients last hwrite _ ih =>
    have hfirst := hwrite.changedBy hrooted
    have hrest := ih hfirst.rooted
    rw [List.flatMap_cons]
    exact (hfirst.mono (fun _ hc => List.mem_cons.mpr (.inl (List.mem_singleton.mp hc)))
      fun _ hp => List.mem_append_left _ hp).trans
        (hrest.mono (fun _ hc => List.mem_cons_of_mem client hc) fun _ hp => List.mem_append_right _ hp)

/-! ### Runs that fail -/

/-- What a run leaves behind whose writing fails at `client`: the clients before it are written, one
after the other, and some of its directories may have been made. -/
structure Interrupted (d : Disk) (done : List Generated) (client : Generated) (fault : WriteFault)
    (last : Disk) : Prop where
  written : ∃ before, AllWritten d done before ∧ client.write before = (last, some fault) ∧
    Disk.Grown client.directories before last
  /-- Nothing else has changed, in particular not the files of the clients after it. -/
  confined : d.Rooted →
    Disk.ChangedBy done ((done ++ [client]).flatMap Generated.directories) d last

/-- Planning writes nothing, so no fault in it is one of writing. -/
theorem planGeneration_ne_write {d : Disk} {options : GenerateOptions} {failed : WriteFault} :
    planGeneration d options ≠ .error (.write failed) := by
  unfold planGeneration
  split
  · simp
  · dsimp only
    split <;> simp

theorem interrupted_of_writeClients {d last : Disk} {clients : List Generated} {fault : WriteFault}
    (h : writeClients d clients = (last, some fault)) : ∃ done client rest,
      clients = done ++ client :: rest ∧ Interrupted d done client fault last := by
  obtain ⟨done, client, rest, before, heq, hdone, hwrite⟩ := writeClients_eq_some h
  have hgrown := grown_of_write hwrite
  refine ⟨done, client, rest, heq, ⟨before, hdone, hwrite, hgrown⟩, fun hrooted => ?_⟩
  have hfirst := hdone.changedBy hrooted
  have hlast := hgrown.changedBy hfirst.rooted done
  rw [List.flatMap_append, List.flatMap_singleton]
  exact (hfirst.mono (fun _ hc => hc) fun _ hp => List.mem_append_left _ hp).trans
    (hlast.mono (fun _ hc => hc) fun _ hp => List.mem_append_right _ hp)

/-- A run that ends in a fatal fault has planned nothing and leaves the disk as it was, or it has
planned all its clients and the writing of one of them failed. -/
theorem generate_interrupted {d last : Disk} {options : GenerateOptions} {fault : GenerateFault}
    (h : generate d options = (last, .error fault)) :
    (planGeneration d options = .error fault ∧ last = d ∧ ∀ failed, fault ≠ .write failed) ∨
      ∃ g done client rest failed, planGeneration d options = .ok g ∧ options.dryRun = false ∧
        fault = .write failed ∧ g.clients = done ++ client :: rest ∧
        Interrupted d done client failed last := by
  unfold generate at h
  split at h
  · rename_i early hplan
    obtain ⟨rfl, hfault⟩ := Prod.mk.inj h
    obtain rfl := Except.error.inj hfault
    refine .inl ⟨hplan, rfl, fun failed heq => ?_⟩
    exact planGeneration_ne_write (heq ▸ hplan)
  · rename_i g hplan
    split at h
    · cases h
    · rename_i hdry
      split at h
      · rename_i written failed hwrite
        obtain ⟨rfl, hfault⟩ := Prod.mk.inj h
        obtain rfl := Except.error.inj hfault
        obtain ⟨done, client, rest, hclients, hinterrupted⟩ := interrupted_of_writeClients hwrite
        exact .inr ⟨g, done, client, rest, failed, hplan, by simpa using hdry, rfl, hclients,
          hinterrupted⟩
      · cases h

/-- A project with two services, and a directory where the client of the second belongs. -/
def blockedDisk : Disk where
  entries := [
    (["project"], .directory),
    (["project", "a.ts"], .file (some "// @HttpClient\nexport interface A \x7b\n\x7d\n")),
    (["project", "b.ts"], .file (some "// @HttpClient\nexport interface B \x7b\n\x7d\n")),
    (["project", "out"], .directory),
    (["project", "out", "b_gen.ts"], .directory)]
  cwd := ["project"]

def blockedOptions : GenerateOptions := ⟨none, some ⟨"out"⟩, false, false⟩

/-- The run writes the client of the first service and fails at that of the second. -/
theorem generate_interrupted_blocked : ∃ last,
    generate blockedDisk blockedOptions =
      (last, .error (.write (.file ⟨"out/b_gen.ts"⟩ .isDirectory))) ∧
    last.isFile ⟨"out/a_gen.ts"⟩ = true ∧
    ((planGeneration blockedDisk blockedOptions =
          .error (.write (.file ⟨"out/b_gen.ts"⟩ .isDirectory)) ∧
        last = blockedDisk ∧
        ∀ failed, GenerateFault.write (.file ⟨"out/b_gen.ts"⟩ .isDirectory) ≠ .write failed) ∨
      ∃ g done client rest failed, planGeneration blockedDisk blockedOptions = .ok g ∧
        blockedOptions.dryRun = false ∧
        GenerateFault.write (.file ⟨"out/b_gen.ts"⟩ .isDirectory) = .write failed ∧
        g.clients = done ++ client :: rest ∧
        Interrupted blockedDisk done client failed last) := by
  have hfault : (generate blockedDisk blockedOptions).2 =
      .error (.write (.file ⟨"out/b_gen.ts"⟩ .isDirectory)) := by decide +kernel
  have hfile : (generate blockedDisk blockedOptions).1.isFile ⟨"out/a_gen.ts"⟩ = true := by
    decide +kernel
  cases hrun : generate blockedDisk blockedOptions with
  | mk last result =>
    rw [hrun] at hfault hfile
    obtain rfl : result = _ := hfault
    exact ⟨last, rfl, hfile, generate_interrupted hrun⟩

end FetchClients
