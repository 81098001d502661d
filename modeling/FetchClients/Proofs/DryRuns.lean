/-
# Dry runs

A flag changes how no other argument is read: a command line that asks for a dry run
asks, without its `--dry-run`, for the same run with writing
(`CommandLine.parse_erase_dryRun`). Both plan alike, since all is planned before anything
is written, and every client that was planned has a file in the end
(`dry_run_foretells`).

Key definitions: `CommandLine.Given.SameButDry`, `CommandLine.Given.Trails`.
Key theorems: `CommandLine.trails_readArgument`, `CommandLine.parse_erase_dryRun`,
`generate_of_dryRun`, `dry_run_foretells`.
-/
import FetchClients.Program
import FetchClients.Proofs.ArgumentValues
import FetchClients.Proofs.Rewriting

namespace FetchClients

open Client (Generated)

namespace CommandLine

/-! ### One flag among the arguments -/

namespace Given

/-- Whether the same was read, but for a dry run that only `dry` asks for. -/
structure SameButDry (real dry : Given) : Prop where
  asked : dry.has .dryRun = true
  eq : real = { dry with settled := dry.settled.filter (·.1 ≠ .dryRun) }

/-- Whether the same was read, but for a dry run and that `real` may still have to put its last
parameter into effect. -/
def Trails (real dry : Given) : Prop :=
  SameButDry real dry ∨
    dry.pending = none ∧ ∃ settled, real.settle = .ok settled ∧ SameButDry settled dry

/-- Once the last parameter is in effect none is left. -/
theorem kept_of_settle {given settled : Given} (h : given.settle = .ok settled) :
    settled.pending = none ∧ settled.operandsOnly = given.operandsOnly := by
  unfold Given.settle at h
  split at h
  · rename_i hnone
    rw [← Except.ok.inj h]
    exact ⟨hnone, rfl⟩
  · cases h
  · unfold Given.put at h
    split at h
    · cases h
    · split at h
      · cases h
      · rw [← Except.ok.inj h]
        exact ⟨rfl, rfl⟩

namespace SameButDry

variable {real dry : Given} (h : SameButDry real dry)
include h

theorem has_eq {p : Parameter} (hp : p ≠ .dryRun) : real.has p = dry.has p := by
  rw [h.eq, Bool.eq_iff_iff]
  simp only [has, List.any_eq_true, List.mem_filter, decide_eq_true_eq]
  constructor
  · rintro ⟨setting, ⟨hmem, -⟩, rfl⟩
    exact ⟨setting, hmem, rfl⟩
  · rintro ⟨setting, hmem, rfl⟩
    exact ⟨setting, ⟨hmem, hp⟩, rfl⟩

theorem has_dryRun : real.has .dryRun = false := by
  rw [h.eq, Bool.eq_false_iff]
  intro hsome
  obtain ⟨setting, hmem, hparameter⟩ := List.any_eq_true.mp hsome
  have hne : setting.1 ≠ .dryRun := by simpa using (List.mem_filter.mp hmem).2
  exact hne (by simpa using hparameter)

theorem value?_eq {p : Parameter} (hp : p ≠ .dryRun) : real.value? p = dry.value? p := by
  rw [h.eq, value?, value?, List.find?_filter]
  congr 2
  funext setting
  by_cases heq : setting.1 = p
  · simp [heq, hp]
  · simp [heq]

theorem put {next : Given} {p : Parameter} {value : String} (hput : dry.put p value = .ok next) :
    ∃ done, real.put p value = .ok done ∧ SameButDry done next := by
  unfold Given.put at hput
  split at hput
  · cases hput
  · rename_i hfree
    split at hput
    · cases hput
    · rename_i hvalue
      obtain rfl := Except.ok.inj hput
      have hp : p ≠ .dryRun := fun heq => hfree (heq ▸ h.asked)
      refine ⟨{ real with settled := (p, value) :: real.settled, pending := none }, ?_, ?_⟩
      · rw [Given.put, h.has_eq hp, if_neg hfree, if_neg hvalue]
      · refine ⟨?_, ?_⟩
        · rw [has, List.any_cons]
          exact Bool.or_eq_true_iff.mpr (.inr h.asked)
        · rw [h.eq]
          simp [hp]

end SameButDry

/-- The dry run puts its last parameter into effect, and so does the other, with the same. -/
theorem Trails.settle {real dry next : Given} (h : Trails real dry) (hsettle : dry.settle = .ok next) :
    ∃ settled, real.settle = .ok settled ∧ SameButDry settled next := by
  rcases h with hsame | ⟨hnone, settled, hsettled, hsame⟩
  · have hpending : real.pending = dry.pending := by rw [hsame.eq]
    unfold Given.settle at hsettle ⊢
    rw [hpending]
    split at hsettle
    · obtain rfl := Except.ok.inj hsettle
      exact ⟨real, rfl, hsame⟩
    · cases hsettle
    · have hcleared : SameButDry { real with pending := none } { dry with pending := none } :=
        ⟨hsame.asked, by rw [hsame.eq]⟩
      exact hcleared.put hsettle
  · rw [Given.settle, hnone] at hsettle
    obtain rfl := Except.ok.inj hsettle
    exact ⟨settled, hsettled, hsame⟩

/-- From `--` on there are only operands for both. -/
theorem Trails.operands {real dry : Given} (h : Trails real dry) :
    Trails { real with operandsOnly := true } { dry with operandsOnly := true } := by
  rcases h with hsame | ⟨hnone, settled, hsettled, hsame⟩
  · exact .inl ⟨hsame.asked, by rw [hsame.eq]⟩
  · refine .inr ⟨hnone, { settled with operandsOnly := true }, ?_, ⟨hsame.asked, by rw [hsame.eq]⟩⟩
    unfold Given.settle at hsettled ⊢
    dsimp only at hsettled ⊢
    split at hsettled
    · obtain rfl := Except.ok.inj hsettled
      rfl
    · cases hsettled
    · unfold Given.put at hsettled ⊢
      split at hsettled
      · cases hsettled
      · rename_i hfree
        split at hsettled
        · cases hsettled
        · rename_i hvalue
          obtain rfl := Except.ok.inj hsettled
          have hfree' : ¬ ({ real with pending := none, operandsOnly := true } : Given).has _ = true :=
            hfree
          rw [if_neg hfree', if_neg hvalue]

theorem Trails.operandsOnly_eq {real dry : Given} (h : Trails real dry) :
    real.operandsOnly = dry.operandsOnly := by
  rcases h with hsame | ⟨-, settled, hsettled, hsame⟩
  · rw [hsame.eq]
  · rw [← (kept_of_settle hsettled).2, hsame.eq]

end Given

open Given

section Reading

variable {real dry next : Given} (h : Trails real dry)
include h

theorem trails_readFlag {p : Parameter} (hread : readFlag dry p = .ok (.more next)) :
    ∃ done, readFlag real p = .ok (.more done) ∧ Trails done next := by
  unfold readFlag at hread ⊢
  split at hread
  · cases hread
  · rename_i settled hsettled
    obtain ⟨settled', hsettled', hsame⟩ := h.settle hsettled
    split at hread
    · cases hread
    · rename_i hhelp
      obtain ⟨given, hput, heq⟩ := map_eq_ok_iff.mp hread
      cases heq
      obtain ⟨done, hdone, hsame'⟩ := hsame.put hput
      rw [hsettled']
      dsimp only
      rw [if_neg hhelp, hdone]
      exact ⟨done, rfl, .inl hsame'⟩

theorem trails_readLong {u : Usage} {name : String} {value : Option String}
    (hread : readLong u dry name value = .ok (.more next)) :
    ∃ done, readLong u real name value = .ok (.more done) ∧ Trails done next := by
  unfold readLong at hread ⊢
  cases hfound : u.options.find? (·.long? = some name) with
  | none =>
    rw [hfound] at hread
    cases hread
  | some p =>
    rw [hfound] at hread
    cases value with
    | none =>
      dsimp only at hread ⊢
      split at hread
      · rename_i htakes
        rw [if_pos htakes]
        obtain ⟨settled, hsettled, heq⟩ := map_eq_ok_iff.mp hread
        cases heq
        obtain ⟨done, hdone, hsame⟩ := h.settle hsettled
        rw [hdone]
        exact ⟨_, rfl, .inl ⟨hsame.asked, by rw [hsame.eq]⟩⟩
      · rename_i htakes
        rw [if_neg htakes]
        exact trails_readFlag h hread
    | some value =>
      dsimp only at hread ⊢
      split at hread
      · rename_i htakes
        rw [if_pos htakes]
        split at hread
        · cases hread
        · rename_i settled hsettled
          obtain ⟨settled', hsettled', hsame⟩ := h.settle hsettled
          obtain ⟨given, hput, heq⟩ := map_eq_ok_iff.mp hread
          cases heq
          obtain ⟨done, hdone, hsame'⟩ := hsame.put hput
          rw [hsettled']
          dsimp only
          rw [hdone]
          exact ⟨done, rfl, .inl hsame'⟩
      · cases hread

end Reading

theorem trails_readLetters {u : Usage} : ∀ {cs : List Char} {real dry next : Given},
    Trails real dry → readLetters u dry cs = .ok (.more next) →
      ∃ done, readLetters u real cs = .ok (.more done) ∧ Trails done next
  | [], real, dry, next, h, hread => by
    cases hread
    exact ⟨real, rfl, h⟩
  | c :: cs, real, dry, next, h, hread => by
    unfold readLetters at hread ⊢
    cases hfound : u.options.find? (·.letter? = some c) with
    | none =>
      rw [hfound] at hread
      cases hread
    | some p =>
      rw [hfound] at hread
      dsimp only at hread ⊢
      split at hread
      · cases hread
      · cases hread
      · rename_i given hflag
        obtain ⟨done, hdone, htrails⟩ := trails_readFlag h hflag
        rw [hdone]
        exact trails_readLetters htrails hread

/-- A further argument is read alike. -/
theorem trails_readArgument {real dry next : Given} {text : String} (h : Trails real dry)
    (hread : readArgument generateUsage dry text = .ok (.more next)) :
    ∃ done, readArgument generateUsage real text = .ok (.more done) ∧ Trails done next := by
  unfold readArgument at hread ⊢
  rw [h.operandsOnly_eq]
  split at hread
  · -- there are no operands of this command
    cases hread
  · rename_i honly
    rw [if_neg honly]
    split at hread
    · cases hread
      exact ⟨_, rfl, h.operands⟩
    · exact trails_readLong h hread
    · exact trails_readLetters h hread
    · split at hread
      · rename_i p hpending
        cases hread
        rcases h with hsame | ⟨hnone, -⟩
        · have hreal : real.pending = some (p, none) := by rw [hsame.eq]; exact hpending
          rw [hreal]
          exact ⟨_, rfl, .inl ⟨hsame.asked, by rw [hsame.eq]⟩⟩
        · rw [hnone] at hpending
          cases hpending
      · cases hread

theorem trails_readArguments : ∀ {texts : List String} {real dry : Given} {options : GenerateOptions},
    Trails real dry →
    readArguments generateUsage generateRequest dry texts = .run (.generate options) →
      options.dryRun = true ∧ readArguments generateUsage generateRequest real texts =
        .run (.generate { options with dryRun := false })
  | [], real, dry, options, h, hread => by
    unfold readArguments at hread ⊢
    split at hread
    · cases hread
    · rename_i settled hsettled
      obtain ⟨settled', hsettled', hsame⟩ := h.settle hsettled
      cases hread
      rw [hsettled']
      refine ⟨hsame.asked, ?_⟩
      simp only [generateRequest, hsame.has_dryRun, hsame.has_eq (p := .verbose) (by decide),
        hsame.value?_eq (p := .sourceRoot) (by decide), hsame.value?_eq (p := .outputDir) (by decide)]
  | text :: texts, real, dry, options, h, hread => by
    unfold readArguments at hread ⊢
    split at hread
    · cases hread
    · cases hread
    · rename_i next hnext
      obtain ⟨done, hdone, htrails⟩ := trails_readArgument h hnext
      rw [hdone]
      exact trails_readArguments htrails hread

/-- The flag of a dry run changes nothing else. -/
theorem trails_dryRun {given next : Given}
    (hread : readArgument generateUsage given "--dry-run" = .ok (.more next)) :
    Trails given next := by
  unfold readArgument at hread
  split at hread
  · cases hread
  · change readFlag given .dryRun = _ at hread
    unfold readFlag at hread
    split at hread
    · cases hread
    · rename_i settled hsettled
      rw [if_neg (by decide)] at hread
      unfold Given.put at hread
      split at hread
      · cases hread
      · rename_i hfree
        cases hread
        obtain ⟨hnone, -⟩ := kept_of_settle hsettled
        have hkept : settled.settled.filter (·.1 ≠ .dryRun) = settled.settled := by
          refine List.filter_eq_self.mpr fun setting hmem => ?_
          have hne : setting.1 ≠ .dryRun := fun heq =>
            hfree (List.any_eq_true.mpr ⟨setting, hmem, by simp [heq]⟩)
          simpa using hne
        refine .inr ⟨rfl, settled, hsettled, ⟨rfl, ?_⟩⟩
        rw [List.filter_cons_of_neg (by simp), hkept, ← hnone]

/-- A command line that asks for a dry run asks without its `--dry-run` for the same with writing. -/
theorem parse_erase_dryRun {texts : List String} {options : GenerateOptions}
    (hdry : "--dry-run" ∈ texts) (hparse : parse ("generate" :: texts) = .run (.generate options)) :
    options.dryRun = true ∧ parse ("generate" :: texts.erase "--dry-run") =
      .run (.generate { options with dryRun := false }) := by
  change readArguments generateUsage generateRequest .empty texts = _ at hparse
  change _ ∧ readArguments generateUsage generateRequest .empty _ = _
  generalize Given.empty = given at hparse ⊢
  induction texts generalizing given with
  | nil => simp at hdry
  | cons text texts ih =>
    unfold readArguments at hparse
    split at hparse
    · cases hparse
    · cases hparse
    · rename_i next hnext
      by_cases htext : text = "--dry-run"
      · subst htext
        rw [List.erase_cons_head]
        exact trails_readArguments (trails_dryRun hnext) hparse
      · have hlater : "--dry-run" ∈ texts := by simpa [Ne.symm htext] using hdry
        rw [List.erase_cons_tail (by simpa using htext), readArguments, hnext]
        exact ih hlater next hparse

/-- What is read after `generate` is no other command. -/
theorem exists_options_of_parse {texts : List String} {command : Command}
    (hparse : parse ("generate" :: texts) = .run command) : ∃ options, command = .generate options := by
  obtain ⟨given, -, hfinish⟩ := exists_filled_of_readArguments Given.filled_empty hparse
  cases hfinish
  exact ⟨_, rfl⟩

end CommandLine

/-! ### Two runs -/

/-- The options of the same run with writing. -/
def GenerateOptions.writing (options : GenerateOptions) : GenerateOptions :=
  { options with dryRun := false }

/-- What the same run reports with writing. -/
def Generation.writing (g : Generation) : Generation :=
  { g with dryRun := false }

/-- All is planned before anything is written, so the plans are the same. -/
theorem planGeneration_writing (d : Disk) (options : GenerateOptions) :
    planGeneration d options.writing = (planGeneration d options).map Generation.writing := by
  have hroot : options.writing.sourceRoot = options.sourceRoot := rfl
  have houtput : options.writing.outputDir = options.outputDir := rfl
  unfold planGeneration
  rw [hroot, houtput]
  cases Project.load d (options.sourceRoot.getD ⟨"."⟩) with
  | error fault => rfl
  | ok project =>
    dsimp only
    cases Plan.of d.cwdPath (options.outputDir.or project.outputDir)
        (Marked.ofOutlines project.config.keys (project.outlines d)) with
    | error fault => rfl
    | ok plan => rfl

theorem generate_of_dryRun {d : Disk} {options : GenerateOptions} (h : options.dryRun = true) :
    generate d options = (d, planGeneration d options) := by
  unfold generate
  cases planGeneration d options with
  | error fault => rfl
  | ok g =>
    dsimp only
    rw [if_pos h]

/-- A run that writes what it planned ends with the report of the dry run, and all clients of that
report are written; any other run has the fault of the dry run. -/
theorem generate_writing {d last : Disk} {options : GenerateOptions}
    {result : Except GenerateFault Generation} (h : generate d options.writing = (last, result))
    (hwritten : ∀ failed, result ≠ .error (.write failed)) :
    result = (planGeneration d options).map Generation.writing ∧
      ∀ g, planGeneration d options = .ok g → AllWritten d g.clients last := by
  rw [generate, planGeneration_writing] at h
  cases hplan : planGeneration d options with
  | error fault =>
    rw [hplan] at h
    obtain ⟨-, rfl⟩ := Prod.mk.inj h
    exact ⟨rfl, fun g hg => by cases hg⟩
  | ok g =>
    rw [hplan] at h
    change (if false = true then _ else _) = _ at h
    rw [if_neg Bool.false_ne_true] at h
    split at h
    · obtain ⟨-, rfl⟩ := Prod.mk.inj h
      exact absurd rfl (hwritten _)
    · rename_i written hwrite
      obtain ⟨rfl, rfl⟩ := Prod.mk.inj h
      refine ⟨rfl, fun g' hg' => ?_⟩
      obtain rfl := Except.ok.inj hg'
      exact writeClients_eq_none hwrite

namespace Program

/-- Runs with the same issues, or both with a fault, end with the same exit code. -/
theorem exitCode_generate_congr (colours : Bool) {d e : Disk} {options others : GenerateOptions}
    (h : (FetchClients.generate d options).2.toOption.map (·.issues) =
      (FetchClients.generate e others).2.toOption.map (·.issues)) :
    (generate colours d options).2.exitCode = (generate colours e others).2.exitCode := by
  unfold generate
  generalize FetchClients.generate d options = first at h ⊢
  generalize FetchClients.generate e others = second at h ⊢
  obtain ⟨last, result⟩ := first
  obtain ⟨last', result'⟩ := second
  cases result with
  | error fault =>
    cases result' with
    | error fault' => rfl
    | ok g' => cases h
  | ok g =>
    cases result' with
    | error fault' => cases h
    | ok g' =>
      have hissues : g.issues = g'.issues := Option.some.inj h
      dsimp only
      rw [exitCode_finish, exitCode_finish, hissues]

end Program

/-- What a dry run of `generate` lists comes true: it changes nothing, and without its `--dry-run` the
same command, unless it fails in writing, ends with the same fault or the same report (clients, issues,
and how many sources were scanned and paths passed over), the same exit code, and a file at the path of
each client. -/
theorem dry_run_foretells (colours : Bool) {d : Disk} (hrooted : d.Rooted) {texts : List String}
    (hdry : "--dry-run" ∈ texts) :
    (Program.run colours d ("generate" :: texts)).1 = d ∧
      ∀ options, CommandLine.parse ("generate" :: texts) = .run (.generate options) →
        CommandLine.parse ("generate" :: texts.erase "--dry-run") = .run (.generate options.writing) ∧
        ((∀ failed, (generate d options.writing).2 ≠ .error (.write failed)) →
          (generate d options.writing).2 = (generate d options).2.map Generation.writing ∧
          (Program.run colours d ("generate" :: texts.erase "--dry-run")).2.exitCode =
            (Program.run colours d ("generate" :: texts)).2.exitCode ∧
          ∀ g, (generate d options).2 = .ok g → ∀ client ∈ g.clients,
            (Program.run colours d ("generate" :: texts.erase "--dry-run")).1.isFile client.path =
              true) := by
  have hnothing : ∀ options, options.dryRun = true →
      (Program.generate colours d options).1 = d := by
    intro options hoptions
    rw [Program.generate, generate_of_dryRun hoptions]
    cases planGeneration d options <;> rfl
  refine ⟨?_, fun options hparse => ?_⟩
  · unfold Program.run
    cases hparse : CommandLine.parse ("generate" :: texts) with
    | run command =>
      obtain ⟨options, rfl⟩ := CommandLine.exists_options_of_parse hparse
      exact hnothing options (CommandLine.parse_erase_dryRun hdry hparse).1
    | _ => rfl
  · obtain ⟨hoptions, hreal⟩ := CommandLine.parse_erase_dryRun hdry hparse
    refine ⟨hreal, fun hwritten => ?_⟩
    have hrun : Program.run colours d ("generate" :: texts.erase "--dry-run") =
        Program.generate colours d options.writing := by
      unfold Program.run
      rw [hreal]
      rfl
    have hrunDry : Program.run colours d ("generate" :: texts) =
        Program.generate colours d options := by
      unfold Program.run
      rw [hparse]
    rw [hrun, hrunDry, generate_of_dryRun hoptions]
    cases hgenerate : generate d options.writing with
    | mk last result =>
      rw [hgenerate] at hwritten
      obtain ⟨hresult, hall⟩ := generate_writing hgenerate hwritten
      refine ⟨hresult, Program.exitCode_generate_congr colours ?_, fun g hg client hclient => ?_⟩
      · rw [hgenerate, generate_of_dryRun hoptions, hresult]
        cases planGeneration d options <;> rfl
      · obtain ⟨place, contents, hlocate, hget⟩ := (hall g hg).isThere hrooted client hclient
        have hlast : (Program.generate colours d options.writing).1 = last := by
          rw [Program.generate, hgenerate]
          cases result <;> rfl
        rw [hlast]
        exact Disk.isFile_eq_true_iff.mpr ⟨place, contents, Disk.lookup_eq_ok_iff.mpr ⟨hlocate, hget⟩⟩

/-- Two sources whose services have one name. -/
def namesakesDisk : Disk where
  entries := [
    (["a.ts"], .file (some "// @HttpClient\nexport interface A \x7b\n\x7d\n")),
    (["b.ts"], .file (some "// @HttpClient\n// @ServiceName A\nexport interface B \x7b\n\x7d\n"))]
  cwd := []

def namesakesOptions : GenerateOptions := ⟨none, some ⟨"out"⟩, true, false⟩

/-- Of the two services one is listed, and written by the run without `--dry-run`; the other is an
issue of both runs. -/
theorem dry_run_foretells_namesakes :
    (generate namesakesDisk namesakesOptions).2.toOption.map
        (fun g => (g.clients.map (·.path.text), g.issues.length)) = some (["out/a_gen.ts"], 1) ∧
    (Program.run false namesakesDisk ["generate", "--dry-run", "--output-dir", "out"]).1 =
      namesakesDisk ∧
    (generate namesakesDisk namesakesOptions.writing).2 =
      (generate namesakesDisk namesakesOptions).2.map Generation.writing ∧
    (Program.run false namesakesDisk ["generate", "--output-dir", "out"]).2.exitCode =
      (Program.run false namesakesDisk ["generate", "--dry-run", "--output-dir", "out"]).2.exitCode ∧
    ∀ g, (generate namesakesDisk namesakesOptions).2 = .ok g → ∀ client ∈ g.clients,
      (Program.run false namesakesDisk ["generate", "--output-dir", "out"]).1.isFile client.path =
        true := by
  have hrooted : namesakesDisk.Rooted := Disk.IsTree.rooted (by decide +kernel)
  obtain ⟨hnothing, hforetold⟩ := @dry_run_foretells false namesakesDisk hrooted
    ["--dry-run", "--output-dir", "out"] (by decide)
  have hreported : (generate namesakesDisk namesakesOptions).2.toOption.map
      (fun g => (g.clients.map (·.path.text), g.issues.length)) = some (["out/a_gen.ts"], 1) := by
    decide +kernel
  have hok : (generate namesakesDisk namesakesOptions.writing).2.isOk = true := by decide +kernel
  obtain ⟨-, hreal⟩ := hforetold namesakesOptions (by decide +kernel)
  have hwritten : ∀ failed, (generate namesakesDisk namesakesOptions.writing).2 ≠
      .error (.write failed) := by
    intro failed heq
    rw [heq] at hok
    cases hok
  exact ⟨hreported, hnothing, hreal hwritten⟩

end FetchClients
