/-
# One source does not affect the others

What a run finds in a source depends on that source alone, and whether a service is
accepted depends on the first declaration that claims its output path. So the
declarations of a file can be left out of a plan, and every declaration of another
file has the same verdict unless the file claims its output path
(`JudgedInOrder.without`). Two trees that differ only in the contents of the file are
planned alike without it, and therefore report the same about all other files, with
the same clients, but for output paths that the file claims in one tree or the other.

Key definitions: `Disk.DifferAt`, `JudgedInOrder`, `Project.claimsOf`, `Isolated`.
Key theorems: `JudgedInOrder.without`, `JudgedInOrder.unique`,
`generate_isolates`.
-/
import FetchClients.Proofs.Ownership
import FetchClients.Proofs.Resolving
import FetchClients.Proofs.Shapes

namespace FetchClients

open Client (Generated)

/-! ### Trees that differ in one file -/

namespace Disk

/-- Two disks that differ in the contents of one file at most. -/
structure DifferAt (d : Disk) (f : Location) (e : Disk) : Prop where
  cwd : e.cwd = d.cwd
  file : ∃ a b, d.get? f = some (.file a) ∧ e.get? f = some (.file b)
  others : ∀ place, place ≠ f → e.get? place = d.get? place

/-- Whether a path leads elsewhere than to a file. -/
def leadsElsewhere (d : Disk) (f : Location) (path : String) : Bool :=
  decide (d.locate true ⟨path⟩ ≠ .ok f)

theorem differAt_put {d : Disk} {f : Location} {a : Option String}
    (h : d.get? f = some (.file a)) (b : Option String) : d.DifferAt f (d.put f (.file b)) where
  cwd := rfl
  file := ⟨a, b, h, get?_put_self fun hnil => by simp [hnil, get?] at h⟩
  others _ hne := get?_put_of_ne hne

namespace DifferAt

variable {d e : Disk} {f : Location} (h : d.DifferAt f e)
include h

theorem sameShape : d.SameShape e where
  cwd := h.cwd
  entry place := by
    by_cases heq : place = f
    · exact .inr (heq ▸ h.file)
    · exact .inl (h.others place heq)

theorem leadsElsewhere (path : String) : e.leadsElsewhere f path = d.leadsElsewhere f path := by
  unfold Disk.leadsElsewhere
  rw [h.sameShape.locate]

/-- A path that leads elsewhere reads as before. -/
theorem outlineOf {path : String} (hother : d.leadsElsewhere f path = true) :
    outlineOf e path = outlineOf d path := by
  have hlookup : e.lookup true ⟨path⟩ = d.lookup true ⟨path⟩ := by
    unfold Disk.lookup
    rw [h.sameShape.locate]
    cases hplace : d.locate true ⟨path⟩ with
    | error problem => rfl
    | ok place =>
      have hne : place ≠ f := by
        rintro rfl
        simp [Disk.leadsElsewhere, hplace] at hother
      dsimp only
      rw [h.others place hne]
  unfold FetchClients.outlineOf readText
  rw [hlookup]

end DifferAt

end Disk

/-! ### Verdicts without the declarations of a file -/

section Verdicts

variable {cwd : Path} {outputDir : Option Path}

/-- A declaration has one verdict. -/
theorem Judged.unique {before : List Marked} {m : Marked} {v w : Verdict}
    (hv : Judged cwd outputDir before m v) (hw : Judged cwd outputDir before m w) : v = w := by
  cases hv with
  | @faulty fault hfault =>
    cases hw with
    | faulty hfault' => rw [Except.error.inj (hfault.symm.trans hfault')]
    | owner hclient => rw [Marked.client?_of_fault hfault] at hclient; cases hclient
    | late hclient => rw [Marked.client?_of_fault hfault] at hclient; cases hclient
  | @owner client hclient hfirst =>
    cases hw with
    | faulty hfault => rw [Marked.client?_of_fault hfault] at hclient; cases hclient
    | owner hclient' => rw [Option.some.inj (hclient.symm.trans hclient')]
    | late hclient' hfirst' =>
      obtain rfl := Option.some.inj (hclient.symm.trans hclient')
      rw [hfirst] at hfirst'
      cases hfirst'
  | @late client first hclient hfirst =>
    cases hw with
    | faulty hfault => rw [Marked.client?_of_fault hfault] at hclient; cases hclient
    | owner hclient' hfirst' =>
      obtain rfl := Option.some.inj (hclient.symm.trans hclient')
      rw [hfirst] at hfirst'
      cases hfirst'
    | late hclient' hfirst' =>
      obtain rfl := Option.some.inj (hclient.symm.trans hclient')
      rw [Option.some.inj (hfirst.symm.trans hfirst')]

/-- A declaration that has a verdict has one after any other declarations. -/
theorem Judged.exists_after {before : List Marked} {m : Marked} {v : Verdict}
    (h : Judged cwd outputDir before m v) (others : List Marked) :
    ∃ w, Judged cwd outputDir others m w := by
  have hclient : ∀ client, m.client? cwd outputDir = some client →
      ∃ w, Judged cwd outputDir others m w := by
    intro client hclient
    cases hfirst : others.findSome? (Marked.clientFor? cwd outputDir client.path) with
    | none => exact ⟨_, .owner hclient hfirst⟩
    | some first => exact ⟨_, .late hclient hfirst⟩
  cases h with
  | faulty hfault => exact ⟨_, .faulty hfault⟩
  | owner hsome => exact hclient _ hsome
  | late hsome => exact hclient _ hsome

/-- Only what is claimed before matters, and only for the path of the declaration's client. -/
theorem Judged.congr {before others : List Marked} {m : Marked} {v : Verdict}
    (h : Judged cwd outputDir before m v)
    (hsame : ∀ client, m.client? cwd outputDir = some client →
      others.findSome? (Marked.clientFor? cwd outputDir client.path) =
        before.findSome? (Marked.clientFor? cwd outputDir client.path)) :
    Judged cwd outputDir others m v := by
  cases h with
  | faulty hfault => exact .faulty hfault
  | owner hclient hfirst => exact .owner hclient ((hsame _ hclient).trans hfirst)
  | late hclient hfirst => exact .late hclient ((hsame _ hclient).trans hfirst)

/-- Declarations with their verdicts, each judged by all before it. -/
inductive JudgedInOrder (cwd : Path) (outputDir : Option Path) :
    List Marked → List Marked → List Verdict → Prop
  | nil {seen} : JudgedInOrder cwd outputDir seen [] []
  | cons {seen m v ms vs} (hjudged : Judged cwd outputDir seen m v)
      (hrest : JudgedInOrder cwd outputDir (seen ++ [m]) ms vs) :
      JudgedInOrder cwd outputDir seen (m :: ms) (v :: vs)

theorem Plan.Run.judgedInOrder {p q : Plan} {ms : List Marked} {vs : List Verdict}
    (h : Run cwd outputDir p ms vs q) : ∀ {seen : List Marked}, p.Owns cwd outputDir seen →
      JudgedInOrder cwd outputDir seen ms vs := by
  induction h with
  | nil => exact fun _ => .nil
  | cons hstep _ ih => exact fun hseen => .cons (hseen.judged hstep) (ih (hseen.settle hstep))

namespace JudgedInOrder

variable {seen ms : List Marked} {vs ws : List Verdict}

theorem unique (h : JudgedInOrder cwd outputDir seen ms vs) :
    ∀ {ws : List Verdict}, JudgedInOrder cwd outputDir seen ms ws → vs = ws := by
  induction h with
  | nil =>
    intro ws hws
    cases hws
    rfl
  | cons hjudged _ ih =>
    intro ws hws
    cases hws with
    | cons hjudged' hrest => rw [hjudged.unique hjudged', ih hrest]

theorem forall₂ (h : JudgedInOrder cwd outputDir seen ms vs) :
    List.Forall₂ (fun m v => ∃ before, Judged cwd outputDir before m v) ms vs := by
  induction h with
  | nil => exact .nil
  | cons hjudged _ ih => exact .cons ⟨_, hjudged⟩ ih

/-- A search that finds nothing in what is left out finds the same in the rest. -/
theorem findSome?_filter {α β : Type} {pick : α → Option β} {keep : α → Bool} : ∀ {xs : List α},
    (∀ x ∈ xs, keep x = false → pick x = none) →
    (xs.filter keep).findSome? pick = xs.findSome? pick
  | [], _ => rfl
  | x :: xs, h => by
    have ih := @findSome?_filter α β pick keep xs fun y hy => h y (List.mem_cons_of_mem x hy)
    cases hkeep : keep x with
    | true => rw [List.filter_cons_of_pos hkeep, List.findSome?_cons, List.findSome?_cons, ih]
    | false =>
      rw [List.filter_cons_of_neg (by simp [hkeep]), List.findSome?_cons,
        h x List.mem_cons_self hkeep, ih]

/-- When some declarations are left out, the others keep their verdicts as long as none of those
left out claims their path. -/
theorem without {keep unaffected : Marked → Bool}
    (hkeep : ∀ m, unaffected m = true → keep m = true)
    (h : JudgedInOrder cwd outputDir seen ms vs) :
    (∀ m client, unaffected m = true → m.client? cwd outputDir = some client →
      ∀ x ∈ seen ++ ms, keep x = false → x.clientFor? cwd outputDir client.path = none) →
    ∃ ws, JudgedInOrder cwd outputDir (seen.filter keep) (ms.filter keep) ws ∧
      (ms.zip vs).filter (fun mv => unaffected mv.1) =
        ((ms.filter keep).zip ws).filter fun mv => unaffected mv.1 := by
  induction h with
  | nil => exact fun _ => ⟨[], .nil, rfl⟩
  | @cons seen m v ms vs hjudged _ ih =>
    intro hfree
    have hsplit : seen ++ [m] ++ ms = seen ++ m :: ms := by
      rw [List.append_assoc, List.singleton_append]
    obtain ⟨ws, hws, heq⟩ := ih (by rwa [hsplit])
    cases hm : keep m with
    | true =>
      rw [List.filter_append, List.filter_singleton, hm, Bool.cond_true] at hws
      rw [List.filter_cons_of_pos hm]
      cases hunaffected : unaffected m with
      | true =>
        -- nobody who is left out claims its path, so it is judged as before
        have hsame : Judged cwd outputDir (seen.filter keep) m v := by
          refine hjudged.congr fun client hclient => findSome?_filter fun x hx => ?_
          exact hfree m client hunaffected hclient x (List.mem_append_left _ hx)
        refine ⟨v :: ws, .cons hsame hws, ?_⟩
        rw [List.zip_cons_cons, List.zip_cons_cons, List.filter_cons_of_pos (by exact hunaffected),
          List.filter_cons_of_pos (by exact hunaffected), heq]
      | false =>
        obtain ⟨w, hw⟩ := hjudged.exists_after (seen.filter keep)
        refine ⟨w :: ws, .cons hw hws, ?_⟩
        rw [List.zip_cons_cons, List.zip_cons_cons, List.filter_cons_of_neg (by simp [hunaffected]),
          List.filter_cons_of_neg (by simp [hunaffected]), heq]
    | false =>
      have hunaffected : unaffected m = false := by
        rw [Bool.eq_false_iff]
        intro htrue
        rw [hkeep m htrue] at hm
        cases hm
      rw [List.filter_append, List.filter_singleton, hm, Bool.cond_false, List.append_nil] at hws
      refine ⟨ws, ?_, ?_⟩
      · rwa [List.filter_cons_of_neg (by simp [hm])]
      · rw [List.filter_cons_of_neg (by simp [hm]), List.zip_cons_cons,
          List.filter_cons_of_neg (by simp [hunaffected]), heq]

end JudgedInOrder

end Verdicts

/-! ### What is reported of other files -/

/-- The path that a fault is about, if another service has it. -/
def ServiceFault.outputPath? : ServiceFault → Option Path
  | duplicateOutput path _ => some ⟨path⟩
  | _ => none

/-- The output path that an issue is about, if another service has it. -/
def Issue.outputPath? : Issue → Option Path
  | unreadable .. => none
  | invalidService _ _ _ fault => fault.outputPath?

/-- Whether a path is none of those that are claimed, however it is written. -/
def Path.isUnclaimed (claimed : List Path) (p : Path) : Bool :=
  !claimed.any (·.sameSteps p)

/-- Whether an issue is about another file than `f`, and about no claimed path. -/
def Issue.isUnaffected (d : Disk) (f : Location) (claimed : List Path) (i : Issue) : Bool :=
  d.leadsElsewhere f i.file && i.outputPath?.all (·.isUnclaimed claimed)

/-- Whether a client is that of another file than `f`, and has no claimed path. -/
def Client.Generated.isUnaffected (d : Disk) (f : Location) (claimed : List Path)
    (client : Generated) : Bool :=
  d.leadsElsewhere f client.source && client.path.isUnclaimed claimed

/-- The output paths of the services that are declared in a file. -/
def Project.claimsOf (p : Project) (d : Disk) (outputDir : Option Path) (f : Location) : List Path :=
  ((Marked.ofOutlines p.config.keys (p.outlines d)).filter (!d.leadsElsewhere f ·.source)).filterMap
    fun m => (m.client? d.cwdPath outputDir).map (·.path)

/-- What two runs report alike: all issues of files other than `f`, and all clients of services that
other files declare, but for claimed paths. -/
structure Isolated (d : Disk) (f : Location) (claimed : List Path) (g other : Generation) : Prop where
  issues : other.issues.filter (·.isUnaffected d f claimed) =
    g.issues.filter (·.isUnaffected d f claimed)
  clients : other.clients.filter (·.isUnaffected d f claimed) =
    g.clients.filter (·.isUnaffected d f claimed)

theorem Method.outputPath?_of_field {keys : Keys} {field : Annotated Member} {params : List Param}
    {returns : Option TypeExpr} {fault : ServiceFault}
    (h : ofField keys field params returns = .error fault) : fault.outputPath? = none := by
  unfold ofField at h
  dsimp only at h
  split at h
  · cases h
    rfl
  · split at h
    · cases h
      rfl
    · split at h <;> cases h <;> rfl

theorem Method.outputPath?_of_fields {keys : Keys} {fault : ServiceFault} :
    ∀ {fields : List (Annotated Member)}, ofFields keys fields = .error fault →
      fault.outputPath? = none
  | [], h => by cases h
  | field :: fields, h => by
    unfold ofFields at h
    split at h
    · exact outputPath?_of_fields h
    · split at h
      · rename_i hfault
        cases h
        exact outputPath?_of_field hfault
      · split at h
        · rename_i hfault
          cases h
          exact outputPath?_of_fields hfault
        · cases h

/-- No fault of a declaration itself is about an output path. -/
theorem Service.outputPath?_of_fault {module : String} {type : TypeOutline} {keys : Keys}
    {fault : ServiceFault} (h : ofType module type keys = .error fault) :
    fault.outputPath? = none := by
  unfold ofType at h
  split at h
  · rename_i hname
    unfold nameOf at hname
    cases h
    split at hname
    · cases hname
    · split at hname
      · cases hname
      · cases hname
        rfl
  · split at h
    · rename_i hfault
      cases h
      exact Method.outputPath?_of_fields hfault
    · cases h

theorem Marked.outputPath?_of_fault {keys : Keys} {m : Marked} {fault : ServiceFault}
    {outlines : List (String × Except SourceFault FileOutline)}
    (hm : m ∈ ofOutlines keys outlines) (h : m.candidate.result = .error fault) :
    fault.outputPath? = none := by
  rw [ofOutlines_eq] at hm
  obtain ⟨x, -, rfl⟩ := List.mem_map.mp hm
  exact Service.outputPath?_of_fault h

/-! ### Leaving a file out -/

theorem Marked.filter_ofOutlines (keys : Keys) (keep : String → Bool) :
    ∀ outlines : List (String × Except SourceFault FileOutline),
    (ofOutlines keys outlines).filter (keep ·.source) =
      ofOutlines keys (outlines.filter (keep ·.1))
  | [] => rfl
  | (path, .ok file) :: rest => by
    have ih := filter_ofOutlines keys keep rest
    simp only [ofOutlines, List.filter_append, List.filter_map, ih]
    cases hkeep : keep path with
    | true =>
      have hall : (file.candidates keys).filter ((keep ·.source) ∘ Marked.mk path) =
          file.candidates keys := List.filter_eq_self.mpr fun _ _ => hkeep
      rw [hall, List.filter_cons_of_pos (by exact hkeep)]
      rfl
    | false =>
      have hnone : (file.candidates keys).filter ((keep ·.source) ∘ Marked.mk path) = [] :=
        List.filter_eq_nil_iff.mpr fun _ _ => by simp [hkeep]
      rw [hnone, List.filter_cons_of_neg (by simp [hkeep])]
      rfl
  | (path, .error fault) :: rest => by
    have ih := filter_ofOutlines keys keep rest
    simp only [ofOutlines]
    rw [List.filter_cons]
    split
    · exact ih
    · exact ih

theorem filter_unreadableIssues (keep : String → Bool) :
    ∀ outlines : List (String × Except SourceFault FileOutline),
    (unreadableIssues outlines).filter (keep ·.file) =
      unreadableIssues (outlines.filter (keep ·.1))
  | [] => rfl
  | (path, .ok file) :: rest => by
    have ih := filter_unreadableIssues keep rest
    simp only [unreadableIssues]
    rw [List.filter_cons]
    split
    · exact ih
    · exact ih
  | (path, .error fault) :: rest => by
    have ih := filter_unreadableIssues keep rest
    simp only [unreadableIssues]
    cases hkeep : keep path with
    | true =>
      rw [List.filter_cons_of_pos (by exact hkeep), List.filter_cons_of_pos (by exact hkeep), ih]
      rfl
    | false =>
      rw [List.filter_cons_of_neg (by simp [Issue.file, hkeep]),
        List.filter_cons_of_neg (by simp [hkeep]), ih]

/-- What is taken from the verdicts of declarations and kept is taken from those of kept
declarations. -/
theorem filter_filterMap_of_forall₂ {α β γ : Type} {R : α → β → Prop} {pick : β → Option γ}
    {keep : γ → Bool} {kept : α → Bool} {as : List α} {bs : List β} (h : List.Forall₂ R as bs)
    (hkeep : ∀ a b c, R a b → pick b = some c → keep c = kept a) :
    (bs.filterMap pick).filter keep =
      ((as.zip bs).filter fun ab => kept ab.1).filterMap fun ab => pick ab.2 := by
  induction h with
  | nil => rfl
  | @cons a b as bs hab _ ih =>
    rw [List.zip_cons_cons, List.filterMap_cons, List.filter_cons]
    cases hb : pick b with
    | none =>
      dsimp only
      split
      · rw [List.filterMap_cons, hb, ih]
      · exact ih
    | some c =>
      dsimp only
      rw [List.filter_cons, hkeep a b c hab hb, ih]
      split
      · rw [List.filterMap_cons, hb]
      · rfl

section Plans

variable {cwd : Path} {outputDir : Option Path} {claimed : List Path} {keep : String → Bool}

/-- Whether a declaration is kept, and has no claimed output path. -/
def Marked.isUnaffected (cwd : Path) (outputDir : Option Path) (keep : String → Bool)
    (claimed : List Path) (m : Marked) : Bool :=
  keep m.source && (m.client? cwd outputDir).all (·.path.isUnclaimed claimed)

theorem Judged.client_isUnaffected {before : List Marked} {m : Marked} {v : Verdict}
    {client : Generated} (h : Judged cwd outputDir before m v) (hv : v.client? = some client) :
    (keep client.source && client.path.isUnclaimed claimed) =
      m.isUnaffected cwd outputDir keep claimed := by
  cases h with
  | faulty hfault => cases hv
  | owner hclient =>
    obtain rfl := Option.some.inj hv
    rw [Marked.isUnaffected, hclient, Option.all_some, Marked.source_of_client? hclient]
  | late hclient => cases hv

theorem Judged.issue_isUnaffected {before : List Marked} {m : Marked} {v : Verdict} {issue : Issue}
    (h : Judged cwd outputDir before m v)
    (hm : ∀ fault, m.candidate.result = .error fault → fault.outputPath? = none)
    (hv : v.issue? = some issue) :
    (keep issue.file && issue.outputPath?.all (·.isUnclaimed claimed)) =
      m.isUnaffected cwd outputDir keep claimed := by
  cases h with
  | @faulty fault hfault =>
    obtain rfl := Option.some.inj hv
    have hnone : (m.issue fault).outputPath? = none := hm fault hfault
    rw [Marked.isUnaffected, Marked.client?_of_fault hfault, hnone]
    rfl
  | owner hclient => cases hv
  | late hclient =>
    obtain rfl := Option.some.inj hv
    rw [Marked.isUnaffected, hclient]
    rfl

/-- What a plan holds of the sources that are kept, but for claimed paths, can be read off the
verdicts that their declarations have without the others. -/
theorem Plan.exists_without (keep : String → Bool) (claimed : List Path) {keys : Keys} {plan : Plan}
    {outlines : List (String × Except SourceFault FileOutline)}
    (h : Plan.of cwd outputDir (Marked.ofOutlines keys outlines) = .ok plan)
    (hclaimed : ∀ m ∈ Marked.ofOutlines keys outlines, keep m.source = false → ∀ client,
      m.client? cwd outputDir = some client → client.path ∈ claimed) :
    ∃ vs, JudgedInOrder cwd outputDir [] (Marked.ofOutlines keys (outlines.filter (keep ·.1))) vs ∧
      plan.clients.filter (fun c => keep c.source && c.path.isUnclaimed claimed) =
        (((Marked.ofOutlines keys (outlines.filter (keep ·.1))).zip vs).filter
          (·.1.isUnaffected cwd outputDir keep claimed)).filterMap (·.2.client?) ∧
      (unreadableIssues outlines ++ plan.rejected).filter
          (fun i => keep i.file && i.outputPath?.all (·.isUnclaimed claimed)) =
        unreadableIssues (outlines.filter (keep ·.1)) ++
          (((Marked.ofOutlines keys (outlines.filter (keep ·.1))).zip vs).filter
            (·.1.isUnaffected cwd outputDir keep claimed)).filterMap (·.2.issue?) := by
  obtain ⟨verdicts, hrun⟩ := Plan.extend_eq_ok_iff.mp h
  have hjudged := hrun.judgedInOrder Plan.owns_nil
  have hkeep : ∀ m : Marked, m.isUnaffected cwd outputDir keep claimed = true →
      keep m.source = true := fun m hm => (Bool.and_eq_true_iff.mp hm).1
  -- nobody who is left out claims the path of a declaration that counts
  have hfree : ∀ m client, Marked.isUnaffected cwd outputDir keep claimed m = true →
      m.client? cwd outputDir = some client →
      ∀ x ∈ [] ++ Marked.ofOutlines keys outlines, keep x.source = false →
        x.clientFor? cwd outputDir client.path = none := by
    intro m client hm hclient x hx hleft
    rw [Option.eq_none_iff_forall_ne_some]
    intro other hother
    obtain ⟨hother, hsame⟩ := Marked.clientFor?_eq_some_iff.mp hother
    have hunclaimed := (Bool.and_eq_true_iff.mp hm).2
    rw [hclient, Option.all_some, Path.isUnclaimed, Bool.not_eq_true', List.any_eq_false] at hunclaimed
    exact hunclaimed _ (hclaimed x hx hleft other hother) (Path.sameSteps_eq_true_iff.mpr hsame)
  obtain ⟨vs, hvs, heq⟩ := hjudged.without hkeep hfree
  rw [Marked.filter_ofOutlines] at hvs heq
  refine ⟨vs, hvs, ?_, ?_⟩
  · rw [hrun.clients_eq, List.nil_append,
      filter_filterMap_of_forall₂ hjudged.forall₂ fun m v c ⟨_, hv⟩ => hv.client_isUnaffected, heq]
  · have hvalid : ∀ m ∈ Marked.ofOutlines keys outlines, ∀ fault,
        m.candidate.result = .error fault → fault.outputPath? = none :=
      fun m hm fault => Marked.outputPath?_of_fault hm
    have haligned := (List.forall₂_and_left _ _).mpr ⟨hvalid, hjudged.forall₂⟩
    have hunreadable : (unreadableIssues outlines).filter
        (fun i => keep i.file && i.outputPath?.all (·.isUnclaimed claimed)) =
          (unreadableIssues outlines).filter (keep ·.file) := by
      refine List.filter_congr fun i hi => ?_
      obtain ⟨path, fault, -, rfl⟩ := mem_unreadableIssues_iff.mp hi
      exact Bool.and_true _
    rw [hrun.rejected_eq, List.nil_append, List.filter_append, hunreadable, filter_unreadableIssues,
      filter_filterMap_of_forall₂ haligned fun m v i ⟨hm, _, hv⟩ => hv.issue_isUnaffected hm, heq]

end Plans

/-! ### Two runs -/

theorem Project.mem_claimsOf {p : Project} {d : Disk} {outputDir : Option Path} {f : Location}
    {m : Marked} {client : Generated} (hm : m ∈ Marked.ofOutlines p.config.keys (p.outlines d))
    (hleft : d.leadsElsewhere f m.source = false)
    (hclient : m.client? d.cwdPath outputDir = some client) :
    client.path ∈ p.claimsOf d outputDir f := by
  refine List.mem_filterMap.mpr ⟨m, List.mem_filter.mpr ⟨hm, ?_⟩, ?_⟩
  · rw [hleft]
    rfl
  · rw [hclient]
    rfl

section Runs

variable {d e : Disk} {f : Location} (hdiffer : d.DifferAt f e)
include hdiffer

/-- The sources other than a file have the same outlines. -/
theorem Project.filter_outlines_of_differAt {p q : Project} (hfiles : q.files = p.files) :
    (q.outlines e).filter (d.leadsElsewhere f ·.1) =
      (p.outlines d).filter (d.leadsElsewhere f ·.1) := by
  unfold Project.outlines
  rw [hfiles, List.filter_map, List.filter_map]
  refine List.map_congr_left fun path hpath => ?_
  have hother : d.leadsElsewhere f path = true := (List.mem_filter.mp hpath).2
  rw [hdiffer.outlineOf hother]

/-- Trees that differ in one file have the same sources, under the same configuration. -/
theorem Project.load_of_differAt {root : Path} (hconfig : Config.load e root = Config.load d root)
    {p : Project} (hload : Project.load d root = .ok p) :
    ∃ q, Project.load e root = .ok q ∧ q.files = p.files ∧ q.config = p.config ∧
      q.root = p.root := by
  obtain ⟨hconfigured, hroot, hfiles, hskipped⟩ := Project.load_eq_ok_iff.mp hload
  refine ⟨⟨root, p.config, p.configPath, p.files, (Scan.run e root p.config.scanOptions).skipped⟩,
    Project.load_eq_ok_iff.mpr ⟨hconfig.trans hconfigured, rfl, ?_, rfl⟩, rfl, rfl, hroot.symm⟩
  rw [Scan.files_of_sameShape hdiffer.sameShape]
  exact hfiles

/-- Plans of the two trees agree on what the file does not claim. -/
theorem isolated_of_plans {options : GenerateOptions} {p q : Project} {plan other : Plan}
    (hfiles : q.files = p.files) (hconfig : q.config = p.config) (hroot : q.root = p.root)
    (hplan : Plan.of d.cwdPath (options.outputDir.or p.outputDir)
      (Marked.ofOutlines p.config.keys (p.outlines d)) = .ok plan)
    (hother : Plan.of e.cwdPath (options.outputDir.or q.outputDir)
      (Marked.ofOutlines q.config.keys (q.outlines e)) = .ok other) :
    Isolated d f (p.claimsOf d (options.outputDir.or p.outputDir) f ++
        q.claimsOf e (options.outputDir.or q.outputDir) f)
      ⟨p.files.length, plan.clients, options.dryRun, p.skipped,
        unreadableIssues (p.outlines d) ++ plan.rejected⟩
      ⟨q.files.length, other.clients, options.dryRun, q.skipped,
        unreadableIssues (q.outlines e) ++ other.rejected⟩ := by
  have hcwd : e.cwdPath = d.cwdPath := by rw [Disk.cwdPath, Disk.cwdPath, hdiffer.cwd]
  have houtputDir : q.outputDir = p.outputDir := by
    rw [Project.outputDir, Project.outputDir, hconfig, hroot]
  generalize hclaimed : p.claimsOf d (options.outputDir.or p.outputDir) f ++
    q.claimsOf e (options.outputDir.or q.outputDir) f = claimed
  obtain ⟨vs, hvs, hclients, hissues⟩ := Plan.exists_without (d.leadsElsewhere f) claimed hplan
    fun m hm hleft client hclient => by
      rw [← hclaimed]
      exact List.mem_append_left _ (Project.mem_claimsOf hm hleft hclient)
  obtain ⟨ws, hws, hclients', hissues'⟩ := Plan.exists_without (d.leadsElsewhere f) claimed hother
    fun m hm hleft client hclient => by
      rw [← hclaimed]
      rw [← hdiffer.leadsElsewhere] at hleft
      exact List.mem_append_right _ (Project.mem_claimsOf hm hleft hclient)
  rw [Project.filter_outlines_of_differAt hdiffer hfiles, hconfig, hcwd, houtputDir] at hws hclients'
  rw [Project.filter_outlines_of_differAt hdiffer hfiles, hconfig, hcwd, houtputDir] at hissues'
  obtain rfl := hvs.unique hws
  exact ⟨hissues'.trans hissues.symm, hclients'.trans hclients.symm⟩

end Runs

/-- Two trees that differ in the contents of one file, with the same arguments and the same
configuration: both runs fail on the configuration, or both are planned, and agree on all that is
not about the file and on none of the output paths that its services have in one tree or the
other. A run that comes to its end reports what was planned. -/
theorem generate_isolates {arguments : List String} {options : GenerateOptions} {d e : Disk}
    {f : Location} (hparse : CommandLine.parse arguments = .run (.generate options))
    (hdiffer : d.DifferAt f e)
    (hconfig : Config.load e (options.sourceRoot.getD ⟨"."⟩) =
      Config.load d (options.sourceRoot.getD ⟨"."⟩)) :
    (∃ fault, planGeneration d options = .error (.config fault) ∧
      planGeneration e options = .error (.config fault)) ∨
    ∃ p q g other,
      Project.load d (options.sourceRoot.getD ⟨"."⟩) = .ok p ∧
      Project.load e (options.sourceRoot.getD ⟨"."⟩) = .ok q ∧ q.files = p.files ∧
      planGeneration d options = .ok g ∧ planGeneration e options = .ok other ∧
      (∀ r, (generate d options).2 = .ok r → r = g) ∧
      (∀ r, (generate e options).2 = .ok r → r = other) ∧
      Isolated d f (p.claimsOf d (options.outputDir.or p.outputDir) f ++
        q.claimsOf e (options.outputDir.or q.outputDir) f) g other := by
  cases hload : Project.load d (options.sourceRoot.getD ⟨"."⟩) with
  | error fault =>
    have hfault : Config.load d (options.sourceRoot.getD ⟨"."⟩) = .error fault := by
      unfold Project.load at hload
      split at hload
      · rename_i hconfigured
        rw [hconfigured, Except.error.inj hload]
      · cases hload
    refine .inl ⟨fault, ?_, ?_⟩
    · unfold planGeneration
      rw [hload]
    · unfold planGeneration Project.load
      rw [hconfig, hfault]
  | ok p =>
    obtain ⟨q, hload', hfiles, hsame, hroot⟩ := Project.load_of_differAt hdiffer hconfig hload
    obtain ⟨g, hg⟩ := exists_planGeneration hparse hload
    obtain ⟨other, hother⟩ := exists_planGeneration hparse hload'
    refine .inr ⟨p, q, g, other, rfl, hload', hfiles, hg, hother, fun r hr => ?_, fun r hr => ?_, ?_⟩
    · exact Except.ok.inj ((planGeneration_of_generate hr).symm.trans hg)
    · exact Except.ok.inj ((planGeneration_of_generate hr).symm.trans hother)
    · obtain ⟨p', plan, hp', hplan, rfl⟩ := exists_plan hg
      obtain ⟨q', plan', hq', hplan', rfl⟩ := exists_plan hother
      obtain rfl := Except.ok.inj (hp'.symm.trans hload)
      obtain rfl := Except.ok.inj (hq'.symm.trans hload')
      exact isolated_of_plans hdiffer hfiles hsame hroot hplan hplan'

/-- Two declarations of one service, and one of another. -/
def rivalDisk : Disk where
  entries := [
    (["a.ts"], .file (some "// @HttpClient\nexport interface User \x7b\n\x7d\n")),
    (["b.ts"], .file (some "// @HttpClient\nexport interface User \x7b\n\x7d\n")),
    (["c.ts"], .file (some "// @HttpClient\nexport interface Post \x7b\n\x7d\n"))]
  cwd := []

def rivalOptions : GenerateOptions := ⟨none, none, false, false⟩

/-- When the first declaration no longer parses, the second gets the output path of both; the other
service is the same. -/
theorem generate_isolates_rivals :
    let broken := rivalDisk.put ["a.ts"] (.file (some "class \x7b"))
    (planGeneration rivalDisk rivalOptions).toOption.map (·.clients.map (·.source)) =
      some ["./a.ts", "./c.ts"] ∧
    (planGeneration broken rivalOptions).toOption.map (·.clients.map (·.source)) =
      some ["./b.ts", "./c.ts"] ∧
    ((∃ fault, planGeneration rivalDisk rivalOptions = .error (.config fault) ∧
      planGeneration broken rivalOptions = .error (.config fault)) ∨
    ∃ p q g other,
      Project.load rivalDisk ⟨"."⟩ = .ok p ∧ Project.load broken ⟨"."⟩ = .ok q ∧
      q.files = p.files ∧
      planGeneration rivalDisk rivalOptions = .ok g ∧ planGeneration broken rivalOptions = .ok other ∧
      (∀ r, (generate rivalDisk rivalOptions).2 = .ok r → r = g) ∧
      (∀ r, (generate broken rivalOptions).2 = .ok r → r = other) ∧
      Isolated rivalDisk ["a.ts"] (p.claimsOf rivalDisk p.outputDir ["a.ts"] ++
        q.claimsOf broken q.outputDir ["a.ts"]) g other) := by
  refine ⟨by decide +kernel, by decide +kernel, ?_⟩
  have hfile : rivalDisk.get? ["a.ts"] =
      some (.file (some "// @HttpClient\nexport interface User \x7b\n\x7d\n")) := by decide +kernel
  have hparse : CommandLine.parse ["generate"] = .run (.generate rivalOptions) := by decide +kernel
  exact generate_isolates hparse (Disk.differAt_put hfile (some "class \x7b")) (by decide +kernel)

end FetchClients
