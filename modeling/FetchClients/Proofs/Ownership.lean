/-
# Every output path has one owner

The first service of a run that claims an output path gets it. A step of the
planning keeps two facts (`Plan.Owns.settle`): the planned clients have different
paths, and for every path the client among them is the first one that any
declaration so far has for that path, accepted or not. So each declaration is
judged by the first declaration before it with the same path
(`Plan.Run.judged`), and several later ones are all told of the same owner. What a run
writes is the accepted clients, each with its directories and its file, in their order
(`completed_of_writeClients`).

Key definitions: `Marked.client?`, `Marked.clientFor?`, `Judged`, `Plan.Owns`,
`MarkedType.First`, `Ownership`, `Completed`.
Key theorems: `Plan.Owns.settle`, `Plan.Run.owns`, `Plan.Run.judged`,
`completed_of_writeClients`, `generate_ownership`.
-/
import FetchClients.Proofs.Accounting
import FetchClients.Proofs.Results
import FetchClients.Proofs.Rewriting

namespace FetchClients

open Client (Generated)

theorem Path.sameSteps_eq_true_iff {p q : Path} :
    p.sameSteps q = true ↔ p.components = q.components := by
  simp [Path.sameSteps]

section Planned

variable (cwd : Path) (outputDir : Option Path)

/-- The client of a marked declaration, if it is a service. -/
def Marked.client? (m : Marked) : Option Generated :=
  m.candidate.result.toOption.bind fun service =>
    (Client.generate cwd service m.source outputDir).toOption

/-- The client of a marked declaration, if it is written to this path. -/
def Marked.clientFor? (path : Path) (m : Marked) : Option Generated :=
  (m.client? cwd outputDir).filter fun client => client.path.sameSteps path

/-- The verdict on a declaration that follows others: the first of them with its output path, if
there is one, keeps it. -/
inductive Judged (before : List Marked) (m : Marked) : Verdict → Prop
  | faulty {fault} (hfault : m.candidate.result = .error fault) :
      Judged before m (.rejected (m.issue fault))
  | owner {client} (hclient : m.client? cwd outputDir = some client)
      (hfirst : before.findSome? (Marked.clientFor? cwd outputDir client.path) = none) :
      Judged before m (.accepted client)
  | late {client first} (hclient : m.client? cwd outputDir = some client)
      (hfirst : before.findSome? (Marked.clientFor? cwd outputDir client.path) = some first) :
      Judged before m (.rejected (m.issue (.duplicateOutput client.path.text first.service)))

/-- The clients of a plan after some declarations: they have different paths, and the one for a path
is the first that these declarations have for it. -/
structure Plan.Owns (p : Plan) (seen : List Marked) : Prop where
  distinct : p.clients.Pairwise fun a b => a.path.components ≠ b.path.components
  first : ∀ path, p.clients.find? (·.path.sameSteps path) =
    seen.findSome? (Marked.clientFor? cwd outputDir path)

end Planned

section Steps

variable {cwd : Path} {outputDir : Option Path}

theorem Marked.client?_of_generate {m : Marked} {service : Service} {client : Generated}
    (hservice : m.candidate.result = .ok service)
    (hclient : Client.generate cwd service m.source outputDir = .ok client) :
    m.client? cwd outputDir = some client := by
  simp [Marked.client?, hservice, hclient, Except.toOption]

theorem Marked.client?_of_fault {m : Marked} {fault : ServiceFault}
    (h : m.candidate.result = .error fault) : m.client? cwd outputDir = none := by
  simp [Marked.client?, h, Except.toOption]

theorem Marked.source_of_client? {m : Marked} {client : Generated}
    (h : m.client? cwd outputDir = some client) : client.source = m.source := by
  obtain ⟨service, -, hclient⟩ := Option.bind_eq_some_iff.mp h
  exact (Client.generate_eq_ok_iff.mp (toOption_eq_some_iff.mp hclient)).2.1

theorem Marked.clientFor?_eq_some_iff {m : Marked} {path : Path} {client : Generated} :
    m.clientFor? cwd outputDir path = some client ↔
      m.client? cwd outputDir = some client ∧ client.path.components = path.components := by
  simp [Marked.clientFor?, Option.filter_eq_some_iff, Path.sameSteps_eq_true_iff]

theorem Marked.clientFor?_of_client? {m : Marked} {client : Generated}
    (h : m.client? cwd outputDir = some client) (path : Path) :
    m.clientFor? cwd outputDir path =
      if client.path.sameSteps path then some client else none := by
  simp [Marked.clientFor?, h, Option.filter_some]

/-- Only the steps of a path matter for who claims it. -/
theorem Marked.clientFor?_congr {p q : Path} (h : p.components = q.components) :
    Marked.clientFor? cwd outputDir p = Marked.clientFor? cwd outputDir q := by
  funext m
  simp [Marked.clientFor?, Path.sameSteps, h]

namespace Plan

theorem owns_nil : (Plan.mk [] []).Owns cwd outputDir [] :=
  ⟨.nil, fun _ => rfl⟩

/-- The owner of a path is the service of the first declaration that claims it. -/
theorem Owns.owner?_eq {p : Plan} {seen : List Marked} (h : p.Owns cwd outputDir seen) (path : Path) :
    p.owner? path = (seen.findSome? (Marked.clientFor? cwd outputDir path)).map (·.service) := by
  rw [owner?, h.first]

/-- What is owned stays so when a declaration without a client of its own follows. -/
theorem Owns.reject {p : Plan} {seen : List Marked} {m : Marked} (issue : Issue)
    (h : p.Owns cwd outputDir seen)
    (hm : ∀ path, seen.findSome? (Marked.clientFor? cwd outputDir path) = none →
      m.clientFor? cwd outputDir path = none) :
    (p.settle (.rejected issue)).Owns cwd outputDir (seen ++ [m]) := by
  refine ⟨h.distinct, fun path => ?_⟩
  rw [show (p.settle (.rejected issue)).clients = p.clients from rfl, h.first,
    List.findSome?_append]
  cases hseen : seen.findSome? (Marked.clientFor? cwd outputDir path) with
  | some first => rfl
  | none => simp [hm path hseen]

/-- A client whose path nobody has claimed becomes the owner of its path. -/
theorem Owns.accept {p : Plan} {seen : List Marked} {m : Marked} {client : Generated}
    (h : p.Owns cwd outputDir seen) (hclient : m.client? cwd outputDir = some client)
    (hfree : p.clients.find? (·.path.sameSteps client.path) = none) :
    (p.settle (.accepted client)).Owns cwd outputDir (seen ++ [m]) := by
  refine ⟨?_, fun path => ?_⟩
  · refine List.pairwise_append.mpr ⟨h.distinct, List.pairwise_singleton _ _, ?_⟩
    intro earlier hearlier last hlast
    obtain rfl := List.mem_singleton.mp hlast
    have hdiffers := List.find?_eq_none.mp hfree earlier hearlier
    exact fun heq => hdiffers (Path.sameSteps_eq_true_iff.mpr heq)
  · have hlast : m.clientFor? cwd outputDir path =
        [client].find? (·.path.sameSteps path) := by
      rw [Marked.clientFor?_of_client? hclient, List.find?_singleton]
    rw [show (p.settle (.accepted client)).clients = p.clients ++ [client] from rfl,
      List.find?_append, List.findSome?_append, List.findSome?_singleton, h.first, ← hlast]

/-- A step judges the declaration by the first one before it with the same path. -/
theorem Owns.judged {p : Plan} {seen : List Marked} {m : Marked} {v : Verdict}
    (h : p.Owns cwd outputDir seen) (hstep : Step cwd outputDir p m v) :
    Judged cwd outputDir seen m v := by
  cases hstep with
  | faulty hfault => exact .faulty hfault
  | @taken service client other hservice hclient howner =>
    rw [h.owner?_eq] at howner
    obtain ⟨first, hfirst, rfl⟩ := Option.map_eq_some_iff.mp howner
    exact .late (Marked.client?_of_generate hservice hclient) hfirst
  | fresh hservice hclient howner =>
    rw [h.owner?_eq] at howner
    exact .owner (Marked.client?_of_generate hservice hclient) (Option.map_eq_none_iff.mp howner)

/-- A step keeps what its plan owns. -/
theorem Owns.settle {p : Plan} {seen : List Marked} {m : Marked} {v : Verdict}
    (h : p.Owns cwd outputDir seen) (hstep : Step cwd outputDir p m v) :
    (p.settle v).Owns cwd outputDir (seen ++ [m]) := by
  cases h.judged hstep with
  | faulty hfault =>
    refine h.reject _ fun path _ => ?_
    simp [Marked.clientFor?, Marked.client?_of_fault hfault]
  | owner hclient hfirst => exact h.accept hclient (by rw [h.first, hfirst])
  | @late client first hclient hfirst =>
    refine h.reject _ fun path hnone => ?_
    -- the path of the client is taken, so it is not this one
    rw [Marked.clientFor?_of_client? hclient, if_neg]
    intro hsame
    rw [← Marked.clientFor?_congr (Path.sameSteps_eq_true_iff.mp hsame), hfirst] at hnone
    cases hnone

namespace Run

variable {p q : Plan} {ms : List Marked} {vs : List Verdict}

/-- In the end every path that was claimed belongs to the first that claimed it. -/
theorem owns (h : Run cwd outputDir p ms vs q) : ∀ {seen : List Marked},
    p.Owns cwd outputDir seen → q.Owns cwd outputDir (seen ++ ms) := by
  induction h with
  | nil => intro seen hseen; simpa using hseen
  | cons hstep _ ih => intro seen hseen; simpa using ih (hseen.settle hstep)

/-- Every declaration is judged by those before it. -/
theorem judged (h : Run cwd outputDir p ms vs q) : ∀ {seen : List Marked},
    p.Owns cwd outputDir seen → ∀ {before after : List Marked} {m : Marked},
      ms = before ++ m :: after →
        ∃ v, vs[before.length]? = some v ∧ Judged cwd outputDir (seen ++ before) m v := by
  induction h with
  | nil =>
    intro seen _ before after m heq
    simp at heq
  | @cons p m' v ms vs q hstep _ ih =>
    intro seen hseen before after m heq
    cases before with
    | nil =>
      obtain ⟨rfl, -⟩ := List.cons.inj heq
      exact ⟨v, rfl, by simpa using hseen.judged hstep⟩
    | cons b before =>
      obtain ⟨rfl, hrest⟩ := List.cons.inj heq
      obtain ⟨w, hw, hjudged⟩ := ih (hseen.settle hstep) hrest
      exact ⟨w, by simpa using hw, by simpa using hjudged⟩

theorem length_eq (h : Run cwd outputDir p ms vs q) : vs.length = ms.length :=
  h.forall₂.length_eq.symm

end Run

end Plan

end Steps

/-! ### Marked types -/

section Types

variable (cwd : Path) (outputDir : Option Path) (keys : Keys)

/-- A marked type whose definition is valid, with its service and its client. -/
structure MarkedType.Claims (x : MarkedType) (service : Service) (client : Generated) : Prop where
  valid : x.service keys = .ok service
  generated : Client.generate cwd service x.path outputDir = .ok client

/-- Among the types that come before another one, the first that claims a path. -/
structure MarkedType.First (before : List MarkedType) (path : Path) (earlier : List MarkedType)
    (y : MarkedType) (service : Service) (first : Generated) : Prop where
  opens : ∃ between, before = earlier ++ y :: between
  claims : y.Claims cwd outputDir keys service first
  same : first.path.components = path.components
  none_earlier : ∀ z ∈ earlier, ∀ s client, z.Claims cwd outputDir keys s client →
    client.path.components ≠ path.components

/-- How the paths of clients are given to marked types: each type in a list has the verdict at its
own position, and a valid one claims the path of its client. -/
structure Ownership (types : List MarkedType) (verdicts : List Verdict) : Prop where
  length_eq : verdicts.length = types.length
  /-- A type with a valid definition has a client. -/
  claims : ∀ x ∈ types, ∀ service, x.service keys = .ok service →
    ∃ client, x.Claims cwd outputDir keys service client
  /-- Accepted clients have different paths. -/
  distinct : (verdicts.filterMap Verdict.client?).Pairwise fun a b =>
    a.path.components ≠ b.path.components
  /-- A type is rejected for its output path exactly when one before it claims that path. -/
  rejected_iff : ∀ before x after service client, types = before ++ x :: after →
    x.Claims cwd outputDir keys service client →
    ((∃ path other, verdicts[before.length]? =
        some (.rejected (x.issue (.duplicateOutput path other)))) ↔
      ∃ y ∈ before, ∃ s c, y.Claims cwd outputDir keys s c ∧
        c.path.components = client.path.components)
  /-- It is told of the first that claims the path, which is accepted. -/
  told : ∀ before x after service client, types = before ++ x :: after →
    x.Claims cwd outputDir keys service client →
    ∀ earlier y s first, MarkedType.First cwd outputDir keys before client.path earlier y s first →
      verdicts[before.length]? =
          some (.rejected (x.issue (.duplicateOutput client.path.text s.name))) ∧
        verdicts[earlier.length]? = some (.accepted first)
  /-- A type that is not rejected for its output path is accepted. -/
  accepted : ∀ before x after service client, types = before ++ x :: after →
    x.Claims cwd outputDir keys service client →
    (∀ y ∈ before, ∀ s c, y.Claims cwd outputDir keys s c →
      c.path.components ≠ client.path.components) →
      verdicts[before.length]? = some (.accepted client)

end Types

/-! ### What is written -/

/-- What is left of a client when later ones have been written too: its path leads to a file, with
its contents unless the path of a later one leads there as well. -/
def Client.Generated.IsKept (client : Generated) (later : List Generated) (last : Disk) : Prop :=
  ∃ place contents, last.locate true client.path = .ok place ∧
    last.get? place = some (.file contents) ∧
    ((∀ other ∈ later, last.locate true other.path ≠ .ok place) → contents = some client.contents)

/-- What a run leaves behind that writes all its clients: each is written before the next, with its
directories and its file, and is kept. -/
structure Completed (d : Disk) (clients : List Generated) (last : Disk) : Prop where
  succeeds : writeClients d clients = (last, none)
  written : AllWritten d clients last
  /-- Nothing has changed but the files of the clients, and directories that lead to them. -/
  confined : d.Rooted → Disk.ChangedBy clients (clients.flatMap Generated.directories) d last
  kept : d.Rooted → ∀ before client after, clients = before ++ client :: after →
    client.IsKept after last

theorem AllWritten.isKept {d last : Disk} {before after : List Generated} {client : Generated}
    (h : AllWritten d (before ++ client :: after) last) (hrooted : d.Rooted) :
    client.IsKept after last := by
  obtain ⟨place, contents, hlocate, hfile⟩ := h.isThere hrooted client (by simp)
  refine ⟨place, contents, hlocate, hfile, fun hlater => ?_⟩
  rw [h.get?_of_last hrooted rfl hlocate hlater] at hfile
  exact (Entry.file.inj (Option.some.inj hfile)).symm

theorem completed_of_writeClients {d last : Disk} {clients : List Generated}
    (h : writeClients d clients = (last, none)) : Completed d clients last := by
  have hwritten := writeClients_eq_none h
  refine ⟨h, hwritten, hwritten.changedBy, ?_⟩
  rintro hrooted before client after rfl
  exact hwritten.isKept hrooted

section Judgement

variable {cwd : Path} {outputDir : Option Path} {keys : Keys}

namespace MarkedType

theorem client?_eq_some_iff {x : MarkedType} {client : Generated} :
    (x.marked keys).client? cwd outputDir = some client ↔
      ∃ service, x.Claims cwd outputDir keys service client := by
  simp only [Marked.client?, MarkedType.marked, Option.bind_eq_some_iff]
  constructor
  · rintro ⟨service, hservice, hclient⟩
    exact ⟨service, toOption_eq_some_iff.mp hservice, toOption_eq_some_iff.mp hclient⟩
  · rintro ⟨service, hservice, hclient⟩
    exact ⟨service, toOption_eq_some_iff.mpr hservice, toOption_eq_some_iff.mpr hclient⟩

theorem clientFor?_eq_some_iff {x : MarkedType} {path : Path} {client : Generated} :
    (x.marked keys).clientFor? cwd outputDir path = some client ↔
      (∃ service, x.Claims cwd outputDir keys service client) ∧
        client.path.components = path.components := by
  rw [Marked.clientFor?_eq_some_iff, client?_eq_some_iff]

/-- A path is free as long as no type claims it. -/
theorem findSome?_eq_none_iff {types : List MarkedType} {path : Path} :
    (types.map (marked keys)).findSome? (Marked.clientFor? cwd outputDir path) = none ↔
      ∀ y ∈ types, ∀ s client, y.Claims cwd outputDir keys s client →
        client.path.components ≠ path.components := by
  simp only [List.findSome?_eq_none_iff, List.forall_mem_map]
  refine forall₂_congr fun y _ => ?_
  rw [Option.eq_none_iff_forall_ne_some]
  constructor
  · intro h s client hclaims hsame
    exact h client (clientFor?_eq_some_iff.mpr ⟨⟨s, hclaims⟩, hsame⟩)
  · intro h client heq
    obtain ⟨⟨s, hclaims⟩, hsame⟩ := clientFor?_eq_some_iff.mp heq
    exact h s client hclaims hsame

/-- The first type that claims a path is the one that is found for it. -/
theorem First.findSome?_eq {before earlier : List MarkedType} {path : Path} {y : MarkedType}
    {s : Service} {first : Generated} (h : First cwd outputDir keys before path earlier y s first) :
    (before.map (marked keys)).findSome? (Marked.clientFor? cwd outputDir path) = some first := by
  obtain ⟨⟨between, rfl⟩, hclaims, hsame, hnone⟩ := h
  have hearlier := findSome?_eq_none_iff.mpr hnone
  have hfound := clientFor?_eq_some_iff.mpr ⟨⟨s, hclaims⟩, hsame⟩
  rw [List.map_append, List.map_cons, List.findSome?_append, hearlier, Option.none_or,
    List.findSome?_cons, hfound]

end MarkedType

section

variable {types : List MarkedType} {verdicts : List Verdict} {p : Plan}
  (hrun : Plan.Run cwd outputDir ⟨[], []⟩ (types.map (MarkedType.marked keys)) verdicts p)
include hrun

/-- A type with a valid definition is accepted or rejected for the first type that claims its
path. -/
theorem exists_verdict {before after : List MarkedType} {x : MarkedType} {service : Service}
    {client : Generated} (heq : types = before ++ x :: after)
    (hx : x.Claims cwd outputDir keys service client) :
    verdicts[before.length]? =
      match (before.map (MarkedType.marked keys)).findSome?
          (Marked.clientFor? cwd outputDir client.path) with
      | none => some (.accepted client)
      | some first =>
        some (.rejected (x.issue (.duplicateOutput client.path.text first.service))) := by
  have hmarked : types.map (MarkedType.marked keys) = before.map (MarkedType.marked keys) ++
      x.marked keys :: after.map (MarkedType.marked keys) := by
    rw [heq, List.map_append, List.map_cons]
  obtain ⟨v, hv, hjudged⟩ := hrun.judged Plan.owns_nil hmarked
  have hclient := MarkedType.client?_eq_some_iff.mpr ⟨service, hx⟩
  rw [List.length_map] at hv
  rw [List.nil_append] at hjudged
  rw [hv]
  cases hjudged with
  | @faulty fault hfault =>
    rw [Marked.client?_of_fault hfault] at hclient
    cases hclient
  | owner hclient' hfirst =>
    obtain rfl := Option.some.inj (hclient.symm.trans hclient')
    rw [hfirst]
  | late hclient' hfirst =>
    obtain rfl := Option.some.inj (hclient.symm.trans hclient')
    rw [hfirst]
    rfl

theorem accepted_of_free {before after : List MarkedType} {x : MarkedType} {service : Service}
    {client : Generated} (heq : types = before ++ x :: after)
    (hx : x.Claims cwd outputDir keys service client)
    (hfree : ∀ y ∈ before, ∀ s c, y.Claims cwd outputDir keys s c →
      c.path.components ≠ client.path.components) :
    verdicts[before.length]? = some (.accepted client) := by
  rw [exists_verdict hrun heq hx, MarkedType.findSome?_eq_none_iff.mpr hfree]

/-- A planned type with a valid definition has a client. -/
theorem exists_client {x : MarkedType} (hx : x ∈ types) {service : Service}
    (hservice : x.service keys = .ok service) :
    ∃ client, x.Claims cwd outputDir keys service client := by
  obtain ⟨before, after, hmarked⟩ := List.append_of_mem
    (List.mem_map_of_mem hx : x.marked keys ∈ types.map (MarkedType.marked keys))
  obtain ⟨v, -, hjudged⟩ := hrun.judged Plan.owns_nil hmarked
  have hclaims : ∀ {client}, (x.marked keys).client? cwd outputDir = some client →
      x.Claims cwd outputDir keys service client := by
    intro client hclient
    obtain ⟨service', hx'⟩ := MarkedType.client?_eq_some_iff.mp hclient
    obtain rfl := Except.ok.inj (hservice.symm.trans hx'.valid)
    exact hx'
  cases hjudged with
  | faulty hfault => cases hservice.symm.trans hfault
  | owner hclient => exact ⟨_, hclaims hclient⟩
  | late hclient => exact ⟨_, hclaims hclient⟩

/-- The verdicts of a run give every claimed path to the first type that claims it. -/
theorem ownership_of_run : Ownership cwd outputDir keys types verdicts where
  length_eq := by rw [hrun.length_eq, List.length_map]
  claims x hx service hservice := exists_client hrun hx hservice
  distinct := by
    have hdistinct := (hrun.owns Plan.owns_nil).distinct
    rwa [hrun.clients_eq, List.nil_append] at hdistinct
  rejected_iff before x after service client heq hx := by
    rw [exists_verdict hrun heq hx]
    constructor
    · rintro ⟨path, other, hrejected⟩
      by_contra hnone
      have hfree : ∀ y ∈ before, ∀ s c, y.Claims cwd outputDir keys s c →
          c.path.components ≠ client.path.components :=
        fun y hy s c hc hsame => hnone ⟨y, hy, s, c, hc, hsame⟩
      rw [MarkedType.findSome?_eq_none_iff.mpr hfree] at hrejected
      cases hrejected
    · rintro ⟨y, hy, s, c, hc, hsame⟩
      cases hfirst : (before.map (MarkedType.marked keys)).findSome?
          (Marked.clientFor? cwd outputDir client.path) with
      | none => exact absurd hsame (MarkedType.findSome?_eq_none_iff.mp hfirst y hy s c hc)
      | some first => exact ⟨_, _, rfl⟩
  told before x after service client heq hx earlier y s first hfirst := by
    obtain ⟨between, hbefore⟩ := hfirst.opens
    have hname : first.service = s.name :=
      (Client.generate_eq_ok_iff.mp hfirst.claims.generated).2.2.1
    refine ⟨?_, ?_⟩
    · rw [exists_verdict hrun heq hx, hfirst.findSome?_eq, ← hname]
    · have hopens : types = earlier ++ y :: (between ++ x :: after) := by
        rw [heq, hbefore, List.append_assoc, List.cons_append]
      refine accepted_of_free hrun hopens hfirst.claims ?_
      rw [hfirst.same]
      exact hfirst.none_earlier
  accepted before x after service client heq hx hfree := accepted_of_free hrun heq hx hfree

end

/-- A plan for the sources of a project settles its marked types one by one. -/
theorem exists_run {outlines : List (String × Except SourceFault FileOutline)} {p : Plan}
    (h : Plan.of cwd outputDir (Marked.ofOutlines keys outlines) = .ok p) :
    ∃ verdicts, Plan.Run cwd outputDir ⟨[], []⟩
      ((MarkedType.ofSources keys.marker (extracted outlines)).map (MarkedType.marked keys))
      verdicts p := by
  rw [Marked.ofOutlines_eq] at h
  exact Plan.extend_eq_ok_iff.mp h

end Judgement

/-- A run ends in a fatal fault before it writes, or it gives every output path to the first marked
type that claims it, in the order of the sources and of the types in them. What it accepts is written
in this order, and nothing else is. -/
theorem generate_ownership (d : Disk) (options : GenerateOptions) :
    (∃ fault, planGeneration d options = .error fault ∧ generate d options = (d, .error fault)) ∨
      ∃ project g verdicts, Project.load d (options.sourceRoot.getD ⟨"."⟩) = .ok project ∧
        planGeneration d options = .ok g ∧
        ((MarkedType.ofSources project.config.keys.marker (project.extracted d)).map
          MarkedType.path).Pairwise (· ≤ ·) ∧
        Ownership d.cwdPath (options.outputDir.or project.outputDir) project.config.keys
          (MarkedType.ofSources project.config.keys.marker (project.extracted d)) verdicts ∧
        g.clients = verdicts.filterMap Verdict.client? ∧
        g.invalidServices = verdicts.filterMap Verdict.issue? ∧
        ∀ last, options.dryRun = false → generate d options = (last, .ok g) →
          Completed d g.clients last := by
  cases hplan : planGeneration d options with
  | error fault => exact .inl ⟨fault, rfl, by simp [generate, hplan]⟩
  | ok g =>
    right
    obtain ⟨project, plan, hload, hof, rfl⟩ := exists_plan hplan
    obtain ⟨verdicts, hrun⟩ := exists_run hof
    have hfiles := (extracted_sublist (project.outlines d))
    rw [project.map_fst_outlines d] at hfiles
    have hclients : plan.clients = verdicts.filterMap Verdict.client? := by
      simpa using hrun.clients_eq
    have hrejected : plan.rejected = verdicts.filterMap Verdict.issue? := by
      simpa using hrun.rejected_eq
    have haligned := (List.forall₂_map_left_iff.mp hrun.forall₂).imp
      fun x v hstep => hstep.elim fun before => Verdict.of_step
    have hrules := rule_of_mem_issues haligned
    refine ⟨project, _, verdicts, hload, rfl, ?_, ownership_of_run hrun, hclients, ?_, ?_⟩
    · exact MarkedType.pairwise_path ((Project.pairwise_files hload).sublist hfiles)
    · rw [← hrejected] at hrules ⊢
      exact (filter_rule_append (fun i => @rule_of_mem_unreadableIssues (project.outlines d) i)
        hrules).2
    · intro last hdry hgenerate
      rw [generate, hplan] at hgenerate
      simp only [hdry, Bool.false_eq_true, if_false] at hgenerate
      split at hgenerate
      · cases hgenerate
      · rename_i written hwritten
        cases hgenerate
        exact completed_of_writeClients hwritten

end FetchClients
