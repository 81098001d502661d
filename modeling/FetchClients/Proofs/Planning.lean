/-
# What planning makes of each declaration

Every marked declaration that is planned gets one verdict: its client is
accepted, or it is rejected with an issue. A step of the planning puts what the
verdict holds behind what is planned already (`Plan.add_eq_ok_iff`), so a whole
run is a list of verdicts, one for each declaration and in the same order
(`Plan.extend_eq_ok_iff`), and the two lists of a plan are read off it
(`Plan.Run.clients_eq`, `Plan.Run.rejected_eq`).

Key definitions: `Verdict`, `Plan.settle`, `Plan.Step`, `Plan.Run`.
Key theorems: `Plan.add_eq_ok_iff`, `Plan.extend_eq_ok_iff`, `Plan.Run.forall₂`.
-/
import FetchClients.Project.Generate
import Mathlib.Data.List.Forall2

namespace FetchClients

open Client (Generated)

/-- What becomes of a marked declaration. -/
inductive Verdict where
  | accepted (client : Generated)
  | rejected (issue : Issue)
deriving DecidableEq, Repr

namespace Verdict

/-- The client of an accepted declaration. -/
def client? : Verdict → Option Generated
  | accepted client => some client
  | rejected _ => none

/-- The issue of a rejected declaration. -/
def issue? : Verdict → Option Issue
  | accepted _ => none
  | rejected issue => some issue

/-- A verdict holds a client or an issue, and not both. -/
theorem length_filterMap_add (vs : List Verdict) :
    (vs.filterMap client?).length + (vs.filterMap issue?).length = vs.length := by
  induction vs with
  | nil => rfl
  | cons v vs ih =>
    cases v with
    | accepted client => simp only [List.filterMap_cons, client?, issue?, List.length_cons]; omega
    | rejected issue => simp only [List.filterMap_cons, client?, issue?, List.length_cons]; omega

end Verdict

namespace Plan

/-- The plan with one more verdict. -/
def settle (p : Plan) : Verdict → Plan
  | .accepted client => { p with clients := p.clients ++ [client] }
  | .rejected issue => { p with rejected := p.rejected ++ [issue] }

theorem settle_clients (p : Plan) (v : Verdict) :
    (p.settle v).clients = p.clients ++ v.client?.toList := by
  cases v <;> simp [settle, Verdict.client?]

theorem settle_rejected (p : Plan) (v : Verdict) :
    (p.settle v).rejected = p.rejected ++ v.issue?.toList := by
  cases v <;> simp [settle, Verdict.issue?]

section Steps

variable (cwd : Path) (outputDir : Option Path)

/-- The verdicts on a declaration after what is planned: it is no service, another service has its
output path, or its client is new. -/
inductive Step (p : Plan) (m : Marked) : Verdict → Prop
  | faulty {fault} (hfault : m.candidate.result = .error fault) : Step p m (.rejected (m.issue fault))
  | taken {service client other} (hservice : m.candidate.result = .ok service)
      (hclient : Client.generate cwd service m.source outputDir = .ok client)
      (howner : p.owner? client.path = some other) :
      Step p m (.rejected (m.issue (.duplicateOutput client.path.text other)))
  | fresh {service client} (hservice : m.candidate.result = .ok service)
      (hclient : Client.generate cwd service m.source outputDir = .ok client)
      (howner : p.owner? client.path = none) : Step p m (.accepted client)

/-- The verdicts on declarations, one after the other, and the plan in the end. -/
inductive Run : Plan → List Marked → List Verdict → Plan → Prop
  | nil {p} : Run p [] [] p
  | cons {p m v ms vs q} (hstep : Step cwd outputDir p m v) (hrun : Run (p.settle v) ms vs q) :
      Run p (m :: ms) (v :: vs) q

variable {cwd outputDir}

/-- Adding a declaration is to settle it with its verdict. -/
theorem add_eq_ok_iff {p q : Plan} {m : Marked} :
    p.add cwd outputDir m = .ok q ↔ ∃ v, Step cwd outputDir p m v ∧ p.settle v = q := by
  constructor
  · intro h
    unfold add at h
    split at h
    · rename_i fault hfault
      exact ⟨_, .faulty hfault, Except.ok.inj h⟩
    · rename_i service hservice
      split at h
      · cases h
      · rename_i client hclient
        split at h
        · rename_i other howner
          exact ⟨_, .taken hservice hclient howner, Except.ok.inj h⟩
        · rename_i howner
          exact ⟨_, .fresh hservice hclient howner, Except.ok.inj h⟩
  · rintro ⟨v, hstep, rfl⟩
    cases hstep with
    | faulty hfault => simp [add, hfault, settle]
    | taken hservice hclient howner => simp [add, hservice, hclient, howner, settle]
    | fresh hservice hclient howner => simp [add, hservice, hclient, howner, settle]

/-- Planning declarations is to settle each with its verdict. -/
theorem extend_eq_ok_iff : ∀ {ms : List Marked} {p q : Plan},
    p.extend cwd outputDir ms = .ok q ↔ ∃ vs, Run cwd outputDir p ms vs q
  | [], p, q => by
    constructor
    · intro h
      obtain rfl : p = q := Except.ok.inj h
      exact ⟨[], .nil⟩
    · rintro ⟨vs, hrun⟩
      cases hrun
      rfl
  | m :: ms, p, q => by
    constructor
    · intro h
      unfold extend at h
      split at h
      · cases h
      · rename_i next hadd
        obtain ⟨v, hstep, rfl⟩ := add_eq_ok_iff.mp hadd
        obtain ⟨vs, hrun⟩ := extend_eq_ok_iff.mp h
        exact ⟨v :: vs, .cons hstep hrun⟩
    · rintro ⟨vs, hrun⟩
      cases hrun with
      | cons hstep hrest =>
        have hadd := add_eq_ok_iff.mpr ⟨_, hstep, rfl⟩
        simp only [extend, hadd]
        exact extend_eq_ok_iff.mpr ⟨_, hrest⟩

namespace Run

variable {p q : Plan} {ms : List Marked} {vs : List Verdict}

theorem clients_eq (h : Run cwd outputDir p ms vs q) :
    q.clients = p.clients ++ vs.filterMap Verdict.client? := by
  induction h with
  | nil => simp
  | @cons p m v ms vs q hstep hrun ih =>
    rw [ih, settle_clients, List.append_assoc]
    cases v <;> simp [List.filterMap_cons, Verdict.client?]

theorem rejected_eq (h : Run cwd outputDir p ms vs q) :
    q.rejected = p.rejected ++ vs.filterMap Verdict.issue? := by
  induction h with
  | nil => simp
  | @cons p m v ms vs q hstep hrun ih =>
    rw [ih, settle_rejected, List.append_assoc]
    cases v <;> simp [List.filterMap_cons, Verdict.issue?]

/-- Every declaration has one verdict, at its own position. -/
theorem forall₂ (h : Run cwd outputDir p ms vs q) :
    List.Forall₂ (fun m v => ∃ before, Step cwd outputDir before m v) ms vs := by
  induction h with
  | nil => exact .nil
  | cons hstep _ ih => exact .cons ⟨_, hstep⟩ ih

end Run

end Steps

end Plan
end FetchClients
