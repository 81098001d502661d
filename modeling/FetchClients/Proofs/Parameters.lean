/-
# Parameters of signatures and of methods with a body

A signature keeps the type of every parameter, and a rest parameter goes by what it
binds. A method with a body keeps the types of names alone, and a rest parameter goes
by its whole text. So the same parameters are kept alike in an interface and in a class
exactly when there is no rest parameter among them and no pattern has a type. The first
parameter gives the request, so the type of a request may be found in the interface and
missed in the class, but never the other way round.

Key definitions: `Tree.Alike`, `Tree.isPlainParam`, `Tree.hidesRequest`,
`Tree.keptParams`.
Key theorems: `Tree.Alike.classParam_eq_iff`, `Tree.Alike.requestType?_eq_iff`,
`Tree.keptParams_class_eq_iff`.
-/
import FetchClients.Outline.Extract
import FetchClients.Service.FromType
import Mathlib.Data.List.Forall2

namespace FetchClients
namespace TypeScript
namespace Tree

section Alike

variable (source source' : List Char)

/-- Two parameters that are read from the same text, each in its own source: a name, a pattern or
a rest parameter, with or without a type. -/
inductive Alike : Tree → Tree → Prop
  | binding {span span' name type type'}
      (htype : type.map (typeExpr source) = type'.map (typeExpr source')) :
      Alike (.binding span name type) (.binding span' name type')
  | pattern {span span' parts parts' type type'}
      (htext : span.text source = span'.text source')
      (htype : type.map (typeExpr source) = type'.map (typeExpr source')) :
      Alike (.pattern span parts type) (.pattern span' parts' type')
  | rest {span span' argument argument' type type'}
      (htext : span.text source = span'.text source')
      (hargument : argument.span.text source = argument'.span.text source')
      (hdots : ∃ gap tail, span.text source = "..." ++ gap ++ argument.span.text source ++ tail)
      (htype : type.map (typeExpr source) = type'.map (typeExpr source')) :
      Alike (.rest span argument type) (.rest span' argument' type')

end Alike

/-- Whether a parameter is a name, or a pattern without a type. -/
def isPlainParam : Tree → Bool
  | .binding .. | .pattern _ _ none => true
  | _ => false

/-- Whether a tree is a pattern or a rest parameter whose type a request could have. -/
def hidesRequest (source : List Char) : Tree → Bool
  | .pattern _ _ type | .rest _ _ type =>
    type.any fun t => (t.typeExpr source).plainName?.isSome
  | _ => false

/-- The parameters that are kept of a member. -/
def keptParams (source : List Char) (t : Tree) : List Param :=
  match t.member? source with
  | some (_, .method params _) => params
  | _ => []

@[simp] theorem keptParams_signature (source : List Char) (head : MemberHead)
    (key params : List Tree) (returns : Option Tree) (others : List Tree) :
    (method head false key params returns others).keptParams source =
      params.map (signatureParam source) := rfl

@[simp] theorem keptParams_inClass (source : List Char) (head : MemberHead)
    (key params : List Tree) (returns : Option Tree) (others : List Tree) :
    (method head true key params returns others).keptParams source =
      params.map (classParam source) := rfl

namespace Alike

variable {source source' : List Char} {p q : Tree} {ps qs : List Tree}

theorem ne_of_dots {text argument : String}
    (h : ∃ gap tail, text = "..." ++ gap ++ argument ++ tail) : text ≠ argument := by
  obtain ⟨gap, tail, h⟩ := h
  intro heq
  have hlength := congrArg String.length h
  simp only [heq, String.length_append, (by decide : "...".length = 3)] at hlength
  omega

/-- A parameter is kept alike in a signature and in a method with a body exactly when it is a name
or a pattern without a type. -/
theorem classParam_eq_iff (h : Alike source source' p q) :
    q.classParam source' = p.signatureParam source ↔ p.isPlainParam = true := by
  cases h with
  | binding htype => simp [classParam, signatureParam, isPlainParam, htype]
  | @pattern span span' parts parts' type type' htext htype =>
    cases type <;> simp [classParam, signatureParam, isPlainParam, Tree.span, htext]
  | rest htext hargument hdots htype =>
    have hname := ne_of_dots hdots
    simp only [classParam, signatureParam, isPlainParam, span, Param.mk.injEq]
    constructor
    · rintro ⟨hsame, -⟩
      exact absurd (htext.trans hsame) hname
    · simp

/-- A method with a body keeps no type that the signature does not keep. -/
theorem type_classParam (h : Alike source source' p q) :
    (q.classParam source').type = none ∨
      (q.classParam source').type = (p.signatureParam source).type := by
  cases h with
  | binding htype => exact .inr htype.symm
  | pattern => exact .inl rfl
  | rest => exact .inl rfl

/-- The type of a request is missed in a class exactly when it stands on a pattern or on a rest
parameter. -/
theorem plainName?_eq_iff (h : Alike source source' p q) :
    (q.classParam source').type.bind TypeExpr.plainName? =
        (p.signatureParam source).type.bind TypeExpr.plainName? ↔
      p.hidesRequest source = false := by
  have hmissed : ∀ type : Option Tree,
      none = (type.map (typeExpr source)).bind TypeExpr.plainName? ↔
        type.any (fun t => (t.typeExpr source).plainName?.isSome) = false := by
    intro type
    cases type with
    | none => simp
    | some t =>
      rw [Option.any_some, Option.isSome_eq_false_iff, Option.isNone_iff_eq_none]
      exact eq_comm
  cases h with
  | binding htype => simp [classParam, signatureParam, hidesRequest, htype]
  | pattern => exact hmissed _
  | rest => exact hmissed _

theorem map_classParam_eq_iff (h : List.Forall₂ (Alike source source') ps qs) :
    qs.map (classParam source') = ps.map (signatureParam source) ↔
      ∀ p ∈ ps, p.isPlainParam = true := by
  induction h with
  | nil => simp
  | cons hpq _ ih => simp [hpq.classParam_eq_iff, ih]

/-- A request that is found in a class is the one that is found in the interface. -/
theorem requestType?_of_class (h : List.Forall₂ (Alike source source') ps qs) {name : String}
    (hname : requestType? (qs.map (classParam source')) = some name) :
    requestType? (ps.map (signatureParam source)) = some name := by
  cases h with
  | nil => exact hname
  | cons hpq _ =>
    simp only [requestType?, List.map_cons, List.head?_cons, Option.bind_some] at hname ⊢
    rcases hpq.type_classParam with hnone | hsame
    · simp [hnone] at hname
    · rw [← hsame, hname]

theorem requestType?_eq_iff (h : List.Forall₂ (Alike source source') ps qs) :
    requestType? (qs.map (classParam source')) =
        requestType? (ps.map (signatureParam source)) ↔
      ps.head?.any (hidesRequest source) = false := by
  cases h with
  | nil => simp [requestType?]
  | cons hpq _ =>
    simp only [requestType?, List.map_cons, List.head?_cons, Option.bind_some, Option.any_some]
    exact hpq.plainName?_eq_iff

/-- A request is accepted in a class exactly when it is accepted in the interface, or not at all
as it stands on a pattern or a rest parameter. -/
theorem isSome_requestType?_eq_iff (h : List.Forall₂ (Alike source source') ps qs) :
    (requestType? (qs.map (classParam source'))).isSome =
        (requestType? (ps.map (signatureParam source))).isSome ↔
      ps.head?.any (hidesRequest source) = false := by
  rw [← requestType?_eq_iff h]
  constructor
  · intro hsome
    cases hclass : requestType? (qs.map (classParam source')) with
    | some name => rw [requestType?_of_class h hclass]
    | none =>
      rw [hclass, Option.isSome_none, eq_comm, Option.isSome_eq_false_iff,
        Option.isNone_iff_eq_none] at hsome
      exact hsome.symm
  · exact fun heq => by rw [heq]

end Alike

/-- A class keeps the parameters of a method as an interface keeps those of a signature with the
same parameters exactly when none is a rest parameter and no pattern has a type. The two accept the
same requests exactly when the first is no pattern or rest parameter with a plain named type. -/
theorem keptParams_class_eq_iff {source source' : List Char} {ps qs : List Tree}
    (h : List.Forall₂ (Alike source source') ps qs) (head head' : MemberHead)
    (key key' : List Tree) (returns returns' : Option Tree) (others others' : List Tree) :
    let signature := (method head false key ps returns others).keptParams source
    let inClass := (method head' true key' qs returns' others').keptParams source'
    (inClass = signature ↔ ∀ p ∈ ps, p.isPlainParam = true) ∧
      ((requestType? inClass).isSome = (requestType? signature).isSome ↔
        ps.head?.any (hidesRequest source) = false) ∧
      ∀ name, requestType? inClass = some name → requestType? signature = some name :=
  ⟨Alike.map_classParam_eq_iff h, Alike.isSome_requestType?_eq_iff h,
    fun _ => Alike.requestType?_of_class h⟩

/-- The parameters `{ a }: Req, ...bs: B` as they are read at an offset. -/
def patternAndRest (offset : Nat) : List Tree :=
  let piece (start stop : Nat) : Span := ⟨⟨offset + start, 1⟩, ⟨offset + stop, 1⟩⟩
  [.pattern (piece 0 10) [leaf (piece 2 3)] (some (.reference (piece 7 10) "Req" [])),
    .rest (piece 12 20) (.binding (piece 15 17) "bs" none) (some (.reference (piece 19 20) "B" []))]

theorem keptParams_class_patternAndRest :
    let source := "m(\x7b a \x7d: Req, ...bs: B)".toList
    let source' := "async m(\x7b a \x7d: Req, ...bs: B)".toList
    let head : MemberHead := ⟨⟨⟨0, 1⟩, ⟨23, 1⟩⟩, ⟨⟨0, 1⟩, ⟨1, 1⟩⟩, false⟩
    let signature := (method head false [] (patternAndRest 2) none []).keptParams source
    let inClass := (method head true [] (patternAndRest 8) none []).keptParams source'
    List.Forall₂ (Alike source source') (patternAndRest 2) (patternAndRest 8) ∧
      (inClass = signature ↔ ∀ p ∈ patternAndRest 2, p.isPlainParam = true) ∧
      ((requestType? inClass).isSome = (requestType? signature).isSome ↔
        (patternAndRest 2).head?.any (hidesRequest source) = false) ∧
      ∀ name, requestType? inClass = some name → requestType? signature = some name := by
  intro source source' head signature inClass
  have halike : List.Forall₂ (Alike source source') (patternAndRest 2) (patternAndRest 8) :=
    .cons (.pattern (by decide) rfl)
      (.cons (.rest (by decide) (by decide) ⟨"", ": B", by decide⟩ rfl) .nil)
  exact ⟨halike, keptParams_class_eq_iff halike head head [] [] none none [] []⟩

end Tree

/-- An interface and a class with one method, which has the same parameter in both. -/
def destructuredSource : String :=
  "interface I \x7b m(\x7b a \x7d: Req): void \x7d class C \x7b m(\x7b a \x7d: Req) \x7b\x7d \x7d"

/-- The type of a pattern is kept in the interface and missed in the class. -/
theorem exists_request_missed_in_class : ∃ m, Module.parse false destructuredSource = .ok m ∧
    ((m.items.filterMap Tree.declaration?).map fun d =>
      d.body.map fun t => ((t.keptParams m.source).map Param.name,
        requestType? (t.keptParams m.source))) =
      [[(["\x7b a \x7d: Req"], some "Req")], [(["\x7b a \x7d: Req"], none)]] := by
  have hfound : ((Module.parse false destructuredSource).map fun m =>
      (m.items.filterMap Tree.declaration?).map fun d =>
        d.body.map fun t => ((t.keptParams m.source).map Param.name,
          requestType? (t.keptParams m.source))).toOption =
      some [[(["\x7b a \x7d: Req"], some "Req")], [(["\x7b a \x7d: Req"], none)]] := by
    decide +kernel
  cases hparse : Module.parse false destructuredSource with
  | error failure =>
    rw [hparse] at hfound
    cases hfound
  | ok m =>
    rw [hparse] at hfound
    exact ⟨m, rfl, Option.some.inj hfound⟩

end TypeScript
end FetchClients
