/-
# The first fault of a declaration

A marked declaration is rejected for the first thing that is wrong with it: the
name that an annotation gives the service, or else the first method field in
order that is not sound, and of that field the fault that is met first in the
order name, path, parameters, return type. Without a fault the declaration is a
service with one method for each method field, in order. The verdict on a
declaration is stated as a relation (`Service.Verdict`), which is what the
checks compute: a field is followed through its four checks once
(`Method.ofField_eq_error_iff`) and the fields through one induction
(`Method.ofFields_eq_error_iff`). The verdict says by itself what a service and a
method are called: where a name or a path comes from is part of the relation
(`Service.Named`, `Method.Routed`).

Key definitions: `Annotated.First`, `Method.Routed`, `Method.StandsFor`, `Method.Sound`,
`Method.FirstFault`, `Service.Named`, `Service.Verdict`.
Key theorems: `Method.pathOf_eq_iff`, `Method.ofFields_eq_error_iff`,
`Service.ofType_verdict`.
-/
import FetchClients.Proofs.Services

namespace FetchClients

/-! ### What a declaration says -/

/-- An annotation is the first one with a key. -/
def Annotated.First {α : Type} (a : Annotated α) (key : String) (x : Annotation) : Prop :=
  ∃ before after, a.annotations = before ++ x :: after ∧ x.key = key ∧
    ∀ y ∈ before, y.key ≠ key

/-- No annotation has a key. -/
def Annotated.Lacks {α : Type} (a : Annotated α) (key : String) : Prop :=
  ∀ x ∈ a.annotations, x.key ≠ key

namespace Annotated

variable {α : Type} {a : Annotated α} {key : String} {x : Annotation}

theorem get?_eq_some_iff : a.get? key = some x ↔ a.First key x := by
  simp only [get?, First, List.find?_eq_some_iff_append, decide_eq_true_eq, Bool.not_eq_true',
    decide_eq_false_iff_not]
  constructor
  · rintro ⟨hkey, before, after, heq, hbefore⟩
    exact ⟨before, after, heq, hkey, hbefore⟩
  · rintro ⟨before, after, heq, hkey, hbefore⟩
    exact ⟨hkey, before, after, heq, hbefore⟩

theorem get?_eq_none_iff : a.get? key = none ↔ a.Lacks key := by
  simp [get?, Lacks, List.find?_eq_none]

end Annotated

namespace Member

variable {m : Member} {t : String}

/-- The first parameter of a method has a named type without arguments. -/
def Takes (m : Member) (t : String) : Prop :=
  ∃ name more returns, m.kind = .method (⟨name, some (.named t [])⟩ :: more) returns

/-- A method promises a named type without arguments: it returns `Promise<t>`. -/
def Promises (m : Member) (t : String) : Prop :=
  ∃ params, m.kind = .method params (some (.named "Promise" [.named t []]))

theorem request?_eq_some_iff : m.request? = some t ↔ m.Takes t := by
  unfold request? Takes
  cases m.kind with
  | property type => simp
  | method params returns =>
    cases params with
    | nil => simp [requestType?]
    | cons p more =>
      obtain ⟨name, type⟩ := p
      simp [requestType?, Option.bind_eq_some_iff, TypeExpr.plainName?_eq_some_iff]

theorem response?_eq_some_iff : m.response? = some t ↔ m.Promises t := by
  unfold response? Promises
  cases m.kind with
  | property type => simp
  | method params returns =>
    simp [responseType?, Option.bind_eq_some_iff, TypeExpr.plainName?_eq_some_iff,
      TypeExpr.argOf?_eq_some_iff]

theorem request?_eq_none_iff : m.request? = none ↔ ∀ t, ¬ m.Takes t := by
  simp only [Option.eq_none_iff_forall_ne_some, ne_eq, request?_eq_some_iff]

theorem response?_eq_none_iff : m.response? = none ↔ ∀ t, ¬ m.Promises t := by
  simp only [Option.eq_none_iff_forall_ne_some, ne_eq, response?_eq_some_iff]

end Member

/-! ### The checks of one method -/

namespace Method

variable {keys : Keys} {field : Annotated Member} {m : Method} {fault : ServiceFault}

/-- The path of a method: what the first annotation for it says between the blanks at its ends, or
the name of the method below the root if there is no such annotation. -/
inductive Routed (keys : Keys) (field : Annotated Member) : String → Prop
  | given {x : Annotation} : field.First keys.path x → Routed keys field (trimmed x.value)
  | own : field.Lacks keys.path → Routed keys field ("/" ++ field.node.name)

theorem pathOf_eq_iff {path : String} : pathOf keys field = path ↔ Routed keys field path := by
  unfold pathOf
  constructor
  · rintro rfl
    split
    · rename_i x hx
      exact .given (Annotated.get?_eq_some_iff.mp hx)
    · rename_i hnone
      exact .own (Annotated.get?_eq_none_iff.mp hnone)
  · rintro (hx | hnone)
    · rw [Annotated.get?_eq_some_iff.mpr hx]
    · rw [Annotated.get?_eq_none_iff.mpr hnone]

/-- A method that a field stands for. -/
structure StandsFor (keys : Keys) (field : Annotated Member) (m : Method) : Prop where
  name : m.name = field.node.name
  path : Routed keys field m.path
  takes : field.node.Takes m.requestType
  promises : field.node.Promises m.responseType
  identifier : isIdentifier m.name
  methodPath : isMethodPath m.path

/-- A method field without a fault. -/
structure Sound (keys : Keys) (field : Annotated Member) : Prop where
  identifier : isIdentifier field.node.name
  methodPath : ∃ path, Routed keys field path ∧ isMethodPath path
  takes : ∃ t, field.node.Takes t
  promises : ∃ t, field.node.Promises t

/-- The fault of a method field that is met first. Each holds only where those above it do not. -/
inductive FirstFault (keys : Keys) (field : Annotated Member) : ServiceFault → Prop
  | name : isIdentifier field.node.name = false →
      FirstFault keys field (.invalidMethodName field.node.name)
  | path {path : String} : isIdentifier field.node.name → Routed keys field path →
      isMethodPath path = false → FirstFault keys field (.invalidPath field.node.name path)
  | params {path : String} : isIdentifier field.node.name → Routed keys field path →
      isMethodPath path → (∀ t, ¬ field.node.Takes t) →
      FirstFault keys field (.invalidParams field.node.name)
  | returns {path : String} : isIdentifier field.node.name → Routed keys field path →
      isMethodPath path → (∃ t, field.node.Takes t) → (∀ t, ¬ field.node.Promises t) →
      FirstFault keys field (.invalidReturn field.node.name)

theorem of_iff : Of keys field m ↔ StandsFor keys field m := by
  constructor
  · rintro ⟨hname, hpath, hrequest, hresponse, hidentifier, hmethodPath⟩
    exact ⟨hname, pathOf_eq_iff.mp hpath.symm, Member.request?_eq_some_iff.mp hrequest,
      Member.response?_eq_some_iff.mp hresponse, hidentifier, hmethodPath⟩
  · rintro ⟨hname, hpath, htakes, hpromises, hidentifier, hmethodPath⟩
    exact ⟨hname, (pathOf_eq_iff.mpr hpath).symm, Member.request?_eq_some_iff.mpr htakes,
      Member.response?_eq_some_iff.mpr hpromises, hidentifier, hmethodPath⟩

theorem sound_iff : Sound keys field ↔ ∃ m, Of keys field m := by
  simp only [of_iff]
  constructor
  · rintro ⟨hidentifier, ⟨path, hpath, hmethodPath⟩, ⟨request, htakes⟩, ⟨response, hpromises⟩⟩
    exact ⟨⟨field.node.name, path, request, response⟩, rfl, hpath, htakes, hpromises, hidentifier,
      hmethodPath⟩
  · rintro ⟨m, hname, hpath, htakes, hpromises, hidentifier, hmethodPath⟩
    exact ⟨hname ▸ hidentifier, ⟨_, hpath, hmethodPath⟩, ⟨_, htakes⟩, ⟨_, hpromises⟩⟩

/-- Fields stand for methods, one each, exactly if all are sound. -/
theorem exists_forall₂_of_iff {fields : List (Annotated Member)} :
    (∃ methods, List.Forall₂ (Of keys) fields methods) ↔ ∀ field ∈ fields, Sound keys field := by
  constructor
  · rintro ⟨methods, hmethods⟩ field hfield
    obtain ⟨i, hi, rfl⟩ := List.getElem_of_mem hfield
    exact sound_iff.mpr ⟨_, hmethods.get hi (hmethods.length_eq ▸ hi)⟩
  · intro hsound
    choose! methodOf hmethodOf using fun field hfield => sound_iff.mp (hsound field hfield)
    exact ⟨fields.map methodOf, List.forall₂_map_right_iff.mpr (List.forall₂_same.mpr hmethodOf)⟩

/-- The checks of a field end at its first fault. -/
theorem ofField_eq_error_iff {params : List Param} {returns : Option TypeExpr}
    (hkind : field.node.kind = .method params returns) :
    ofField keys field params returns = .error fault ↔ FirstFault keys field fault := by
  have hrequest : requestType? params = field.node.request? := by simp [Member.request?, hkind]
  have hresponse : responseType? returns = field.node.response? := by
    simp [Member.response?, hkind]
  have htakes := @Member.request?_eq_none_iff field.node
  have hpromises := @Member.response?_eq_none_iff field.node
  have hrouted : Routed keys field (pathOf keys field) := pathOf_eq_iff.mp rfl
  unfold ofField
  rw [hrequest, hresponse]
  dsimp only
  constructor
  · intro h
    split at h
    · rename_i hname
      cases h
      exact .name (by simpa using hname)
    · rename_i hname
      have hname : isIdentifier field.node.name := by simpa using hname
      split at h
      · rename_i hpath
        cases h
        exact .path hname hrouted (by simpa using hpath)
      · rename_i hpath
        have hpath : isMethodPath (pathOf keys field) := by simpa using hpath
        split at h
        · rename_i hreq
          cases h
          exact .params hname hrouted hpath (htakes.mp hreq)
        · rename_i request hreq hresp
          cases h
          exact .returns hname hrouted hpath ⟨request, Member.request?_eq_some_iff.mp hreq⟩
            (hpromises.mp hresp)
        · cases h
  · intro h
    cases h with
    | name hname => simp [hname]
    | path hname hroute hpath => simp [hname, pathOf_eq_iff.mpr hroute, hpath]
    | params hname hroute hpath hreq => simp [hname, pathOf_eq_iff.mpr hroute, hpath, htakes.mpr hreq]
    | returns hname hroute hpath hreq hresp =>
      obtain ⟨request, hreq⟩ := hreq
      have hrequest := Member.request?_eq_some_iff.mpr hreq
      simp [hname, pathOf_eq_iff.mpr hroute, hpath, hrequest, hpromises.mpr hresp]

/-! ### The fields in order -/

/-- A method field is rejected for its own fault, or if it has none for the fault of a later one. -/
theorem ofFields_cons_eq_error_iff {fields : List (Annotated Member)} {params : List Param}
    {returns : Option TypeExpr} (hkind : field.node.kind = .method params returns) :
    ofFields keys (field :: fields) = .error fault ↔
      FirstFault keys field fault ∨ Sound keys field ∧ ofFields keys fields = .error fault := by
  rw [← ofField_eq_error_iff hkind, sound_iff]
  simp only [← ofField_eq_ok_iff hkind, ofFields, hkind]
  cases ofField keys field params returns with
  | error found => simp
  | ok m => cases ofFields keys fields <;> simp

/-- The fields are rejected for the first fault of the first method field that is not sound. -/
theorem ofFields_eq_error_iff : ∀ {fields : List (Annotated Member)},
    ofFields keys fields = .error fault ↔
      ∃ before field after, fields.filter (·.node.isMethod) = before ++ field :: after ∧
        (∀ f ∈ before, Sound keys f) ∧ FirstFault keys field fault
  | [] => by simp [ofFields]
  | field :: fields => by
    have ih := @ofFields_eq_error_iff fields
    cases hkind : field.node.kind with
    | property type =>
      have hmethod : field.node.isMethod = false := by simp [Member.isMethod, hkind]
      simp only [ofFields, hkind, List.filter_cons, hmethod, Bool.false_eq_true, if_false]
      exact ih
    | method params returns =>
      have hmethod : field.node.isMethod = true := by simp [Member.isMethod, hkind]
      rw [ofFields_cons_eq_error_iff hkind, ih]
      simp only [List.filter_cons, hmethod, if_true]
      constructor
      · rintro (hfault | ⟨hsound, before, bad, after, heq, hbefore, hfault⟩)
        · exact ⟨[], field, _, rfl, by simp, hfault⟩
        · refine ⟨field :: before, bad, after, by rw [heq]; rfl, ?_, hfault⟩
          simpa using ⟨hsound, hbefore⟩
      · rintro ⟨_ | ⟨f, before⟩, bad, after, heq, hbefore, hfault⟩
        · obtain ⟨rfl, -⟩ := List.cons.inj heq
          exact .inl hfault
        · rw [List.cons_append] at heq
          obtain ⟨rfl, htail⟩ := List.cons.inj heq
          exact .inr ⟨hbefore field (by simp), before, bad, after, htail,
            fun f hf => hbefore f (by simp [hf]), hfault⟩

end Method

/-! ### The verdict on a declaration -/

namespace Service

variable {module : String} {type : TypeOutline} {keys : Keys}

/-- The name of a service: the one that the first annotation for it gives, if that is an
identifier, or the name of the type if there is no such annotation. -/
inductive Named (keys : Keys) (type : TypeOutline) : String → Prop
  | given {x : Annotation} : type.decl.First keys.serviceName x →
      isIdentifier (trimmed x.value) → Named keys type (trimmed x.value)
  | own : type.decl.Lacks keys.serviceName → Named keys type type.decl.node.name

/-- What becomes of a declaration. -/
inductive Verdict (module : String) (type : TypeOutline) (keys : Keys) :
    Except ServiceFault Service → Prop
  | badName {x : Annotation} : type.decl.First keys.serviceName x →
      isIdentifier (trimmed x.value) = false →
      Verdict module type keys (.error (.invalidServiceName (trimmed x.value)))
  | service {name : String} {methods : List Method} : Named keys type name →
      List.Forall₂ (Method.StandsFor keys) type.methodFields methods →
      Verdict module type keys (.ok ⟨module, type.decl.node.name, name, methods⟩)
  | badMethod {name : String} {before : List (Annotated Member)} {field : Annotated Member}
      {after : List (Annotated Member)} {fault : ServiceFault} : Named keys type name →
      type.methodFields = before ++ field :: after → (∀ f ∈ before, Method.Sound keys f) →
      Method.FirstFault keys field fault →
      Verdict module type keys (.error fault)

theorem nameOf_eq_ok_iff {name : String} : nameOf keys type = .ok name ↔ Named keys type name := by
  unfold nameOf
  constructor
  · intro h
    split at h
    · rename_i hnone
      cases h
      exact .own (Annotated.get?_eq_none_iff.mp hnone)
    · rename_i x hx
      split at h
      · rename_i hidentifier
        cases h
        exact .given (Annotated.get?_eq_some_iff.mp hx) hidentifier
      · cases h
  · rintro (⟨hx, hidentifier⟩ | hnone)
    · rw [Annotated.get?_eq_some_iff.mpr hx]
      simp [hidentifier]
    · rw [Annotated.get?_eq_none_iff.mpr hnone]

theorem nameOf_eq_error_iff {fault : ServiceFault} :
    nameOf keys type = .error fault ↔
      ∃ x, type.decl.First keys.serviceName x ∧ isIdentifier (trimmed x.value) = false ∧
        fault = .invalidServiceName (trimmed x.value) := by
  simp only [← Annotated.get?_eq_some_iff]
  unfold nameOf
  cases type.decl.get? keys.serviceName with
  | none => simp
  | some x =>
    simp only [Option.some.injEq, exists_eq_left']
    by_cases h : isIdentifier (trimmed x.value) <;> simp [h, @eq_comm _ fault]

theorem ofType_eq_error_iff {fault : ServiceFault} :
    ofType module type keys = .error fault ↔
      nameOf keys type = .error fault ∨
        (∃ name, nameOf keys type = .ok name) ∧ Method.ofFields keys type.fields = .error fault := by
  unfold ofType
  cases nameOf keys type with
  | error found => simp
  | ok name => cases Method.ofFields keys type.fields <;> simp

theorem ofType_eq_ok_iff_verdict {s : Service} :
    ofType module type keys = .ok s ↔ Verdict module type keys (.ok s) := by
  have hof : Method.Of keys = Method.StandsFor keys := by
    ext field m
    exact Method.of_iff
  rw [ofType_eq_ok_iff, nameOf_eq_ok_iff, hof]
  constructor
  · obtain ⟨m, interface, name, methods⟩ := s
    rintro ⟨rfl, rfl, hname, hmethods⟩
    exact .service hname hmethods
  · rintro (_ | ⟨hname, hmethods⟩ | _)
    exact ⟨rfl, rfl, hname, hmethods⟩

theorem ofType_eq_error_iff_verdict {fault : ServiceFault} :
    ofType module type keys = .error fault ↔ Verdict module type keys (.error fault) := by
  rw [ofType_eq_error_iff, nameOf_eq_error_iff, Method.ofFields_eq_error_iff]
  constructor
  · rintro (⟨x, hx, hvalue, rfl⟩ | ⟨⟨name, hname⟩, before, field, after, heq, hbefore, hfault⟩)
    · exact .badName hx hvalue
    · exact .badMethod (nameOf_eq_ok_iff.mp hname) heq hbefore hfault
  · rintro (⟨hx, hvalue⟩ | _ | ⟨hname, heq, hbefore, hfault⟩)
    · exact .inl ⟨_, hx, hvalue, rfl⟩
    · exact .inr ⟨⟨_, nameOf_eq_ok_iff.mpr hname⟩, _, _, _, heq, hbefore, hfault⟩

/-- The checks of a declaration give its verdict and nothing else, and they give a service exactly
if the declaration can be named and all its method fields are sound. -/
theorem ofType_verdict :
    (∀ result, ofType module type keys = result ↔ Verdict module type keys result) ∧
      ((∃ s, ofType module type keys = .ok s) ↔
        (∃ name, Named keys type name) ∧ ∀ field ∈ type.methodFields, Method.Sound keys field) := by
  refine ⟨fun result => ?_, ?_⟩
  · cases result with
    | ok s => exact ofType_eq_ok_iff_verdict
    | error fault => exact ofType_eq_error_iff_verdict
  · rw [← Method.exists_forall₂_of_iff]
    simp only [ofType_eq_ok_iff, nameOf_eq_ok_iff]
    constructor
    · rintro ⟨s, -, -, hname, hmethods⟩
      exact ⟨⟨_, hname⟩, _, hmethods⟩
    · rintro ⟨⟨name, hname⟩, methods, hmethods⟩
      exact ⟨⟨module, type.decl.node.name, name, methods⟩, rfl, rfl, hname, hmethods⟩

end Service
end FetchClients
