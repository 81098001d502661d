/-
# What a service takes from its declaration

A declaration is a service exactly when the name it is given is an identifier
and every one of its method fields is a method (`Service.ofType_eq_ok_iff`). The
methods stand for the method fields one by one and in order
(`Method.ofFields_eq_ok_iff`), each with the name, the path and the types of its
field.

Key definitions: `Member.request?`, `Member.response?`, `Method.Of`,
`TypeOutline.methodFields`.
Key theorems: `Method.ofFields_eq_ok_iff`, `Service.ofType_eq_ok_iff`,
`Service.imports_eq`.
-/
import FetchClients.Service.FromType
import Mathlib.Data.List.Forall2

namespace FetchClients

namespace Member

/-- The named type that a method member takes. -/
def request? (m : Member) : Option String :=
  match m.kind with
  | .method params _ => requestType? params
  | .property _ => none

/-- The named type that a method member promises. -/
def response? (m : Member) : Option String :=
  match m.kind with
  | .method _ returns => responseType? returns
  | .property _ => none

/-- The named types that a member takes and promises. -/
def types (m : Member) : List String :=
  m.request?.toList ++ m.response?.toList

end Member

/-- The method members of a declaration. -/
def TypeOutline.methodFields (type : TypeOutline) : List (Annotated Member) :=
  type.fields.filter (·.node.isMethod)

namespace Method

variable {keys : Keys} {field : Annotated Member} {m : Method}

/-- A sound method with what its field says. -/
structure Of (keys : Keys) (field : Annotated Member) (m : Method) : Prop where
  name : m.name = field.node.name
  path : m.path = pathOf keys field
  request : field.node.request? = some m.requestType
  response : field.node.response? = some m.responseType
  identifier : isIdentifier m.name
  methodPath : isMethodPath m.path

theorem ofField_eq_ok_iff {params : List Param} {returns : Option TypeExpr}
    (hkind : field.node.kind = .method params returns) :
    ofField keys field params returns = .ok m ↔ Of keys field m := by
  have hrequest : field.node.request? = requestType? params := by simp [Member.request?, hkind]
  have hresponse : field.node.response? = responseType? returns := by
    simp [Member.response?, hkind]
  constructor
  · intro h
    unfold ofField at h
    dsimp only at h
    split at h
    · cases h
    · rename_i hname
      split at h
      · cases h
      · rename_i hpath
        split at h
        · cases h
        · cases h
        · rename_i request response hreq hresp
          obtain rfl := Except.ok.inj h
          exact ⟨rfl, rfl, hrequest.trans hreq, hresponse.trans hresp, by simpa using hname,
            by simpa using hpath⟩
  · rintro ⟨hname, hpath, hreq, hresp, hidentifier, hmethodPath⟩
    rw [hname] at hidentifier
    rw [hpath] at hmethodPath
    rw [hrequest] at hreq
    rw [hresponse] at hresp
    unfold ofField
    simp only [hidentifier, hmethodPath, hreq, hresp, Bool.not_true, Bool.false_eq_true, if_false]
    rw [← hname, ← hpath]

/-- The fields are read exactly when every method field is a method, and then the methods are
these, in order. -/
theorem ofFields_eq_ok_iff : ∀ {fields : List (Annotated Member)} {methods : List Method},
    ofFields keys fields = .ok methods ↔
      List.Forall₂ (Of keys) (fields.filter (·.node.isMethod)) methods
  | [], methods => by
    simp [ofFields, eq_comm]
  | field :: fields, methods => by
    cases hkind : field.node.kind with
    | property type =>
      have hmethod : field.node.isMethod = false := by simp [Member.isMethod, hkind]
      simp only [ofFields, hkind, List.filter_cons, hmethod, Bool.false_eq_true, if_false]
      exact ofFields_eq_ok_iff
    | method params returns =>
      have hmethod : field.node.isMethod = true := by simp [Member.isMethod, hkind]
      have hfield := fun m => @ofField_eq_ok_iff keys field m params returns hkind
      simp only [ofFields, hkind, List.filter_cons, hmethod, if_true, List.forall₂_cons_left_iff]
      constructor
      · intro h
        split at h
        · cases h
        · rename_i m hm
          split at h
          · cases h
          · rename_i rest hrest
            obtain rfl := Except.ok.inj h
            exact ⟨m, rest, (hfield m).mp hm, ofFields_eq_ok_iff.mp hrest, rfl⟩
      · rintro ⟨m, rest, hm, hrest, rfl⟩
        rw [(hfield m).mpr hm, ofFields_eq_ok_iff.mpr hrest]

/-- A method has the types of its field. -/
theorem flatMap_types {fields : List (Annotated Member)} {methods : List Method}
    (h : List.Forall₂ (Of keys) fields methods) :
    methods.flatMap (fun m => [m.requestType, m.responseType]) =
      fields.flatMap (·.node.types) := by
  induction h with
  | nil => rfl
  | cons hm _ ih =>
    rw [List.flatMap_cons, List.flatMap_cons, ih, Member.types, hm.request, hm.response]
    rfl

end Method

namespace Service

variable {module : String} {type : TypeOutline} {keys : Keys} {s : Service}

theorem ofType_eq_ok_iff :
    ofType module type keys = .ok s ↔
      s.module = module ∧ s.interface = type.decl.node.name ∧ nameOf keys type = .ok s.name ∧
        List.Forall₂ (Method.Of keys) type.methodFields s.methods := by
  unfold ofType
  constructor
  · intro h
    split at h
    · cases h
    · rename_i name hname
      split at h
      · cases h
      · rename_i methods hmethods
        obtain rfl := Except.ok.inj h
        exact ⟨rfl, rfl, hname, Method.ofFields_eq_ok_iff.mp hmethods⟩
  · rintro ⟨hmodule, hinterface, hname, hmethods⟩
    rw [hname, Method.ofFields_eq_ok_iff.mpr hmethods, ← hmodule, ← hinterface]

/-- The names of the methods are those of the method fields. -/
theorem map_name_methods (h : ofType module type keys = .ok s) :
    s.methods.map (·.name) = type.methodFields.map (·.node.name) := by
  obtain ⟨-, -, -, hmethods⟩ := ofType_eq_ok_iff.mp h
  refine List.forall₂_eq_eq_eq ▸ ?_
  rw [List.forall₂_map_left_iff, List.forall₂_map_right_iff]
  exact hmethods.flip.imp fun _ _ hm => hm.name

/-- The imported types are those that the method fields take and promise. -/
theorem imports_eq (h : ofType module type keys = .ok s) :
    s.imports = Text.sorted (type.methodFields.flatMap (·.node.types)) := by
  obtain ⟨-, -, -, hmethods⟩ := ofType_eq_ok_iff.mp h
  rw [imports, Method.flatMap_types hmethods]

theorem mem_imports_iff {name : String} (h : ofType module type keys = .ok s) :
    name ∈ s.imports ↔ ∃ field ∈ type.methodFields, name ∈ field.node.types := by
  rw [imports_eq h, Text.mem_sorted, List.mem_flatMap]

end Service
end FetchClients
