/-
# The names that a client declares

A client binds the names that it imports and the name of its class, and the
class declares a constructor with its properties, and the methods. Imported
types are listed once, but none of these names is compared with the others. The
bound names are distinct exactly when no method takes or promises the declared
type or a type named like the class, and the class is not named like the
declared type (`Client.nodup_boundNames_iff`). The members are distinct exactly
when the method fields have distinct names, none of which the template uses
(`Client.nodup_memberNames_iff`).

Key definitions: `Client.boundNames`, `Client.templateMembers`,
`Client.memberNames`.
Key theorems: `Client.nodup_boundNames_iff`, `Client.nodup_memberNames_iff`.
-/
import FetchClients.Client.Render
import FetchClients.Proofs.Services

namespace FetchClients
namespace Client

/-- The names that a client binds: those that it imports, then its class. -/
def boundNames (s : Service) : List String :=
  importedNames s ++ [s.className]

/-- The members that every class has: its constructor and the properties that it declares. -/
def templateMembers : List String :=
  ["constructor", "endpoint", "path", "fetchFn"]

/-- The members of a client's class. -/
def memberNames (s : Service) : List String :=
  templateMembers ++ s.methods.map (·.name)

/-- A declaration whose methods all take `request` and promise `response`. -/
def uniformType (name request response : String) (methods : List String) : TypeOutline :=
  ⟨⟨⟨name, .interface, 1⟩, []⟩, methods.map fun method =>
    ⟨⟨method, .method [⟨"req", some (.named request [])⟩]
      (some (.named "Promise" [.named response []])), false, 2⟩, []⟩⟩

section Names

variable {module : String} {type : TypeOutline} {keys : Keys} {s : Service}

/-! ### Bound names -/

/-- Only the declared type and the class can be bound twice. -/
theorem nodup_boundNames_iff_imports (s : Service) :
    (boundNames s).Nodup ↔
      s.interface ≠ s.className ∧ s.interface ∉ s.imports ∧ s.className ∉ s.imports := by
  have himports : s.imports.Nodup := Text.nodup_sorted _
  rw [boundNames, importedNames, List.cons_append, List.nodup_cons, List.nodup_append]
  constructor
  · rintro ⟨hinterface, -, -, hclass⟩
    simp only [List.mem_append, List.mem_singleton, not_or] at hinterface
    exact ⟨hinterface.2, hinterface.1, fun h => hclass _ h _ (by simp) rfl⟩
  · rintro ⟨hne, hinterface, hclass⟩
    refine ⟨by simp [hne, hinterface], himports, by simp, ?_⟩
    intro name hname other hother
    rw [List.mem_singleton.mp hother]
    rintro rfl
    exact hclass hname

/-- A client binds no name twice exactly when its class is not named like the declared type, and
no method takes or promises the declared type or a type named like the class. -/
theorem nodup_boundNames_iff (h : Service.ofType module type keys = .ok s) :
    (boundNames s).Nodup ↔ type.decl.node.name ≠ s.className ∧
      ∀ field ∈ type.methodFields, ∀ name ∈ field.node.types,
        name ≠ type.decl.node.name ∧ name ≠ s.className := by
  obtain ⟨-, hinterface, -, -⟩ := Service.ofType_eq_ok_iff.mp h
  rw [nodup_boundNames_iff_imports, hinterface]
  refine and_congr_right fun _ => ?_
  rw [Service.mem_imports_iff h, Service.mem_imports_iff h]
  constructor
  · rintro ⟨hdeclared, hclass⟩ field hfield name hname
    refine ⟨?_, ?_⟩
    · rintro rfl
      exact hdeclared ⟨field, hfield, hname⟩
    · rintro rfl
      exact hclass ⟨field, hfield, hname⟩
  · intro hall
    refine ⟨?_, ?_⟩
    · rintro ⟨field, hfield, hname⟩
      exact (hall field hfield _ hname).1 rfl
    · rintro ⟨field, hfield, hname⟩
      exact (hall field hfield _ hname).2 rfl

/-- A client imports its declared type twice if a method takes it. -/
theorem exists_not_nodup_boundNames :
    ∃ s, Service.ofType "node" (uniformType "Node" "Node" "Node" ["get"])
        ⟨"HttpClient", "ServiceName", "Path"⟩ = .ok s ∧
      ¬ (boundNames s).Nodup :=
  ⟨_, rfl, by decide⟩

theorem nodup_boundNames_user :
    ∃ s, Service.ofType "user" (uniformType "User" "GetUserReq" "GetUserResp" ["get"])
        ⟨"HttpClient", "ServiceName", "Path"⟩ = .ok s ∧
      (boundNames s).Nodup := by
  have hs : Service.ofType "user" (uniformType "User" "GetUserReq" "GetUserResp" ["get"])
      ⟨"HttpClient", "ServiceName", "Path"⟩ =
        .ok ⟨"user", "User", "User", [⟨"get", "/get", "GetUserReq", "GetUserResp"⟩]⟩ := rfl
  refine ⟨_, hs, (nodup_boundNames_iff hs).mpr ?_⟩
  decide

/-! ### Members -/

/-- A class has no member twice exactly when the method fields have distinct names that the template
leaves free. -/
theorem nodup_memberNames_iff (h : Service.ofType module type keys = .ok s) :
    (memberNames s).Nodup ↔ (type.methodFields.map (·.node.name)).Nodup ∧
      ∀ field ∈ type.methodFields, field.node.name ∉ templateMembers := by
  have htemplate : templateMembers.Nodup := by decide
  rw [memberNames, Service.map_name_methods h, List.nodup_append]
  constructor
  · rintro ⟨-, hnames, hdisjoint⟩
    refine ⟨hnames, fun field hfield hmem => ?_⟩
    exact hdisjoint _ hmem _ (List.mem_map_of_mem hfield) rfl
  · rintro ⟨hnames, hfree⟩
    refine ⟨htemplate, hnames, ?_⟩
    -- a name in both lists would be that of a method field
    rintro name hname _ hmem rfl
    obtain ⟨field, hfield, rfl⟩ := List.mem_map.mp hmem
    exact hfree field hfield hname

/-- A method that is declared twice is a member twice. -/
theorem exists_not_nodup_memberNames :
    ∃ s, Service.ofType "user" (uniformType "User" "GetUserReq" "GetUserResp" ["get", "get"])
        ⟨"HttpClient", "ServiceName", "Path"⟩ = .ok s ∧
      ¬ (memberNames s).Nodup :=
  ⟨_, rfl, by decide⟩

theorem nodup_memberNames_user :
    ∃ s, Service.ofType "user" (uniformType "User" "GetUserReq" "GetUserResp" ["get", "find"])
        ⟨"HttpClient", "ServiceName", "Path"⟩ = .ok s ∧
      (memberNames s).Nodup := by
  have hs : Service.ofType "user" (uniformType "User" "GetUserReq" "GetUserResp" ["get", "find"])
      ⟨"HttpClient", "ServiceName", "Path"⟩ =
        .ok ⟨"user", "User", "User", [⟨"get", "/get", "GetUserReq", "GetUserResp"⟩,
          ⟨"find", "/find", "GetUserReq", "GetUserResp"⟩]⟩ := rfl
  refine ⟨_, hs, (nodup_memberNames_iff hs).mpr ?_⟩
  decide

end Names

end Client
end FetchClients
