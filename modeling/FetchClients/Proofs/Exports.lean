/-
# Whether a source exports what its clients import

A client imports its interface and the types of its methods from the source that
declares the interface. The interface is imported under the name it is declared with,
wherever it stands in the source, and the types under the names that the methods give
them: these names and no others stand in the import line of its text
(`Module.mem_importedNames_iff`, `Client.exists_render_eq`). Nothing asks whether the
source exports them. So all that a client imports is exported exactly if the declared
name and all types of its methods are (`importedNames_exported_iff`); the declared name
is if the declaration stands in an export at the top of the source
(`Module.exports_of_exportsDeclaration`).

Key definitions: `Module.exports`, `Module.Exports`, `Module.ExportsDeclaration`,
`Client.importLine`.
Key theorems: `Client.exists_render_eq`, `Module.mem_importedNames_iff`,
`Module.exports_of_exportsDeclaration`, `importedNames_exported_iff`.
-/
import FetchClients.Client.Render
import FetchClients.Proofs.MemberFields
import FetchClients.Proofs.Services

namespace FetchClients
namespace TypeScript

/-! ### What a source exports -/

/-- The kinds of the tokens that follow in a source, up to a bound. -/
def State.kindsUpTo : Nat → State → List TokenKind
  | 0, _ => []
  | n + 1, s => s.token.kind :: kindsUpTo n (Parse.stepped s)

/-- The name that a token gives in a list of names. -/
def TokenKind.listedName? : TokenKind → Option String
  | word name | string name => some name
  | _ => none

/-- The names in a list of exports; what an item is exported as stands last before a `,` or the
closing brace. -/
def listedNames : List TokenKind → List String
  | [] => []
  | kind :: kinds =>
    if kind.isSign "\x7d" then []
    else if kinds.head?.any fun next => next.isSign "," || next.isSign "\x7d" then
      kind.listedName?.toList ++ listedNames kinds
    else listedNames kinds

/-- The name of an enumeration or of a namespace. -/
def spaceNames : List TokenKind → List String
  | .word "enum" :: .word name :: _ => [name]
  | .word "const" :: .word "enum" :: .word name :: _ => [name]
  | .word "namespace" :: .word name :: _ => [name]
  | .word "module" :: .word name :: _ => [name]
  | _ => []

/-- The names of types and of namespaces that stand after `export` and are no interface, alias or
class: those of a list, of `* as x`, of `import x =`, and of an enumeration or a namespace. -/
def otherNames : List TokenKind → List String
  | .sign "\x7b" :: kinds => listedNames kinds
  | .word "type" :: .sign "\x7b" :: kinds => listedNames kinds
  | .sign "*" :: .word "as" :: kind :: _ => kind.listedName?.toList
  | .word "type" :: .sign "*" :: .word "as" :: kind :: _ => kind.listedName?.toList
  | .word "import" :: .word name :: .sign "=" :: _ => [name]
  | .word "import" :: .word "type" :: .word name :: .sign "=" :: _ => [name]
  | .word "declare" :: kinds => spaceNames kinds
  | kinds => spaceNames kinds

namespace Module

/-- What stands after the `export` of an item that is no default export. -/
def exportKinds? (m : Module) (item : Tree) : Option (List TokenKind) :=
  let text := (item.span.text m.source).toList
  match (State.start text).kindsUpTo text.length with
  | .word "export" :: .word "default" :: _ => none
  | .word "export" :: kinds => some kinds
  | _ => none

/-- The names of types and of namespaces that an item exports. -/
def exportsOf (m : Module) (item : Tree) : List String :=
  match m.exportKinds? item with
  | some kinds => (item.declaration?.map (·.name)).toList ++ otherNames kinds
  | none => []

/-- The names that stand in a source where it exports types. A default export has no name of its
own. -/
def exports (m : Module) : List String :=
  m.items.flatMap m.exportsOf

/-- Whether an item is an `export *`, which passes on all that another source exports. -/
def isPassedOn (m : Module) (item : Tree) : Bool :=
  match m.exportKinds? item with
  | some (.sign "*" :: .word "from" :: _) => true
  | some (.word "type" :: .sign "*" :: .word "from" :: _) => true
  | _ => false

/-- Whether a source exports a type under a name, if the sources that it passes on export types under
the names in `others`. -/
def Exports (m : Module) (others : List String) (name : String) : Prop :=
  name ∈ m.exports ∨ m.items.any m.isPassedOn = true ∧ name ∈ others

/-- Whether a declaration stands in an export at the top of a source that is no default export. -/
def ExportsDeclaration (m : Module) (d : Declaration) : Prop :=
  ∃ item ∈ m.items, item.declaration? = some d ∧ (m.exportKinds? item).isSome = true

theorem exports_of_exportsDeclaration {m : Module} {d : Declaration} (others : List String)
    (h : m.ExportsDeclaration d) : m.Exports others d.name := by
  obtain ⟨item, hitem, hdeclaration, hexport⟩ := h
  obtain ⟨kinds, hkinds⟩ := Option.isSome_iff_exists.mp hexport
  refine .inl (List.mem_flatMap.mpr ⟨item, hitem, ?_⟩)
  simp [exportsOf, hkinds, hdeclaration]

end Module

end TypeScript

/-! ### The import line -/

namespace Client

/-- The line of a client that imports some names. -/
def importLine (names : List String) (specifier : String) : String :=
  "import type \x7b " ++ String.intercalate ", " names ++ " \x7d from \"" ++ specifier ++ "\";"

/-- A client is two notes, a blank line, the line that imports its names, and what does not depend on
where its source is. -/
theorem exists_render_eq (s : Service) : ∃ below, ∀ source specifier,
    render s source specifier =
      unlines ("// Code generated by stubgen. DO NOT EDIT." :: ("// source: " ++ source) :: "" ::
        importLine (importedNames s) specifier :: below) :=
  ⟨(headerLines s "" "").drop 4 ++ s.methods.flatMap methodLines ++ ["\x7d"], fun _ _ => rfl⟩

end Client

namespace TypeScript

/-! ### Candidates that are computed -/

namespace Module

/-- The outlines of the declarations of a source, found to a bound. -/
def outlinesUpTo (n : Nat) (m : Module) : List TypeOutline :=
  (m.root.declarationsUpTo n).map fun d =>
    ⟨Annotated.ofComments ⟨d.name, d.kind, d.place.line⟩ (m.docAt d.place),
      ((d.body.flatMap (Tree.nearestUpTo Tree.ownMembers? n)).filterMap m.field?).filter
        fun field => !field.annotations.isEmpty⟩

theorem types_of_endsWithin {m : Module} {n : Nat} (path : String) (h : m.endsWithin n = true) :
    (FileOutline.ofModule path m).types = m.outlinesUpTo n := by
  obtain ⟨hdeclarations, hmembers⟩ := searches_of_endsWithin h
  rw [FileOutline.types_ofModule, outlinesUpTo, hdeclarations]
  refine List.map_congr_left fun d hd => ?_
  rw [← hmembers d hd]
  rfl

/-- What the marked declarations of a source are, found to a bound. -/
def resultsUpTo (n : Nat) (module : String) (keys : Keys) (m : Module) :
    List (Except ServiceFault Service) :=
  ((m.outlinesUpTo n).filter (·.decl.has keys.marker)).map fun type =>
    Service.ofType module type keys

/-- A service of a source that is read and what the source exports, if searches within a bound find
them. -/
theorem exists_candidate_of_resultsUpTo (path : String) {source : String} {n : Nat} {keys : Keys}
    {s : Service} {found : List (Except ServiceFault Service)} {names : List String} {passes : Bool}
    (h : ((Module.parse false source).map fun m => (m.endsWithin n,
      m.resultsUpTo n (SourceFile.ofPath path).module keys, m.exports,
      m.items.any m.isPassedOn)).toOption = some (true, .ok s :: found, names, passes)) :
    ∃ m, Module.parse false source = .ok m ∧ m.exports = names ∧
      m.items.any m.isPassedOn = passes ∧
      ∃ c ∈ (FileOutline.ofModule path m).candidates keys, c.result = .ok s := by
  obtain ⟨m, hparse, hfound⟩ := toOption_map_eq_some_iff.mp h
  obtain ⟨hends, hmore⟩ := Prod.mk.inj hfound
  obtain ⟨hresults, hmore⟩ := Prod.mk.inj hmore
  obtain ⟨hexports, hpasses⟩ := Prod.mk.inj hmore
  have hmem : .ok s ∈ m.resultsUpTo n (SourceFile.ofPath path).module keys := by
    rw [hresults]
    exact List.mem_cons_self
  obtain ⟨type, htype, hresult⟩ := List.mem_map.mp hmem
  rw [← types_of_endsWithin path hends] at htype
  exact ⟨m, hparse, hexports, hpasses, _, List.mem_map.mpr ⟨type, htype, rfl⟩, hresult⟩

end Module

/-! ### What a client imports -/

/-- A candidate of a source is made from one of its declarations. -/
theorem Module.exists_declaration_of_mem_candidates {path : String} {m : Module} {keys : Keys}
    {c : Candidate} (hc : c ∈ (FileOutline.ofModule path m).candidates keys) :
    ∃ d ∈ m.root.declarations, c.type = m.typeOutline d ∧
      c.result = Service.ofType (SourceFile.ofPath path).module (m.typeOutline d) keys := by
  obtain ⟨type, htype, rfl⟩ := List.mem_map.mp hc
  obtain ⟨htype, -⟩ := List.mem_filter.mp htype
  rw [FileOutline.types_ofModule] at htype
  obtain ⟨d, hd, rfl⟩ := List.mem_map.mp htype
  exact ⟨d, hd, rfl, rfl⟩

/-- A client imports the name of its declaration, and the types that the method fields of that take
and promise. -/
theorem Module.mem_importedNames_iff {module : String} {m : Module} {keys : Keys} {d : Declaration}
    {s : Service} (hs : Service.ofType module (m.typeOutline d) keys = .ok s) (name : String) :
    name ∈ Client.importedNames s ↔ name = d.name ∨
      ∃ field ∈ m.fields d.body, field.node.isMethod = true ∧ name ∈ field.node.types := by
  obtain ⟨-, hinterface, -, -⟩ := Service.ofType_eq_ok_iff.mp hs
  have hname : s.interface = d.name := hinterface
  rw [Client.importedNames, List.mem_cons, hname, Service.mem_imports_iff hs]
  simp only [TypeOutline.methodFields, typeOutline, List.mem_filter, and_assoc]

/-- The import line of every client names the declared name of its interface and the types of the
methods of that, and nothing else. So what it imports is exported exactly if these are, which the
declared name is if the declaration stands in an export. -/
theorem importedNames_exported_iff {path : String} {m : Module} {keys : Keys} {c : Candidate}
    {s : Service} (hc : c ∈ (FileOutline.ofModule path m).candidates keys)
    (hs : c.result = .ok s) :
    ∃ d ∈ m.root.declarations, c.type = m.typeOutline d ∧
      (∃ below, ∀ source specifier, Client.render s source specifier =
        Client.unlines ("// Code generated by stubgen. DO NOT EDIT." :: ("// source: " ++ source) ::
          "" :: Client.importLine (Client.importedNames s) specifier :: below)) ∧
      (∀ name, name ∈ Client.importedNames s ↔ name = d.name ∨
        ∃ field ∈ m.fields d.body, field.node.isMethod = true ∧ name ∈ field.node.types) ∧
      ∀ others, (m.ExportsDeclaration d → m.Exports others d.name) ∧
        ((∀ name ∈ Client.importedNames s, m.Exports others name) ↔ m.Exports others d.name ∧
          ∀ field ∈ m.fields d.body, field.node.isMethod = true →
            ∀ name ∈ field.node.types, m.Exports others name) := by
  obtain ⟨d, hd, htype, hresult⟩ := Module.exists_declaration_of_mem_candidates hc
  have hnames := Module.mem_importedNames_iff (hresult ▸ hs)
  refine ⟨d, hd, htype, Client.exists_render_eq s, hnames, fun others => ?_⟩
  refine ⟨Module.exports_of_exportsDeclaration others, ?_⟩
  constructor
  · intro hall
    refine ⟨hall d.name ((hnames _).mpr (.inl rfl)), fun field hfield hmethod name hname => ?_⟩
    exact hall name ((hnames name).mpr (.inr ⟨field, hfield, hmethod, hname⟩))
  · rintro ⟨hdeclared, htypes⟩ name hname
    rcases (hnames name).mp hname with rfl | ⟨field, hfield, hmethod, hname⟩
    · exact hdeclared
    · exact htypes field hfield hmethod name hname

/-- A source that exports nothing that a client of it imports. -/
def unexportedSource : String :=
  "// @HttpClient\ninterface Api \x7b\n  // @Path /get\n  get(req: Req): Promise<Resp>;\n\x7d\n"

/-- A marked interface that is not exported is imported all the same. -/
theorem not_importedNames_exported_bare : ∃ m, Module.parse false unexportedSource = .ok m ∧
    ∃ c ∈ (FileOutline.ofModule "api.ts" m).candidates ⟨"HttpClient", "ServiceName", "Path"⟩,
      ∃ s, c.result = .ok s ∧ ∀ others, ¬ m.Exports others s.interface ∧
        ¬ ∀ name ∈ Client.importedNames s, m.Exports others name := by
  have hfound : ((Module.parse false unexportedSource).map fun m => (m.endsWithin 20,
      m.resultsUpTo 20 "api" ⟨"HttpClient", "ServiceName", "Path"⟩, m.exports,
      m.items.any m.isPassedOn)).toOption =
        some (true, [.ok ⟨"api", "Api", "Api", [⟨"get", "/get", "Req", "Resp"⟩]⟩], [], false) := by
    decide +kernel
  obtain ⟨m, hparse, hexports, hpasses, c, hc, hs⟩ :=
    Module.exists_candidate_of_resultsUpTo "api.ts" hfound
  have hnone : ∀ others name, ¬ m.Exports others name := by simp [Module.Exports, hexports, hpasses]
  refine ⟨m, hparse, c, hc, _, hs, fun others => ⟨hnone others _, fun hall => ?_⟩⟩
  exact hnone others _ (hall "Api" (by simp [Client.importedNames]))

/-- A source that exports an interface and the types of its methods, one of them from elsewhere. -/
def exportedSource : String :=
  "export interface Req \x7b\x7d\nexport type \x7b Message as Resp \x7d from \"./message\";\n" ++
    "// @HttpClient\nexport interface Api \x7b\n  // @Path /get\n" ++
    "  get(req: Req): Promise<Resp>;\n\x7d\n"

theorem importedNames_exported_listed : ∃ m, Module.parse false exportedSource = .ok m ∧
    ∃ c ∈ (FileOutline.ofModule "api.ts" m).candidates ⟨"HttpClient", "ServiceName", "Path"⟩,
      ∃ s, c.result = .ok s ∧ (∀ name ∈ Client.importedNames s, m.Exports [] name) ∧
        ∃ d ∈ m.root.declarations, c.type = m.typeOutline d ∧
          (∃ below, ∀ source specifier, Client.render s source specifier =
            Client.unlines ("// Code generated by stubgen. DO NOT EDIT." ::
              ("// source: " ++ source) :: "" ::
                Client.importLine (Client.importedNames s) specifier :: below)) ∧
          (∀ name, name ∈ Client.importedNames s ↔ name = d.name ∨
            ∃ field ∈ m.fields d.body, field.node.isMethod = true ∧ name ∈ field.node.types) ∧
          ∀ others, (m.ExportsDeclaration d → m.Exports others d.name) ∧
            ((∀ name ∈ Client.importedNames s, m.Exports others name) ↔ m.Exports others d.name ∧
              ∀ field ∈ m.fields d.body, field.node.isMethod = true →
                ∀ name ∈ field.node.types, m.Exports others name) := by
  have hfound : ((Module.parse false exportedSource).map fun m => (m.endsWithin 20,
      m.resultsUpTo 20 "api" ⟨"HttpClient", "ServiceName", "Path"⟩, m.exports,
      m.items.any m.isPassedOn)).toOption =
        some (true, [.ok ⟨"api", "Api", "Api", [⟨"get", "/get", "Req", "Resp"⟩]⟩],
          ["Req", "Resp", "Api"], false) := by
    decide +kernel
  obtain ⟨m, hparse, hexports, -, c, hc, hs⟩ :=
    Module.exists_candidate_of_resultsUpTo "api.ts" hfound
  refine ⟨m, hparse, c, hc, _, hs, fun name hname => .inl ?_, importedNames_exported_iff hc hs⟩
  have hall : ∀ name ∈ ["Api", "Req", "Resp"], name ∈ ["Req", "Resp", "Api"] := by decide
  exact hexports ▸ hall name hname

end TypeScript
end FetchClients
