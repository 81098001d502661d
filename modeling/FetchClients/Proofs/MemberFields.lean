/-
# The fields of a type

The fields of a type stand for members with an annotation. An interface or a class has
those among the properties and methods that its body is made of. A type alias has those
that a search comes to from its type: the search goes into no member, function type,
constructor type, mapped type or further declaration. They start at different places, and
they come in the order of the source exactly when at every tree that is searched the parts
that hold any are searched in the order in which they start. That is so but for imported
types: what their options hold is searched after their arguments.

Key definitions: `Module.isAnnotated`, `Module.Gathers`, `Module.Owns`, `Module.FieldsOf`,
`Grammar.Seals`.
Key theorems: `Module.map_some_fields`, `Module.gathers_of_laid`,
`Module.fields_of_annotated_members`.
-/
import FetchClients.Proofs.SourceOrder

namespace FetchClients
namespace TypeScript

namespace Tree

variable {t : Tree}

/-- A member is kept as a property or a method at the place where it stands. -/
theorem exists_member?_of_isMember (source : List Char) (h : t.isMember = true) :
    ∃ head kind, t.member? source = some (head, kind) ∧ head.span = t.span := by
  cases t with
  | property => exact ⟨_, _, rfl, rfl⟩
  | method => exact ⟨_, _, rfl, rfl⟩
  | _ => cases h

theorem isMember_of_mem_members {u : Tree} (h : u ∈ t.members) : u.isMember = true :=
  ((@Search.mem_members_iff t u fun _ => true).mp h).2

theorem isBodyMember_of_isMember (h : t.isMember = true) : t.isBodyMember = true := by
  cases t <;> first | rfl | cases h

theorem members_of_isBodyMember (h : t.isBodyMember = true) :
    t.members = if t.isMember then [t] else [] :=
  members_of_ownMembers?_eq_some
    (ownMembers?_of_isClosed (by cases t <;> first | rfl | cases h))

/-- The members in the body of an interface or a class are the properties and methods in it. -/
theorem flatMap_members_of_body {body : List Tree} (h : ∀ b ∈ body, b.isBodyMember = true) :
    body.flatMap members = body.filter isMember := by
  induction body with
  | nil => rfl
  | cons b body ih =>
    rw [List.flatMap_cons, ih fun c hc => h c (List.mem_cons_of_mem b hc), List.filter_cons,
      members_of_isBodyMember (h b List.mem_cons_self)]
    split <;> rfl

end Tree

/-! ### Annotated members -/

namespace Module

variable (m : Module)

/-- Whether the doc comments of what starts where a tree does hold an annotation. -/
def isAnnotated (t : Tree) : Bool :=
  !((m.docAt t.span.start).filterMap Annotation.ofComment?).isEmpty

/-- Whether some members are the annotated ones that a search comes to from the type of an alias. -/
structure Gathers (type : Tree) (found : List Tree) : Prop where
  mem_iff : ∀ t, t ∈ found ↔ (Search.members m.isAnnotated).Reached type t ∧ t.isMember = true ∧
    m.isAnnotated t = true
  nodup : (found.map (·.span.start.offset)).Nodup
  inOrder_iff : (found.map (·.span.start.offset)).Pairwise (· < ·) ↔
    ∀ t, (Search.members m.isAnnotated).Searched type t →
      (t.parts.filter fun p => p.members.any m.isAnnotated).Pairwise
        fun p q => p.span.start.offset < q.span.start.offset

/-- Whether some members are those that the fields of a declaration stand for. The body of an interface
or a class is made of members and sealed syntax alone. -/
def Owns (found : List Tree) : Tree → Prop
  | .interface _ _ _ body | .class _ (some _) _ body _ =>
    (∀ t ∈ body, t.isBodyMember = true) ∧
      found = body.filter fun t => m.isAnnotated t && t.isMember
  | .typeAlias _ _ _ type => m.Gathers type found
  | _ => False

/-- The syntax that a declaration was recorded for, and the members that its fields stand for, in the
order of the fields. -/
structure FieldsOf (d : Declaration) (t : Tree) (found : List Tree) : Prop where
  searched : Search.landmarks.Searched m.root t
  declared : t.declaredAt? d.place = some d
  fields : (m.typeOutline d).fields.map some = found.map m.field?
  owned : m.Owns found t

variable {m}

/-- A member gives a field with the annotations in its doc comments. -/
theorem exists_field?_of_isMember {t : Tree} (h : t.isMember = true) :
    ∃ field, m.field? t = some field ∧
      field.annotations = (m.docAt t.span.start).filterMap Annotation.ofComment? := by
  obtain ⟨head, kind, hmember, hspan⟩ := Tree.exists_member?_of_isMember m.source h
  refine ⟨_, by rw [field?, hmember]; rfl, ?_⟩
  rw [← hspan]
  rfl

/-- The fields are given by the annotated members, in the order in which they are found. -/
theorem map_some_fields (body : List Tree) :
    (m.fields body).map some =
      ((body.flatMap Tree.members).filter m.isAnnotated).map m.field? := by
  have hmembers : ∀ t ∈ body.flatMap Tree.members, t.isMember = true := fun t ht => by
    obtain ⟨b, -, ht⟩ := List.mem_flatMap.mp ht
    exact Tree.isMember_of_mem_members ht
  unfold fields
  generalize body.flatMap Tree.members = members at hmembers
  induction members with
  | nil => rfl
  | cons t ts ih =>
    have ih := ih fun u hu => hmembers u (List.mem_cons_of_mem t hu)
    obtain ⟨field, hfield, hannotations⟩ :=
      exists_field?_of_isMember (m := m) (hmembers t List.mem_cons_self)
    have hkept : (!field.annotations.isEmpty) = m.isAnnotated t := by rw [hannotations, isAnnotated]
    rw [List.filterMap_cons_some hfield, List.filter_cons, List.filter_cons, hkept]
    split
    · rw [List.map_cons, List.map_cons, hfield, ih]
    · exact ih

/-- What is found in a type whose searched parts lie apart. -/
theorem gathers_of_laid {type : Tree} (h : Search.landmarks.Laid type) :
    m.Gathers type (type.members.filter m.isAnnotated) := by
  have hlaid : (Search.members m.isAnnotated).Laid type := Search.members_of_landmarks h
  refine ⟨fun t => ?_, ?_, ?_⟩
  · rw [List.mem_filter, Search.mem_members_iff, and_assoc]
  · rw [← Search.offsets_members]
    exact Search.nodup_offsets_of_laid Search.stops_of_finds_members hlaid
  · rw [← Search.offsets_members, Search.pairwise_offsets_iff_of_laid Search.stops_of_finds_members hlaid]
    have hholds : ∀ p : Tree, decide ((Search.members m.isAnnotated).offsets p ≠ []) =
        p.members.any m.isAnnotated := fun p => by
      rw [Search.offsets_members, Bool.eq_iff_iff, decide_eq_true_iff, List.any_eq_true]
      simp
    simp only [hholds]

/-- What is found in the body of an interface or a class. -/
theorem filter_members_of_body {body : List Tree} (h : ∀ t ∈ body, t.isBodyMember = true) :
    (body.flatMap Tree.members).filter m.isAnnotated =
      body.filter fun t => m.isAnnotated t && t.isMember := by
  rw [Tree.flatMap_members_of_body h, List.filter_filter]

/-- The fields of a declaration in a source that was read stand for its annotated members. -/
theorem exists_fieldsOf {jsx : Bool} {source : String} {d : Declaration}
    (h : Module.parse jsx source = .ok m) (hd : d ∈ m.root.declarations) :
    ∃ t found, m.FieldsOf d t found := by
  obtain ⟨t, place, hsearched, hdeclared⟩ := Search.exists_searched_of_mem_declarations hd
  have hplace := Tree.place_of_declaredAt? hdeclared
  refine ⟨t, (d.body.flatMap Tree.members).filter m.isAnnotated, hsearched, hplace ▸ hdeclared,
    map_some_fields d.body, ?_⟩
  have hholds := formed_of_parse h t hsearched
  unfold Tree.declaredAt? at hdeclared
  split at hdeclared <;> cases hdeclared
  · have hbody := List.all_eq_true.mp hholds
    exact ⟨hbody, filter_members_of_body hbody⟩
  · rename_i type
    have hlaid : Search.landmarks.Laid type := fun u hu => laid_landmarks_of_parse h u <|
      Search.searched_trans hsearched (.part rfl (List.mem_append_right _ List.mem_cons_self) hu)
    rw [List.flatMap_singleton]
    exact gathers_of_laid hlaid
  · have hbody := List.all_eq_true.mp hholds
    exact ⟨hbody, filter_members_of_body hbody⟩

end Module

/-! ### Sources whose fields are computed -/

namespace Tree

/-- What a search finds in a tree as long as it goes no deeper than a bound. -/
def nearestUpTo {α : Type} (pick : Tree → Option (List α)) : Nat → Tree → List α
  | 0, _ => []
  | n + 1, t =>
    match pick t with
    | some found => found
    | none => t.parts.flatMap (nearestUpTo pick n)

/-- Whether a search goes no deeper into a tree than a bound. -/
def endsWithin {α : Type} (pick : Tree → Option (List α)) : Nat → Tree → Bool
  | 0, _ => false
  | n + 1, t => (pick t).isSome || t.parts.all (endsWithin pick n)

theorem nearest_of_endsWithin {α : Type} {pick : Tree → Option (List α)} :
    ∀ {n : Nat} {t : Tree}, t.endsWithin pick n = true → t.nearest pick = t.nearestUpTo pick n
  | 0, _, h => by cases h
  | n + 1, t, h => by
    unfold endsWithin at h
    rw [nearest_eq, nearestUpTo]
    cases hpick : pick t with
    | some found => rfl
    | none =>
      rw [hpick, Option.isSome_none, Bool.false_or] at h
      refine List.flatMap_congr fun p hp => ?_
      exact nearest_of_endsWithin (List.all_eq_true.mp h p hp)

/-- The declarations of a tree, found to a bound. -/
def declarationsUpTo (n : Nat) (t : Tree) : List Declaration :=
  t.nearestUpTo (fun t => t.declaration?.map fun d => [d]) n

end Tree

namespace Module

/-- Whether the searches for the declarations of a source and for their members go no deeper than a
bound. -/
def endsWithin (n : Nat) (m : Module) : Bool :=
  m.root.endsWithin (fun t => t.declaration?.map fun d => [d]) n &&
    (m.root.declarationsUpTo n).all fun d => d.body.all (Tree.endsWithin Tree.ownMembers? n)

/-- The kinds of the types of a source and the lines of their fields, found to a bound. -/
def fieldLinesUpTo (n : Nat) (m : Module) : List (DeclKind × List Nat) :=
  (m.root.declarationsUpTo n).map fun d =>
    (d.kind, (((d.body.flatMap (Tree.nearestUpTo Tree.ownMembers? n)).filterMap m.field?).filter
      fun field => !field.annotations.isEmpty).map (·.node.line))

/-- Searches that go no deeper than a bound find all that there is. -/
theorem searches_of_endsWithin {m : Module} {n : Nat} (h : m.endsWithin n = true) :
    m.root.declarations = m.root.declarationsUpTo n ∧ ∀ d ∈ m.root.declarationsUpTo n,
      d.body.flatMap Tree.members = d.body.flatMap (Tree.nearestUpTo Tree.ownMembers? n) := by
  obtain ⟨hroot, hbodies⟩ := Bool.and_eq_true_iff.mp h
  refine ⟨Tree.nearest_of_endsWithin hroot, fun d hd => List.flatMap_congr fun b hb => ?_⟩
  have hbody := List.all_eq_true.mp (List.all_eq_true.mp hbodies d hd)
  exact Tree.nearest_of_endsWithin (hbody b hb)

theorem fieldLines_of_endsWithin {m : Module} {n : Nat} (h : m.endsWithin n = true) :
    (m.root.declarations.map fun d => (d.kind, (m.typeOutline d).fields.map (·.node.line))) =
      m.fieldLinesUpTo n := by
  obtain ⟨hdeclarations, hmembers⟩ := searches_of_endsWithin h
  rw [fieldLinesUpTo, hdeclarations]
  refine List.map_congr_left fun d hd => ?_
  rw [← hmembers d hd]
  rfl

/-- The fields of a source that is read, if searches within a bound find them. -/
theorem exists_parse_of_fieldLinesUpTo {source : String} {n : Nat}
    {found : List (DeclKind × List Nat)}
    (h : ((Module.parse false source).map fun m => (m.endsWithin n, m.fieldLinesUpTo n)).toOption =
      some (true, found)) :
    ∃ m, Module.parse false source = .ok m ∧
      (m.root.declarations.map fun d => (d.kind, (m.typeOutline d).fields.map (·.node.line))) =
        found := by
  obtain ⟨m, hparse, hfound⟩ := toOption_map_eq_some_iff.mp h
  obtain ⟨hends, rfl⟩ := Prod.mk.inj hfound
  exact ⟨m, hparse, fieldLines_of_endsWithin hends⟩

end Module

/-! ### What counts as a member -/

/-- What no members are found in from outside, and how members were read that are found. -/
structure Grammar.Seals (g : Grammar) (ctx : Context) : Prop where
  functionType : ∀ constructs, Parse.Yields (Parse.functionType g ctx constructs)
    fun t => t.isSealed = true
  mappedType : Parse.Yields (Parse.mappedType g ctx) fun t => t.isSealed = true
  typeMember : Parse.Yields (Parse.typeMember g ctx) fun t => t.isMember = true →
    ∃ start fixed s next, Parse.propertySignature g ctx start fixed s = .done t next
  classMember : Parse.Yields (Parse.classMember g ctx) fun t => t.isMember = true →
    Parse.Counted g ctx t

theorem Grammar.seals (g : Grammar) (ctx : Context) : g.Seals ctx :=
  ⟨fun _ => Parse.sealed_functionType, Parse.sealed_mappedType, Parse.counted_typeMember,
    Parse.counted_classMember⟩

namespace Module

variable {m : Module}

/-- The types of a source that was read are its declarations, and the fields of each stand for its
annotated members: those in the body of an interface or a class, and those that are found in the type
of an alias. Only what was read as a property or a method counts as a member, and none are found in
the types of functions and constructors and in mapped types. -/
theorem fields_of_annotated_members {jsx : Bool} {source : String} (path : String)
    (h : Module.parse jsx source = .ok m) :
    (FileOutline.ofModule path m).types = m.root.declarations.map m.typeOutline ∧
      (∀ d ∈ m.root.declarations, ∃ t found, m.FieldsOf d t found) ∧
      ∀ (g : Grammar) (ctx : Context), g.Seals ctx :=
  ⟨FileOutline.types_ofModule path m, fun _ hd => exists_fieldsOf h hd, Grammar.seals⟩

end Module

/-- A source in which all kinds of types have members that count and members that do not. -/
def mixedSource : String :=
  "interface I \x7b\n// @a\np: string\n(q: \x7b\n// @b\nr: 1 \x7d): void\n\x7d\n" ++
    "type T = \x7b\n// @c\ns: U \x7d & ((t: \x7b\n// @d\nv: 1 \x7d) => void)\n" ++
    "class C \x7b\n// @e\nrun() \x7b\x7d\n// @f\n#hidden = 1\n\x7d"

theorem fields_of_annotated_members_mixed : ∃ m, Module.parse false mixedSource = .ok m ∧
    (m.root.declarations.map fun d => (d.kind, (m.typeOutline d).fields.map (·.node.line))) =
      [(.interface, [3]), (.typeAlias, [10]), (.classDecl, [15])] ∧
    (FileOutline.ofModule "mixed.ts" m).types = m.root.declarations.map m.typeOutline ∧
      (∀ d ∈ m.root.declarations, ∃ t found, m.FieldsOf d t found) ∧
      ∀ (g : Grammar) (ctx : Context), g.Seals ctx := by
  have hfound : ((Module.parse false mixedSource).map fun m =>
      (m.endsWithin 20, m.fieldLinesUpTo 20)).toOption =
        some (true, [(.interface, [3]), (.typeAlias, [10]), (.classDecl, [15])]) := by decide +kernel
  obtain ⟨m, hparse, hlines⟩ := Module.exists_parse_of_fieldLinesUpTo hfound
  exact ⟨m, hparse, hlines, Module.fields_of_annotated_members "mixed.ts" hparse⟩

/-- An alias of an imported type with a type literal in a function of its options and one in its
arguments. -/
def optionsSource : String :=
  "type A = import(\"m\", \x7b with: \x7b f: (p: \x7b\n  // @b 2\n  y: string \x7d) => 1 \x7d \x7d)<\x7b\n" ++
    "  // @a 1\n  x: string \x7d>;\n"

/-- The options of an imported type are searched after its arguments. -/
theorem fields_not_in_order_options : ∃ m d, Module.parse false optionsSource = .ok m ∧
    d ∈ m.root.declarations ∧ d.kind = .typeAlias ∧
    ¬ ((m.typeOutline d).fields.map (·.node.line)).Pairwise (· < ·) := by
  have hfound : ((Module.parse false optionsSource).map fun m =>
      (m.endsWithin 20, m.fieldLinesUpTo 20)).toOption = some (true, [(.typeAlias, [5, 3])]) := by
    decide +kernel
  obtain ⟨m, hparse, hlines⟩ := Module.exists_parse_of_fieldLinesUpTo hfound
  obtain ⟨d, hdeclarations, hd⟩ := List.map_eq_singleton_iff.mp hlines
  obtain ⟨hkind, hfields⟩ := Prod.mk.inj hd
  refine ⟨m, d, hparse, by rw [hdeclarations]; exact List.mem_singleton_self d, hkind, ?_⟩
  rw [hfields]
  decide

end TypeScript
end FetchClients
