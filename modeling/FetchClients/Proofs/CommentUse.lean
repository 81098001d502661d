/-
# Each comment annotates once

The doc of a file is the first run of the comments above its first item, and that of
a declaration or a member the last run of those above it. Where the file opens with a
declaration the two are cut from the same comments, but they have none in common
(`length_fileDocBlock_add_docBlock_le`). So the file, its types and their fields take
their annotations from different comments, as long as different ones of them start at
different places. Where the file opens with no declaration, nothing that is recorded starts
with it (`Module.start_not_mem_landmarks`).

Key definitions: `CommentRef`, `Module.docRefs`, `Module.fileRefs`,
`FileOutline.groups`, `Module.recordedStarts`.
Key theorems: `length_fileDocBlock_add_docBlock_le`, `Module.groups_ofModule`,
`Module.pairwise_disjoint_uses`, `Module.comments_annotate_once`.
-/
import FetchClients.Proofs.CommentRuns
import FetchClients.Proofs.MemberFields

namespace FetchClients

open TypeScript (Comment Declaration Mark Module Tree)

/-! ### The doc of a file and the doc of its first declaration -/

/-- The doc of a node is what the comments above it end with. -/
theorem docBlock_suffix (comments : List Comment) (line : Nat) :
    docBlock comments line <:+ comments := by
  by_cases h : EndsBeside comments line
  · exact (isLongestSuffix_docBlock h).suffix
  · rw [docBlock_eq_nil h]
    exact List.nil_suffix

/-- The doc of a file is what the comments above its first item start with. -/
theorem fileDocBlock_prefix (comments : List Comment) (declLine : Option Nat) :
    fileDocBlock comments declLine <+: comments := by
  by_cases h : fileDocBlock comments declLine = []
  · rw [h]
    exact List.nil_prefix
  · exact (isLongestPrefix_fileDocBlock h).start

/-- The doc of a file and that of the declaration it opens with have no comment in common: the one
ends before the other starts. -/
theorem length_fileDocBlock_add_docBlock_le (comments : List Comment) (line : Nat) :
    (fileDocBlock comments (some line)).length + (docBlock comments line).length ≤
      comments.length := by
  have hwhole := (isDivision_runs comments).flatten
  unfold fileDocBlock docBlock
  match hruns : runs comments with
  | [] => simp
  | [run] =>
    rw [hruns] at hwhole
    have hlength : run.length = comments.length := by simpa using congrArg List.length hwhole
    by_cases habuts : abuts run line = true <;> simp [habuts, hlength]
  | run :: next :: later =>
    have hlast := List.getLast?_eq_some_getLast (List.cons_ne_nil next later)
    generalize hrun : (next :: later).getLast (List.cons_ne_nil next later) = last at hlast
    obtain ⟨between, hbetween⟩ := List.getLast?_eq_some_iff.mp hlast
    have hlength : run.length + last.length ≤ comments.length := by
      rw [hruns, hbetween] at hwhole
      have hsum := congrArg List.length hwhole
      simp only [List.flatten_cons, List.flatten_append, List.flatten_nil, List.length_append,
        List.append_nil] at hsum
      omega
    simp only [List.getLast?_cons_cons, hlast]
    split
    · exact hlength
    · simpa using Nat.le_trans (Nat.le_add_right _ _) hlength

/-! ### The comments that are used -/

/-- A comment of a source: the place of the token that it belongs to, and its number among the
comments there. -/
structure CommentRef where
  offset : Nat
  number : Nat
deriving DecidableEq, Repr

namespace CommentRef

/-- Some comments of one token, one after another. -/
def block (offset first count : Nat) : List CommentRef :=
  (List.range' first count).map (⟨offset, ·⟩)

theorem mem_block_iff {offset first count : Nat} {r : CommentRef} :
    r ∈ block offset first count ↔
      r.offset = offset ∧ first ≤ r.number ∧ r.number < first + count := by
  obtain ⟨o, n⟩ := r
  simp only [block, List.mem_map, List.mem_range'_1, mk.injEq]
  constructor
  · rintro ⟨k, hk, rfl, rfl⟩
    exact ⟨rfl, hk⟩
  · rintro ⟨rfl, hn⟩
    exact ⟨n, hn, rfl, rfl⟩

/-- Comments of different tokens are different. -/
theorem disjoint_block_of_ne {offset offset' first first' count count' : Nat}
    (h : offset ≠ offset') :
    (block offset first count).Disjoint (block offset' first' count') := by
  intro r hr hr'
  exact h ((mem_block_iff.mp hr).1.symm.trans (mem_block_iff.mp hr').1)

/-- Comments that end before others start are different from these. -/
theorem disjoint_block_of_le {offset offset' first first' count count' : Nat}
    (h : first + count ≤ first') :
    (block offset first count).Disjoint (block offset' first' count') := by
  intro r hr hr'
  have hlt := (mem_block_iff.mp hr).2.2
  have hge := (mem_block_iff.mp hr').2.1
  omega

end CommentRef

namespace TypeScript
namespace Module

variable (m : Module)

/-- The comment that is meant, if there is one. -/
def comment? (r : CommentRef) : Option Comment :=
  (m.commentsAt ⟨r.offset, 0⟩)[r.number]?

/-- The annotations that comments give, in their order. -/
def annotationsOf (refs : List CommentRef) : List Annotation :=
  (refs.filterMap m.comment?).filterMap fun c => Annotation.ofComment? c.literal

/-- The doc comments of what stands at a place. -/
def docRefs (place : Mark) : List CommentRef :=
  let doc := docBlock (m.commentsAt place) place.line
  CommentRef.block place.offset ((m.commentsAt place).length - doc.length) doc.length

/-- Where the comments stand that the doc comments of the file are among. -/
def fileDocOffset : Nat :=
  match m.items with
  | [] => (m.comments.head?.map Prod.fst).getD 0
  | item :: _ => item.span.start.offset

/-- The doc comments of the file. -/
def fileRefs : List CommentRef :=
  CommentRef.block m.fileDocOffset 0 m.fileDoc.length

/-- The members whose doc comments annotate them. -/
def annotatedMembers (d : Declaration) : List Tree :=
  (d.body.flatMap Tree.members).filter fun t =>
    !(m.annotationsOf (m.docRefs t.span.start)).isEmpty

/-- Where the declarations and their annotated members start. -/
def annotatedPlaces : List Mark :=
  m.root.declarations.flatMap fun d => d.place :: (m.annotatedMembers d).map (·.span.start)

/-- The doc comments of the file, of its declarations and of their annotated members, each list for
itself. -/
def uses : List (List CommentRef) :=
  m.fileRefs :: m.annotatedPlaces.map m.docRefs

/-- Where the recorded declarations and their members start. -/
def recordedStarts : List Nat :=
  m.root.declarations.flatMap fun d =>
    d.place.offset :: (d.body.flatMap Tree.members).map (·.span.start.offset)

end Module
end TypeScript

/-- The annotations of a file, of its types and of their fields, each list for itself. -/
def FileOutline.groups (f : FileOutline) : List (List Annotation) :=
  f.file.annotations :: f.types.flatMap fun t =>
    t.decl.annotations :: t.fields.map Annotated.annotations

/-- Some comments of one token, in order. -/
structure CommentRef.InOrder (m : Module) (refs : List CommentRef) : Prop where
  exist : ∀ r ∈ refs, (m.comment? r).isSome = true
  order : refs.Pairwise fun r r' => r.offset = r'.offset ∧ r.number < r'.number

namespace TypeScript
namespace Module

variable {m : Module}

theorem filterMap_range_getElem? {α : Type} (xs : List α) :
    (List.range xs.length).filterMap (fun i => xs[i]?) = xs := by
  induction xs with
  | nil => rfl
  | cons x xs ih =>
    rw [List.length_cons, List.range_succ_eq_map, List.filterMap_cons, List.filterMap_map]
    simp only [List.getElem?_cons_zero, Function.comp_def, List.getElem?_cons_succ]
    rw [ih]

/-- A piece of the comments of a token is what the references to it mean. -/
theorem filterMap_block {offset : Nat} {before doc after : List Comment}
    (h : m.commentsAt ⟨offset, 0⟩ = before ++ doc ++ after) :
    (CommentRef.block offset before.length doc.length).filterMap m.comment? = doc := by
  rw [CommentRef.block, List.range'_eq_map_range, List.map_map, List.filterMap_map]
  calc (List.range doc.length).filterMap
        (m.comment? ∘ ((⟨offset, ·⟩ : Nat → CommentRef) ∘ (before.length + ·)))
      = (List.range doc.length).filterMap fun i => doc[i]? := by
        refine List.filterMap_congr fun i hi => ?_
        have hlt : i < doc.length := List.mem_range.mp hi
        simp only [Function.comp, comment?, h, List.append_assoc]
        rw [List.getElem?_append_right (Nat.le_add_right _ _), Nat.add_sub_cancel_left,
          List.getElem?_append_left hlt]
    _ = doc := filterMap_range_getElem? doc

theorem inOrder_block {offset first count : Nat}
    (h : first + count ≤ (m.commentsAt ⟨offset, 0⟩).length) :
    CommentRef.InOrder m (CommentRef.block offset first count) := by
  refine ⟨fun r hr => ?_, ?_⟩
  · obtain ⟨rfl, -, hlt⟩ := CommentRef.mem_block_iff.mp hr
    rw [comment?, isSome_getElem?]
    exact Nat.lt_of_lt_of_le hlt h
  · refine List.pairwise_map.mpr ?_
    exact (List.pairwise_lt_range').imp fun hlt => ⟨rfl, hlt⟩

/-- The comments that document what stands at a place. -/
theorem annotationsOf_docRefs (place : Mark) :
    m.annotationsOf (m.docRefs place) = (m.docAt place).filterMap Annotation.ofComment? := by
  obtain ⟨before, hdoc⟩ := docBlock_suffix (m.commentsAt place) place.line
  have hcomments : m.commentsAt ⟨place.offset, 0⟩ =
      before ++ docBlock (m.commentsAt place) place.line ++ [] := by
    rw [List.append_nil, hdoc]
    rfl
  have hlength : (m.commentsAt place).length - (docBlock (m.commentsAt place) place.line).length =
      before.length := by
    have hsum := congrArg List.length hdoc
    rw [List.length_append] at hsum
    omega
  rw [annotationsOf, docRefs, hlength, filterMap_block hcomments, docAt, List.filterMap_map]
  rfl

theorem inOrder_docRefs (place : Mark) : CommentRef.InOrder m (m.docRefs place) := by
  refine inOrder_block ?_
  have hle := (docBlock_suffix (m.commentsAt place) place.line).length_le
  change _ ≤ (m.commentsAt place).length
  omega

/-- The doc of the file is what the comments in front of its first item start with. -/
theorem fileDoc_prefix (m : Module) : m.fileDoc <+: m.commentsAt ⟨m.fileDocOffset, 0⟩ := by
  have hfirst : m.commentsAt ⟨(m.comments.head?.map Prod.fst).getD 0, 0⟩ = m.firstComments := by
    unfold commentsAt firstComments
    cases m.comments with
    | nil => rfl
    | cons entry entries => simp
  unfold fileDoc fileDocOffset
  cases m.items with
  | nil =>
    simp only [hfirst]
    exact fileDocBlock_prefix _ _
  | cons item items => exact fileDocBlock_prefix _ _

theorem annotationsOf_fileRefs :
    m.annotationsOf m.fileRefs =
      (m.fileDoc.map Comment.literal).filterMap Annotation.ofComment? := by
  obtain ⟨after, hdoc⟩ := m.fileDoc_prefix
  have hcomments : m.commentsAt ⟨m.fileDocOffset, 0⟩ = [] ++ m.fileDoc ++ after := hdoc.symm
  rw [annotationsOf, fileRefs]
  have hrefs := filterMap_block hcomments
  rw [List.length_nil] at hrefs
  rw [hrefs, List.filterMap_map]
  rfl

theorem inOrder_fileRefs : CommentRef.InOrder m m.fileRefs := by
  refine inOrder_block ?_
  rw [Nat.zero_add]
  exact m.fileDoc_prefix.length_le

/-- The doc of the file has no comment in common with that of the declaration it opens with. -/
theorem disjoint_fileRefs_docRefs {item : Tree} {items : List Tree} {d : Declaration}
    (hitems : m.items = item :: items) (hfirst : item.declaration? = some d) :
    m.fileRefs.Disjoint (m.docRefs d.place) := by
  have hplace := Tree.place_of_declaration? hfirst
  have hfile : m.fileDoc = fileDocBlock (m.commentsAt d.place) (some d.place.line) := by
    unfold fileDoc
    rw [hitems]
    simp only [hfirst, Option.map_some, hplace]
  have hsum := length_fileDocBlock_add_docBlock_le (m.commentsAt d.place) d.place.line
  refine CommentRef.disjoint_block_of_le ?_
  rw [hfile, Nat.zero_add]
  omega

/-! ### What the comments are used for -/

/-- The annotations of a declaration's fields are given by the doc comments of its members. -/
theorem annotations_fields (d : Declaration) :
    (m.fields d.body).map Annotated.annotations =
      (m.annotatedMembers d).map fun t => m.annotationsOf (m.docRefs t.span.start) := by
  have hannotated : m.annotatedMembers d = (d.body.flatMap Tree.members).filter m.isAnnotated := by
    unfold annotatedMembers isAnnotated
    simp only [annotationsOf_docRefs]
  have hmember : ∀ t ∈ m.annotatedMembers d, (m.field? t).map Annotated.annotations =
      some (m.annotationsOf (m.docRefs t.span.start)) := fun t ht => by
    obtain ⟨b, -, ht⟩ := List.mem_flatMap.mp (List.mem_filter.mp ht).1
    obtain ⟨field, hfield, hannotations⟩ := exists_field?_of_isMember (Tree.isMember_of_mem_members ht)
    rw [hfield, Option.map_some, hannotations, annotationsOf_docRefs]
  refine List.map_injective_iff.mpr (fun _ _ => Option.some.inj) ?_
  calc ((m.fields d.body).map Annotated.annotations).map some
      = ((m.fields d.body).map some).map (Option.map Annotated.annotations) := by
        rw [List.map_map, List.map_map]
        rfl
    _ = ((m.annotatedMembers d).map m.field?).map (Option.map Annotated.annotations) := by
        rw [map_some_fields, hannotated]
    _ = ((m.annotatedMembers d).map fun t => m.annotationsOf (m.docRefs t.span.start)).map some := by
        rw [List.map_map, List.map_map]
        exact List.map_congr_left hmember

/-- Every list of annotations of an outline is given by the comments that are used for it. -/
theorem groups_ofModule (path : String) :
    (FileOutline.ofModule path m).groups = m.uses.map m.annotationsOf := by
  have htype : ∀ d, (m.typeOutline d).decl.annotations :: (m.typeOutline d).fields.map
      Annotated.annotations = (d.place :: (m.annotatedMembers d).map (·.span.start)).map fun place =>
        m.annotationsOf (m.docRefs place) := by
    intro d
    rw [List.map_cons, List.map_map, annotationsOf_docRefs]
    exact congrArg₂ List.cons rfl (annotations_fields d)
  rw [FileOutline.groups, uses, List.map_cons, annotationsOf_fileRefs, FileOutline.types_ofModule, List.flatMap_map,
    List.map_map, annotatedPlaces, List.map_flatMap]
  simp only [htype]
  rfl

theorem inOrder_of_mem_uses {refs : List CommentRef} (h : refs ∈ m.uses) :
    CommentRef.InOrder m refs := by
  simp only [uses, List.mem_cons, List.mem_map] at h
  rcases h with rfl | ⟨place, -, rfl⟩
  · exact inOrder_fileRefs
  · exact inOrder_docRefs _

/-! ### Different comments -/

/-- The declarations and their annotated members are some of those that are recorded. -/
theorem annotatedPlaces_sublist : (m.annotatedPlaces.map Mark.offset).Sublist m.recordedStarts := by
  rw [annotatedPlaces, recordedStarts, List.map_flatMap]
  induction m.root.declarations with
  | nil => exact List.Sublist.refl _
  | cons d ds ih =>
    have hmembers : ((m.annotatedMembers d).map fun t => t.span.start.offset).Sublist
        ((d.body.flatMap Tree.members).map fun t => t.span.start.offset) :=
      List.filter_sublist.map _
    rw [List.flatMap_cons, List.flatMap_cons]
    refine List.Sublist.append ?_ ih
    rw [List.map_cons, List.map_map]
    exact hmembers.cons_cons _

/-- What starts at different places has different doc comments. -/
theorem pairwise_disjoint_docRefs {places : List Mark} (h : (places.map Mark.offset).Nodup) :
    (places.map m.docRefs).Pairwise List.Disjoint := by
  refine List.pairwise_map.mpr ((List.pairwise_map.mp h).imp fun hne => ?_)
  exact CommentRef.disjoint_block_of_ne hne

/-- The doc comments of the file are different from those of what starts elsewhere. -/
theorem disjoint_fileRefs_of_ne {place : Mark} (h : m.fileDocOffset ≠ place.offset) :
    m.fileRefs.Disjoint (m.docRefs place) :=
  CommentRef.disjoint_block_of_ne h

/-- Where a declaration or a member is recorded there is a landmark. -/
theorem recordedStarts_subset : m.recordedStarts ⊆ Search.landmarks.offsets m.root := by
  intro a ha
  obtain ⟨d, hd, ha⟩ := List.mem_flatMap.mp ha
  rcases List.mem_cons.mp ha with rfl | ha
  · exact Search.place_mem_landmarks hd
  · obtain ⟨u, hu, rfl⟩ := List.mem_map.mp ha
    obtain ⟨b, hb, hu⟩ := List.mem_flatMap.mp hu
    exact Search.start_mem_landmarks hd hb hu

/-- The file, its declarations and their members have different doc comments if they start at
different places. -/
theorem pairwise_disjoint_uses {jsx : Bool} {source : String} (h : Module.parse jsx source = .ok m)
    (hstarts : m.recordedStarts.Nodup) : m.uses.Pairwise List.Disjoint := by
  have hplaces := hstarts.sublist annotatedPlaces_sublist
  refine List.pairwise_cons.mpr ⟨?_, pairwise_disjoint_docRefs hplaces⟩
  simp only [List.forall_mem_map]
  have hdeclarations : m.root.declarations = m.items.flatMap Tree.declarations :=
    Tree.declarations_of_declaration?_eq_none rfl
  intro place hplace
  have hrecorded : place.offset ∈ m.recordedStarts :=
    annotatedPlaces_sublist.subset (List.mem_map_of_mem hplace)
  cases hitems : m.items with
  | nil =>
    rw [recordedStarts, hdeclarations, hitems] at hrecorded
    cases hrecorded
  | cons item items =>
    have hoffset : m.fileDocOffset = item.span.start.offset := by rw [fileDocOffset, hitems]
    cases hdeclaration : item.declaration? with
    | none =>
      have hfree := start_not_mem_landmarks h hitems hdeclaration
      refine disjoint_fileRefs_of_ne fun heq => hfree (recordedStarts_subset ?_)
      rwa [← hoffset, heq]
    | some d =>
      -- the declaration comes first among the places, and only it starts there
      have hopens : m.root.declarations = d :: items.flatMap Tree.declarations := by
        rw [hdeclarations, hitems, List.flatMap_cons, Tree.declarations, Tree.nearest_eq, hdeclaration]
        rfl
      rw [annotatedPlaces, hopens, List.flatMap_cons, List.cons_append] at hplace hplaces
      rcases List.mem_cons.mp hplace with rfl | hlater
      · exact disjoint_fileRefs_docRefs hitems hdeclaration
      · refine disjoint_fileRefs_of_ne fun heq => ?_
        rw [hoffset, ← Tree.place_of_declaration? hdeclaration] at heq
        exact (List.nodup_cons.mp hplaces).1 (heq ▸ List.mem_map_of_mem hlater)

/-- No comment of a source that was read annotates twice: the file, the types and the fields take
their annotations, in the order of the comments, from lists of comments no two of which have one in
common. A comment belongs to one token, and the types and members are taken to start at different
places. -/
theorem comments_annotate_once {jsx : Bool} {source : String} (path : String)
    (h : Module.parse jsx source = .ok m) (hstarts : m.recordedStarts.Nodup) :
    (FileOutline.ofModule path m).groups = m.uses.map m.annotationsOf ∧
      (∀ refs ∈ m.uses, CommentRef.InOrder m refs) ∧ m.uses.Pairwise List.Disjoint :=
  ⟨groups_ofModule path, fun _ => inOrder_of_mem_uses, pairwise_disjoint_uses h hstarts⟩

end Module

/-- A source with a comment for itself and one for each of its types and fields. -/
def documentedSource : String :=
  "// @title shapes\n\n// @marker\ninterface A \x7b\n  // @Path /a\n  m(): void;\n\x7d\n" ++
    "// @kind c\nclass C \x7b\n  // @b 1\n  p = 1;\n\x7d"

/-- What is recorded of a declaration whose body is made of properties and methods. -/
def Tree.flatStarts? (t : Tree) : Option (List Nat) := do
  let d ← t.declaration?
  guard (d.body.all isMember)
  return d.place.offset :: d.body.map (·.span.start.offset)

theorem Tree.recorded_of_flatStarts? {t : Tree} {found : List Nat} (h : t.flatStarts? = some found) :
    (t.declarations.flatMap fun d =>
      d.place.offset :: (d.body.flatMap members).map (·.span.start.offset)) = found := by
  cases hdeclaration : t.declaration? with
  | none =>
    rw [flatStarts?, hdeclaration] at h
    cases h
  | some d =>
    have hself : t.declarations = [d] := by
      rw [declarations, nearest_eq, hdeclaration]
      rfl
    rw [flatStarts?, hdeclaration] at h
    by_cases hall : d.body.all isMember = true
    · have hmember : ∀ b ∈ d.body, b.isMember = true := List.all_eq_true.mp hall
      have hbody : d.body.flatMap members = d.body := by
        rw [flatMap_members_of_body fun b hb => isBodyMember_of_isMember (hmember b hb),
          List.filter_eq_self.mpr hmember]
      simp only [Option.bind_eq_bind, Option.bind_some, guard, if_pos hall] at h
      rw [hself, List.flatMap_singleton, hbody]
      exact Option.some.inj h
    · simp only [Option.bind_eq_bind, Option.bind_some, guard, if_neg hall] at h
      cases h

/-- What is recorded of a source that is made of such declarations. -/
theorem Module.recordedStarts_of_flat {m : Module} {found : List (List Nat)}
    (h : m.items.map Tree.flatStarts? = found.map some) : m.recordedStarts = found.flatten := by
  have hdeclarations : m.root.declarations = m.items.flatMap Tree.declarations :=
    Tree.declarations_of_declaration?_eq_none rfl
  rw [recordedStarts, hdeclarations, List.flatMap_assoc]
  generalize m.items = items at h
  induction items generalizing found with
  | nil =>
    cases found with
    | nil => rfl
    | cons starts found => cases h
  | cons item items ih =>
    cases found with
    | nil => cases h
    | cons starts found =>
      rw [List.map_cons, List.map_cons, List.cons.injEq] at h
      rw [List.flatMap_cons, List.flatten_cons, Tree.recorded_of_flatStarts? h.1, ih h.2]

theorem comments_annotate_once_documented : ∃ m, Module.parse false documentedSource = .ok m ∧
    m.recordedStarts = [29, 59, 83, 105] ∧
    (FileOutline.ofModule "shapes.ts" m).groups = m.uses.map m.annotationsOf ∧
      (∀ refs ∈ m.uses, CommentRef.InOrder m refs) ∧ m.uses.Pairwise List.Disjoint := by
  have hfound : ((Module.parse false documentedSource).map fun m =>
      m.items.map Tree.flatStarts?).toOption = some [some [29, 59], some [83, 105]] := by
    decide +kernel
  cases hparse : Module.parse false documentedSource with
  | error failure =>
    rw [hparse] at hfound
    cases hfound
  | ok m =>
    rw [hparse] at hfound
    have hflat : m.items.map Tree.flatStarts? = [[29, 59], [83, 105]].map some :=
      Option.some.inj hfound
    have hstarts : m.recordedStarts = [29, 59, 83, 105] := Module.recordedStarts_of_flat hflat
    refine ⟨m, rfl, hstarts, Module.comments_annotate_once "shapes.ts" hparse ?_⟩
    rw [hstarts]
    decide

end TypeScript
end FetchClients
