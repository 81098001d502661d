/-
# The docs of decorated classes

The doc comments of a class are looked for above the place where its declaration starts,
and so are those of a file that opens with it. That is the first token of the statement
if no decorators open it, or if the keyword of the class follows them
(`Parse.classDocs_of_statement`). Behind decorators an exported class starts at its
`export`, and an abstract or ambient one at its first word: what stands above the
decorators is not looked at then, but what stands between them and that word.

Key definitions: `Module.Documents`, `Parse.statementContext`, `Parse.ClassDocs`.
Key theorems: `Parse.statementOf_eq_done_iff`, `Parse.decoratorsOf_eq_done`,
`Parse.classDocs_of_statement`.
-/
import FetchClients.Proofs.MemberFields

namespace FetchClients
namespace TypeScript

namespace Module

/-- The annotations of the doc comments above a place. -/
def annotationsAbove (m : Module) (place : Mark) : List Annotation :=
  (m.docAt place).filterMap Annotation.ofComment?

/-- Whether the docs of a declaration are the comments above a place, and those of the file too if it
opens with the declaration. -/
structure Documents (m : Module) (t : Tree) (d : Declaration) (place : Mark) : Prop where
  annotations : (m.typeOutline d).decl.annotations = m.annotationsAbove place
  file : m.items.head? = some t → m.fileDoc = fileDocBlock (m.commentsAt place) (some place.line)

/-- The docs of a declaration are the comments above the place where it starts. -/
theorem documents_place (m : Module) {t : Tree} {d : Declaration} (h : t.declaration? = some d) :
    m.Documents t d d.place where
  annotations := rfl
  file hitems := by
    obtain ⟨items, hitems⟩ := List.head?_eq_some_iff.mp hitems
    rw [fileDoc, hitems, Tree.place_of_declaration? h]
    simp [h, Tree.place_of_declaration? h]

end Module

namespace Parse

/-- What is allowed in a statement, by what is allowed around it. -/
def statementContext (outer : Context) : Context :=
  { outer with noIn := false, conditional := false, awaitsColon := false, arrowAt := none }

variable {g : Grammar} {ctx : Context} {s next t : State} {decorators : List Tree}

/-- A statement is its decorators and what follows them. -/
theorem statementOf_eq_done_iff {declarations : Bool} {v : Tree} :
    statementOf g ctx declarations s = .done v t ↔ ∃ decorators next,
      g.decorators (statementContext ctx) s = .done decorators next ∧
        statementAfter g (statementContext ctx) s.token.start decorators declarations next =
          .done v t ∧ next.pos < t.pos := by
  have hstatement : statementOf g ctx declarations s =
      bind (g.decorators (statementContext ctx)) (fun decorators =>
        advancing (statementAfter g (statementContext ctx) s.token.start decorators declarations))
        s := rfl
  rw [hstatement, bind_eq_done_iff]
  simp only [advancing_eq_done_iff]

/-- A decorator starts at a `@` and goes past it. -/
theorem decorator?_eq_done (hg : g.Scatters) (hs : s.token.Sound) {o : Option Tree}
    (h : (do if ← isSign "@" then return some (← decorator g ctx) else return none) s =
      .done o next) :
    o = none ∧ next = s ∨ o.isSome = true ∧ s.token.kind = .sign "@" ∧ s.pos < next.pos ∧
      next.token.Sound := by
  change (if s.token.kind.isSign "@" = true then _ else _ : Parse (Option Tree)) s = _ at h
  split at h
  · rename_i hfound
    have hsign : s.token.kind = .sign "@" := by simpa [TokenKind.isSign] using hfound
    have hpast : s.pos < (stepped s).pos := pos_lt_stepped hs (by simp [hsign, TokenKind.isSolid])
    obtain ⟨v, u, hdecorator, hsome⟩ := bind_eq_done_iff.mp h
    cases hsome
    have hrest := reads_decoratorRest hg ctx _ (stepped s)
      (.nothing (stop_le_stepped s).2 (Nat.le_refl _) (Nat.le_refl _))
    change Ends _ _ _ _ _ _ _ (decorator g ctx s) at hrest
    rw [hdecorator] at hrest
    exact .inr ⟨rfl, hsign, Nat.lt_of_lt_of_le hpast hrest.1, hrest.2.1.sound⟩
  · cases h
    exact .inl ⟨rfl, rfl⟩

/-- There are no decorators where none is taken, or they start at a `@` and go past it. -/
theorem decoratorsOf_eq_done (hg : g.Scatters) (hs : s.token.Sound)
    (h : decoratorsOf g ctx s = .done decorators next) :
    decorators = [] ∧ next = s ∨ decorators ≠ [] ∧ s.token.kind = .sign "@" ∧ s.pos < next.pos := by
  cases decorators with
  | nil =>
    rcases decorator?_eq_done hg hs (repeated_eq_done_nil h) with ⟨-, hnext⟩ | ⟨hsome, -⟩
    · exact .inl ⟨rfl, hnext⟩
    · cases hsome
  | cons v vs =>
    obtain ⟨n, u, hfirst, hlater⟩ := repeated_eq_done_cons h
    rcases decorator?_eq_done hg hs hfirst with ⟨hnone, -⟩ | ⟨-, hsign, hpast, hsound⟩
    · cases hnone
    · have hreads : Reads (do
          if ← isSign "@" then return some (← decorator g ctx) else return none)
          (fun o => o.elim [] fun v => [v]) :=
        fun lo => (reads_decorator? hg ctx lo).weaken fun o => by cases o <;> exact .refl _
      have hread := hreads.repeatedUpTo n _ u (.nothing hsound (Nat.le_refl _) (Nat.le_refl _))
      rw [hlater] at hread
      exact .inr ⟨List.cons_ne_nil _ _, hsign, Nat.lt_of_lt_of_le hpast hread.1⟩

/-- A class at its keyword starts where its decorators do. -/
theorem statementAfter_of_class {start : Mark} {declarations : Bool}
    (h : next.token.kind = .word "class") :
    statementAfter g ctx start decorators declarations next =
      classAt g ctx start decorators true true next := by
  obtain ⟨⟨kind, _, _, _, _⟩, _, _, _⟩ := next
  subst h
  rfl

/-- Any other class starts behind its decorators. -/
theorem startsAt_of_not_class {start : Mark} {declarations : Bool} {v : Tree} {d : Declaration}
    (hkind : next.token.kind ≠ .word "class")
    (h : statementAfter g ctx start decorators declarations next = .done v t)
    (hd : v.declaration? = some d) (hclass : d.kind = .classDecl) : v.StartsAt next.token.start := by
  have hnodes : Tree.Nodes start fun v => ∀ d, v.declaration? = some d → d.kind = .classDecl →
      v.StartsAt next.token.start := fun _ _ _ hnode => by cases hnode
  have hopens : Opens next.token _ _ := opens_statementAfter g ctx (fun _ hstarts _ _ _ => hstarts)
    hnodes decorators declarations fun hword => absurd hword hkind
  exact hopens next v t rfl h d hd hclass

/-- Where the docs of a class stand whose statement opens in one state with decorators up to another:
above the first token of the statement if there are no decorators, or if the keyword of the class
follows them, and else above the token that follows them. -/
structure ClassDocs (s next : State) (decorators : List Tree) (v : Tree) (d : Declaration) : Prop where
  opens : decorators = [] ∧ next = s ∨
    decorators ≠ [] ∧ s.token.kind = .sign "@" ∧ s.pos < next.pos
  first : decorators = [] ∨ next.token.kind = .word "class" →
    d.place = s.token.start ∧ ∀ m : Module, m.Documents v d s.token.start
  behind : decorators ≠ [] ∧ next.token.kind ≠ .word "class" →
    d.place = next.token.start ∧ ∀ m : Module, m.Documents v d next.token.start

/-- A class keeps what stands above its statement if no decorators open that or if its keyword follows
them. Otherwise its docs are what stands behind the decorators. -/
theorem classDocs_of_statement {n : Nat} {declarations : Bool} {v : Tree} {d : Declaration}
    (hs : s.token.Sound) (h : statementOf (Grammar.upTo n) ctx declarations s = .done v t)
    (hd : v.declaration? = some d) (hclass : d.kind = .classDecl) :
    ∃ decorators next,
      (Grammar.upTo n).decorators (statementContext ctx) s = .done decorators next ∧
        ClassDocs s next decorators v d := by
  obtain ⟨decorators, next, hdecorators, hafter, -⟩ := statementOf_eq_done_iff.mp h
  have hopens : decorators = [] ∧ next = s ∨
      decorators ≠ [] ∧ s.token.kind = .sign "@" ∧ s.pos < next.pos := by
    cases n with
    | zero => cases hdecorators
    | succ n => exact decoratorsOf_eq_done (Grammar.scatters_upTo n) hs hdecorators
  have hplace := Tree.place_of_declaration? hd
  refine ⟨decorators, next, hdecorators, hopens, fun hfirst => ?_, fun hbehind => ?_⟩
  · have hstart : d.place = s.token.start := by
      by_cases hkind : next.token.kind = .word "class"
      · rw [statementAfter_of_class hkind] at hafter
        exact hplace.trans (starts_classAt _ _ _ _ true true next v t hafter)
      · rcases hopens with ⟨-, rfl⟩ | ⟨hne, -⟩
        · exact hplace.trans (startsAt_of_not_class hkind hafter hd hclass)
        · exact absurd (hfirst.resolve_right hkind) hne
    exact ⟨hstart, fun m => hstart ▸ m.documents_place hd⟩
  · have hstart : d.place = next.token.start :=
      hplace.trans (startsAt_of_not_class hbehind.2 hafter hd hclass)
    exact ⟨hstart, fun m => hstart ▸ m.documents_place hd⟩

end Parse

/-! ### Sources of one class -/

/-- The kinds and annotations of the declarations at the top of a source, with the annotations above
a place. -/
def Module.topDocs (m : Module) (place : Mark) :
    List (Option (DeclKind × List Annotation × List Annotation)) :=
  m.items.map fun t => t.declaration?.map fun d =>
    (d.kind, (m.typeOutline d).decl.annotations, m.annotationsAbove place)

theorem Module.exists_parse_of_topDocs {source : String} {place : Mark} {kind : DeclKind}
    {own above : List Annotation}
    (h : ((Module.parse false source).map fun m => m.topDocs place).toOption =
      some [some (kind, own, above)]) :
    ∃ m v d, Module.parse false source = .ok m ∧ m.items = [v] ∧ v.declaration? = some d ∧
      d.kind = kind ∧ (m.typeOutline d).decl.annotations = own ∧
      m.annotationsAbove place = above := by
  obtain ⟨m, hparse, htop⟩ := toOption_map_eq_some_iff.mp h
  obtain ⟨v, hitems, hv⟩ := List.map_eq_singleton_iff.mp htop
  obtain ⟨d, hd, hdocs⟩ := Option.map_eq_some_iff.mp hv
  simp only [Prod.mk.injEq] at hdocs
  exact ⟨m, v, d, hparse, hitems, hd, hdocs⟩

/-- A decorated class with a comment above its decorator. -/
def sealedSource : String :=
  "// @HttpClient\n@sealed\nclass A \x7b\n\x7d\n"

theorem classDocs_of_statement_sealed : ∃ m v d n t,
    Module.parse false sealedSource = .ok m ∧ m.items = [v] ∧
      (m.typeOutline d).decl.annotations = [⟨"HttpClient", ""⟩] ∧
      (State.start sealedSource.toList).token.Sound ∧
      Parse.statementOf (Grammar.upTo n) { jsx := false } true
        (State.start sealedSource.toList) = .done v t ∧
      v.declaration? = some d ∧ d.kind = .classDecl ∧
      ∃ decorators next, (Grammar.upTo n).decorators
          (Parse.statementContext { jsx := false }) (State.start sealedSource.toList) =
            .done decorators next ∧
        Parse.ClassDocs (State.start sealedSource.toList) next decorators v d := by
  have hfound : ((Module.parse false sealedSource).map fun m =>
      m.topDocs (State.start sealedSource.toList).token.start).toOption =
        some [some (.classDecl, [⟨"HttpClient", ""⟩], [⟨"HttpClient", ""⟩])] := by decide +kernel
  obtain ⟨m, v, d, hparse, hitems, hd, hclass, hown, -⟩ := Module.exists_parse_of_topDocs hfound
  obtain ⟨n, -, -, t, hstatement, -⟩ := Module.exists_statement_of_parse hparse hitems
  have hsound := State.sound_start sealedSource.toList
  exact ⟨m, v, d, n, t, hparse, hitems, hown, hsound, hstatement, hd, hclass,
    Parse.classDocs_of_statement hsound hstatement hd hclass⟩

/-- The class of `sealedSource`, exported. -/
def exportedSealedSource : String :=
  "// @HttpClient\n@sealed\nexport class A \x7b\n\x7d\n"

/-- An exported class does not keep what stands above its decorators. -/
theorem not_documents_exported : ∃ m v d, Module.parse false exportedSealedSource = .ok m ∧
    m.items = [v] ∧ v.declaration? = some d ∧ d.kind = .classDecl ∧
    m.annotationsAbove (State.start exportedSealedSource.toList).token.start = [⟨"HttpClient", ""⟩] ∧
    (m.typeOutline d).decl.annotations = [] ∧
    ¬ m.Documents v d (State.start exportedSealedSource.toList).token.start := by
  have hfound : ((Module.parse false exportedSealedSource).map fun m =>
      m.topDocs (State.start exportedSealedSource.toList).token.start).toOption =
        some [some (.classDecl, [], [⟨"HttpClient", ""⟩])] := by decide +kernel
  obtain ⟨m, v, d, hparse, hitems, hd, hclass, hown, habove⟩ :=
    Module.exists_parse_of_topDocs hfound
  refine ⟨m, v, d, hparse, hitems, hd, hclass, habove, hown, fun h => ?_⟩
  have hsame := h.annotations
  rw [hown, habove] at hsame
  cases hsame

end TypeScript
end FetchClients
