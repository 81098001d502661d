/-
# Every type declaration is recorded once

A tree is addressed by the numbers of the parts that lead to it. The search for
declarations stops at the declarations that stand inside no other and finds all of
them: the types of a file are those at the outermost addresses, each address once
(`FileOutline.types_eq_outermost`). A class without a name that it declares is
searched as any other syntax is, so it is not recorded itself.

Key definitions: `Tree.at?`, `Tree.declares`, `Tree.Outermost`,
`Tree.declarationAt?`, `Tree.Lists`.
Key theorems: `Tree.exists_lists`, `FileOutline.types_eq_outermost`.
-/
import FetchClients.Outline.Extract
import Mathlib.Data.List.Nodup
import Mathlib.Data.List.Induction

namespace FetchClients
namespace TypeScript
namespace Tree

/-- What holds of a tree if it holds of all its parts holds of every tree. -/
theorem inductionOnParts {motive : Tree → Prop}
    (h : ∀ t, (∀ p ∈ t.parts, motive p) → motive t) (t : Tree) : motive t :=
  h t fun p _ => inductionOnParts h p
termination_by t
decreasing_by exact sizeOf_lt_of_mem_parts ‹_›

/-- The tree at an address, which is the numbers of the parts that lead there. -/
def at? : Tree → List Nat → Option Tree
  | t, [] => some t
  | t, i :: address => t.parts[i]?.bind (·.at? address)

/-- Whether a tree declares a type: an interface, an alias, or a class with a name. -/
def declares : Tree → Bool
  | interface .. | typeAlias .. | .class _ (some _) .. => true
  | _ => false

/-- Whether a declaration stands at an address and inside no other declaration. -/
structure Outermost (t : Tree) (address : List Nat) : Prop where
  declares : ∃ d, t.at? address = some d ∧ d.declares = true
  above : ∀ shorter, shorter <+: address → shorter ≠ address →
    ∀ d, t.at? shorter = some d → d.declares = false

/-- Where the doc comments of the tree at an address end: an exported declaration has them above the
`export`. -/
def docPlaceAt (t : Tree) (address : List Nat) (d : Tree) : Mark :=
  match t.at? address.dropLast with
  | some (exported span _) => span.start
  | _ => d.span.start

/-- The declaration at an address, if one stands there. -/
def declarationAt? (t : Tree) (address : List Nat) : Option Declaration :=
  (t.at? address).bind fun d => d.declaredAt? (t.docPlaceAt address d)

theorem isSome_declaredAt? (place : Mark) (t : Tree) :
    (t.declaredAt? place).isSome = t.declares := by
  cases t with
  | «class» span name decorators members heritage => cases name <;> rfl
  | _ => rfl

/-- The addresses of the outermost declarations of a tree, each once, in the order of the search. -/
structure Lists (t : Tree) (addresses : List (List Nat)) : Prop where
  nodup : addresses.Nodup
  mem_iff : ∀ address, address ∈ addresses ↔ t.Outermost address
  map : addresses.map t.declarationAt? = t.declarations.map some

theorem outermost_nil_iff {t : Tree} : t.Outermost [] ↔ t.declares = true := by
  constructor
  · rintro ⟨⟨d, hd, hdeclares⟩, -⟩
    obtain rfl := Option.some.inj hd
    exact hdeclares
  · intro h
    refine ⟨⟨t, rfl, h⟩, fun shorter hopens hne => ?_⟩
    exact absurd (List.prefix_nil.mp hopens) hne

/-- Below a tree that declares nothing, a declaration is outermost if it is in its part. -/
theorem outermost_cons_iff {t : Tree} {i : Nat} {address : List Nat} :
    t.Outermost (i :: address) ↔
      t.declares = false ∧ ∃ p, t.parts[i]? = some p ∧ p.Outermost address := by
  constructor
  · rintro ⟨⟨d, hd, hdeclares⟩, habove⟩
    refine ⟨habove [] List.nil_prefix (List.cons_ne_nil _ _).symm t rfl, ?_⟩
    obtain ⟨p, hp, hd⟩ := Option.bind_eq_some_iff.mp hd
    refine ⟨p, hp, ⟨d, hd, hdeclares⟩, fun shorter hopens hne other hother => ?_⟩
    refine habove (i :: shorter) (List.cons_prefix_cons.mpr ⟨rfl, hopens⟩) (by simpa using hne) _ ?_
    rw [at?, hp]
    exact hother
  · rintro ⟨hself, p, hp, ⟨d, hd, hdeclares⟩, habove⟩
    have hat : ∀ below, t.at? (i :: below) = p.at? below := by
      intro below
      rw [at?, hp]
      rfl
    refine ⟨⟨d, (hat address).trans hd, hdeclares⟩, fun shorter hopens hne other hother => ?_⟩
    rcases List.prefix_cons_iff.mp hopens with rfl | ⟨shorter, rfl, hopens⟩
    · obtain rfl := Option.some.inj hother
      exact hself
    · rw [hat] at hother
      have hopens := (List.cons_prefix_cons.mp hopens).2
      exact habove shorter hopens (by simpa using hne) other hother

theorem docPlaceAt_of_declares {t d : Tree} (h : t.declares = true) :
    t.docPlaceAt [] d = d.span.start := by
  unfold docPlaceAt
  split
  · rename_i span declared heq
    obtain rfl := Option.some.inj heq
    cases h
  · rfl

theorem lists_of_declares {t : Tree} {d : Declaration} (h : t.declaredAt? t.span.start = some d) :
    t.Lists [[]] := by
  have hdeclares : t.declares = true := by rw [← isSome_declaredAt? t.span.start, h]; rfl
  have hplace : ∀ span declared, t ≠ exported span declared := by
    rintro span declared rfl
    cases h
  have hdeclaration : t.declaration? = some d := by
    unfold declaration?
    split
    · exact absurd rfl (hplace _ _)
    · exact h
  refine ⟨List.nodup_singleton _, fun address => ?_, ?_⟩
  · rw [List.mem_singleton]
    cases address with
    | nil => simp [outermost_nil_iff, hdeclares]
    | cons i address => simp [outermost_cons_iff, hdeclares]
  · have hfound : t.declarations = [d] := by
      rw [declarations, nearest_eq, hdeclaration]
      rfl
    have hat : t.declarationAt? [] = some d := by
      rw [declarationAt?, at?, Option.bind_some, docPlaceAt_of_declares hdeclares, h]
    simp [hfound, hat]

theorem lists_of_exported {span : Span} {declared : Tree} {d : Declaration}
    (h : declared.declaredAt? span.start = some d) : (exported span declared).Lists [[0]] := by
  have hdeclares : declared.declares = true := by rw [← isSome_declaredAt? span.start, h]; rfl
  refine ⟨List.nodup_singleton _, fun address => ?_, ?_⟩
  · rw [List.mem_singleton]
    cases address with
    | nil => simp [outermost_nil_iff, declares]
    | cons i address =>
      rw [outermost_cons_iff]
      constructor
      · rintro heq
        cases heq
        exact ⟨rfl, declared, rfl, outermost_nil_iff.mpr hdeclares⟩
      · rintro ⟨-, p, hp, hout⟩
        have hi : i = 0 ∧ p = declared := by
          cases i with
          | zero => exact ⟨rfl, (Option.some.inj hp).symm⟩
          | succ i => simp [parts] at hp
        obtain ⟨rfl, rfl⟩ := hi
        cases address with
        | nil => rfl
        | cons j address =>
          rw [outermost_cons_iff, hdeclares] at hout
          exact absurd hout.1 (by decide)
  · have hfound : (exported span declared).declarations = [d] := by
      rw [declarations, nearest_eq]
      simp [declaration?, h]
    have hat : (exported span declared).declarationAt? [0] = some d := h
    simp [hfound, hat]

/-- The addresses in some parts, after the number of the part. -/
theorem exists_lists_parts : ∀ (ps : List Tree), (∀ p ∈ ps, ∃ addresses, p.Lists addresses) →
    ∃ addresses : List (List Nat), addresses.Nodup ∧
      (∀ address, address ∈ addresses ↔ ∃ i below p, address = i :: below ∧ ps[i]? = some p ∧
        p.Outermost below) ∧
      addresses.map (fun address => ps[address.headD 0]?.bind (·.declarationAt? address.tail)) =
        (ps.flatMap declarations).map some := by
  intro ps
  induction ps using List.reverseRecOn with
  | nil => exact fun _ => ⟨[], List.nodup_nil, by simp, rfl⟩
  | append_singleton ps p ih =>
    intro h
    obtain ⟨before, hnodup, hmem, hmap⟩ := ih fun q hq => h q (List.mem_append_left _ hq)
    obtain ⟨own, hown⟩ := h p (by simp)
    have hlast : (ps ++ [p])[ps.length]? = some p := by simp
    have hearlier : ∀ {i : Nat} {q : Tree}, ps[i]? = some q → (ps ++ [p])[i]? = some q := by
      intro i q hq
      rw [List.getElem?_append_left (List.getElem?_eq_some_iff.mp hq).1, hq]
    refine ⟨before ++ own.map (ps.length :: ·), ?_, fun address => ?_, ?_⟩
    · refine List.nodup_append.mpr ⟨hnodup, hown.nodup.map (List.cons_injective), ?_⟩
      rintro address hbefore other hother rfl
      obtain ⟨i, below, q, rfl, hq, -⟩ := (hmem address).mp hbefore
      obtain ⟨below', -, heq⟩ := List.mem_map.mp hother
      have hi : i < ps.length := (List.getElem?_eq_some_iff.mp hq).1
      have heq : ps.length = i := (List.cons.inj heq).1
      omega
    · rw [List.mem_append, hmem, List.mem_map]
      constructor
      · rintro (⟨i, below, q, rfl, hq, hout⟩ | ⟨below, hbelow, rfl⟩)
        · exact ⟨i, below, q, rfl, hearlier hq, hout⟩
        · exact ⟨_, below, p, rfl, hlast, (hown.mem_iff below).mp hbelow⟩
      · rintro ⟨i, below, q, rfl, hq, hout⟩
        rcases Nat.lt_or_ge i ps.length with hi | hi
        · rw [List.getElem?_append_left hi] at hq
          exact .inl ⟨i, below, q, rfl, hq, hout⟩
        · have hi : i = ps.length := by
            have hbound := (List.getElem?_eq_some_iff.mp hq).1
            rw [List.length_append, List.length_singleton] at hbound
            omega
          subst hi
          obtain rfl := Option.some.inj (hlast.symm.trans hq)
          exact .inr ⟨below, (hown.mem_iff below).mpr hout, rfl⟩
    · have hkeep : before.map (fun address =>
            (ps ++ [p])[address.headD 0]?.bind (·.declarationAt? address.tail)) =
          before.map fun address =>
            ps[address.headD 0]?.bind (·.declarationAt? address.tail) := by
        refine List.map_congr_left fun address hbefore => ?_
        obtain ⟨i, below, q, rfl, hq, -⟩ := (hmem address).mp hbefore
        simp only [List.headD_cons, hq, hearlier hq]
      have hnew : (own.map (ps.length :: ·)).map (fun address =>
            (ps ++ [p])[address.headD 0]?.bind (·.declarationAt? address.tail)) =
          own.map p.declarationAt? := by
        rw [List.map_map]
        refine List.map_congr_left fun below _ => ?_
        simp only [Function.comp, List.headD_cons, List.tail_cons, hlast, Option.bind_some]
      rw [List.map_append, hkeep, hnew, hmap, hown.map]
      simp

theorem declarations_of_declaration?_eq_none {t : Tree} (h : t.declaration? = none) :
    t.declarations = t.parts.flatMap declarations := by
  rw [declarations, nearest_eq, h]
  rfl

theorem declares_of_declaration?_eq_none {t : Tree} (h : t.declaration? = none) :
    t.declares = false := by
  unfold declaration? at h
  split at h
  · rfl
  · rw [← isSome_declaredAt? t.span.start, h]
    rfl

/-- The declaration at an address in a part of a tree is the one at that address in the part. -/
theorem declarationAt?_cons {t p : Tree} {i : Nat} {below : List Nat} (hpart : t.parts[i]? = some p)
    (hnone : t.declaration? = none) (hout : p.Outermost below) :
    t.declarationAt? (i :: below) = p.declarationAt? below := by
  have hat : ∀ address, t.at? (i :: address) = p.at? address := by
    intro address
    rw [at?, hpart]
    rfl
  have hplace : ∀ d, t.docPlaceAt (i :: below) d = p.docPlaceAt below d := by
    intro d
    cases below with
    | cons j below => rw [docPlaceAt, docPlaceAt, List.dropLast_cons_cons, hat]
    | nil =>
      have hdeclares := outermost_nil_iff.mp hout
      rw [docPlaceAt_of_declares hdeclares, docPlaceAt]
      split
      · -- an exported declaration would have been found with its `export`
        rename_i span declared heq
        obtain rfl := Option.some.inj heq
        obtain rfl : p = declared := by
          cases i with
          | zero => exact (Option.some.inj hpart).symm
          | succ i => simp [parts] at hpart
        have hfound : p.declaredAt? span.start = none := hnone
        rw [← isSome_declaredAt? span.start, hfound] at hdeclares
        cases hdeclares
      · rfl
  rw [declarationAt?, declarationAt?, hat]
  simp only [hplace]

/-- The search finds the outermost declarations, each once. -/
theorem exists_lists (t : Tree) : ∃ addresses, t.Lists addresses := by
  induction t using inductionOnParts with
  | h t ih =>
    cases hdeclaration : t.declaration? with
    | some d =>
      unfold declaration? at hdeclaration
      split at hdeclaration
      · exact ⟨_, lists_of_exported hdeclaration⟩
      · exact ⟨_, lists_of_declares hdeclaration⟩
    | none =>
      have hself := declares_of_declaration?_eq_none hdeclaration
      obtain ⟨addresses, hnodup, hmem, hmap⟩ := exists_lists_parts t.parts ih
      refine ⟨addresses, hnodup, fun address => ?_, ?_⟩
      · rw [hmem]
        cases address with
        | nil => simp [outermost_nil_iff, hself]
        | cons i below =>
          rw [outermost_cons_iff]
          constructor
          · rintro ⟨j, other, p, heq, hp, hout⟩
            cases heq
            exact ⟨hself, p, hp, hout⟩
          · rintro ⟨-, p, hp, hout⟩
            exact ⟨i, below, p, rfl, hp, hout⟩
      · rw [declarations_of_declaration?_eq_none hdeclaration, ← hmap]
        refine List.map_congr_left fun address haddress => ?_
        obtain ⟨i, below, p, rfl, hp, hout⟩ := (hmem address).mp haddress
        rw [declarationAt?_cons hp hdeclaration hout]
        simp [hp]

end Tree

/-- The items of a source as one tree. -/
def Module.root (m : Module) : Tree :=
  .node ⟨Mark.origin, Mark.origin⟩ m.items

end TypeScript

namespace FileOutline

open TypeScript (Module Tree)

/-- The types of a file are the declarations in its source. -/
theorem types_ofModule (path : String) (m : Module) :
    (ofModule path m).types = m.root.declarations.map m.typeOutline := by
  rw [Tree.declarations_of_declaration?_eq_none (t := m.root) rfl]
  rfl

/-- The types of a file are the declarations of its source that stand inside no other declaration,
each once. -/
theorem types_eq_outermost (path : String) (m : Module) :
    ∃ addresses : List (List Nat), addresses.Nodup ∧
      (∀ address, address ∈ addresses ↔ m.root.Outermost address) ∧
      (ofModule path m).types.map some =
        addresses.map fun address => (m.root.declarationAt? address).map m.typeOutline := by
  obtain ⟨addresses, hlists⟩ := m.root.exists_lists
  refine ⟨addresses, hlists.nodup, hlists.mem_iff, ?_⟩
  have hmap := congrArg (List.map (Option.map m.typeOutline)) hlists.map
  rw [List.map_map, List.map_map] at hmap
  rw [types_ofModule, List.map_map]
  exact hmap.symm

end FileOutline
end FetchClients
