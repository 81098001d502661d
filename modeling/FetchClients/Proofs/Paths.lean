/-
# The steps of a path, of its parent and of its place

A path is read by its components: the root if it is absolute, and then steps
that are never the root. The parent takes all steps but the last
(`Path.components_of_parent?`), a file name is the last step
(`Path.exists_parent?`), and the path of a place takes the names of the place
from the root down (`Path.components_ofLocation`). A path that does not climb
leads to what its names say below its start (`Path.exists_names`).

Key definition: `ProperName`.
Key theorems: `Path.components_of_parent?`, `Path.exists_parent?`,
`Path.components_ofLocation`, `Path.exists_names`, `Path.fileName?_append`.
-/
import FetchClients.Path.Lexical

namespace FetchClients

/-- A text that between two slashes is a name. -/
structure ProperName (name : String) : Prop where
  not_slash : '/' ∉ name.toList
  ne_empty : name ≠ ""
  ne_here : name ≠ "."
  ne_up : name ≠ ".."

instance (name : String) : Decidable (ProperName name) :=
  decidable_of_iff ('/' ∉ name.toList ∧ name ≠ "" ∧ name ≠ "." ∧ name ≠ "..")
    ⟨fun ⟨hslash, hempty, hhere, hup⟩ => ⟨hslash, hempty, hhere, hup⟩,
      fun h => ⟨h.not_slash, h.ne_empty, h.ne_here, h.ne_up⟩⟩

namespace Path

/-! ### Fields and components -/

theorem mem_fieldComponents {c : Component} : ∀ {opening : Bool} {fs : List (List Char)},
    c ∈ fieldComponents opening fs → ∃ f ∈ fs, f ≠ [] ∧ c = componentOf f
  | _, [], h => by simp [fieldComponents] at h
  | opening, f :: fs, h => by
    unfold fieldComponents at h
    split at h
    · rename_i hnames
      rcases List.mem_cons.mp h with rfl | h
      · refine ⟨f, by simp, ?_, rfl⟩
        rintro rfl
        simp [fieldNames] at hnames
      · obtain ⟨g, hg, hne, rfl⟩ := mem_fieldComponents h
        exact ⟨g, List.mem_cons_of_mem f hg, hne, rfl⟩
    · obtain ⟨g, hg, hne, rfl⟩ := mem_fieldComponents h
      exact ⟨g, List.mem_cons_of_mem f hg, hne, rfl⟩

/-- Fields take their steps one after the other; only the first can open the path. -/
theorem fieldComponents_append (gs : List (List Char)) : ∀ (opening : Bool) (fs : List (List Char)),
    fieldComponents opening (fs ++ gs) =
      fieldComponents opening fs ++ fieldComponents (opening && fs.isEmpty) gs
  | opening, [] => by simp [fieldComponents]
  | opening, f :: fs => by
    have ih := fieldComponents_append gs false fs
    rw [Bool.false_and] at ih
    rw [List.cons_append, fieldComponents, fieldComponents, ih, List.isEmpty_cons, Bool.and_false]
    split <;> rfl

/-- Whether fields open a path matters only for a step that stays. -/
theorem mem_fieldComponents_congr {c : Component} (hc : c ≠ .here) {opening other : Bool} :
    ∀ {fs : List (List Char)}, c ∈ fieldComponents opening fs → c ∈ fieldComponents other fs
  | [], h => h
  | f :: fs, h => by
    by_cases hhere : f = ['.']
    · subst hhere
      cases opening <;> cases other <;> simp_all [fieldComponents, fieldNames, componentOf]
    · have hsame : fieldNames opening f = fieldNames other f := by
        unfold fieldNames
        split
        · rfl
        · exact absurd rfl hhere
        · rfl
      rw [fieldComponents] at h ⊢
      rwa [← hsame]

theorem componentOf_ne_root (f : List Char) : componentOf f ≠ .root := by
  unfold componentOf
  split
  · simp
  · split <;> simp

theorem properName_of_componentOf {f : List Char} {n : String} (hslash : '/' ∉ f) (hne : f ≠ [])
    (h : componentOf f = .name n) : ProperName n := by
  unfold componentOf at h
  split at h
  · cases h
  · rename_i hhere
    split at h
    · cases h
    · rename_i hup
      cases h
      refine ⟨by simpa using hslash, fun he => hne ?_, fun he => hhere ?_, fun he => hup ?_⟩
      · simpa using congrArg String.toList he
      · simpa using congrArg String.toList he
      · simpa using congrArg String.toList he

theorem componentOf_toList {n : String} (h : ProperName n) : componentOf n.toList = .name n := by
  have hhere : n.toList ≠ ['.'] := fun he => h.ne_here (String.ext he)
  have hup : n.toList ≠ ['.', '.'] := fun he => h.ne_up (String.ext he)
  simp [componentOf, hhere, hup]

/-- Names between slashes are components, each of its own. -/
theorem fieldComponents_names : ∀ {opening : Bool} {names : List String},
    (∀ n ∈ names, ProperName n) →
    fieldComponents opening (names.map String.toList) = names.map .name
  | _, [], _ => rfl
  | opening, n :: names, h => by
    have hn := h n (by simp)
    have hnames : fieldNames opening n.toList = true := by
      have hempty : n.toList ≠ [] := fun he => hn.ne_empty (String.ext he)
      have hhere : n.toList ≠ ['.'] := fun he => hn.ne_here (String.ext he)
      unfold fieldNames
      split
      · exact absurd ‹_› hempty
      · exact absurd ‹_› hhere
      · rfl
    have ih := @fieldComponents_names false names fun m hm => h m (List.mem_cons_of_mem n hm)
    simp [fieldComponents, hnames, componentOf_toList hn, ih]

/-! ### The text of a path -/

/-- The steps of a path after its root. -/
def steps (p : Path) : List Component :=
  fieldComponents (!p.isAbsolute) p.body.2

theorem components_eq (p : Path) :
    p.components = (if p.isAbsolute then [.root] else []) ++ p.steps := by
  unfold components steps isAbsolute
  obtain ⟨rooted, fields⟩ := p.body
  cases rooted <;> simp

theorem root_not_mem_steps (p : Path) : .root ∉ p.steps := by
  intro h
  obtain ⟨f, -, -, heq⟩ := mem_fieldComponents h
  exact componentOf_ne_root f heq.symm

theorem not_slash_of_mem_body {p : Path} : ∀ f ∈ p.body.2, '/' ∉ f := by
  intro f hf
  unfold body at hf
  split at hf
  · exact Text.not_mem_of_mem_fields hf
  · exact Text.not_mem_of_mem_fields hf

/-- The names among the components of a path are proper names. -/
theorem properName_of_mem {p : Path} {n : String} (h : .name n ∈ p.components) : ProperName n := by
  have hsteps : .name n ∈ p.steps := by
    rw [components_eq, List.mem_append] at h
    rcases h with h | h
    · split at h <;> simp at h
    · exact h
  obtain ⟨f, hf, hne, heq⟩ := mem_fieldComponents hsteps
  exact properName_of_componentOf (not_slash_of_mem_body f hf) hne heq.symm

/-- Only the empty path is relative and starts with an empty field. -/
theorem body_eq_of_head? {p : Path} (habs : p.isAbsolute = false)
    (h : p.body.2.head? = some []) : p.body.2 = [[]] := by
  unfold isAbsolute at habs
  unfold body at h habs ⊢
  split at h
  · rename_i heq
    simp [heq] at habs
  · rename_i hnot
    cases htext : p.text.toList with
    | nil => simp [Text.fields]
    | cons c cs =>
      have hc : c ≠ '/' := fun he => hnot cs (he ▸ htext)
      simp only [htext, Text.fields, hc, if_false] at h
      split at h <;> simp at h

/-- The path of fields has these fields. -/
theorem body_ofFields {rooted : Bool} {fs : List (List Char)} (hne : fs ≠ [])
    (hslash : ∀ f ∈ fs, '/' ∉ f) (hhead : rooted = false → fs.head? ≠ some []) :
    (ofFields rooted fs).body = (rooted, fs) := by
  have hfields := Text.fields_joinWith hne hslash
  cases rooted with
  | true => simp [ofFields, body, hfields]
  | false =>
    obtain ⟨f, rest, rfl⟩ := List.exists_cons_of_ne_nil hne
    obtain ⟨c, f, rfl⟩ := List.exists_cons_of_ne_nil fun he : f = [] => hhead rfl (by simp [he])
    have hc : c ≠ '/' := fun he => hslash (c :: f) (by simp) (by simp [he])
    obtain ⟨cs, hcs⟩ : ∃ cs, Text.joinWith ['/'] ((c :: f) :: rest) = c :: cs := by
      cases rest with
      | nil => exact ⟨f, rfl⟩
      | cons g rest => exact ⟨_, rfl⟩
    rw [hcs] at hfields
    simp only [ofFields, hcs, body, Bool.false_eq_true, if_false, String.toList_ofList]
    split
    · rename_i heq
      exact absurd (List.cons.inj heq).1 hc
    · rw [hfields]

theorem components_ofFields {rooted : Bool} {fs : List (List Char)} (hslash : ∀ f ∈ fs, '/' ∉ f)
    (hhead : rooted = false → fs.head? ≠ some []) :
    (ofFields rooted fs).components =
      (if rooted then [.root] else []) ++ fieldComponents (!rooted) fs := by
  by_cases hne : fs = []
  · subst hne
    cases rooted <;> rfl
  · have hbody := body_ofFields hne hslash hhead
    unfold components
    rw [hbody]
    cases rooted <;> simp

/-! ### Parents -/

theorem trimFields_opens : ∀ (opening : Bool) (fs : List (List Char)),
    trimFields opening fs <+: fs
  | _, [] => List.prefix_rfl
  | opening, f :: fs => by
    have ih := trimFields_opens false fs
    unfold trimFields
    split
    · split
      · exact ⟨fs, rfl⟩
      · exact List.nil_prefix
    · exact List.cons_prefix_cons.mpr ⟨rfl, ih⟩

/-- Only fields that are no components are cut off. -/
theorem fieldComponents_trimFields : ∀ (opening : Bool) (fs : List (List Char)),
    fieldComponents opening (trimFields opening fs) = fieldComponents opening fs
  | _, [] => rfl
  | opening, f :: fs => by
    have ih := fieldComponents_trimFields false fs
    unfold trimFields
    split
    · rename_i hnil
      rw [hnil] at ih
      by_cases hf : fieldNames opening f = true
      · simp [hf, fieldComponents, ← ih]
      · simp [hf, fieldComponents, ← ih]
    · rename_i kept _
      simp [fieldComponents, ih]

/-- The last field that is kept is a component. -/
theorem fieldComponents_of_trimFields_eq : ∀ {opening : Bool} {fs before : List (List Char)}
    {last : List Char}, trimFields opening fs = before ++ [last] →
    fieldComponents opening (before ++ [last]) =
      fieldComponents opening before ++ [componentOf last]
  | _, [], before, last, h => by simp [trimFields] at h
  | opening, f :: fs, before, last, h => by
    unfold trimFields at h
    split at h
    · split at h
      · rename_i hnames
        cases before with
        | nil =>
          obtain rfl : f = last := by simpa using h
          simp [fieldComponents, hnames]
        | cons g before => simp at h
      · simp at h
    · rename_i kept hkept
      cases before with
      | nil =>
        -- something is kept behind `f`, so `f` is not the last
        obtain ⟨-, hnil⟩ : f = last ∧ trimFields false fs = [] := by simpa using h
        exact absurd hnil hkept
      | cons g before =>
        obtain ⟨rfl, htrim⟩ : f = g ∧ trimFields false fs = before ++ [last] := by simpa using h
        have ih := fieldComponents_of_trimFields_eq htrim
        by_cases hf : fieldNames opening f = true
        · simp [fieldComponents, hf, ih]
        · simp [fieldComponents, hf, ih]

/-- A parent has the fields of a path before the last that is kept, and they can be written. -/
theorem exists_of_parent? {p q : Path} (h : p.parent? = some q) :
    ∃ before last, trimFields (!p.body.1) p.body.2 = before ++ [last] ∧
      q = ofFields p.body.1 (trimFields (!p.body.1) before) ∧
      (∀ f ∈ trimFields (!p.body.1) before, '/' ∉ f) ∧
      (p.body.1 = false → (trimFields (!p.body.1) before).head? ≠ some []) := by
  unfold parent? at h
  dsimp only at h
  split at h
  · cases h
  · rename_i hkept
    cases h
    obtain ⟨before, last, hsplit⟩ : ∃ before last,
        trimFields (!p.body.1) p.body.2 = before ++ [last] :=
      ⟨_, _, (List.dropLast_concat_getLast hkept).symm⟩
    have hopens : trimFields (!p.body.1) before <+: p.body.2 :=
      ((trimFields_opens _ before).trans (List.prefix_append before [last])).trans
        (hsplit ▸ trimFields_opens _ p.body.2)
    refine ⟨before, last, hsplit, by rw [hsplit, List.dropLast_concat],
      fun f hf => not_slash_of_mem_body f (hopens.subset hf), fun habs hempty => ?_⟩
    have hbody : p.body.2 = [[]] := by
      refine body_eq_of_head? habs ?_
      obtain ⟨rest, hrest⟩ := hopens
      rw [← hrest, List.head?_append, hempty]
      rfl
    simp [hbody, trimFields, fieldNames] at hsplit

/-- A parent takes all the steps of a path but the last. -/
theorem components_of_parent? {p q : Path} (h : p.parent? = some q) :
    ∃ last, last ≠ .root ∧ p.components = q.components ++ [last] := by
  obtain ⟨before, last, hsplit, rfl, hslash, hhead⟩ := exists_of_parent? h
  have hsteps : p.steps = fieldComponents (!p.body.1) before ++ [componentOf last] := by
    rw [← fieldComponents_of_trimFields_eq hsplit, ← hsplit, fieldComponents_trimFields]
    rfl
  refine ⟨componentOf last, componentOf_ne_root last, ?_⟩
  rw [components_ofFields hslash hhead, fieldComponents_trimFields, components_eq, hsteps,
    List.append_assoc]
  rfl

/-- A path with steps has a parent. -/
theorem exists_parent?_of_steps {p : Path} (h : p.steps ≠ []) : ∃ q, p.parent? = some q := by
  unfold parent?
  dsimp only
  split
  · rename_i hnil
    have hsteps := fieldComponents_trimFields (!p.body.1) p.body.2
    rw [hnil] at hsteps
    exact absurd hsteps.symm h
  · exact ⟨_, rfl⟩

/-- A file name is the last step, after those of the parent. -/
theorem exists_parent? {p : Path} {n : String} (h : p.fileName? = some n) :
    ∃ q, p.parent? = some q ∧ p.components = q.components ++ [.name n] := by
  have hlast : p.components.getLast? = some (.name n) := by
    unfold fileName? at h
    split at h
    · rename_i heq
      rw [heq, Option.some.inj h]
    · cases h
  have hsteps : p.steps ≠ [] := by
    intro hnil
    rw [components_eq, hnil] at hlast
    split at hlast <;> simp at hlast
  obtain ⟨q, hq⟩ := exists_parent?_of_steps hsteps
  obtain ⟨last, -, hcomponents⟩ := components_of_parent? hq
  rw [hcomponents, List.getLast?_concat] at hlast
  exact ⟨q, hq, by rw [hcomponents, Option.some.inj hlast]⟩

/-! ### Places -/

theorem fold_names : ∀ (start : Location) (names : List String),
    fold start (names.map .name) = start ++ names
  | start, [] => by simp [fold]
  | start, n :: names => by
    have ih := fold_names (start ++ [n]) names
    simp only [fold] at ih
    simp [fold, step, ih]

/-- Steps that stay lead nowhere else. -/
theorem fold_filter_here : ∀ (start : Location) (cs : List Component),
    fold start (cs.filter (· ≠ .here)) = fold start cs
  | _, [] => rfl
  | start, c :: cs => by
    have ih := fold_filter_here (step start c) cs
    simp only [fold] at ih
    by_cases hc : c = .here
    · subst hc
      simpa [fold, step] using ih
    · simpa [fold, hc] using ih

/-- The names of a place that components lead to are among those of its start and of the
components. -/
theorem mem_fold {n : String} : ∀ {start : Location} {cs : List Component},
    n ∈ fold start cs → n ∈ start ∨ .name n ∈ cs
  | _, [], h => .inl h
  | start, c :: cs, h => by
    rcases @mem_fold n (step start c) cs h with hstep | hcs
    · cases c with
      | root => cases hstep
      | here => exact .inl hstep
      | up => exact .inl ((List.dropLast_sublist start).subset hstep)
      | name m =>
        rcases List.mem_append.mp hstep with hstart | hm
        · exact .inl hstart
        · exact .inr (by simp [List.mem_singleton.mp hm])
    · exact .inr (List.mem_cons_of_mem c hcs)

theorem mem_locationFrom {p cwd : Path} {n : String} (h : n ∈ p.locationFrom cwd) :
    .name n ∈ cwd.components ∨ .name n ∈ p.components := by
  rcases mem_fold h with h | h
  · rcases mem_fold h with h | h
    · cases h
    · exact .inl h
  · exact .inr h

/-- A place that a path names has proper names. -/
theorem proper_of_mem_locationFrom {p cwd : Path} : ∀ n ∈ p.locationFrom cwd, ProperName n := by
  intro n hn
  rcases mem_locationFrom hn with hn | hn <;> exact properName_of_mem hn

/-- Names behind the components of a path lead down from its place. -/
theorem locationFrom_append {p q : Path} {names : List String} (cwd : Path)
    (h : p.components = q.components ++ names.map .name) :
    p.locationFrom cwd = q.locationFrom cwd ++ names := by
  rw [locationFrom, h, fold_append, fold_names]
  rfl

/-- A name that ends a path is the last name of its place. -/
theorem locationFrom_concat {p q : Path} {n : String} (cwd : Path)
    (h : p.components = q.components ++ [.name n]) :
    p.locationFrom cwd = q.locationFrom cwd ++ [n] :=
  @locationFrom_append p q [n] cwd h

/-- The path of a place takes the names of the place from the root. -/
theorem components_ofLocation {place : Location} (h : ∀ n ∈ place, ProperName n) :
    (ofLocation place).components = .root :: place.map .name := by
  have hbody : (ofLocation place).body =
      (true, Text.fields '/' (Text.joinWith ['/'] (place.map String.toList))) := by
    simp [ofLocation, body, Text.joinWith_eq_intercalate, String.toList_intercalate]
  unfold components
  rw [hbody]
  by_cases hne : place = []
  · subst hne
    rfl
  · have hfields : Text.fields '/' (Text.joinWith ['/'] (place.map String.toList)) =
        place.map String.toList := by
      refine Text.fields_joinWith (by simpa using hne) fun part hpart => ?_
      obtain ⟨n, hn, rfl⟩ := List.mem_map.mp hpart
      exact (h n hn).not_slash
    simp [hfields, fieldComponents_names h]

theorem isAbsolute_iff {p : Path} : p.isAbsolute = true ↔ .root ∈ p.components := by
  have hsteps := root_not_mem_steps p
  rw [components_eq]
  cases p.isAbsolute <;> simp [hsteps]

/-- The path of a place leads to the place from anywhere. -/
theorem locationFrom_ofLocation {place : Location} {cwd : Path} (h : ∀ n ∈ place, ProperName n) :
    (ofLocation place).locationFrom cwd = place := by
  rw [locationFrom, components_ofLocation h]
  have hnames := fold_names [] place
  simpa [fold, step] using hnames

theorem up_not_mem_ofLocation {place : Location} (h : ∀ n ∈ place, ProperName n) :
    .up ∉ (ofLocation place).components := by
  simp [components_ofLocation h]

theorem isAbsolute_ofLocation {place : Location} (h : ∀ n ∈ place, ProperName n) :
    (ofLocation place).isAbsolute = true := by
  rw [isAbsolute_iff, components_ofLocation h]
  simp

theorem eq_of_absolute? {p q cwd : Path} (h : p.absolute? cwd = some q) :
    q = ofLocation (p.locationFrom cwd) := by
  unfold absolute? at h
  split at h
  · cases h
  · exact (Option.some.inj h).symm

theorem exists_names_of_steps : ∀ {cs : List Component}, .root ∉ cs → .up ∉ cs →
    ∃ names : List String, cs.filter (· ≠ .here) = names.map .name
  | [], _, _ => ⟨[], rfl⟩
  | c :: cs, hroot, hup => by
    simp only [List.mem_cons, not_or] at hroot hup
    obtain ⟨names, hnames⟩ := exists_names_of_steps hroot.2 hup.2
    cases c with
    | root => exact absurd rfl hroot.1
    | up => exact absurd rfl hup.1
    | here => exact ⟨names, by simpa using hnames⟩
    | name n => exact ⟨n :: names, by simpa using hnames⟩

/-- A path that does not climb goes down its names, from the root if it is absolute. -/
theorem exists_names {p : Path} (hup : .up ∉ p.components) :
    ∃ names : List String, (∀ n ∈ names, ProperName n) ∧
      p.components.filter (· ≠ .here) =
        (if p.isAbsolute then [.root] else []) ++ names.map .name ∧
      ∀ start, fold start p.components = (if p.isAbsolute then [] else start) ++ names := by
  have hup' : .up ∉ p.steps := fun h => hup (by rw [components_eq p]; simp [h])
  obtain ⟨names, hnames⟩ := exists_names_of_steps (root_not_mem_steps p) hup'
  have hfilter : p.components.filter (· ≠ .here) =
      (if p.isAbsolute then [.root] else []) ++ names.map .name := by
    rw [components_eq, List.filter_append, hnames]
    split <;> simp
  refine ⟨names, fun n hn => ?_, hfilter, fun start => ?_⟩
  · have hmem : .name n ∈ p.components.filter (· ≠ .here) := by
      rw [hfilter]
      simp [hn]
    exact properName_of_mem (List.mem_filter.mp hmem).1
  · rw [← fold_filter_here, hfilter, fold_append, fold_names]
    split <;> simp [fold, step]

/-! ### Names that end a path -/

theorem fieldComponents_concat {f : List Char} (hne : f ≠ []) (hhere : f ≠ ['.']) {opening : Bool}
    {before : List (List Char)} :
    fieldComponents opening (before ++ [f]) = fieldComponents opening before ++ [componentOf f] := by
  have hnames : ∀ opens, fieldNames opens f = true := by
    intro opens
    unfold fieldNames
    split
    · exact absurd rfl hne
    · exact absurd rfl hhere
    · rfl
  rw [fieldComponents_append]
  simp [fieldComponents, hnames]

/-- What is added behind a path is added to its last field. -/
theorem body_append (text : String) {more : String} (hslash : '/' ∉ more.toList)
    (hne : more.toList ≠ []) :
    ∃ before last, (Path.mk (text ++ more)).body.2 = before ++ [last ++ more.toList] := by
  cases htext : text.toList with
  | nil =>
    obtain ⟨c, cs, hmore⟩ := List.exists_cons_of_ne_nil hne
    have hc : c ≠ '/' := fun he => hslash (by simp [hmore, he])
    refine ⟨[], [], ?_⟩
    have hfields := Text.fields_of_not_mem hslash
    simp only [body, String.toList_append, htext, List.nil_append]
    rw [hmore] at hfields ⊢
    split
    · rename_i heq
      exact absurd (List.cons.inj heq).1 hc
    · exact hfields
  | cons c cs =>
    by_cases hc : c = '/'
    · subst hc
      obtain ⟨before, last, heq⟩ := Text.fields_append cs hslash
      exact ⟨before, last, by simp [body, htext, heq]⟩
    · obtain ⟨before, last, heq⟩ := Text.fields_append (c :: cs) hslash
      refine ⟨before, last, ?_⟩
      simp only [body, String.toList_append, htext, List.cons_append] at heq ⊢
      split
      · rename_i h
        exact absurd (List.cons.inj h).1 hc
      · exact heq

/-- What is added behind a path is the end of its file name, if it is too long for a step of another
kind. -/
theorem fileName?_append (text : String) {more : String} (hslash : '/' ∉ more.toList)
    (hlong : 2 < more.toList.length) :
    ∃ before, (Path.mk (text ++ more)).fileName? = some (before ++ more) := by
  have hne : more.toList ≠ [] := fun h => by simp [h] at hlong
  obtain ⟨before, last, hbody⟩ := body_append text hslash hne
  have hlength : 2 < (last ++ more.toList).length := by
    rw [List.length_append]
    omega
  have hshort : ∀ f : List Char, f.length ≤ 2 → last ++ more.toList ≠ f := by
    rintro f hf rfl
    omega
  have hcomponent : componentOf (last ++ more.toList) = .name (String.ofList last ++ more) := by
    simp [componentOf, hshort ['.'] (by simp), hshort ['.', '.'] (by simp), String.ofList_append]
  refine ⟨String.ofList last, ?_⟩
  have hlast : (Path.mk (text ++ more)).components.getLast? =
      some (.name (String.ofList last ++ more)) := by
    rw [components_eq, steps, hbody,
      fieldComponents_concat (hshort [] (by simp)) (hshort ['.'] (by simp)), hcomponent,
      ← List.append_assoc, List.getLast?_concat]
  simp [fileName?, hlast]

end Path
end FetchClients
