/-
# Imports between paths that are spelled in several ways

The specifier of two paths that start in the same place and do not climb is made
from the paths as they are written, every other one from their absolute forms.
Both ways agree: a specifier is made from the names that lead to the two places,
and it drops those that both share, so the names of the working directory in
front of both do not matter (`Client.importPath_eq_absolute`). So the specifier
depends only on the places (`Client.resolveImport_eq`), and a `.` or a name and a
`..` behind it that are put into a path change nothing
(`Client.resolveImport_spellings`).

Key definitions: `Path.Detour`, `Path.Respells`, `Client.Direct`,
`Client.Importable`.
Key theorems: `Path.Respells.locationFrom_eq`, `Client.importPath_eq_absolute`,
`Client.resolveImport_eq`, `Client.resolveImport_spellings`.
-/
import FetchClients.Proofs.ImportTarget
import FetchClients.Proofs.Places
import Mathlib.Logic.Relation

namespace FetchClients
namespace Path

/-! ### Spellings -/

/-- Between two fields of a path there may be a `.`, or a name and a `..` behind it. -/
inductive Detour : List (List Char) → List (List Char) → Prop
  | here (before after : List (List Char)) :
      Detour (before ++ after) (before ++ ['.'] :: after)
  | back (before after : List (List Char)) {name : String} (h : ProperName name) :
      Detour (before ++ after) (before ++ name.toList :: ['.', '.'] :: after)

/-- Two paths that differ only by detours. -/
def Respells (p q : Path) : Prop :=
  p.isAbsolute = q.isAbsolute ∧ Relation.EqvGen Detour p.body.2 q.body.2

theorem Respells.refl (p : Path) : p.Respells p :=
  ⟨rfl, .refl _⟩

theorem Respells.of_detour {p q : Path} (habs : p.isAbsolute = q.isAbsolute)
    (h : Detour p.body.2 q.body.2) : p.Respells q :=
  ⟨habs, .rel _ _ h⟩

/-- The fields behind a slash follow those in front of it. -/
theorem exists_body_append (front : String) : ∃ rooted kept, ∀ rest : String,
    (Path.mk (front ++ "/" ++ rest)).body = (rooted, kept ++ Text.fields '/' rest.toList) := by
  obtain ⟨inner, htext, hinner⟩ := exists_inner (Path.mk front)
  by_cases hempty : (Path.mk front).isAbsolute = false ∧ inner = []
  · obtain ⟨habs, rfl⟩ := hempty
    refine ⟨true, [], fun rest => ?_⟩
    simp only [habs, Bool.false_eq_true, if_false, List.append_nil] at htext
    exact body_eq_of_toList (by simp [htext]) (by simp)
  · refine ⟨(Path.mk front).isAbsolute, Text.fields '/' inner, fun rest => ?_⟩
    rw [← Text.fields_append_sep]
    refine body_eq_of_toList (by simp [htext]) fun habs hstarts => hinner habs ?_
    rw [List.head?_append] at hstarts
    cases inner with
    | nil => exact absurd ⟨habs, rfl⟩ hempty
    | cons c inner => simpa using hstarts

/-- A `.` between two slashes is a detour. -/
theorem respells_here (front rest : String) :
    (Path.mk (front ++ "/" ++ rest)).Respells ⟨front ++ "/" ++ ("./" ++ rest)⟩ := by
  obtain ⟨rooted, kept, hbody⟩ := exists_body_append front
  have hfields : Text.fields '/' ("./" ++ rest).toList = ['.'] :: Text.fields '/' rest.toList := by
    simp [Text.fields]
  refine .of_detour ?_ ?_
  · rw [isAbsolute, isAbsolute, hbody, hbody]
  · rw [hbody, hbody, hfields]
    exact .here kept _

/-- A name between two slashes is a detour if a `..` follows. -/
theorem respells_back (front rest : String) {name : String} (h : ProperName name) :
    (Path.mk (front ++ "/" ++ rest)).Respells ⟨front ++ "/" ++ (name ++ "/../" ++ rest)⟩ := by
  obtain ⟨rooted, kept, hbody⟩ := exists_body_append front
  have hfields : Text.fields '/' (name ++ "/../" ++ rest).toList =
      name.toList :: ['.', '.'] :: Text.fields '/' rest.toList := by
    have htext : (name ++ "/../" ++ rest).toList = name.toList ++ '/' :: ("../" ++ rest).toList := by
      simp
    rw [htext, Text.fields_append_cons _ h.not_slash]
    simp [Text.fields]
  refine .of_detour ?_ ?_
  · rw [isAbsolute, isAbsolute, hbody, hbody]
  · rw [hbody, hbody, hfields]
    exact .back kept _ h

/-! ### Where they lead -/

/-- Whether fields open a path does not matter for where they lead. -/
theorem fold_fieldComponents_congr (opening other : Bool) (place : Location) :
    ∀ fs : List (List Char),
      fold place (fieldComponents opening fs) = fold place (fieldComponents other fs)
  | [] => rfl
  | f :: fs => by
    rw [Disk.fold_fieldComponents_cons opening, Disk.fold_fieldComponents_cons other]

theorem along_name (place : Location) {name : String} (h : ProperName name) :
    Disk.along place name.toList = place ++ [name] := by
  have hne : name.toList ≠ [] := fun he => h.ne_empty (String.ext he)
  rw [Disk.along, if_neg hne, componentOf_toList h]
  rfl

/-- A detour leads nowhere else. -/
theorem fold_of_detour {fs gs : List (List Char)} (h : Detour fs gs) (opening : Bool)
    (place : Location) :
    fold place (fieldComponents opening gs) = fold place (fieldComponents opening fs) := by
  cases h with
  | here before after =>
    rw [fieldComponents_append, fieldComponents_append, fold_append, fold_append,
      Disk.fold_fieldComponents_cons]
    exact fold_fieldComponents_congr _ _ _ after
  | back before after hname =>
    rw [fieldComponents_append, fieldComponents_append, fold_append, fold_append,
      Disk.fold_fieldComponents_cons, Disk.fold_fieldComponents_cons, along_name _ hname]
    have hback : ∀ at_ : Location, ∀ name, Disk.along (at_ ++ [name]) ['.', '.'] = at_ := by
      intro at_ name
      simp [Disk.along, componentOf, step]
    rw [hback]
    exact fold_fieldComponents_congr _ _ _ after

theorem fold_of_eqvGen {fs gs : List (List Char)} (h : Relation.EqvGen Detour fs gs) (opening : Bool)
    (place : Location) :
    fold place (fieldComponents opening fs) = fold place (fieldComponents opening gs) := by
  induction h with
  | rel fs gs hdetour => exact (fold_of_detour hdetour opening place).symm
  | refl fs => rfl
  | symm fs gs _ ih => exact ih.symm
  | trans fs gs hs _ _ ih₁ ih₂ => exact ih₁.trans ih₂

/-- All spellings of a path lead to one place. -/
theorem Respells.locationFrom_eq {p q : Path} (h : p.Respells q) (cwd : Path) :
    p.locationFrom cwd = q.locationFrom cwd := by
  obtain ⟨habs, hfields⟩ := h
  have hbase : p.base = q.base := by
    funext start
    rw [base, base, habs]
  have hopening : (!p.body.1) = !q.body.1 := congrArg not habs
  have hfold := fold_of_eqvGen hfields (!q.body.1) (q.base (fold [] cwd.components))
  rw [locationFrom, locationFrom, fold_components p, fold_components q, hbase, steps_eq p,
    steps_eq q, hopening, hfold]

end Path

namespace Client

/-! ### The two ways to a specifier -/

/-- Two paths that start in the same place and do not climb. -/
def Direct (dir source : Path) : Prop :=
  dir.isAbsolute = source.isAbsolute ∧ climbs dir = false ∧ climbs source = false

instance (dir source : Path) : Decidable (Direct dir source) :=
  inferInstanceAs (Decidable (_ ∧ _ ∧ _))

section Ways

variable {cwd dir source : Path}

theorem resolveImport_of_direct (h : Direct dir source) :
    resolveImport cwd dir source = .ok (importPath dir source) := by
  obtain ⟨habs, hdir, hsource⟩ := h
  rw [resolveImport, if_pos ⟨habs, by simp [hdir], by simp [hsource]⟩]

theorem not_and_of_not_direct (h : ¬ Direct dir source) :
    ¬ (dir.isAbsolute = source.isAbsolute ∧ !climbs dir ∧ !climbs source) := by
  rintro ⟨habs, hdir, hsource⟩
  exact h ⟨habs, by simpa using hdir, by simpa using hsource⟩

theorem resolveImport_of_absolute? {absDir absSource : Path} (h : ¬ Direct dir source)
    (hdir : dir.absolute? cwd = some absDir) (hsource : source.absolute? cwd = some absSource) :
    resolveImport cwd dir source = .ok (importPath absDir absSource) := by
  rw [resolveImport, if_neg (not_and_of_not_direct h), hdir, hsource]

/-- The specifier of paths that are made absolute depends only on their absolute forms. -/
theorem resolveImport_congr {dir' source' : Path} (h : ¬ Direct dir source)
    (h' : ¬ Direct dir' source') (hdir : dir.absolute? cwd = dir'.absolute? cwd)
    (hsource : source.absolute? cwd = source'.absolute? cwd) :
    resolveImport cwd dir source = resolveImport cwd dir' source' := by
  rw [resolveImport, resolveImport, if_neg (not_and_of_not_direct h),
    if_neg (not_and_of_not_direct h'), hdir, hsource]

theorem absolute?_eq_some (h : dir.text ≠ "") :
    dir.absolute? cwd = some (.ofLocation (dir.locationFrom cwd)) := by
  rw [Path.absolute?, if_neg (by simpa [String.isEmpty_iff] using h)]

/-- A specifier is made from the steps of the directory and of the source's directory, and from the
stem of the source. -/
theorem importPath_congr {dir' source' : Path}
    (h : specifierParts (moves dir) (moves (source.parent?.getD ⟨""⟩)) (source.stem?.getD "") =
      specifierParts (moves dir') (moves (source'.parent?.getD ⟨""⟩)) (source'.stem?.getD "")) :
    importPath dir source = importPath dir' source' := by
  unfold importPath
  dsimp only
  rw [h]

/-- The steps of the path of a place. -/
theorem moves_ofLocation {place : Location} (h : ∀ n ∈ place, ProperName n) :
    moves (.ofLocation place) = .root :: place.map .name := by
  rw [moves, Path.components_ofLocation h, List.filter_eq_self]
  simp

/-- The steps of the directory that the path of a place lies in. -/
theorem moves_parent?_ofLocation {place : Location} {name : String}
    (h : ∀ n ∈ place ++ [name], ProperName n) :
    moves ((Path.ofLocation (place ++ [name])).parent?.getD ⟨""⟩) = .root :: place.map .name := by
  have hcomponents := Path.components_ofLocation h
  have hname : (Path.ofLocation (place ++ [name])).fileName? = some name := by
    unfold Path.fileName?
    rw [hcomponents, List.map_append, List.map_singleton, ← List.cons_append, List.getLast?_concat]
  obtain ⟨parent, hparent, hsplit⟩ := Path.exists_parent? hname
  have hsteps : parent.components = .root :: place.map .name := by
    rw [hcomponents, List.map_append, ← List.cons_append] at hsplit
    exact (List.append_inj_left' hsplit rfl).symm
  rw [hparent, Option.getD_some, moves, hsteps, List.filter_eq_self]
  simp

/-- The specifier of two paths that start in the same place and do not climb is that of their
absolute forms. -/
theorem importPath_eq_absolute {name : String} (h : Direct dir source)
    (hname : source.fileName? = some name) :
    importPath dir source =
      importPath (.ofLocation (dir.locationFrom cwd)) (.ofLocation (source.locationFrom cwd)) := by
  obtain ⟨habs, hdir, hsource⟩ := h
  obtain ⟨moduleDir, froms, tos, hparent, -, hfroms, htos, hplace, hsourcePlace⟩ :=
    @exists_names_below cwd dir source name hname habs (by simpa [climbs] using hdir)
      (by simpa [climbs] using hsource)
  generalize (if source.isAbsolute then [] else Path.fold [] cwd.components) = start
    at hplace hsourcePlace
  have hproper := @Path.proper_of_mem_locationFrom dir cwd
  have hsourceProper := @Path.proper_of_mem_locationFrom source cwd
  have hstem : (Path.ofLocation (source.locationFrom cwd)).stem? = source.stem? := by
    have hsome : source.stem? = some (String.ofList (Path.cutExtension name.toList).1) := by
      rw [Path.stem?, hname, Option.map_some]
    rw [hsome, stem?_ofLocation hsome]
  -- the root and the names of the start are in front of both places, and drop out
  have hshared : ∀ names : List String,
      Component.root :: (start ++ names).map .name =
        (.root :: start.map .name) ++ names.map .name := by simp
  apply importPath_congr
  rw [moves_ofLocation hproper, hstem, hparent, Option.getD_some]
  rw [hsourcePlace] at hsourceProper ⊢
  rw [moves_parent?_ofLocation hsourceProper, hplace, hfroms, htos, hshared, hshared,
    specifierParts_append, specifierParts_append]

/-- Paths that an import can be made from: neither is empty, and the source has a name, unless both
are made absolute. -/
structure Importable (dir source : Path) : Prop where
  dir_ne : dir.text ≠ ""
  source_ne : source.text ≠ ""
  named : Direct dir source → source.fileName?.isSome

/-- The specifier depends only on the places of the two paths. -/
theorem resolveImport_eq (h : Importable dir source) :
    resolveImport cwd dir source =
      .ok (importPath (.ofLocation (dir.locationFrom cwd)) (.ofLocation (source.locationFrom cwd))) := by
  by_cases hdirect : Direct dir source
  · obtain ⟨name, hname⟩ := Option.isSome_iff_exists.mp (h.named hdirect)
    rw [resolveImport_of_direct hdirect, importPath_eq_absolute hdirect hname]
  · exact resolveImport_of_absolute? hdirect (absolute?_eq_some h.dir_ne)
      (absolute?_eq_some h.source_ne)

end Ways

theorem text_ne_of_fileName? {p : Path} (h : p.fileName?.isSome) : p.text ≠ "" := by
  obtain ⟨text⟩ := p
  rintro rfl
  cases h

/-- Two paths that start in the same place and do not climb have the specifier of their absolute
forms. The specifier of all others depends only on these forms. And no `.`, and no name with a `..`
behind it, changes the specifier, whichever way it is made before and after. -/
theorem resolveImport_spellings (cwd : Path) :
    (∀ dir source, Direct dir source → dir.text ≠ "" → source.fileName?.isSome →
      resolveImport cwd dir source = .ok (importPath dir source) ∧
      ∃ absDir absSource, dir.absolute? cwd = some absDir ∧ source.absolute? cwd = some absSource ∧
        importPath dir source = importPath absDir absSource) ∧
    (∀ dir source dir' source', ¬ Direct dir source → ¬ Direct dir' source' →
      dir.absolute? cwd = dir'.absolute? cwd → source.absolute? cwd = source'.absolute? cwd →
      resolveImport cwd dir source = resolveImport cwd dir' source') ∧
    (∀ dir source dir' source', Importable dir source → Importable dir' source' →
      dir.Respells dir' → source.Respells source' →
      ∃ specifier, resolveImport cwd dir source = .ok specifier ∧
        resolveImport cwd dir' source' = .ok specifier) := by
  refine ⟨fun dir source hdirect hne hname => ?_, fun dir source dir' source' h h' hdir hsource => ?_,
    fun dir source dir' source' h h' hdir hsource => ?_⟩
  · obtain ⟨name, hfile⟩ := Option.isSome_iff_exists.mp hname
    have hsource := text_ne_of_fileName? hname
    exact ⟨resolveImport_of_direct hdirect, _, _, absolute?_eq_some hne, absolute?_eq_some hsource,
      importPath_eq_absolute hdirect hfile⟩
  · exact resolveImport_congr h h' hdir hsource
  · refine ⟨_, resolveImport_eq h, ?_⟩
    rw [resolveImport_eq h', hdir.locationFrom_eq cwd, hsource.locationFrom_eq cwd]

theorem resolveImport_spellings_climbing :
    (resolveImport ⟨"/w"⟩ ⟨"gen"⟩ ⟨"./src/user.ts"⟩ =
        .ok (importPath ⟨"gen"⟩ ⟨"./src/user.ts"⟩) ∧
      ∃ absDir absSource, (Path.mk "gen").absolute? ⟨"/w"⟩ = some absDir ∧
        (Path.mk "./src/user.ts").absolute? ⟨"/w"⟩ = some absSource ∧
        importPath ⟨"gen"⟩ ⟨"./src/user.ts"⟩ = importPath absDir absSource) ∧
    resolveImport ⟨"/w"⟩ ⟨"../gen"⟩ ⟨"src/user.ts"⟩ =
      resolveImport ⟨"/w"⟩ ⟨"/gen"⟩ ⟨"./src/user.ts"⟩ ∧
    ∃ specifier, resolveImport ⟨"/w"⟩ ⟨"../gen"⟩ ⟨"src/user.ts"⟩ = .ok specifier ∧
      resolveImport ⟨"/w"⟩ ⟨".././gen"⟩ ⟨"src/api/../user.ts"⟩ = .ok specifier := by
  obtain ⟨hshort, habsolute, hrespelled⟩ := resolveImport_spellings ⟨"/w"⟩
  refine ⟨hshort ⟨"gen"⟩ ⟨"./src/user.ts"⟩ (by decide) (by decide) (by decide),
    habsolute _ _ _ _ (by decide) (by decide) (by decide) (by decide),
    hrespelled _ _ _ _ ⟨by decide, by decide, by decide⟩ ⟨by decide, by decide, by decide⟩
      (Path.respells_here ".." "gen") (@Path.respells_back "src" "user.ts" "api" (by decide))⟩

end Client
end FetchClients
