/-
# When an import is relative

A specifier that starts with `./` or `../` names a file; any other names a
package. Specifiers get a `./` in front unless their text starts with `..`, which
is meant for those that climb. But a directory or a stem can be named so too: the
specifier is relative exactly when the source is not reached by a name that starts
with `..` right behind the directory (`Client.isRelative_importPath_iff`).

Key definition: `Client.IsRelative`.
Key theorems: `Client.isRelative_iff_fields`, `Client.isRelative_importPath_iff`.
-/
import FetchClients.Proofs.ImportTarget

namespace FetchClients
namespace Client

/-- A specifier that names a file and not a package. -/
def IsRelative (specifier : String) : Prop :=
  "./".toList <+: specifier.toList ∨ "../".toList <+: specifier.toList

instance (specifier : String) : Decidable (IsRelative specifier) :=
  inferInstanceAs (Decidable (_ ∨ _))

/-- The first segment of a relative specifier is `.` or `..`, and another follows. -/
theorem isRelative_iff_fields {specifier : String} :
    IsRelative specifier ↔ ∃ first next more,
      Text.fields '/' specifier.toList = first :: next :: more ∧
        (first = ['.'] ∨ first = ['.', '.']) := by
  constructor
  · have hfields : ∀ first rest : List Char, '/' ∉ first →
        ∃ next more, Text.fields '/' (first ++ '/' :: rest) = first :: next :: more := by
      intro first rest hslash
      obtain ⟨next, more, hrest⟩ := List.exists_cons_of_ne_nil (@Text.fields_ne_nil '/' rest)
      exact ⟨next, more, by rw [Text.fields_append_cons rest hslash, hrest]⟩
    rintro (⟨rest, hrest⟩ | ⟨rest, hrest⟩)
    · obtain ⟨next, more, heq⟩ := hfields ['.'] rest (by decide)
      exact ⟨_, next, more, by rw [← hrest]; exact heq, .inl rfl⟩
    · obtain ⟨next, more, heq⟩ := hfields ['.', '.'] rest (by decide)
      exact ⟨_, next, more, by rw [← hrest]; exact heq, .inr rfl⟩
  · rintro ⟨first, next, more, hfields, hfirst⟩
    have htext : specifier.toList = first ++ '/' :: Text.joinWith ['/'] (next :: more) := by
      rw [← Text.joinWith_fields '/' specifier.toList, hfields]
      simp [Text.joinWith]
    rcases hfirst with rfl | rfl
    · exact .inl ⟨_, htext.symm⟩
    · exact .inr ⟨_, htext.symm⟩

/-! ### The first part of a specifier -/

/-- Parts make a specifier that starts with the first of them. -/
theorem toList_intercalate_cons (first : String) (rest : List String) :
    ∃ more, (String.intercalate "/" (first :: rest)).toList = first.toList ++ more ∧
      (rest = [] → more = []) ∧ (rest ≠ [] → ∃ tail, more = '/' :: tail) := by
  cases rest with
  | nil => exact ⟨[], by simp, fun _ => rfl, by simp⟩
  | cons next rest =>
    refine ⟨'/' :: (String.intercalate "/" (next :: rest)).toList, ?_, by simp,
      fun _ => ⟨_, rfl⟩⟩
    simp [String.toList_intercalate]

/-- Only the first part decides whether parts are taken for ones that climb. -/
theorem dots_prefix_iff {first more : List Char} (h : more.head?.all (· = '/')) :
    ['.', '.'] <+: first ++ more ↔ ['.', '.'] <+: first := by
  refine ⟨fun hdots => ?_, fun hdots => hdots.trans (List.prefix_append first more)⟩
  cases more with
  | nil => simpa using hdots
  | cons c more =>
    obtain rfl : c = '/' := by simpa using h
    -- a part of one character would be followed by the slash
    rcases first with _ | ⟨d, _ | ⟨e, first⟩⟩
    · simp at hdots
    · simp at hdots
    · simpa using hdots

/-- Joined parts are made relative exactly if the first of them does not start with two dots, or is
`..` and another part follows. -/
theorem isRelative_join_iff {first : String} {rest : List String}
    (hslash : ['.', '.'] <+: first.toList → '/' ∉ first.toList) (joined : String)
    (hjoined : joined = String.intercalate "/" (first :: rest)) :
    IsRelative (if joined.startsWith ".." then joined else "./" ++ joined) ↔
      (['.', '.'] <+: first.toList → first = ".." ∧ rest ≠ []) := by
  obtain ⟨more, htext, hnil, hcons⟩ := toList_intercalate_cons first rest
  rw [← hjoined] at htext
  have hmore : more.head?.all (· = '/') := by
    by_cases hrest : rest = []
    · simp [hnil hrest]
    · obtain ⟨tail, htail⟩ := hcons hrest
      simp [htail]
  have hstarts : joined.startsWith ".." = true ↔ ['.', '.'] <+: first.toList := by
    rw [String.startsWith_string_iff, htext]
    exact dots_prefix_iff hmore
  by_cases hdots : ['.', '.'] <+: first.toList
  · rw [if_pos (hstarts.mpr hdots)]
    obtain ⟨last, hlast⟩ := id hdots
    have hfirst : first = ".." ↔ last = [] := by
      rw [← String.toList_inj, ← hlast]
      simp
    have hup : IsRelative joined ↔ ['/'] <+: last ++ more := by
      rw [IsRelative, htext, ← hlast]
      simp
    rw [hup, hfirst]
    constructor
    · intro hopens _
      cases last with
      | nil =>
        refine ⟨rfl, fun hrest => ?_⟩
        rw [hnil hrest] at hopens
        simp at hopens
      | cons c last =>
        obtain rfl : '/' = c := by simpa using hopens
        exact absurd (by simp [← hlast]) (hslash hdots)
    · intro hclimbs
      obtain ⟨rfl, hrest⟩ := hclimbs hdots
      obtain ⟨tail, htail⟩ := hcons hrest
      exact ⟨tail, by simp [htail]⟩
  · rw [if_neg (fun h => hdots (hstarts.mp h))]
    refine iff_of_true (.inl ?_) fun h => absurd h hdots
    rw [String.toList_append]
    exact List.prefix_append _ _

/-! ### The specifier -/

theorem dropCommon_of_append {α : Type} [DecidableEq α] (xs ys : List α) :
    dropCommon xs (xs ++ ys) = ([], ys) := by
  have happend := dropCommon_append [] ys xs
  rw [List.append_nil] at happend
  rw [happend]
  cases ys <;> rfl

/-- What stands between the steps of two directories and the stem are the parts of a specifier. -/
theorem importPath_eq {dir source moduleDir : Path} {stem : String}
    (hparent : source.parent? = some moduleDir) (hstem : source.stem? = some stem)
    {joined : String}
    (hjoined : joined = String.intercalate "/" (specifierParts (moves dir) (moves moduleDir) stem)) :
    importPath dir source = if joined.startsWith ".." then joined else "./" ++ joined := by
  rw [importPath, hparent, hstem, hjoined]
  rfl

/-- The parts that lead down from a directory start with the first step behind it. -/
theorem exists_first_down (froms down : List Component) (stem : String) :
    ∃ step more rest, down ++ [.name stem] = step :: more ∧
      specifierParts froms (froms ++ down) stem = Component.text step :: rest ∧
      (rest = [] → step = .name stem) ∧ (rest ≠ [] → step ∈ down) := by
  rw [specifierParts, dropCommon_of_append]
  cases down with
  | nil => exact ⟨.name stem, [], [], rfl, rfl, fun _ => rfl, fun h => absurd rfl h⟩
  | cons step down => exact ⟨step, down ++ [.name stem], _, rfl, rfl, by simp, by simp⟩

/-- Parts that do not lead down only start with `..`, and others follow. -/
theorem exists_first_up {froms tos : List Component} (stem : String)
    (h : ¬ ∃ down, tos = froms ++ down) :
    ∃ rest, rest ≠ [] ∧ specifierParts froms tos stem = ".." :: rest := by
  obtain ⟨common, hfroms, htos⟩ := dropCommon_eq froms tos
  have hparts : specifierParts froms tos stem = (dropCommon froms tos).1.map (fun _ => "..") ++
      (dropCommon froms tos).2.map Component.text ++ [stem] := rfl
  cases hup : (dropCommon froms tos).1 with
  | nil =>
    rw [hup, List.append_nil] at hfroms
    rw [← hfroms] at htos
    exact absurd ⟨_, htos⟩ h
  | cons step up =>
    rw [hup, List.map_cons, List.cons_append, List.cons_append] at hparts
    exact ⟨_, by simp, hparts⟩

/-- A specifier is relative exactly if the first name behind the directory, on the way to the stem of
the source, does not start with two dots. -/
theorem isRelative_iff_of_parent? {dir source moduleDir : Path} {stem : String}
    (hparent : source.parent? = some moduleDir) (hstem : source.stem? = some stem) :
    IsRelative (importPath dir source) ↔ ∀ name rest,
      moves moduleDir ++ [.name stem] = moves dir ++ .name name :: rest →
        ¬ "..".toList <+: name.toList := by
  rw [importPath_eq hparent hstem rfl]
  by_cases hdown : ∃ down, moves moduleDir = moves dir ++ down
  · obtain ⟨down, hdown⟩ := hdown
    have hproper : ∀ n, .name n ∈ down → ProperName n := by
      intro n hn
      have hmem : .name n ∈ moves moduleDir := by simp [hdown, hn]
      exact Path.properName_of_mem (List.mem_filter.mp hmem).1
    obtain ⟨step, more, rest, hstep, hparts, hlast, hinner⟩ :=
      exists_first_down (moves dir) down stem
    -- the steps behind the directory start with the step that gives the first part
    have hfirst : (∀ name rest, moves dir ++ down ++ [.name stem] = moves dir ++ .name name :: rest →
        ¬ "..".toList <+: name.toList) ↔
        ∀ name, step = .name name → ¬ "..".toList <+: name.toList := by
      simp only [List.append_assoc, List.append_cancel_left_eq, hstep, List.cons.injEq]
      exact ⟨fun h name hname => h name more ⟨hname, rfl⟩, fun h name rest hname => h name hname.1⟩
    have hname : ∀ n, step = .name n → '/' ∉ n.toList ∧ (n = ".." → rest = []) := by
      rintro n rfl
      by_cases hrest : rest = []
      · obtain rfl := Component.name.inj (hlast hrest)
        exact ⟨not_slash_stem hstem, fun _ => hrest⟩
      · have hn := hproper n (hinner hrest)
        exact ⟨hn.not_slash, fun he => absurd he hn.ne_up⟩
    rw [hdown, hparts, hfirst]
    cases step with
    | root =>
      refine iff_of_true ((isRelative_join_iff (by decide) _ rfl).mpr ?_) (by simp)
      simp [Component.text]
    | here =>
      refine iff_of_true ((isRelative_join_iff (by decide) _ rfl).mpr ?_) (by simp)
      simp [Component.text]
    | up =>
      have hrest : rest ≠ [] := fun he => by cases hlast he
      exact iff_of_true ((isRelative_join_iff (by decide) _ rfl).mpr fun _ => ⟨rfl, hrest⟩) (by simp)
    | name n =>
      obtain ⟨hslash, hup⟩ := hname n rfl
      rw [Component.text, isRelative_join_iff (fun _ => hslash) _ rfl]
      constructor
      · rintro hclimbs m hm hdots
        obtain rfl := Component.name.inj hm
        obtain ⟨heq, hrest⟩ := hclimbs hdots
        exact hrest (hup heq)
      · exact fun hfree hdots => absurd hdots (hfree n rfl)
  · obtain ⟨rest, hrest, hparts⟩ := exists_first_up stem hdown
    rw [hparts, isRelative_join_iff (by decide) _ rfl]
    refine iff_of_true (fun _ => ⟨rfl, hrest⟩) fun name rest heq => absurd ?_ hdown
    have hdrop := congrArg List.dropLast heq
    rw [List.dropLast_concat, List.dropLast_append_of_ne_nil (by simp)] at hdrop
    exact ⟨_, hdrop⟩

/-- The names on the way to the stem of a source start like names of its path. -/
theorem exists_name_of_mem {source moduleDir : Path} {stem name : String}
    (hparent : source.parent? = some moduleDir) (hstem : source.stem? = some stem)
    (h : .name name ∈ moves moduleDir ++ [.name stem]) :
    ∃ n, .name n ∈ source.components ∧ name.toList <+: n.toList := by
  obtain ⟨file, hfile, rfl⟩ := Option.map_eq_some_iff.mp hstem
  obtain ⟨parent, hparent', hcomponents⟩ := Path.exists_parent? hfile
  obtain rfl := Option.some.inj (hparent'.symm.trans hparent)
  rcases List.mem_append.mp h with h | h
  · exact ⟨name, by simp [hcomponents, (List.mem_filter.mp h).1], List.prefix_rfl⟩
  · obtain rfl := Component.name.inj (List.mem_singleton.mp h)
    obtain ⟨rest, hrest⟩ := cutExtension_eq file.toList
    exact ⟨file, by simp [hcomponents], rest, by rw [String.toList_ofList]; exact hrest.symm⟩

/-- A specifier is relative exactly if the first name behind the directory, on the way to the stem of
the source, does not start with two dots. So it is relative if no name in the path of the source
does. -/
theorem isRelative_importPath_iff {dir source : Path} {stem : String}
    (hstem : source.stem? = some stem) :
    ∃ moduleDir, source.parent? = some moduleDir ∧
      (IsRelative (importPath dir source) ↔ ∀ name rest,
        moves moduleDir ++ [.name stem] = moves dir ++ .name name :: rest →
          ¬ "..".toList <+: name.toList) ∧
      ((∀ n, .name n ∈ source.components → ¬ "..".toList <+: n.toList) →
        IsRelative (importPath dir source)) := by
  obtain ⟨file, hfile, -⟩ := Option.map_eq_some_iff.mp hstem
  obtain ⟨moduleDir, hparent, -⟩ := Path.exists_parent? hfile
  have hiff := @isRelative_iff_of_parent? dir source moduleDir stem hparent hstem
  refine ⟨moduleDir, hparent, hiff, fun hnames => hiff.mpr fun name rest heq hdots => ?_⟩
  have hmem : .name name ∈ moves moduleDir ++ [.name stem] := by simp [heq]
  obtain ⟨n, hn, hopens⟩ := exists_name_of_mem hparent hstem hmem
  exact hnames n hn (hdots.trans hopens)

/-- A directory whose name starts with two dots is taken for a step that climbs. -/
theorem not_isRelative_dotted :
    (Path.mk "..gen/user.ts").stem? = some "user" ∧
      (Path.mk "").isAbsolute = (Path.mk "..gen/user.ts").isAbsolute ∧
      importPath ⟨""⟩ ⟨"..gen/user.ts"⟩ = "..gen/user" ∧
      ¬ IsRelative (importPath ⟨""⟩ ⟨"..gen/user.ts"⟩) := by
  decide +kernel

/-- A directory that both places lie in may have such a name. -/
theorem isRelative_importPath_shared :
    (Path.mk "..gen/user.ts").stem? = some "user" ∧
      ∃ moduleDir, (Path.mk "..gen/user.ts").parent? = some moduleDir ∧
        IsRelative (importPath ⟨"..gen"⟩ ⟨"..gen/user.ts"⟩) := by
  have hstem : (Path.mk "..gen/user.ts").stem? = some "user" := by decide +kernel
  obtain ⟨moduleDir, hparent, hiff, -⟩ :=
    @isRelative_importPath_iff ⟨"..gen"⟩ ⟨"..gen/user.ts"⟩ _ hstem
  have hdir : (Path.mk "..gen/user.ts").parent? = some ⟨"..gen"⟩ := by decide +kernel
  obtain rfl := Option.some.inj (hdir.symm.trans hparent)
  refine ⟨hstem, _, hparent, hiff.mpr fun name rest heq => ?_⟩
  obtain ⟨rfl, -⟩ : "user" = name ∧ [] = rest := by simpa using heq
  decide

end Client
end FetchClients
