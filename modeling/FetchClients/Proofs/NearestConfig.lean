/-
# The nearest configuration above a directory

The search for a configuration is a loop: it looks into a directory, stops where
the directory has a configuration or is the top of a repository, and goes on in
the parent. The loop ends for every start (`Config.search_iff`), since a parent
has a shorter text. It finds the configuration of the deepest of the directories
from the start to the root that has one, unless a deeper one is the top of a
repository (`Config.find?_nearest`); one that is both has its configuration found.
A directory has an entry if the path of the entry leads to something: if something
other than a link stands there (`Config.hasEntry_iff`), or a link to something.

Key definitions: `Path.LiesBelow`, `Config.HasEntry`, `Config.Search`,
`Config.IsNearest`.
Key theorems: `Path.map_components_ancestors`, `Config.hasEntry_iff`,
`Config.search_iff`, `Config.find?_nearest`.
-/
import FetchClients.Proofs.NewFile

namespace FetchClients
namespace Path

/-! ### The paths that a path goes through -/

/-- Whether a path leads on from where another one ends, as both are written. -/
def LiesBelow (p q : Path) : Prop :=
  q.components <+: p.components ∧ q.components ≠ p.components

instance (p q : Path) : Decidable (p.LiesBelow q) :=
  inferInstanceAs (Decidable (_ ∧ _))

/-- What holds at the top, and of a path if it holds of its parent, holds of every path: the chain of
parents ends. -/
theorem parentInduction {motive : Path → Prop} (top : ∀ p, p.parent? = none → motive p)
    (climb : ∀ p q, p.parent? = some q → motive q → motive p) (p : Path) : motive p := by
  induction hlength : p.text.toList.length using Nat.strong_induction_on generalizing p with
  | _ n ih =>
    cases hparent : p.parent? with
    | none => exact top p hparent
    | some q => exact climb p q hparent (ih _ (hlength ▸ length_parent? hparent) q rfl)

/-- A bound that is longer than the text cuts nothing off. -/
theorem ancestorsUpTo_eq : ∀ {n m : Nat} {p : Path}, p.text.toList.length < n →
    p.text.toList.length < m → p.ancestorsUpTo n = p.ancestorsUpTo m
  | 0, _, _, hn, _ => absurd hn (Nat.not_lt_zero _)
  | _, 0, _, _, hm => absurd hm (Nat.not_lt_zero _)
  | n + 1, m + 1, p, hn, hm => by
    rw [ancestorsUpTo, ancestorsUpTo]
    cases hparent : p.parent? with
    | none => rfl
    | some parent =>
      have hlength := length_parent? hparent
      exact congrArg (p :: ·) (ancestorsUpTo_eq (by omega) (by omega))

theorem ancestors_of_parent? {p q : Path} (h : p.parent? = some q) :
    p.ancestors = p :: q.ancestors := by
  have hlength := length_parent? h
  rw [String.length_toList, String.length_toList] at hlength
  have hp : p.ancestors = p :: q.ancestorsUpTo p.text.length := by
    rw [ancestors, ancestorsUpTo, h]
  rw [hp, ancestors, ancestorsUpTo_eq] <;> rw [String.length_toList] <;> omega

theorem ancestors_of_top {p : Path} (h : p.parent? = none) : p.ancestors = [p] := by
  rw [ancestors, ancestorsUpTo, h]

theorem exists_ancestors_eq (p : Path) : ∃ above, p.ancestors = p :: above := by
  cases hparent : p.parent? with
  | none => exact ⟨[], ancestors_of_top hparent⟩
  | some q => exact ⟨q.ancestors, ancestors_of_parent? hparent⟩

theorem liesBelow_of_parent? {p q : Path} (h : p.parent? = some q) : p.LiesBelow q := by
  obtain ⟨last, -, hcomponents⟩ := components_of_parent? h
  exact ⟨⟨[last], hcomponents.symm⟩, fun he => by simp [hcomponents] at he⟩

theorem LiesBelow.trans {p q r : Path} (h : p.LiesBelow q) (h' : q.LiesBelow r) : p.LiesBelow r := by
  refine ⟨h'.1.trans h.1, fun he => h'.2 ?_⟩
  exact h'.1.eq_of_length_le (he ▸ h.1.length_le)

theorem LiesBelow.asymm {p q : Path} (h : p.LiesBelow q) : ¬ q.LiesBelow p := fun h' =>
  h.2 (h.1.eq_of_length_le h'.1.length_le)

/-- Each of the paths that a path goes through lies below those after it. -/
theorem pairwise_ancestors (p : Path) : p.ancestors.Pairwise LiesBelow := by
  induction p using parentInduction with
  | top p h =>
    rw [ancestors_of_top h]
    exact List.pairwise_singleton _ _
  | climb p q h ih =>
    obtain ⟨above, habove⟩ := exists_ancestors_eq q
    have hbelow := liesBelow_of_parent? h
    rw [ancestors_of_parent? h, List.pairwise_cons]
    refine ⟨fun r hr => ?_, ih⟩
    rw [habove] at hr ih
    rcases List.mem_cons.mp hr with rfl | hr
    · exact hbelow
    · exact hbelow.trans ((List.pairwise_cons.mp ih).1 r hr)

/-- The paths that an absolute path of names goes through: one for each of the directories from its
place up to the root. -/
theorem map_components_ancestors {names : List String} : ∀ {p : Path},
    p.components = .root :: names.map .name →
      p.ancestors.map components =
        names.inits.reverse.map fun above => .root :: above.map .name := by
  induction names using List.reverseRecOn with
  | nil =>
    intro p h
    have htop : p.parent? = none := by
      cases hparent : p.parent? with
      | none => rfl
      | some q =>
        obtain ⟨last, hroot, hcomponents⟩ := components_of_parent? hparent
        have hlast : [] ++ [Component.root] = q.components ++ [last] := h.symm.trans hcomponents
        exact absurd (List.append_inj_right' hlast rfl) (by simp [Ne.symm hroot])
    rw [ancestors_of_top htop]
    simp [h]
  | append_singleton names name ih =>
    intro p h
    have hname : p.fileName? = some name := by
      unfold fileName?
      rw [h, List.map_append, List.map_singleton, ← List.cons_append, List.getLast?_concat]
    obtain ⟨q, hparent, hcomponents⟩ := exists_parent? hname
    have hq : q.components = .root :: names.map .name := by
      rw [h, List.map_append, ← List.cons_append] at hcomponents
      exact (List.append_inj_left' hcomponents rfl).symm
    rw [ancestors_of_parent? hparent, List.map_cons, ih hq, h, List.inits_append]
    simp

end Path

namespace Config

section Nearest

variable {d : Disk}

/-! ### Entries -/

/-- Whether a directory has an entry under a name that leads to something. -/
def HasEntry (d : Disk) (dir : Path) (name : String) : Prop :=
  d.has (dir.join ⟨name⟩) = true

instance (dir : Path) (name : String) : Decidable (HasEntry d dir name) :=
  inferInstanceAs (Decidable (_ = true))

/-- A directory has an entry under a name exactly when something stands there. A link may stand for
nothing, so it does not count as such. -/
theorem hasEntry_iff {dir : Path} {place : Location} {name : String}
    (hdir : d.lookup true dir = .ok (place, .directory)) (hname : Disk.StoredName name)
    (hlink : ∀ target, d.get? (place ++ [name]) ≠ some (.link target))
    (hreadable : Disk.Readable (dir.join ⟨name⟩).text) :
    HasEntry d dir name ↔ (d.get? (place ++ [name])).isSome := by
  have hlocate := Disk.locate_join_name hdir hname.toProperName hname.short hlink hreadable
  rw [HasEntry, Disk.has_eq_true_iff, hlocate]
  simp

/-- On a tree an absolute path has an entry under a name exactly when something stands there, whether
the path leads to a directory or not. -/
theorem hasEntry_iff_of_isTree (htree : d.IsTree) {dir : Path} {place : Location} {name : String}
    (hdir : dir.components = .root :: place.map .name) (hname : Disk.StoredName name)
    (hreadable : Disk.Readable (dir.join ⟨name⟩).text) :
    HasEntry d dir name ↔ (d.get? (place ++ [name])).isSome := by
  have hproper := hname.toProperName
  constructor
  · intro h
    obtain ⟨target, hlocate, hsome⟩ := Disk.has_eq_true_iff.mp h
    have hjoin : (dir.join ⟨name⟩).components = .root :: (place ++ [name]).map .name := by
      rw [Path.components_join dir hproper, hdir]
      simp
    obtain ⟨hbase, hsteps⟩ := Path.base_steps_of_names d.cwd hjoin
    have htarget := Disk.locationFrom_of_locate htree hlocate
    rw [Disk.locationFrom_cwd htree, hbase, hsteps, Path.fold_names, List.nil_append] at htarget
    exact htarget ▸ hsome
  · intro hsome
    obtain ⟨entry, hget⟩ := Option.isSome_iff_exists.mp hsome
    have hplace : d.get? place = some .directory := by
      have hparent := htree.get?_dropLast hget
      rwa [List.dropLast_concat] at hparent
    obtain ⟨hbase, hsteps⟩ := Path.base_steps_of_names d.cwd hdir
    have hne : dir.text ≠ "" := by
      rintro hempty
      have hnil : dir.components = [] := by rw [show dir = ⟨""⟩ from congrArg Path.mk hempty]; decide
      rw [hnil] at hdir
      cases hdir
    have hlookup : d.lookup true dir = .ok (place, .directory) := by
      refine (Disk.lookup_eq_directory_iff htree).mpr ⟨?_, ?_, passes_of_names htree hdir hplace⟩
      · exact hreadable.of_opens (Path.toList_join_opens dir hproper) hne
      · rw [hbase, hsteps, Path.fold_names, List.nil_append]
    exact (hasEntry_iff hlookup hname (htree.get?_ne_link _) hreadable).mpr hsome

/-! ### The loop -/

/-- What the search makes of a directory: one step after the other, up to the first that stops. -/
inductive Search (d : Disk) : Path → Option Path → Prop
  | found {dir} (hfile : HasEntry d dir fileName) : Search d dir (some (dir.join ⟨fileName⟩))
  | barred {dir} (hfile : ¬ HasEntry d dir fileName) (htop : HasEntry d dir repositoryName) :
      Search d dir none
  | top {dir} (hfile : ¬ HasEntry d dir fileName) (htop : ¬ HasEntry d dir repositoryName)
      (hparent : dir.parent? = none) : Search d dir none
  | climb {dir parent result} (hfile : ¬ HasEntry d dir fileName)
      (htop : ¬ HasEntry d dir repositoryName) (hparent : dir.parent? = some parent)
      (hrest : Search d parent result) : Search d dir result

theorem findIn_cons (dir : Path) (dirs : List Path) :
    findIn d (dir :: dirs) =
      if HasEntry d dir fileName then some (dir.join ⟨fileName⟩)
      else if HasEntry d dir repositoryName then none
      else findIn d dirs := rfl

theorem find?_of_file {dir : Path} (h : HasEntry d dir fileName) :
    find? d dir = some (dir.join ⟨fileName⟩) := by
  obtain ⟨above, habove⟩ := dir.exists_ancestors_eq
  rw [find?, habove, findIn_cons, if_pos h]

theorem find?_of_repository {dir : Path} (hfile : ¬ HasEntry d dir fileName)
    (htop : HasEntry d dir repositoryName) : find? d dir = none := by
  obtain ⟨above, habove⟩ := dir.exists_ancestors_eq
  rw [find?, habove, findIn_cons, if_neg hfile, if_pos htop]

theorem find?_of_top {dir : Path} (hfile : ¬ HasEntry d dir fileName)
    (htop : ¬ HasEntry d dir repositoryName) (h : dir.parent? = none) : find? d dir = none := by
  rw [find?, Path.ancestors_of_top h, findIn_cons, if_neg hfile, if_neg htop, findIn]

theorem find?_of_parent? {dir parent : Path} (hfile : ¬ HasEntry d dir fileName)
    (htop : ¬ HasEntry d dir repositoryName) (h : dir.parent? = some parent) :
    find? d dir = find? d parent := by
  rw [find?, Path.ancestors_of_parent? h, findIn_cons, if_neg hfile, if_neg htop, find?]

/-- The search ends for every start. -/
theorem search_find? (dir : Path) : Search d dir (find? d dir) := by
  induction dir using Path.parentInduction with
  | top dir h =>
    by_cases hfile : HasEntry d dir fileName
    · exact find?_of_file hfile ▸ .found hfile
    · by_cases htop : HasEntry d dir repositoryName
      · exact find?_of_repository hfile htop ▸ .barred hfile htop
      · exact find?_of_top hfile htop h ▸ .top hfile htop h
  | climb dir parent h ih =>
    by_cases hfile : HasEntry d dir fileName
    · exact find?_of_file hfile ▸ .found hfile
    · by_cases htop : HasEntry d dir repositoryName
      · exact find?_of_repository hfile htop ▸ .barred hfile htop
      · exact find?_of_parent? hfile htop h ▸ .climb hfile htop h ih

/-- The search ends in one way only. -/
theorem search_iff {dir : Path} {result : Option Path} :
    Search d dir result ↔ find? d dir = result := by
  constructor
  · intro h
    induction h with
    | found hfile => exact find?_of_file hfile
    | barred hfile htop => exact find?_of_repository hfile htop
    | top hfile htop hparent => exact find?_of_top hfile htop hparent
    | climb hfile htop hparent _ ih => exact (find?_of_parent? hfile htop hparent).trans ih
  · rintro rfl
    exact search_find? dir

/-! ### The nearest configuration -/

/-- Whether one of some directories has a configuration, and of those below it none has one or is the
top of a repository. -/
structure IsNearest (d : Disk) (dirs : List Path) (dir : Path) : Prop where
  mem : dir ∈ dirs
  file : HasEntry d dir fileName
  passed : ∀ deeper ∈ dirs, deeper.LiesBelow dir →
    ¬ HasEntry d deeper fileName ∧ ¬ HasEntry d deeper repositoryName

/-- A directory below all others is the nearest if it has a configuration. If not, another one is only
if the directory is no top of a repository. -/
theorem isNearest_cons_iff {dir found : Path} {dirs : List Path}
    (hbelow : ∀ above ∈ dirs, dir.LiesBelow above) :
    IsNearest d (dir :: dirs) found ↔
      (found = dir ∧ HasEntry d dir fileName) ∨
        (IsNearest d dirs found ∧ ¬ HasEntry d dir fileName ∧ ¬ HasEntry d dir repositoryName) := by
  constructor
  · intro h
    rcases List.mem_cons.mp h.mem with rfl | hmem
    · exact .inl ⟨rfl, h.file⟩
    · refine .inr ⟨⟨hmem, h.file, fun deeper hdeeper => ?_⟩, ?_⟩
      · exact h.passed deeper (List.mem_cons_of_mem _ hdeeper)
      · exact h.passed dir List.mem_cons_self (hbelow found hmem)
  · rintro (⟨rfl, hfile⟩ | ⟨h, hbare⟩)
    · refine ⟨List.mem_cons_self, hfile, fun deeper hdeeper hlies => ?_⟩
      rcases List.mem_cons.mp hdeeper with rfl | hdeeper
      · exact absurd hlies hlies.asymm
      · exact absurd hlies (hbelow deeper hdeeper).asymm
    · refine ⟨List.mem_cons_of_mem _ h.mem, h.file, fun deeper hdeeper hlies => ?_⟩
      rcases List.mem_cons.mp hdeeper with rfl | hdeeper
      · exact hbare
      · exact h.passed deeper hdeeper hlies

/-- The search in directories that lie one below the other, the deepest first, finds the configuration
of the nearest. -/
theorem findIn_eq_some_iff {file : Path} : ∀ {dirs : List Path}, dirs.Pairwise Path.LiesBelow →
    (findIn d dirs = some file ↔ ∃ dir, IsNearest d dirs dir ∧ file = dir.join ⟨fileName⟩)
  | [], _ => by
    constructor
    · intro h
      cases h
    · rintro ⟨dir, hnearest, -⟩
      exact absurd hnearest.mem List.not_mem_nil
  | dir :: dirs, hpairwise => by
    obtain ⟨hbelow, hrest⟩ := List.pairwise_cons.mp hpairwise
    simp only [isNearest_cons_iff hbelow, findIn_cons]
    by_cases hfile : HasEntry d dir fileName
    · rw [if_pos hfile]
      simp [hfile, eq_comm]
    · rw [if_neg hfile]
      by_cases htop : HasEntry d dir repositoryName
      · rw [if_pos htop]
        simp [hfile, htop]
      · rw [if_neg htop, findIn_eq_some_iff hrest]
        simp [hfile, htop]

/-- The loop over a directory and its parents ends for every start, with one result (`Config.Search`).
From an absolute start of names it goes through the start and all directories above it, the deepest
first. It finds the configuration of the deepest that has one, if none that is deeper is the top of a
repository, and nothing otherwise; whether that directory is such a top itself does not matter. On a
tree a directory has an entry exactly when something stands at its place, as long as the texts are not
too long to be looked for. -/
theorem find?_nearest {start : Path} {names : List String}
    (hstart : start.components = .root :: names.map .name) :
    (∀ result, Search d start result ↔ find? d start = result) ∧
    start.ancestors.map Path.components =
      names.inits.reverse.map (fun above => .root :: above.map .name) ∧
    (∀ file, find? d start = some file ↔
      ∃ dir, IsNearest d start.ancestors dir ∧ file = dir.join ⟨fileName⟩) ∧
    (d.IsTree → Char.ofNat 0 ∉ start.text.toList → HasRoom start →
      ∀ dir ∈ start.ancestors, ∀ above, dir.components = .root :: above.map .name →
        ∀ name ∈ [fileName, repositoryName],
          HasEntry d dir name ↔ (d.get? (above ++ [name])).isSome) := by
  refine ⟨fun result => search_iff, Path.map_components_ancestors hstart, fun file => ?_, ?_⟩
  · exact findIn_eq_some_iff start.pairwise_ancestors
  · intro htree hzero hroom dir hdir above habove name hname
    have hstored : Disk.StoredName name ∧ Char.ofNat 0 ∉ name.toList ∧
        name.utf8ByteSize ≤ fileName.utf8ByteSize := by
      rcases List.mem_pair.mp hname with rfl | rfl <;> decide
    have hreadable := readable_join hstored.1.toProperName hzero hroom
      (Path.toList_of_mem_ancestorsUpTo hdir) hstored.2.1 hstored.2.2
    exact hasEntry_iff_of_isTree htree habove hstored.1 hreadable

/-- A repository with a configuration, below a directory that has one too. -/
def nestedRepository : Disk :=
  ⟨[(["a"], .directory), (["a", ".stubgenrc.json"], .file (some "\x7b\x7d")),
    (["a", "b"], .directory), (["a", "b", ".stubgenrc.json"], .file (some "\x7b\x7d")),
    (["a", "b", ".git"], .directory), (["a", "b", "c"], .directory)], []⟩

/-- The configuration beside the top of the repository is found. -/
theorem find?_nearest_beside_repository :
    (Path.mk "/a/b/c").components = .root :: ["a", "b", "c"].map .name ∧
      find? nestedRepository ⟨"/a/b/c"⟩ = some ⟨"/a/b/.stubgenrc.json"⟩ ∧
      nestedRepository.IsTree ∧ HasRoom ⟨"/a/b/c"⟩ ∧
      (HasEntry nestedRepository ⟨"/a/b"⟩ repositoryName ↔
        (nestedRepository.get? ["a", "b", ".git"]).isSome) := by
  have hstart : (Path.mk "/a/b/c").components = .root :: ["a", "b", "c"].map .name := by decide
  have htree : nestedRepository.IsTree := by decide
  have hroom : HasRoom ⟨"/a/b/c"⟩ := by decide
  obtain ⟨-, -, hfind, hentry⟩ := find?_nearest (d := nestedRepository) hstart
  refine ⟨hstart, (hfind _).mpr ⟨⟨"/a/b"⟩, ⟨by decide, by decide +kernel, by decide +kernel⟩, ?_⟩,
    htree, hroom, ?_⟩
  · decide
  · exact hentry htree (by decide) hroom ⟨"/a/b"⟩ (by decide) ["a", "b"] (by decide) repositoryName
      (by decide)

end Nearest

end Config
end FetchClients
