/-
# Paths that new output cannot redirect

A run adds files that are named like generated ones and directories that are named
like neither a configuration nor a repository (`AddsOutput`). What it adds lies below
places where nothing stood, so a path can come to lead somewhere else only by climbing
out of a new directory. A path is anchored if every `..` of it leads up from a
directory that was there before (`Disk.Anchored`): it leads where it led, or to
something new (`AddsOutput.lookup_back`). The search for the configuration of an
anchored directory finds what it found before (`AddsOutput.load_eq`).

Key definitions: `Disk.Anchored`, `AddsOutput`.
Key theorems: `AddsOutput.locate_back`, `AddsOutput.lookup_back`,
`AddsOutput.load_eq`.
-/
import FetchClients.Proofs.Untouched

namespace FetchClients

open Client (Generated)

/-! ### Trees without links -/

namespace Disk

/-- Only `..` leads up. -/
theorem opens_along {place : Location} {f : List Char} (h : f ≠ ['.', '.']) :
    place <+: along place f := by
  unfold along
  split
  · exact List.prefix_rfl
  · unfold Path.componentOf
    split
    · exact List.prefix_rfl
    · exact List.prefix_append _ _

section Tree

variable {d : Disk} (h : d.IsTree)
include h

/-- Whatever stands above a place at which something stands is there. -/
theorem IsTree.isSome_get?_opens {place above : Location} (hthere : (d.get? place).isSome = true)
    (hopens : above <+: place) : (d.get? above).isSome = true := by
  rcases List.eq_nil_or_concat place with rfl | ⟨front, name, rfl⟩
  · rwa [List.prefix_nil.mp hopens]
  · rw [List.concat_eq_append] at hthere hopens
    rcases List.prefix_concat_iff.mp hopens with rfl | hopens
    · exact hthere
    · obtain ⟨entry, hentry⟩ := Option.isSome_iff_exists.mp hthere
      have hparent := h.get?_dropLast hentry
      rw [List.dropLast_concat] at hparent
      exact Option.isSome_of_eq_some (h.get?_prefix hparent above hopens)

/-- If a field leads to something from a place, then something stands there too; only of `..` this
has to be known. -/
theorem IsTree.isSome_get?_of_along {place : Location} {f : List Char}
    (hnext : (d.get? (along place f)).isSome = true)
    (hup : f = ['.', '.'] → (d.get? place).isSome = true) : (d.get? place).isSome = true := by
  by_cases hdots : f = ['.', '.']
  · exact hup hdots
  · exact h.isSome_get?_opens hnext (opens_along hdots)

theorem resolveWith_of_isTree (follow : Bool)
    (jump jump' : Location → List (List Char) → Except Problem Location) :
    ∀ (place : Location) (fs : List (List Char)),
      d.resolveWith follow jump place fs = d.resolveWith true jump' place fs
  | place, [] => by rw [resolveWith, resolveWith]
  | place, f :: fs => by
    have ih := fun next => resolveWith_of_isTree follow jump jump' next fs
    cases hplace : d.get? place with
    | none => rw [resolveWith, resolveWith, hplace]
    | some entry =>
      cases entry with
      | file contents => rw [resolveWith, resolveWith, hplace]
      | link target => exact absurd hplace (h.get?_ne_link place target)
      | directory =>
        rw [resolveWith_cons _ hplace, resolveWith_cons _ hplace]
        split
        · exact ih _
        · split
          · exact ih _
          · split
            · rfl
            · split
              · rename_i link hlink
                exact absurd hlink (h.get?_ne_link _ link)
              · exact ih _

/-- Where there are no links, it does not matter whether they are followed. -/
theorem lookup_of_isTree (follow : Bool) (p : Path) : d.lookup follow p = d.lookup true p := by
  have hresolve : d.resolve follow linkLimit = d.resolve true linkLimit := by
    funext place fs
    rw [resolve_eq, resolve_eq]
    exact resolveWith_of_isTree h follow _ _ place fs
  unfold lookup locate
  rw [hresolve]

end Tree

/-! ### Anchored paths -/

/-- Whether every `..` of a path leads up from a directory that is there. -/
def Anchored (d : Disk) (p : Path) : Prop :=
  ∀ cs, cs ++ [.up] <+: p.steps → d.get? (Path.fold (p.base d.cwd) cs) = some .directory

instance (d : Disk) (p : Path) : Decidable (d.Anchored p) :=
  decidable_of_iff
    (∀ cs ∈ p.steps.inits, cs ++ [.up] ∈ p.steps.inits →
      d.get? (Path.fold (p.base d.cwd) cs) = some .directory)
    ⟨fun h cs hcs => h cs ((List.mem_inits _ _).mpr ((List.prefix_append cs [.up]).trans hcs))
        ((List.mem_inits _ _).mpr hcs),
      fun h cs _ hcs => h cs ((List.mem_inits _ _).mp hcs)⟩

namespace Anchored

variable {d : Disk} {p q : Path}

theorem of_passes (h : d.Passes p) : d.Anchored p := fun cs hcs =>
  h cs ((List.prefix_append cs [.up]).trans hcs)

theorem of_isDirectory (htree : d.IsTree) (h : d.isDirectory p = true) : d.Anchored p :=
  .of_passes ((isDirectory_iff htree).mp h).2

/-- A path that does not go up is anchored wherever it leads. -/
theorem of_not_up (h : .up ∉ p.steps) : d.Anchored p := fun cs hcs =>
  absurd (hcs.subset (List.mem_append_right cs List.mem_cons_self)) h

/-- What a path goes through is anchored if the path is. -/
theorem of_opens (habs : q.isAbsolute = p.isAbsolute) (hsteps : q.steps <+: p.steps)
    (h : d.Anchored p) : d.Anchored q := by
  intro cs hcs
  rw [Path.base, habs]
  exact h cs (hcs.trans hsteps)

/-- Going down to a name needs no anchor. -/
theorem join {name : String} (hname : ProperName name) (h : d.Anchored p) :
    d.Anchored (p.join ⟨name⟩) := by
  intro cs hcs
  rw [Path.base, Path.isAbsolute_join p hname]
  rw [Path.steps_join p hname] at hcs
  rcases List.prefix_concat_iff.mp hcs with heq | hcs
  · have hlast := (List.append_singleton_inj.mp heq).2
    cases hlast
  · exact h cs hcs

theorem joinNames {names : List String} (hnames : ∀ n ∈ names, ProperName n)
    (h : d.Anchored p) : d.Anchored (joinNames p names) := by
  induction names generalizing p with
  | nil => exact h
  | cons n names ih =>
    obtain ⟨hn, hnames⟩ := List.forall_mem_cons.mp hnames
    exact ih hnames (h.join hn)

end Anchored

end Disk

/-! ### What is added -/

/-- A later tree to which only output was added: what is new is a directory that is named like
neither a configuration nor a repository, or a file that is named like a generated one. -/
structure AddsOutput (d last : Disk) (clients : List Generated) : Prop
    extends SparesSources d last clients where
  before : d.IsTree
  fresh : ∀ above name, d.get? (above ++ [name]) = none → (last.get? (above ++ [name])).isSome →
    name ≠ Config.fileName ∧ name ≠ Config.repositoryName ∧
      (last.get? (above ++ [name]) = some .directory ∨ name.endsWith Client.fileSuffix = true)

namespace AddsOutput

variable {d last : Disk} {clients : List Generated} (h : AddsOutput d last clients)
include h

/-- What was there is a directory now exactly if it was one. -/
theorem get?_eq_directory_iff {place : Location} (hthere : (d.get? place).isSome) :
    last.get? place = some .directory ↔ d.get? place = some .directory := by
  refine ⟨fun hnow => ?_, h.directory place⟩
  obtain ⟨entry, hentry⟩ := Option.isSome_iff_exists.mp hthere
  cases entry with
  | directory => exact hentry
  | file contents =>
    obtain ⟨now, hfile⟩ := h.file place contents hentry
    rw [hnow] at hfile
    cases hfile
  | link target => exact absurd hentry (h.before.get?_ne_link place target)

theorem isSome_get? {place : Location} (hthere : (d.get? place).isSome) :
    (last.get? place).isSome := by
  obtain ⟨entry, hentry⟩ := Option.isSome_iff_exists.mp hthere
  cases entry with
  | directory => simp [h.directory place hentry]
  | file contents =>
    obtain ⟨now, hfile⟩ := h.file place contents hentry
    simp [hfile]
  | link target => exact absurd hentry (h.before.get?_ne_link place target)

/-- Fields along which nothing climbs out of a new directory lead back to what was there. -/
theorem resolve_back {links : Nat} : ∀ {opening : Bool} {place target : Location}
    {fs : List (List Char)},
    (∀ cs, cs ++ [.up] <+: Path.fieldComponents opening fs →
      d.get? (Path.fold place cs) = some .directory) →
    last.resolve true links place fs = .ok target → (d.get? target).isSome →
      d.resolve true links place fs = .ok target
  | _, place, target, [], _, hresolve, _ => by
    rwa [Disk.resolve_nil] at hresolve ⊢
  | opening, place, target, f :: fs, hanchored, hresolve, hthere => by
    obtain ⟨hplace, hshort, hrest⟩ := (Disk.resolve_cons_eq_ok_iff h.tree).mp hresolve
    have hmore : ∀ cs, cs ++ [.up] <+: Path.fieldComponents false fs →
        d.get? (Path.fold (Disk.along place f) cs) = some .directory := by
      intro cs hcs
      rcases Disk.fieldComponents_cons_cases opening place f fs with
        ⟨hcons, hfold⟩ | ⟨hsame, hstay⟩
      · rw [← hfold]
        exact hanchored _ (hcons ▸ List.cons_prefix_cons.mpr ⟨rfl, hcs⟩)
      · rw [hstay]
        exact hanchored cs (hsame ▸ hcs)
    have hback := resolve_back hmore hrest hthere
    have hnext : (d.get? (Disk.along place f)).isSome := by
      cases fs with
      | nil =>
        rw [Disk.resolve_nil] at hback
        rwa [Except.ok.inj hback]
      | cons g gs => simp [((Disk.resolve_cons_eq_ok_iff h.before).mp hback).1]
    have hhere : (d.get? place).isSome := by
      refine h.before.isSome_get?_of_along hnext fun hdots => ?_
      -- only here the directory that was there is asked for
      subst hdots
      exact Option.isSome_of_eq_some (hanchored [] ⟨Path.fieldComponents false fs, by
        simp [Path.fieldComponents, Path.fieldNames, Path.componentOf]⟩)
    exact (Disk.resolve_cons_eq_ok_iff h.before).mpr
      ⟨(h.get?_eq_directory_iff hhere).mp hplace, hshort, hback⟩

/-- An anchored path that leads to what was there has led there before. -/
theorem locate_back {p : Path} {place : Location} (hanchored : d.Anchored p)
    (hlocate : last.locate true p = .ok place) (hthere : (d.get? place).isSome) :
    d.locate true p = .ok place := by
  obtain ⟨hreadable, hresolve⟩ := Disk.locate_eq_ok_iff.mp hlocate
  rw [h.cwd] at hresolve
  exact Disk.locate_eq_ok_iff.mpr ⟨hreadable, h.resolve_back hanchored hresolve hthere⟩

theorem lookup_back {p : Path} {place : Location} {entry : Entry} (hanchored : d.Anchored p)
    (hlookup : last.lookup true p = .ok (place, entry)) (hthere : (d.get? place).isSome) :
    ∃ was, d.lookup true p = .ok (place, was) ∧ (was = .directory ↔ entry = .directory) := by
  obtain ⟨hlocate, hget⟩ := Disk.lookup_eq_ok_iff.mp hlookup
  obtain ⟨was, hwas⟩ := Option.isSome_iff_exists.mp hthere
  refine ⟨was, Disk.lookup_eq_ok_iff.mpr ⟨h.locate_back hanchored hlocate hthere, hwas⟩, ?_⟩
  have hiff := h.get?_eq_directory_iff hthere
  rw [hget, hwas, Option.some_inj, Option.some_inj] at hiff
  exact hiff.symm

/-- The place of a path is the same on both disks, as long as it is anywhere. -/
theorem locationFrom_of_lookup {p : Path} {place : Location} {entry : Entry}
    (hlookup : last.lookup true p = .ok (place, entry)) :
    p.locationFrom (.ofLocation d.cwd) = place := by
  rw [← h.cwd]
  exact Disk.locationFrom_of_lookup h.tree hlookup

theorem has_back {p : Path} (hanchored : d.Anchored p) (hhas : last.has p = true)
    (hthere : (d.get? (p.locationFrom (.ofLocation d.cwd))).isSome) : d.has p = true := by
  obtain ⟨place, hlocate, hsome⟩ := Disk.has_eq_true_iff.mp hhas
  obtain ⟨entry, hentry⟩ := Option.isSome_iff_exists.mp hsome
  have hlookup := Disk.lookup_eq_ok_iff.mpr ⟨hlocate, hentry⟩
  rw [h.locationFrom_of_lookup hlookup] at hthere
  exact Disk.has_eq_true_iff.mpr ⟨place, h.locate_back hanchored hlocate hthere, hthere⟩

theorem isDirectory_back {p : Path} (hanchored : d.Anchored p) (hdirectory : last.isDirectory p = true)
    (hthere : (d.get? (p.locationFrom (.ofLocation d.cwd))).isSome) : d.isDirectory p = true := by
  obtain ⟨place, hlookup⟩ := Disk.isDirectory_eq_true_iff.mp hdirectory
  rw [h.locationFrom_of_lookup hlookup] at hthere
  obtain ⟨was, hwas, hiff⟩ := h.lookup_back hanchored hlookup hthere
  exact Disk.isDirectory_eq_true_iff.mpr ⟨place, hiff.mpr rfl ▸ hwas⟩

/-! ### What is kept -/

theorem locate_kept {p : Path} {place : Location} (hlocate : d.locate true p = .ok place) :
    last.locate true p = .ok place :=
  Disk.locate_keep (h.keepsWays h.before) hlocate

theorem has_of_has {p : Path} (hhas : d.has p = true) : last.has p = true := by
  obtain ⟨place, hlocate, hsome⟩ := Disk.has_eq_true_iff.mp hhas
  exact Disk.has_eq_true_iff.mpr
    ⟨place, h.locate_kept hlocate, h.isSome_get? hsome⟩

theorem isDirectory_of_isDirectory {p : Path} (hdirectory : d.isDirectory p = true) :
    last.isDirectory p = true := by
  obtain ⟨place, hlookup⟩ := Disk.isDirectory_eq_true_iff.mp hdirectory
  obtain ⟨hlocate, hget⟩ := Disk.lookup_eq_ok_iff.mp hlookup
  exact Disk.isDirectory_eq_true_iff.mpr ⟨place, Disk.lookup_eq_ok_iff.mpr
    ⟨h.locate_kept hlocate, h.directory place hget⟩⟩

theorem isFile_of_isFile {p : Path} (hfile : d.isFile p = true) : last.isFile p = true := by
  obtain ⟨place, contents, hlookup⟩ := Disk.isFile_eq_true_iff.mp hfile
  obtain ⟨hlocate, hget⟩ := Disk.lookup_eq_ok_iff.mp hlookup
  obtain ⟨now, hnow⟩ := h.file place contents hget
  exact Disk.isFile_eq_true_iff.mpr ⟨place, now, Disk.lookup_eq_ok_iff.mpr
    ⟨h.locate_kept hlocate, hnow⟩⟩

/-- A path that led anywhere reads as before, if it is not named like a generated file. -/
theorem readText_eq {p : Path} {name : String} (hname : p.fileName? = some name)
    (hspared : name.endsWith Client.fileSuffix = false) (hhas : d.has p = true) :
    last.readText p = d.readText p := by
  obtain ⟨place, hlocate, hsome⟩ := Disk.has_eq_true_iff.mp hhas
  obtain ⟨entry, hentry⟩ := Option.isSome_iff_exists.mp hsome
  have hlookup := Disk.lookup_eq_ok_iff.mpr ⟨hlocate, hentry⟩
  have hsame : last.lookup true p = .ok (place, entry) := by
    cases entry with
    | directory =>
      have hkept := h.locate_kept hlocate
      exact Disk.lookup_eq_ok_iff.mpr ⟨hkept, h.directory place hentry⟩
    | file contents => exact h.lookup h.before hname hspared hlookup
    | link target => exact absurd hentry (h.before.get?_ne_link place target)
  unfold Disk.readText
  rw [hlookup, hsame]

/-! ### The configuration -/

/-- A name that nothing new has is found below an anchored path exactly if it was. -/
theorem has_join_eq {q : Path} {name : String} (hq : d.Anchored q) (hname : ProperName name)
    (hspecial : name = Config.fileName ∨ name = Config.repositoryName) :
    last.has (q.join ⟨name⟩) = d.has (q.join ⟨name⟩) := by
  rw [Bool.eq_iff_iff]
  refine ⟨fun hhas => h.has_back (hq.join hname) hhas ?_, h.has_of_has⟩
  obtain ⟨place, hlocate, hsome⟩ := Disk.has_eq_true_iff.mp hhas
  obtain ⟨entry, hentry⟩ := Option.isSome_iff_exists.mp hsome
  rw [h.locationFrom_of_lookup (Disk.lookup_eq_ok_iff.mpr ⟨hlocate, hentry⟩),
    Option.isSome_iff_ne_none]
  intro hnone
  obtain ⟨above, habove⟩ := Path.locationFrom_fileName? (.ofLocation d.cwd)
    (Path.fileName?_join q hname)
  rw [h.locationFrom_of_lookup (Disk.lookup_eq_ok_iff.mpr ⟨hlocate, hentry⟩)] at habove
  rw [habove] at hnone hsome
  obtain ⟨hfile, hrepository, -⟩ := h.fresh above name hnone hsome
  exact hspecial.elim hfile hrepository

theorem findIn_eq : ∀ {qs : List Path}, (∀ q ∈ qs, d.Anchored q) →
    Config.findIn last qs = Config.findIn d qs
  | [], _ => rfl
  | q :: qs, hqs => by
    have hq := hqs q List.mem_cons_self
    unfold Config.findIn
    dsimp only
    rw [h.has_join_eq hq Config.properName_fileName (.inl rfl),
      h.has_join_eq hq Config.properName_repositoryName (.inr rfl),
      findIn_eq fun q' hq' => hqs q' (List.mem_cons_of_mem q hq')]

/-- The search for the configuration of an anchored directory finds the same file with the same
contents. -/
theorem load_eq {root : Path} (hroot : d.Anchored root) :
    Config.load last root = Config.load d root := by
  have hfind : Config.find? last root = Config.find? d root := by
    refine h.findIn_eq fun q hq => ?_
    obtain ⟨habs, hsteps⟩ := Path.steps_of_mem_ancestorsUpTo hq
    exact hroot.of_opens habs hsteps
  unfold Config.load
  rw [hfind]
  cases hfound : Config.find? d root with
  | none => rfl
  | some path =>
    obtain ⟨⟨directory, -, rfl⟩, hhas⟩ := Config.exists_join_of_findIn hfound
    have hread : last.readText (directory.join ⟨Config.fileName⟩) =
        d.readText (directory.join ⟨Config.fileName⟩) :=
      h.readText_eq (Path.fileName?_join directory Config.properName_fileName) (by decide +kernel)
        hhas
    dsimp only
    rw [hread]

end AddsOutput

end FetchClients
