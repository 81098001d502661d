/-
# Patterns that new output cannot redirect

A pattern is followed part by part, so it can climb out of a new directory only if a
part stands for `..` after others have led there. A pattern is anchored if such a part
follows on names alone, from a directory that was there before
(`Glob.anchoredFrom`). Of what an anchored pattern finds after a run, all that was
there before was found before (`Glob.Search.under_back`), and what was found before is
found again (`Glob.Search.mem_of_addsOutput`).

Key definitions: `Glob.leadsUp`, `Glob.Search.Leads`, `Glob.anchoredFrom`,
`Glob.isAnchored`.
Key theorems: `Path.join_field`, `Glob.Search.under_back`,
`Glob.Search.mem_of_addsOutput`, `Glob.mem_expand_back`.
-/
import FetchClients.Proofs.Anchored
import FetchClients.Proofs.Shapes

namespace FetchClients

/-! ### Going on by one field -/

namespace Path

/-- A field takes one step at most, to where it leads. -/
theorem fieldComponents_singleton (opening : Bool) (f : List Char) :
    (fieldComponents opening [f] = [] ∨ fieldComponents opening [f] = [componentOf f]) ∧
      ∀ place, fold place (fieldComponents opening [f]) = Disk.along place f := by
  refine ⟨?_, fun place => ?_⟩
  · by_cases hnames : fieldNames opening f = true
    · exact .inr (by simp [fieldComponents, hnames])
    · exact .inl (by simp [fieldComponents, hnames])
  · exact Disk.fold_fieldComponents_cons opening place f []

/-- A text without slashes below a path goes on by one field. -/
theorem join_field (p : Path) {name : String} (hslash : '/' ∉ name.toList) :
    (p.join ⟨name⟩).isAbsolute = p.isAbsolute ∧ ∃ extra, (p.join ⟨name⟩).steps = p.steps ++ extra ∧
      (extra = [] ∨ extra = [componentOf name.toList]) ∧
      ∀ place, fold place extra = Disk.along place name.toList := by
  obtain ⟨kept, hbody, hkept⟩ := body_join_relative p (not_isAbsolute_name hslash)
  rw [body_name hslash] at hbody
  have hsteps : (p.join ⟨name⟩).steps =
      p.steps ++ fieldComponents (!p.isAbsolute && kept.isEmpty) [name.toList] := by
    rw [steps_eq, hbody, fieldComponents_append, hkept]
  exact ⟨by rw [isAbsolute, hbody], _, hsteps, fieldComponents_singleton _ name.toList⟩

/-- The same names lead on from the same place. -/
theorem locationFrom_join_field (p cwd : Path) {name : String} (hslash : '/' ∉ name.toList) :
    (p.join ⟨name⟩).locationFrom cwd = Disk.along (p.locationFrom cwd) name.toList := by
  obtain ⟨habs, extra, hsteps, -, hfold⟩ := join_field p hslash
  rw [locationFrom, locationFrom, components_eq (p.join ⟨name⟩), components_eq p, habs, hsteps,
    ← List.append_assoc, fold_append, hfold]

end Path

namespace Disk

namespace Anchored

variable {d : Disk} {p : Path}

theorem join_field {name : String} (hslash : '/' ∉ name.toList) (h : d.Anchored p)
    (hup : name = ".." → d.get? (Path.fold (p.base d.cwd) p.steps) = some .directory) :
    d.Anchored (p.join ⟨name⟩) := by
  obtain ⟨habs, extra, hsteps, hextra, -⟩ := Path.join_field p hslash
  intro cs hcs
  rw [Path.base, habs]
  rw [hsteps] at hcs
  rcases hextra with rfl | rfl
  · rw [List.append_nil] at hcs
    exact h cs hcs
  · rcases List.prefix_concat_iff.mp hcs with heq | hcs
    · obtain ⟨rfl, hc⟩ := List.append_singleton_inj.mp heq
      refine hup (String.ext ?_)
      unfold Path.componentOf at hc
      split at hc
      · cases hc
      · split at hc
        · assumption
        · cases hc
    · exact h cs hcs

end Anchored

end Disk

namespace Glob

/-! ### Parts of a pattern -/

/-- Whether a part of a pattern can stand for `..`. -/
def leadsUp (part : List Token) : Bool :=
  part.head? = some (.char '.') && accepts part ['.', '.']

/-- Whether tokens are those of a text without slashes; only such at the start of a pattern can go
down into folders, and then they do nothing else. -/
def IsSlashless (atStart : Bool) (part : List Token) : Prop :=
  .char '/' ∉ part ∧ (.anyFolders ∈ part → atStart = true ∧ part = [.anyFolders])

theorem IsSlashless.of_map {atStart : Bool} {t : Token} {result : Except Fault (List Token)}
    {part : List Token} (hslash : t ≠ .char '/') (hfolders : t ≠ .anyFolders)
    (h : result.map (t :: ·) = .ok part)
    (hrest : ∀ {rest}, result = .ok rest → IsSlashless false rest) : IsSlashless atStart part := by
  cases result with
  | error fault => cases h
  | ok rest =>
    obtain rfl := Except.ok.inj h
    obtain ⟨hnone, hfalse⟩ := hrest rfl
    refine ⟨by simp [hnone, Ne.symm hslash], fun hmem => ?_⟩
    rcases List.mem_cons.mp hmem with heq | hmem
    · exact absurd heq.symm hfolders
    · exact absurd (hfalse hmem).1 Bool.false_ne_true

theorem isOther_of_set? {text : List Char} {t : Token} {length : Nat}
    (h : set? text = some (t, length)) : t ≠ .char '/' ∧ t ≠ .anyFolders := by
  unfold set? at h
  split at h
  · obtain ⟨_, -, heq⟩ := Option.map_eq_some_iff.mp h
    obtain ⟨rfl, -⟩ := Prod.mk.inj heq
    simp
  · cases h
  · obtain ⟨_, -, heq⟩ := Option.map_eq_some_iff.mp h
    obtain ⟨rfl, -⟩ := Prod.mk.inj heq
    simp
  · cases h

theorem isSlashless_of_tokens {atStart : Bool} {position : Nat} {text : List Char} :
    ∀ {part : List Token}, '/' ∉ text → tokens atStart position text = .ok part →
      IsSlashless atStart part := by
  fun_induction tokens atStart position text with
  | case1 =>
    intro part _ h
    obtain rfl := Except.ok.inj h
    simp [IsSlashless]
  | case2 atStart position cs ih =>
    intro part hslash h
    exact .of_map (by simp) (by simp) h fun hrest => ih (by simp_all) hrest
  | case3 | case4 | case7 | case10 =>
    intro part _ h
    cases h
  | case5 atStart position hstart =>
    intro part _ h
    obtain rfl := Except.ok.inj h
    simpa [IsSlashless] using hstart
  | case6 =>
    intro part hslash
    simp at hslash
  | case8 atStart position cs _ _ ih =>
    intro part hslash h
    exact .of_map (by simp) (by simp) h fun hrest => ih (by simp_all) hrest
  | case9 atStart position cs t length hset ih =>
    intro part hslash h
    obtain ⟨ht, hfolders⟩ := isOther_of_set? hset
    refine .of_map ht hfolders h fun hrest => ih (fun hmem => hslash ?_) hrest
    exact List.mem_cons_of_mem _ (List.mem_of_mem_drop hmem)
  | case11 atStart position c cs _ _ _ _ _ ih =>
    intro part hslash h
    obtain ⟨hc, hcs⟩ := not_or.mp (mt List.mem_cons.mpr hslash)
    have hother : decide (c = '/') = false := by simpa using Ne.symm hc
    rw [hother] at ih h
    exact .of_map (by simpa using Ne.symm hc) (by simp) h fun hrest => ih hcs hrest

theorem leadsUp_of_isRecursive {part : List Token} (h : IsSlashless true part)
    (hrecursive : isRecursive part = true) : leadsUp part = false := by
  have hmem : .anyFolders ∈ part := by simpa [isRecursive] using hrecursive
  rw [(h.2 hmem).2]
  rfl

theorem leadsUp_of_literal? {part : List Token} {text : List Char} (h : literal? part = some text)
    (hup : String.ofList text = "..") : leadsUp part = true := by
  obtain rfl : text = ['.', '.'] := by simpa using congrArg String.toList hup
  rw [literal?_eq_some_iff.mp h]
  rfl

theorem slash_not_mem_of_literal? {part : List Token} {text : List Char}
    (h : literal? part = some text) (hpart : IsSlashless true part) :
    '/' ∉ (String.ofList text).toList := by
  have hchars := literal?_eq_some_iff.mp h
  have hnot := hpart.1
  rw [hchars] at hnot
  simpa using hnot

/-- The parts of a pattern have no slashes. -/
theorem isSlashless_of_compileParts : ∀ {texts : List (List Char)} {parts : List (List Token)},
    (∀ text ∈ texts, '/' ∉ text) → compileParts texts = .ok parts →
      ∀ part ∈ parts, IsSlashless true part
  | [], parts, _, h => by
    obtain rfl := Except.ok.inj h
    simp
  | text :: texts, parts, hslash, h => by
    obtain ⟨htext, htexts⟩ := List.forall_mem_cons.mp hslash
    rw [compileParts] at h
    cases hfirst : tokens true 0 text with
    | error fault => rw [hfirst] at h; cases h
    | ok first =>
      cases hrest : compileParts texts with
      | error fault => rw [hfirst, hrest] at h; cases h
      | ok rest =>
        rw [hfirst, hrest] at h
        obtain rfl := Except.ok.inj h
        exact List.forall_mem_cons.mpr
          ⟨isSlashless_of_tokens htext hfirst, isSlashless_of_compileParts htexts hrest⟩

/-- Parts none of which can lead up. -/
def Level (parts : List (List Token)) : Prop :=
  ∀ part ∈ parts, IsSlashless true part ∧ leadsUp part = false

/-! ### Following a pattern -/

namespace Search

section Child

variable (directory cwd : Path) {name : String} (hslash : '/' ∉ name.toList)
include hslash

omit hslash in
theorem child_eq_join (name : String) : ∃ q : Path, child directory name = q.join ⟨name⟩ ∧
    (q = directory ∨ q = ⟨""⟩ ∧ directory.components = [.here]) := by
  unfold child
  split
  · rename_i hsame
    have hhere : directory.components = (Path.mk ".").components := by
      simpa [Path.sameSteps] using hsame
    refine ⟨⟨""⟩, ?_, .inr ⟨rfl, hhere.trans (by decide)⟩⟩
    unfold Path.join
    split
    · rfl
    · simp
  · exact ⟨directory, rfl, .inl rfl⟩

theorem locationFrom_child :
    (child directory name).locationFrom cwd =
      Disk.along (directory.locationFrom cwd) name.toList := by
  obtain ⟨q, hq, hcases⟩ := child_eq_join directory name
  rw [hq, Path.locationFrom_join_field q cwd hslash]
  rcases hcases with rfl | ⟨rfl, hhere⟩
  · rfl
  · rw [Path.locationFrom, Path.locationFrom, hhere]
    rfl

end Child

theorem anchored_child {d : Disk} (htree : d.IsTree) {directory : Path} {name : String}
    (hslash : '/' ∉ name.toList) (h : d.Anchored directory)
    (hup : name = ".." → d.isDirectory directory = true) : d.Anchored (child directory name) := by
  obtain ⟨q, hq, hcases⟩ := child_eq_join directory name
  rw [hq]
  rcases hcases with rfl | ⟨rfl, -⟩
  · refine h.join_field hslash fun hname => ?_
    exact ((Disk.isDirectory_iff htree).mp (hup hname)).2 _ List.prefix_rfl
  · exact (Disk.Anchored.of_not_up (by decide)).join_field hslash fun _ => htree.cwd

/-- Below a directory, and from it by a name that is not `..`, nothing is left behind. -/
theorem opens_child (directory cwd : Path) {name : String} (hslash : '/' ∉ name.toList)
    (hup : name ≠ "..") :
    directory.locationFrom cwd <+: (child directory name).locationFrom cwd := by
  rw [locationFrom_child _ _ hslash]
  exact Disk.opens_along fun hdots => hup (String.ext hdots)

/-! ### One step of a search -/

/-- Whether a search follows a name from a directory. -/
def Leads (d : Disk) (directory : Path) (name : String) : Prop :=
  if name = "." ∨ name = ".." then d.isDirectory directory = true
  else (d.lookup false (child directory name)).isOk = true

section Step

variable {s : Search} {part : List Token} {parts : List (List Token)} {directory next p : Path}
  {name : String} {n : Nat}

theorem mem_under_literal_iff {text : List Char} (hliteral : literal? part = some text) :
    p ∈ s.under (n + 1) (part :: parts) directory ↔ Leads s.disk directory (String.ofList text) ∧
      p ∈ s.onward n parts (child directory (String.ofList text)) := by
  unfold under Leads
  simp only [hliteral, List.mem_ite_nil_right, Bool.or_eq_true, decide_eq_true_eq]
  refine and_congr_left fun _ => ?_
  split <;> rfl

theorem mem_under_wild_iff (hwild : literal? part = none) :
    p ∈ s.under (n + 1) (part :: parts) directory ↔ s.disk.isDirectory directory = true ∧
      ((∃ name ∈ s.names directory, p ∈ s.visit n (part :: parts) name (child directory name)) ∨
        ∃ name ∈ [".", ".."],
          (part.head? = some (.char '.') && accepts part name.toList) = true ∧
            p ∈ s.onward n parts (directory.join ⟨name⟩)) := by
  unfold under
  simp only [hwild, List.mem_ite_nil_right, List.mem_append, List.mem_flatMap, List.mem_filter,
    and_assoc]

theorem onward_nil : s.onward (n + 1) [] p = s.result p := by
  unfold onward
  rfl

theorem onward_cons : s.onward (n + 1) (part :: parts) p = s.under n (part :: parts) p := by
  unfold onward
  rfl

theorem mem_visit_iff (hplain : isRecursive part = false) :
    p ∈ s.visit (n + 1) (part :: parts) name next ↔
      accepts part name.toList = true ∧ p ∈ s.onward n parts next := by
  unfold visit
  simp only [hplain, Bool.false_eq_true, if_false, List.mem_ite_nil_right]

/-- A `**` finds the directory itself if nothing follows, what the next part finds there, and all that
it finds deeper down. -/
theorem mem_visit_recursive_iff (hrecursive : isRecursive part = true) :
    p ∈ s.visit (n + 1) (part :: parts) name next ↔
      (s.disk.isDirectory next = true ∧ p ∈ s.under n (part :: parts.dropWhile isRecursive) next) ∨
      (parts.dropWhile isRecursive = [] ∧ s.disk.isDirectory next = true ∧ p = next) ∨
      ∃ q rest, parts.dropWhile isRecursive = q :: rest ∧ accepts q name.toList = true ∧
        p ∈ s.onward n rest next := by
  unfold visit
  simp only [hrecursive, if_true]
  generalize parts.dropWhile isRecursive = rest
  cases rest with
  | nil =>
    by_cases hdirectory : s.disk.isDirectory next = true
    · simp [hdirectory, or_comm]
    · simp [hdirectory]
  | cons q rest => simp [List.mem_append, List.mem_ite_nil_right]

end Step

theorem mem_names_iff_lookup {s : Search} {directory : Path} {name : String} :
    name ∈ s.names directory ↔ ∃ place, s.disk.lookup true directory = .ok (place, .directory) ∧
      (s.disk.get? (place ++ [name])).isSome = true := by
  unfold names
  split
  · rename_i place hlookup
    rw [hlookup, Disk.mem_names_iff]
    simp
  · rename_i hnot
    simp only [List.not_mem_nil, false_iff, not_exists, not_and]
    exact fun place hlookup => absurd hlookup (hnot place)

/-! ### What was there before was found before -/

/-- What a search after a run has found from a path on: if that was there before, then `before`
holds. Only a part that climbs can lead to another place than one below the path. -/
structure Found (d : Disk) (climbs : Bool) (origin p : Path) (before : Prop) : Prop where
  anchored : d.Anchored p
  below : climbs = false →
    origin.locationFrom (.ofLocation d.cwd) <+: p.locationFrom (.ofLocation d.cwd)
  back : (d.get? (p.locationFrom (.ofLocation d.cwd))).isSome = true → before

section Back

variable {d last : Disk} {clients : List Client.Generated} (h : AddsOutput d last clients)
  (directoriesOnly : Bool)
include h

theorem Found.result_back {q p : Path} (hq : d.Anchored q)
    (hp : p ∈ result ⟨last, directoriesOnly⟩ q) :
    Found d false q p (p ∈ result ⟨d, directoriesOnly⟩ q) := by
  unfold result at hp ⊢
  obtain ⟨honly, hp⟩ := List.mem_ite_nil_right.mp hp
  obtain rfl := List.mem_singleton.mp hp
  refine ⟨hq, fun _ => List.prefix_rfl, fun hthere => ?_⟩
  refine List.mem_ite_nil_right.mpr ⟨?_, hp⟩
  rw [Bool.or_eq_true] at honly ⊢
  exact honly.imp_right fun hdirectory => h.isDirectory_back hq hdirectory hthere

/-- A name that leads to what was there was followed before. -/
theorem Leads.back {directory : Path} {name : String} (hslash : '/' ∉ name.toList)
    (hdirectory : d.Anchored directory) (hup : name = ".." → d.isDirectory directory = true)
    (hleads : Leads last directory name)
    (hthere : (d.get? ((child directory name).locationFrom (.ofLocation d.cwd))).isSome = true) :
    Leads d directory name := by
  unfold Leads at hleads ⊢
  split at hleads
  · rename_i hdots
    rw [if_pos hdots]
    rcases hdots with rfl | rfl
    · refine h.isDirectory_back hdirectory hleads ?_
      exact h.before.isSome_get?_opens hthere (opens_child directory _ hslash (by decide))
    · exact hup rfl
  · rename_i hdots
    rw [if_neg hdots, Disk.lookup_of_isTree h.before]
    rw [Disk.lookup_of_isTree h.tree] at hleads
    exact h.has_back (anchored_child h.before hslash hdirectory hup) hleads hthere

/-- The step of `under_back` for a part without wildcards. -/
theorem under_back_literal {part : List Token} {parts : List (List Token)} {text : List Char}
    {directory p : Path} {n : Nat} (hliteral : literal? part = some text)
    (hpart : IsSlashless true part) (hdirectory : d.Anchored directory)
    (hup : leadsUp part = true → d.isDirectory directory = true)
    (honward : ∀ next, d.Anchored next → p ∈ onward ⟨last, directoriesOnly⟩ n parts next →
      Found d false next p (p ∈ onward ⟨d, directoriesOnly⟩ n parts next))
    (hp : p ∈ under ⟨last, directoriesOnly⟩ (n + 1) (part :: parts) directory) :
    Found d (leadsUp part) directory p
      (p ∈ under ⟨d, directoriesOnly⟩ (n + 1) (part :: parts) directory) := by
  have hslash := slash_not_mem_of_literal? hliteral hpart
  have hclimb : String.ofList text = ".." → d.isDirectory directory = true := fun hname =>
    hup (leadsUp_of_literal? hliteral hname)
  rw [mem_under_literal_iff hliteral] at hp ⊢
  obtain ⟨hleads, hp⟩ := hp
  have hfound := honward _ (anchored_child h.before hslash hdirectory hclimb) hp
  refine ⟨hfound.anchored, fun hlevel => ?_, fun hthere => ⟨?_, hfound.back hthere⟩⟩
  · refine (opens_child directory _ hslash fun hname => ?_).trans (hfound.below rfl)
    rw [leadsUp_of_literal? hliteral hname] at hlevel
    cases hlevel
  · exact hleads.back h hslash hdirectory hclimb
      (h.before.isSome_get?_opens hthere (hfound.below rfl))

/-- The step of `under_back` from a directory to a name in it. -/
theorem names_back {directory p : Path} {name : String} {before : Prop}
    (hdirectory : d.Anchored directory) (hname : name ∈ names ⟨last, directoriesOnly⟩ directory)
    (hvisit : d.Anchored (child directory name) → Found d false (child directory name) p before) :
    Found d false directory p (d.isDirectory directory = true ∧
      name ∈ names ⟨d, directoriesOnly⟩ directory ∧ before) := by
  obtain ⟨place, hlookup, hsome⟩ := mem_names_iff_lookup.mp hname
  obtain ⟨entry, hentry⟩ := Option.isSome_iff_exists.mp hsome
  have hproper : ProperName name := (h.tree.storedName hentry name (by simp)).toProperName
  have hplace := h.locationFrom_of_lookup hlookup
  have halong : (child directory name).locationFrom (.ofLocation d.cwd) = place ++ [name] := by
    have hne : name.toList ≠ [] := fun he => hproper.ne_empty (String.ext he)
    rw [locationFrom_child _ _ hproper.not_slash, hplace, Disk.along, if_neg hne,
      Path.componentOf_toList hproper]
    rfl
  have hfound := hvisit (anchored_child h.before hproper.not_slash hdirectory fun hdots =>
    absurd hdots hproper.ne_up)
  have hbelow := hfound.below rfl
  refine ⟨hfound.anchored, fun _ => ?_, fun hthere => ?_⟩
  · exact (opens_child directory _ hproper.not_slash hproper.ne_up).trans hbelow
  · rw [halong] at hbelow
    have hwas := h.before.isSome_get?_opens hthere ((List.prefix_append place [name]).trans hbelow)
    obtain ⟨was, hlookup', hiff⟩ := h.lookup_back hdirectory hlookup hwas
    obtain rfl := hiff.mpr rfl
    refine ⟨Disk.isDirectory_eq_true_iff.mpr ⟨place, hlookup'⟩, ?_, hfound.back hthere⟩
    exact mem_names_iff_lookup.mpr ⟨place, hlookup', h.before.isSome_get?_opens hthere hbelow⟩

/-- The step of `under_back` from a directory by one of the names that every directory has. -/
theorem dots_back {part : List Token} {directory p : Path} {name : String} {before : Prop}
    (hdirectory : d.Anchored directory) (hnow : last.isDirectory directory = true)
    (hup : leadsUp part = true → d.isDirectory directory = true) (hdots : name ∈ [".", ".."])
    (haccepts : (part.head? = some (.char '.') && accepts part name.toList) = true)
    (honward : d.Anchored (directory.join ⟨name⟩) → Found d false (directory.join ⟨name⟩) p before) :
    Found d (leadsUp part) directory p (d.isDirectory directory = true ∧ before) := by
  have hslash : '/' ∉ name.toList := by
    rcases List.mem_pair.mp hdots with rfl | rfl <;> decide
  have hleads : name = ".." → leadsUp part = true := by
    rintro rfl
    exact haccepts
  have hfound := honward (hdirectory.join_field hslash fun hname =>
    ((Disk.isDirectory_iff h.before).mp (hup (hleads hname))).2 _ List.prefix_rfl)
  have hbelow : leadsUp part = false →
      directory.locationFrom (.ofLocation d.cwd) <+: p.locationFrom (.ofLocation d.cwd) := by
    intro hlevel
    refine List.IsPrefix.trans ?_ (hfound.below rfl)
    rw [Path.locationFrom_join_field _ _ hslash]
    refine Disk.opens_along fun hup => ?_
    rw [hleads (String.ext hup)] at hlevel
    cases hlevel
  refine ⟨hfound.anchored, hbelow, fun hthere => ⟨?_, hfound.back hthere⟩⟩
  cases hlevel : leadsUp part with
  | true => exact hup hlevel
  | false =>
    exact h.isDirectory_back hdirectory hnow
      (h.before.isSome_get?_opens hthere (hbelow hlevel))

/-- The step of `under_back` for a part with wildcards. -/
theorem under_back_wild {part : List Token} {parts : List (List Token)} {directory p : Path} {n : Nat}
    (hwild : literal? part = none) (hdirectory : d.Anchored directory)
    (hup : leadsUp part = true → d.isDirectory directory = true)
    (honward : ∀ next, d.Anchored next → p ∈ onward ⟨last, directoriesOnly⟩ n parts next →
      Found d false next p (p ∈ onward ⟨d, directoriesOnly⟩ n parts next))
    (hvisit : ∀ name next, d.Anchored next →
      p ∈ visit ⟨last, directoriesOnly⟩ n (part :: parts) name next →
      Found d false next p (p ∈ visit ⟨d, directoriesOnly⟩ n (part :: parts) name next))
    (hp : p ∈ under ⟨last, directoriesOnly⟩ (n + 1) (part :: parts) directory) :
    Found d (leadsUp part) directory p
      (p ∈ under ⟨d, directoriesOnly⟩ (n + 1) (part :: parts) directory) := by
  rw [mem_under_wild_iff hwild] at hp ⊢
  obtain ⟨hnow, ⟨name, hname, hp⟩ | ⟨name, hdots, haccepts, hp⟩⟩ := hp
  · have hfound := names_back h directoriesOnly hdirectory hname fun hnext =>
      hvisit name _ hnext hp
    refine ⟨hfound.anchored, fun _ => hfound.below rfl, fun hthere => ?_⟩
    obtain ⟨hwas, hnamed, hback⟩ := hfound.back hthere
    exact ⟨hwas, .inl ⟨name, hnamed, hback⟩⟩
  · have hfound := dots_back h hdirectory hnow hup hdots haccepts fun hnext => honward _ hnext hp
    refine ⟨hfound.anchored, hfound.below, fun hthere => ?_⟩
    obtain ⟨hwas, hback⟩ := hfound.back hthere
    exact ⟨hwas, .inr ⟨name, hdots, haccepts, hback⟩⟩

/-- The step of `under_back` for a name that was found. -/
theorem visit_back {part : List Token} {parts : List (List Token)} {name : String} {next p : Path}
    {n : Nat} (hpart : IsSlashless true part) (hparts : Level parts) (hnext : d.Anchored next)
    (hunder : ∀ rest, Level rest → (leadsUp part = true → d.isDirectory next = true) →
      p ∈ under ⟨last, directoriesOnly⟩ n (part :: rest) next →
      Found d (leadsUp part) next p (p ∈ under ⟨d, directoriesOnly⟩ n (part :: rest) next))
    (honward : ∀ rest, Level rest → p ∈ onward ⟨last, directoriesOnly⟩ n rest next →
      Found d false next p (p ∈ onward ⟨d, directoriesOnly⟩ n rest next))
    (hp : p ∈ visit ⟨last, directoriesOnly⟩ (n + 1) (part :: parts) name next) :
    Found d false next p (p ∈ visit ⟨d, directoriesOnly⟩ (n + 1) (part :: parts) name next) := by
  by_cases hrecursive : isRecursive part = true
  · have hlevel := leadsUp_of_isRecursive hpart hrecursive
    rw [hlevel] at hunder
    have hrestLevel : Level (parts.dropWhile isRecursive) := fun q hq =>
      hparts q ((List.dropWhile_sublist _).subset hq)
    rw [mem_visit_recursive_iff hrecursive] at hp ⊢
    rcases hp with ⟨hnow, hp⟩ | ⟨hnone, hnow, rfl⟩ | ⟨q, rest, heq, haccepts, hp⟩
    · have hfound := hunder _ hrestLevel (by simp) hp
      refine ⟨hfound.anchored, hfound.below, fun hthere => .inl ⟨?_, hfound.back hthere⟩⟩
      exact h.isDirectory_back hnext hnow (h.before.isSome_get?_opens hthere (hfound.below rfl))
    · refine ⟨hnext, fun _ => List.prefix_rfl, fun hthere => .inr (.inl ⟨hnone, ?_, rfl⟩)⟩
      exact h.isDirectory_back hnext hnow hthere
    · rw [heq] at hrestLevel
      have hfound := honward rest (List.forall_mem_cons.mp hrestLevel).2 hp
      exact ⟨hfound.anchored, hfound.below, fun hthere =>
        .inr (.inr ⟨q, rest, heq, haccepts, hfound.back hthere⟩)⟩
  · rw [mem_visit_iff (Bool.eq_false_iff.mpr hrecursive)] at hp ⊢
    obtain ⟨haccepts, hp⟩ := hp
    have hfound := honward parts hparts hp
    exact ⟨hfound.anchored, hfound.below, fun hthere => ⟨haccepts, hfound.back hthere⟩⟩

/-- Of what is found by parts that cannot lead up, all that was there was found before. The first
part may lead up from a directory that was there. -/
theorem under_back : ∀ n : Nat,
    (∀ part parts directory p, IsSlashless true part → Level parts → d.Anchored directory →
      (leadsUp part = true → d.isDirectory directory = true) →
      p ∈ under ⟨last, directoriesOnly⟩ n (part :: parts) directory →
        Found d (leadsUp part) directory p
          (p ∈ under ⟨d, directoriesOnly⟩ n (part :: parts) directory)) ∧
    (∀ parts next p, Level parts → d.Anchored next →
      p ∈ onward ⟨last, directoriesOnly⟩ n parts next →
        Found d false next p (p ∈ onward ⟨d, directoriesOnly⟩ n parts next)) ∧
    ∀ part parts name next p, IsSlashless true part → Level parts → d.Anchored next →
      p ∈ visit ⟨last, directoriesOnly⟩ n (part :: parts) name next →
        Found d false next p (p ∈ visit ⟨d, directoriesOnly⟩ n (part :: parts) name next)
  | 0 => by simp only [under, onward, visit, List.not_mem_nil, false_implies, implies_true, and_self]
  | n + 1 => by
    obtain ⟨hunder, honward, hvisit⟩ := under_back n
    refine ⟨fun part parts directory p hpart hparts hdirectory hup hp => ?_,
      fun parts next p hparts hnext hp => ?_,
      fun part parts name next p hpart hparts hnext hp => ?_⟩
    · have hgoes := fun next => honward parts next p hparts
      cases hliteral : literal? part with
      | some text =>
        exact under_back_literal h directoriesOnly hliteral hpart hdirectory hup hgoes hp
      | none =>
        exact under_back_wild h directoriesOnly hliteral hdirectory hup hgoes
          (fun name next => hvisit part parts name next p hpart hparts) hp
    · cases parts with
      | nil =>
        rw [onward_nil] at hp ⊢
        exact Found.result_back h directoriesOnly hnext hp
      | cons part parts =>
        obtain ⟨⟨hpart, hlevel⟩, hparts⟩ := List.forall_mem_cons.mp hparts
        rw [onward_cons] at hp ⊢
        have hfound := hunder part parts next p hpart hparts hnext (by simp [hlevel]) hp
        rwa [hlevel] at hfound
    · exact visit_back h directoriesOnly hpart hparts hnext
        (fun rest hrest => hunder part rest next p hpart hrest hnext)
        (fun rest hrest => honward rest next p hrest hnext) hp

end Back

/-! ### What was found before is found again -/

section Onward

variable {d last : Disk} {clients : List Client.Generated} (h : AddsOutput d last clients)
  (directoriesOnly : Bool)
include h

theorem mem_names_of_addsOutput {directory : Path} {name : String}
    (hname : name ∈ names ⟨d, directoriesOnly⟩ directory) :
    name ∈ names ⟨last, directoriesOnly⟩ directory := by
  obtain ⟨place, hlookup, hsome⟩ := mem_names_iff_lookup.mp hname
  obtain ⟨hlocate, hget⟩ := Disk.lookup_eq_ok_iff.mp hlookup
  refine mem_names_iff_lookup.mpr ⟨place, Disk.lookup_eq_ok_iff.mpr ⟨?_, ?_⟩, h.isSome_get? hsome⟩
  · exact h.locate_kept hlocate
  · exact h.directory place hget

theorem Leads.kept {directory : Path} {name : String} (hleads : Leads d directory name) :
    Leads last directory name := by
  unfold Leads at hleads ⊢
  split at hleads
  · rename_i hdots
    rw [if_pos hdots]
    exact h.isDirectory_of_isDirectory hleads
  · rename_i hdots
    rw [if_neg hdots]
    rw [Disk.lookup_of_isTree h.before] at hleads
    rw [Disk.lookup_of_isTree h.tree]
    exact h.has_of_has hleads

/-- Whatever the parts are, what they found is still found. -/
theorem mem_of_addsOutput : ∀ n : Nat,
    (∀ parts directory p, p ∈ under ⟨d, directoriesOnly⟩ n parts directory →
      p ∈ under ⟨last, directoriesOnly⟩ n parts directory) ∧
    (∀ parts next p, p ∈ onward ⟨d, directoriesOnly⟩ n parts next →
      p ∈ onward ⟨last, directoriesOnly⟩ n parts next) ∧
    ∀ parts name next p, p ∈ visit ⟨d, directoriesOnly⟩ n parts name next →
      p ∈ visit ⟨last, directoriesOnly⟩ n parts name next
  | 0 => by simp only [under, onward, visit, List.not_mem_nil, false_implies, implies_true, and_self]
  | n + 1 => by
    obtain ⟨hunder, honward, hvisit⟩ := mem_of_addsOutput n
    have hdirectory := fun p => @AddsOutput.isDirectory_of_isDirectory d last clients h p
    refine ⟨fun parts directory p hp => ?_, fun parts next p hp => ?_,
      fun parts name next p hp => ?_⟩
    · cases parts with
      | nil => simp [under] at hp
      | cons part parts =>
        cases hliteral : literal? part with
        | some text =>
          rw [mem_under_literal_iff hliteral] at hp ⊢
          exact hp.imp (fun hleads => hleads.kept h) (honward _ _ _)
        | none =>
          rw [mem_under_wild_iff hliteral] at hp ⊢
          obtain ⟨hthere, ⟨name, hname, hp⟩ | ⟨name, hdots, haccepts, hp⟩⟩ := hp
          · exact ⟨hdirectory _ hthere, .inl
              ⟨name, mem_names_of_addsOutput h directoriesOnly hname, hvisit _ _ _ _ hp⟩⟩
          · exact ⟨hdirectory _ hthere, .inr ⟨name, hdots, haccepts, honward _ _ _ hp⟩⟩
    · cases parts with
      | nil =>
        simp only [onward_nil, result, List.mem_ite_nil_right, Bool.or_eq_true] at hp ⊢
        exact hp.imp_left (Or.imp_right (hdirectory _))
      | cons part parts =>
        rw [onward_cons] at hp ⊢
        exact hunder _ _ _ hp
    · cases parts with
      | nil => simp [visit] at hp
      | cons part parts =>
        by_cases hrecursive : isRecursive part = true
        · rw [mem_visit_recursive_iff hrecursive] at hp ⊢
          refine hp.imp (And.imp (hdirectory _) (hunder _ _ _)) (Or.imp ?_ ?_)
          · exact And.imp_right (And.imp_left (hdirectory _))
          · rintro ⟨q, rest, heq, haccepts, hp⟩
            exact ⟨q, rest, heq, haccepts, honward _ _ _ hp⟩
        · rw [mem_visit_iff (Bool.eq_false_iff.mpr hrecursive)] at hp ⊢
          exact hp.imp_right (honward _ _ _)

end Onward

end Search

/-! ### Anchored patterns -/

/-- Whether a search by parts from a directory climbs only out of directories that are there: a part
that can lead up follows on parts without wildcards, which name such a directory. -/
def anchoredFrom (d : Disk) : List (List Token) → Path → Bool
  | [], _ => true
  | part :: parts, directory =>
    (!parts.any leadsUp && (!leadsUp part || d.isDirectory directory)) ||
      match literal? part with
      | some text =>
        let next := Search.child directory (String.ofList text)
        d.isDirectory next && anchoredFrom d parts next
      | none => false

/-- The parts of a pattern. -/
def partsOf (pattern : String) : Except Fault (List (List Token)) :=
  let inner := if pattern.toList.head? = some '/' then pattern.toList.tail else pattern.toList
  compileParts (if inner.isEmpty then [[]] else parts inner)

/-- Where the search by a pattern starts. -/
def origin (pattern : String) : Path :=
  if pattern.toList.head? = some '/' then ⟨"/"⟩ else ⟨"."⟩

/-- Whether all that a pattern can find is reached without climbing out of a directory that is not
there. -/
def isAnchored (d : Disk) (pattern : String) : Bool :=
  match partsOf pattern with
  | .ok parts => anchoredFrom d parts (origin pattern)
  | .error _ => true

theorem expand_eq_ok_iff {d : Disk} {pattern : String} {found : List Path} :
    expand d pattern = .ok found ↔ (∃ tokens, compile pattern = .ok tokens) ∧
      ∃ parts, partsOf pattern = .ok parts ∧
        found = Search.under ⟨d, pattern.toList.getLast? = some '/'⟩
          (3 * (parts.length + Disk.pathLimit)) parts (origin pattern) := by
  have hexpand : expand d pattern = (compile pattern).bind fun _ => (partsOf pattern).bind fun parts =>
      .ok (Search.under ⟨d, pattern.toList.getLast? = some '/'⟩
        (3 * (parts.length + Disk.pathLimit)) parts (origin pattern)) := rfl
  rw [hexpand]
  cases compile pattern with
  | error fault => simp [Except.bind]
  | ok tokens =>
    cases partsOf pattern with
    | error fault => simp [Except.bind]
    | ok parts => simp [Except.bind, eq_comm]

theorem isSlashless_of_partsOf {pattern : String} {parts : List (List Token)}
    (h : partsOf pattern = .ok parts) : ∀ part ∈ parts, IsSlashless true part := by
  unfold partsOf at h
  generalize (if pattern.toList.head? = some '/' then pattern.toList.tail
    else pattern.toList) = inner at h
  refine isSlashless_of_compileParts (fun text htext => ?_) h
  split at htext
  · rw [List.mem_singleton.mp htext]
    exact List.not_mem_nil
  · unfold Glob.parts at htext
    dsimp only at htext
    split at htext
    · exact Text.not_mem_of_mem_fields (List.dropLast_subset _ htext)
    · exact Text.not_mem_of_mem_fields htext

section Anchored

variable {d last : Disk} {clients : List Client.Generated} (h : AddsOutput d last clients)
include h

/-- A name was followed if it has led to a directory. -/
theorem Search.Leads.back_of_isDirectory {directory : Path} {name : String}
    (hslash : '/' ∉ name.toList) (hdirectory : d.Anchored directory)
    (hleads : Leads last directory name) (hnext : d.isDirectory (child directory name) = true) :
    Leads d directory name := by
  have hthere : (d.get? (directory.locationFrom (.ofLocation d.cwd))).isSome = true := by
    obtain ⟨q, hq, hcases⟩ := child_eq_join directory name
    rw [hq] at hnext
    rcases hcases with rfl | ⟨rfl, hhere⟩
    · obtain ⟨habs, extra, hsteps, -⟩ := Path.join_field q hslash
      have hpasses := ((Disk.isDirectory_iff h.before).mp hnext).2.of_opens habs.symm
        (hsteps ▸ List.prefix_append q.steps extra)
      rw [Disk.locationFrom_cwd h.before]
      exact Option.isSome_of_eq_some (hpasses _ List.prefix_rfl)
    · have hsame : directory.locationFrom (.ofLocation d.cwd) =
          (Path.mk ".").locationFrom (.ofLocation d.cwd) := by
        rw [Path.locationFrom, hhere]
        rfl
      rw [hsame, Disk.locationFrom_cwd h.before]
      exact Option.isSome_of_eq_some h.before.cwd
  unfold Leads at hleads ⊢
  split at hleads
  · rename_i hdots
    rw [if_pos hdots]
    exact h.isDirectory_back hdirectory hleads hthere
  · rename_i hdots
    rw [if_neg hdots, Disk.lookup_of_isTree h.before]
    exact Disk.has_of_isDirectory hnext

/-- Of what an anchored search finds after a run, all that was there was found before. -/
theorem Search.mem_under_back (directoriesOnly : Bool) : ∀ {parts : List (List Token)}
    {directory p : Path} {n : Nat}, (∀ part ∈ parts, IsSlashless true part) →
    d.Anchored directory → anchoredFrom d parts directory = true →
    p ∈ under ⟨last, directoriesOnly⟩ n parts directory →
    (d.get? (p.locationFrom (.ofLocation d.cwd))).isSome = true →
      d.Anchored p ∧ p ∈ under ⟨d, directoriesOnly⟩ n parts directory
  | [], _, _, n, _, _, _, hp, _ => by cases n <;> simp [under] at hp
  | part :: parts, directory, p, 0, _, _, _, hp, _ => by simp [under] at hp
  | part :: parts, directory, p, n + 1, hslashless, hdirectory, hanchored, hp, hthere => by
    obtain ⟨hpart, hparts⟩ := List.forall_mem_cons.mp hslashless
    unfold anchoredFrom at hanchored
    rcases Bool.or_eq_true_iff.mp hanchored with hlevel | hnamed
    · obtain ⟨hrest, hup⟩ := Bool.and_eq_true_iff.mp hlevel
      have hparts : Level parts := fun q hq => ⟨hparts q hq, by
        rw [Bool.not_eq_true', List.any_eq_false] at hrest
        simpa using hrest q hq⟩
      obtain ⟨hunder, -⟩ := under_back h directoriesOnly (n + 1)
      have hfound := hunder part parts directory p hpart hparts hdirectory
        (fun hleads => by simpa [hleads] using hup) hp
      exact ⟨hfound.anchored, hfound.back hthere⟩
    · split at hnamed
      · rename_i text hliteral
        obtain ⟨hnext, hanchored⟩ := Bool.and_eq_true_iff.mp hnamed
        have hnextAnchored := Disk.Anchored.of_isDirectory h.before hnext
        rw [mem_under_literal_iff hliteral] at hp ⊢
        obtain ⟨hleads, hp⟩ := hp
        have hback : d.Anchored p ∧ p ∈ onward ⟨d, directoriesOnly⟩ n parts
            (child directory (String.ofList text)) := by
          cases n with
          | zero => simp [onward] at hp
          | succ n =>
            cases parts with
            | nil =>
              rw [onward_nil] at hp ⊢
              have hfound := Found.result_back h directoriesOnly hnextAnchored hp
              exact ⟨hfound.anchored, hfound.back hthere⟩
            | cons q parts =>
              rw [onward_cons] at hp ⊢
              exact mem_under_back directoriesOnly hparts hnextAnchored hanchored hp hthere
        have hslash := slash_not_mem_of_literal? hliteral hpart
        exact ⟨hback.1, hleads.back_of_isDirectory h hslash hdirectory hnext, hback.2⟩
      · cases hnamed

/-- Of what an anchored pattern stands for after a run, all that was there was found before. -/
theorem mem_expand_back {pattern : String} {found : List Path} {p : Path}
    (hanchored : isAnchored d pattern = true) (hfound : expand last pattern = .ok found)
    (hp : p ∈ found) (hthere : (d.get? (p.locationFrom (.ofLocation d.cwd))).isSome = true) :
    d.Anchored p ∧ ∃ was, expand d pattern = .ok was ∧ p ∈ was := by
  obtain ⟨hcompile, parts, hparts, rfl⟩ := expand_eq_ok_iff.mp hfound
  rw [isAnchored, hparts] at hanchored
  have horigin : d.Anchored (origin pattern) := by
    unfold origin
    split <;> exact .of_not_up (by decide)
  obtain ⟨hpAnchored, hback⟩ := Search.mem_under_back h _ (isSlashless_of_partsOf hparts) horigin
    hanchored hp hthere
  exact ⟨hpAnchored, _, expand_eq_ok_iff.mpr ⟨hcompile, parts, hparts, rfl⟩, hback⟩

/-- What a pattern stood for before a run it stands for afterwards. -/
theorem mem_expand_of_addsOutput {pattern : String} {was : List Path} {p : Path}
    (hwas : expand d pattern = .ok was) (hp : p ∈ was) :
    ∃ found, expand last pattern = .ok found ∧ p ∈ found := by
  obtain ⟨hcompile, parts, hparts, rfl⟩ := expand_eq_ok_iff.mp hwas
  obtain ⟨hunder, -⟩ := Search.mem_of_addsOutput h (pattern.toList.getLast? = some '/')
    (3 * (parts.length + Disk.pathLimit))
  exact ⟨_, expand_eq_ok_iff.mpr ⟨hcompile, parts, hparts, rfl⟩, hunder _ _ _ hp⟩

end Anchored

end Glob

end FetchClients
