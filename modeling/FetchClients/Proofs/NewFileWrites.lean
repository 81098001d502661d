/-
# Writing beside a new file

A run that writes its clients on a disk with one more file does the same, step by
step, unless a directory has to be made where the new file stands
(`writeClients_of_gainsFile`). Making a directory with all that lead to it needs the
most care: where the file stops the making at once, there was nothing before, and the
same making then went up the path. It found no place but that of the file, so it
either made a directory there or made none at all
(`Disk.GainsFile.makeChain_stopped`).

Key theorems: `Path.trimmedFields_parent?`, `Disk.resolve_append_error`,
`Disk.resolve_append_missing`, `Disk.GainsFile.makeChain_stopped`,
`Disk.GainsFile.makeChain`, `writeClients_of_gainsFile`.
-/
import FetchClients.Proofs.NewFile
import FetchClients.Proofs.Writing
import Mathlib.Data.List.Chain

namespace FetchClients

open Client (Generated)

namespace Path

/-- The fields of a parent open those of the path, and the last of these is not among them. -/
theorem trimmedFields_parent? {p q : Path} (h : p.parent? = some q) :
    (Disk.trimmedFields q).2 <+: (Disk.trimmedFields p).2.dropLast := by
  obtain ⟨before, last, hsplit, rfl, hslash, hhead⟩ := exists_of_parent? h
  obtain ⟨-, -, empties, hbody, hempties⟩ := Disk.trimmedFields_eq p
  -- `last` is a step, so it is not one of the empty fields at the end
  have hlast : last ≠ [] := by
    rintro rfl
    have hlength := congrArg List.length (fieldComponents_of_trimFields_eq hsplit)
    rw [fieldComponents_append_nil, List.length_append] at hlength
    simp at hlength
  have hopens : before ++ [last] <+: (Disk.trimmedFields p).2 ++ empties :=
    hbody ▸ hsplit ▸ trimFields_opens _ p.body.2
  have hshort : before.length < (Disk.trimmedFields p).2.length := by
    by_contra hlong
    have hget : ((Disk.trimmedFields p).2 ++ empties)[before.length]? = some last := by
      obtain ⟨more, hmore⟩ := hopens
      rw [← hmore]
      simp
    rw [List.getElem?_append_right (Nat.not_lt.mp hlong)] at hget
    exact hlast (hempties last (List.mem_of_getElem? hget))
  have hbefore : before <+: (Disk.trimmedFields p).2.dropLast := by
    refine List.prefix_of_prefix_length_le ((List.prefix_append before [last]).trans hopens)
      ((List.dropLast_prefix _).trans (List.prefix_append _ empties)) ?_
    rw [List.length_dropLast]
    omega
  refine List.IsPrefix.trans ?_ hbefore
  by_cases hnil : trimFields (!p.body.1) before = []
  · rw [hnil]
    cases p.body.1 <;> exact List.nil_prefix
  · obtain ⟨-, -, more, hparent, -⟩ :=
      Disk.trimmedFields_eq (ofFields p.body.1 (trimFields (!p.body.1) before))
    rw [body_ofFields hnil hslash hhead] at hparent
    exact List.IsPrefix.trans ⟨more, hparent.symm⟩ (trimFields_opens _ before)

/-- Each path before a path is the parent of the one that it stands behind. -/
theorem isChain_ancestorsUpTo : ∀ (n : Nat) (p : Path),
    (p.ancestorsUpTo n).IsChain fun p q => p.parent? = some q
  | 0, _ => .nil
  | n + 1, p => by
    unfold ancestorsUpTo
    split
    · rename_i parent hparent
      have ih := isChain_ancestorsUpTo n parent
      cases hmore : parent.ancestorsUpTo n with
      | nil => exact .singleton p
      | cons q more =>
        rw [hmore] at ih
        obtain rfl : q = parent := by
          cases n with
          | zero => cases hmore
          | succ n =>
            unfold ancestorsUpTo at hmore
            split at hmore <;> exact (List.cons.inj hmore).1.symm
        exact .cons_cons hparent ih
    · exact .singleton p

end Path

namespace Disk

/-! ### Following fields further -/

section Append

variable {d : Disk}

theorem resolveWith_append_error {x : Problem} {g : List Char} {more : List (List Char)}
    {jump : Location → List (List Char) → Except Problem Location}
    (hjump : ∀ start fs, jump start (fs ++ [[]]) = .error x →
      jump start (fs ++ g :: more) = .error x) :
    ∀ {start : Location} {fs : List (List Char)},
      d.resolveWith true jump start (fs ++ [[]]) = .error x →
      d.resolveWith true jump start (fs ++ g :: more) = .error x
  | start, [], h => by
    by_cases hstart : d.get? start = some .directory
    · rw [List.nil_append, resolveWith_cons _ hstart, if_pos (.inl rfl)] at h
      cases h
    · rw [List.nil_append, resolveWith_cons_of_ne _ hstart] at h ⊢
      exact h
  | start, f :: fs, h => by
    have ih := fun start => @resolveWith_append_error x g more jump hjump start fs
    rw [List.cons_append] at h ⊢
    by_cases hstart : d.get? start = some .directory
    · rw [resolveWith_cons _ hstart] at h ⊢
      by_cases hstay : f = [] ∨ f = ['.']
      · rw [if_pos hstay] at h ⊢
        exact ih _ h
      · rw [if_neg hstay] at h ⊢
        by_cases hup : f = ['.', '.']
        · rw [if_pos hup] at h ⊢
          exact ih _ h
        · rw [if_neg hup] at h ⊢
          by_cases hlong : nameLimit < (String.ofList f).utf8ByteSize
          · rw [if_pos hlong] at h ⊢
            exact h
          · rw [if_neg hlong] at h ⊢
            split at h
            · simp only [Bool.not_true, Bool.and_false, Bool.false_eq_true, if_false,
                ← List.append_assoc] at h ⊢
              exact hjump _ _ h
            · exact ih _ h
    · rw [resolveWith_cons_of_ne _ hstart] at h ⊢
      exact h

/-- What stops a path that ends with a slash stops every path that goes on behind it. -/
theorem resolve_append_error {x : Problem} {g : List Char} {more : List (List Char)} :
    ∀ {links : Nat} {start : Location} {fs : List (List Char)},
    d.resolve true links start (fs ++ [[]]) = .error x →
      d.resolve true links start (fs ++ g :: more) = .error x
  | 0, _, _, h => by
    rw [resolve_eq] at h ⊢
    exact @resolveWith_append_error _ x g more (d.jump true 0) (fun _ _ hjump => hjump) _ _ h
  | links + 1, _, _, h => by
    rw [resolve_eq] at h ⊢
    exact @resolveWith_append_error _ x g more _ (fun _ _ => @resolve_append_error x g more links _ _) _ _ h

/-- A path goes nowhere from a name at which nothing stands. -/
theorem resolve_append_missing {links : Nat} {start above : Location} {f : List Char}
    {fs more : List (List Char)} (h : d.Way true links start (fs ++ [[]]) above) (hf : NameField f)
    (hshort : (String.ofList f).utf8ByteSize ≤ nameLimit)
    (hnone : d.get? (above ++ [String.ofList f]) = none) (hmore : more ≠ []) :
    d.resolve true links start (fs ++ f :: more) = .error .missing := by
  have habove := h.directory_of_slash rfl
  refine (h.unslash rfl).resolve_append fun links => ?_
  obtain ⟨g, more, rfl⟩ := List.exists_cons_of_ne_nil hmore
  rw [resolve_down habove hf hshort (by simp [hnone]), resolve_eq,
    resolveWith_cons_of_ne _ (by simp [hnone]), if_pos hnone]

end Append

/-! ### New places -/

theorem Grown.keepsWays {paths : List Path} {d last : Disk} (h : Grown paths d last) :
    d.KeepsWays last := by
  induction h with
  | refl => exact .refl _
  | make _ hplace _ ih => exact (vacant_of_newPlace hplace).keepsWays.trans ih

theorem trimmedFields_of_body {p : Path} {before empties : List (List Char)} {name : List Char}
    (hbody : p.body.2 = before ++ name :: empties) (hempties : ∀ f ∈ empties, f = [])
    (hname : name ≠ []) : (trimmedFields p).2 = before ++ [name] := by
  have hfields : (trimmedFields p).2 = (p.body.2.reverse.dropWhile (· = [])).reverse := rfl
  rw [hfields, hbody, List.reverse_append, List.reverse_cons, List.append_assoc,
    List.dropWhile_append_of_pos fun f hf => by simpa using hempties f (List.mem_reverse.mp hf)]
  simp [hname]

/-- Where a new name cannot be made because its directory is not there, that is where the fields
before it lead. -/
theorem resolve_of_newPlace {d : Disk} {p : Path} {x : Problem} (h : d.newPlace p = .error x)
    (hreadable : Readable p.text) (hx : x = .missing ∨ x = .notDirectory) :
    (trimmedFields p).2 ≠ [] ∧
      d.resolve true linkLimit (p.base d.cwd) ((trimmedFields p).2.dropLast ++ [[]]) = .error x := by
  unfold newPlace at h
  rw [if_neg (by simpa using hreadable.no_zero), if_neg (by simpa using hreadable.ne_empty),
    if_neg (Nat.not_lt.mpr hreadable.short)] at h
  dsimp only at h
  split at h
  · obtain rfl := Except.error.inj h
    simp at hx
  · rename_i name hname
    split at h
    · rename_i problem hresolve
      obtain rfl := Except.error.inj h
      exact ⟨fun hnil => by simp [hnil] at hname, hresolve⟩
    · split at h
      · obtain rfl := Except.error.inj h
        simp at hx
      · split at h
        · obtain rfl := Except.error.inj h
          simp at hx
        · split at h
          · obtain rfl := Except.error.inj h
            simp at hx
          · cases h

theorem readable_of_newPlace {d : Disk} {p : Path} (h : d.newPlace p = .error .notDirectory) :
    Readable p.text := by
  unfold newPlace at h
  split at h
  · cases h
  · rename_i hzero
    split at h
    · cases h
    · rename_i hempty
      split at h
      · cases h
      · rename_i hlong
        exact ⟨by simpa using hzero, by simpa using hempty, Nat.not_lt.mp hlong⟩

/-- Nothing can be made above a path that is stopped, and what stops it is not that something is
missing there. -/
theorem newPlace_parent_of_stopped {e : Disk} {p q : Path} (hparent : p.parent? = some q)
    (hq : q.text ≠ "") (h : e.newPlace p = .error .notDirectory) :
    (∀ place, e.newPlace q ≠ .ok place) ∧ e.newPlace q ≠ .error .missing := by
  have hreadable := readable_of_newPlace h
  obtain ⟨-, hstopped⟩ := resolve_of_newPlace h hreadable (.inr rfl)
  have hbase : q.base e.cwd = p.base e.cwd := by
    rw [Path.base, Path.base, (Path.steps_parent? hparent).1]
  obtain ⟨junk, hjunk⟩ := Path.trimmedFields_parent? hparent
  rw [← hjunk, ← hbase] at hstopped
  refine ⟨fun place hplace => ?_, fun hmissing => ?_⟩
  · obtain ⟨-, before, name, empties, above, hbody, hempties, hname, hshort, hway, rfl, hnone⟩ :=
      newPlace_eq_ok hplace
    rw [trimmedFields_of_body hbody hempties hname.ne_nil, List.append_assoc, List.append_assoc,
      List.singleton_append, resolve_append_missing hway hname hshort hnone (by simp)] at hstopped
    cases hstopped
  · have hopens := Path.toList_parent? hparent
    obtain ⟨hne, hresolve⟩ :=
      resolve_of_newPlace hmissing (hreadable.of_opens hopens hq) (.inl rfl)
    rw [← List.dropLast_concat_getLast hne, List.append_assoc, List.append_assoc,
      List.singleton_append, resolve_append_error hresolve] at hstopped
    cases hstopped

/-! ### Directories on the way -/

section Chain

variable {d made : Disk} {p : Path} {parents : List Path} {place : Location} {problem : Problem}

theorem makeChain_singleton_of_ok (h : d.newPlace p = .ok place) :
    d.makeChain [p] = (d.put place .directory, none) := by
  simp [makeChain, makeDirectory, h, Except.map]

theorem makeChain_singleton_of_error (h : d.newPlace p = .error problem) :
    d.makeChain [p] =
      (d, if problem = .alreadyExists ∧ d.isDirectory p then none else some problem) := by
  cases problem <;> simp [makeChain, makeDirectory, h, Except.map]

/-- Nothing is made for a path unless it is missing. -/
theorem makeChain_cons_of_ne (h : d.newPlace p ≠ .error .missing) :
    d.makeChain (p :: parents) = d.makeChain [p] := by
  cases hplace : d.newPlace p with
  | ok place => simp [makeChain, makeDirectory, hplace, Except.map]
  | error problem =>
    cases problem <;> first
      | exact absurd hplace h
      | simp [makeChain, makeDirectory, hplace, Except.map]

theorem makeChain_cons_of_failed (h : d.newPlace p = .error .missing)
    (hparents : d.makeChain parents = (made, some problem)) :
    d.makeChain (p :: parents) = (made, some problem) := by
  simp [makeChain, makeDirectory, h, Except.map, hparents]

/-- A path that is missing is made after its parents. -/
theorem makeChain_cons_of_made (h : d.newPlace p = .error .missing)
    (hparents : d.makeChain parents = (made, none)) :
    d.makeChain (p :: parents) = made.makeChain [p] := by
  cases hplace : made.newPlace p with
  | ok place =>
    rw [makeChain_singleton_of_ok hplace]
    simp [makeChain, makeDirectory, h, Except.map, hparents, hplace]
  | error problem =>
    rw [makeChain_singleton_of_error hplace]
    simp [makeChain, makeDirectory, h, Except.map, hparents, hplace]

/-- What was made for the parents of a path stays. -/
theorem keepsWays_of_parents {last : Disk} {failed problem : Option Problem}
    (h : d.newPlace p = .error .missing) (hparents : d.makeChain parents = (made, failed))
    (hmake : d.makeChain (p :: parents) = (last, problem)) : made.KeepsWays last := by
  cases failed with
  | some x =>
    rw [makeChain_cons_of_failed h hparents] at hmake
    rw [(Prod.mk.inj hmake).1]
    exact .refl _
  | none =>
    rw [makeChain_cons_of_made h hparents] at hmake
    exact (grown_makeChain hmake).keepsWays

end Chain

namespace GainsFile

variable {d e : Disk} {place : Location} {contents : Option String}

/-- What is put anywhere but in the place of the new file leaves it new. -/
theorem put (h : d.GainsFile e place contents) {q : Location} (hne : q ≠ []) (hq : q ≠ place)
    (entry : Entry) : (d.put q entry).GainsFile (e.put q entry) place contents where
  cwd := h.cwd
  other r hr := by
    by_cases heq : r = q
    · rw [heq, get?_put_self hne, get?_put_self hne]
    · rw [get?_put_of_ne heq, get?_put_of_ne heq, h.other r hr]
  file := by
    rw [get?_put_of_ne (Ne.symm hq), get?_put_of_ne (Ne.symm hq)]
    exact h.file

/-- A new name is made in the same place, or its directory is stopped, or its place is taken by the
new file. -/
theorem newPlace (h : d.GainsFile e place contents) (p : Path) :
    SameOrStopped (d.newPlace p) (e.newPlace p) ∨
      d.newPlace p = .ok place ∧ e.newPlace p = .error .alreadyExists := by
  unfold Disk.newPlace
  rw [h.cwd]
  split
  · exact .inl .same
  · split
    · exact .inl .same
    · split
      · exact .inl .same
      · dsimp only
        split
        · exact .inl .same
        · rename_i name _
          have hresolve := h.resolve true linkLimit
            (if (trimmedFields p).1 = true then [] else d.cwd)
            ((trimmedFields p).2.dropLast ++ [[]])
          generalize d.resolve true linkLimit (if (trimmedFields p).1 = true then [] else d.cwd)
            ((trimmedFields p).2.dropLast ++ [[]]) = x at hresolve ⊢
          generalize e.resolve true linkLimit (if (trimmedFields p).1 = true then [] else d.cwd)
            ((trimmedFields p).2.dropLast ++ [[]]) = y at hresolve ⊢
          cases hresolve with
          | stopped => exact .inl .stopped
          | same =>
            cases x with
            | error problem => exact .inl .same
            | ok above =>
              dsimp only
              split
              · exact .inl .same
              · split
                · exact .inl .same
                · by_cases heq : above ++ [String.ofList name] = place
                  · rw [heq]
                    rcases h.file with ⟨hold, hnew⟩ | ⟨text, hold, hnew⟩
                    · exact .inr (by simp [hold, hnew])
                    · rw [hold, hnew]
                      exact .inl .same
                  · rw [h.other _ heq]
                    exact .inl .same

/-- Where the making of a directory is stopped by the new file, it was in vain before: it went up the
path, and found no place on the way but that of the file. -/
theorem makeChain_stopped (h : d.GainsFile e place contents) : ∀ {parents : List Path} {p : Path}
    {last : Disk} {problem : Option Problem},
    (p :: parents).IsChain (fun p q => p.parent? = some q) → (∀ q ∈ parents, q.text ≠ "") →
    d.newPlace p = .error .missing → e.newPlace p = .error .notDirectory →
    d.makeChain (p :: parents) = (last, problem) → last.get? place ≠ some .directory →
      last = d ∧ problem.isSome = true
  | [], p, last, problem, _, _, hmissing, _, hmake, _ => by
    rw [makeChain_singleton_of_error hmissing] at hmake
    obtain ⟨rfl, rfl⟩ := Prod.mk.inj hmake
    exact ⟨rfl, by simp⟩
  | q :: parents, p, last, problem, hchain, hne, hmissing, hstopped, hmake, hlast => by
    obtain ⟨hparent, hrest⟩ := List.isChain_cons_cons.mp hchain
    obtain ⟨hqne, hne⟩ := List.forall_mem_cons.mp hne
    obtain ⟨hnothing, hthere⟩ := newPlace_parent_of_stopped hparent hqne hstopped
    cases hparents : d.makeChain (q :: parents) with
    | mk made failed =>
    have hmade : made.get? place ≠ some .directory := fun hget =>
      hlast ((keepsWays_of_parents hmissing hparents hmake).directory _ hget)
    have hback : made = d := by
      rcases h.newPlace q with hsame | ⟨hok, -⟩
      · cases hq : d.newPlace q with
        | ok r => exact absurd (hsame.eq_ok_iff.mpr hq) (hnothing r)
        | error x =>
          by_cases hx : x = .missing
          · subst hx
            have heq : e.newPlace q = .error .notDirectory := by
              rw [hq] at hsame
              generalize e.newPlace q = y at hsame hthere
              cases hsame with
              | same => exact absurd rfl hthere
              | stopped => rfl
            exact (makeChain_stopped h hrest hne hq heq hparents hmade).1
          · rw [makeChain_cons_of_ne (by simp [hq, hx]), makeChain_singleton_of_error hq] at hparents
            exact (Prod.mk.inj hparents).1.symm
      · rw [makeChain_cons_of_ne (by simp [hok]), makeChain_singleton_of_ok hok] at hparents
        rw [← (Prod.mk.inj hparents).1] at hmade
        exact absurd (get?_put_self (vacant_of_newPlace hok).ne_nil) hmade
    subst hback
    cases failed with
    | some x =>
      rw [makeChain_cons_of_failed hmissing hparents] at hmake
      obtain ⟨rfl, rfl⟩ := Prod.mk.inj hmake
      exact ⟨rfl, rfl⟩
    | none =>
      rw [makeChain_cons_of_made hmissing hparents, makeChain_singleton_of_error hmissing] at hmake
      obtain ⟨rfl, rfl⟩ := Prod.mk.inj hmake
      exact ⟨rfl, by simp⟩

/-- A directory is made alike if it is not the new file. -/
theorem makeChain_singleton (h : d.GainsFile e place contents) {p : Path} {last : Disk}
    {problem : Option Problem} (hmake : d.makeChain [p] = (last, problem))
    (hlast : last.get? place ≠ some .directory) : ∃ last' problem',
      e.makeChain [p] = (last', problem') ∧ last.GainsFile last' place contents ∧
        problem'.isSome = problem.isSome := by
  rcases h.newPlace p with hsame | ⟨hok, -⟩
  · cases hd : d.newPlace p with
    | ok q =>
      have he := hsame.eq_ok_iff.mpr hd
      have hvacant := vacant_of_newPlace he
      have hq : q ≠ place := by
        rintro rfl
        obtain ⟨text, hfile⟩ := h.get?_place
        rw [hvacant.nothing] at hfile
        cases hfile
      rw [makeChain_singleton_of_ok hd] at hmake
      obtain ⟨rfl, rfl⟩ := Prod.mk.inj hmake
      exact ⟨_, _, makeChain_singleton_of_ok he, h.put hvacant.ne_nil hq _, rfl⟩
    | error x =>
      rw [makeChain_singleton_of_error hd] at hmake
      obtain ⟨rfl, rfl⟩ := Prod.mk.inj hmake
      by_cases hx : x = .missing
      · subst hx
        rw [hd] at hsame
        cases he : e.newPlace p with
        | ok q => rw [he] at hsame; cases hsame
        | error y =>
          have hy : y ≠ .alreadyExists := by
            rintro rfl
            rw [he] at hsame
            cases hsame
          exact ⟨_, _, makeChain_singleton_of_error he, h, by simp [hy]⟩
      · rw [hd] at hsame
        exact ⟨_, _, makeChain_singleton_of_error (hsame.eq_of_ne (by simpa using hx)), h,
          by rw [h.isDirectory]⟩
  · rw [makeChain_singleton_of_ok hok] at hmake
    rw [← (Prod.mk.inj hmake).1] at hlast
    exact absurd (get?_put_self (vacant_of_newPlace hok).ne_nil) hlast

/-- A directory with all that lead to it is made alike, unless one of them is the new file. -/
theorem makeChain : ∀ {paths : List Path} {d e last : Disk} {problem : Option Problem},
    d.GainsFile e place contents → paths.IsChain (fun p q => p.parent? = some q) →
    (∀ q ∈ paths, q.text ≠ "") → d.makeChain paths = (last, problem) →
    last.get? place ≠ some .directory → ∃ last' problem',
      e.makeChain paths = (last', problem') ∧ last.GainsFile last' place contents ∧
        problem'.isSome = problem.isSome
  | [], d, e, last, problem, h, _, _, hmake, _ => by
    cases hmake
    exact ⟨e, none, rfl, h, rfl⟩
  | p :: parents, d, e, last, problem, h, hchain, hne, hmake, hlast => by
    have hrest : parents.IsChain fun p q => p.parent? = some q := hchain.tail
    have hneRest := (List.forall_mem_cons.mp hne).2
    by_cases hd : d.newPlace p = .error .missing
    · rcases h.newPlace p with hsame | ⟨hok, -⟩
      · rw [hd] at hsame
        generalize he : e.newPlace p = y at hsame
        cases hsame with
        | stopped =>
          obtain ⟨rfl, hfailed⟩ := h.makeChain_stopped hchain hneRest hd he hmake hlast
          rw [makeChain_cons_of_ne (by simp [he]), makeChain_singleton_of_error he]
          exact ⟨_, _, rfl, h, by simp [hfailed]⟩
        | same =>
          cases hparents : d.makeChain parents with
          | mk made failed =>
          have hmade : made.get? place ≠ some .directory := fun hget =>
            hlast ((keepsWays_of_parents hd hparents hmake).directory _ hget)
          obtain ⟨made', failed', hparents', hgains, hfailed⟩ :=
            makeChain h hrest hneRest hparents hmade
          cases failed with
          | some x =>
            obtain ⟨y, rfl⟩ := Option.isSome_iff_exists.mp hfailed
            rw [makeChain_cons_of_failed hd hparents] at hmake
            obtain ⟨rfl, rfl⟩ := Prod.mk.inj hmake
            exact ⟨_, _, makeChain_cons_of_failed he hparents', hgains, rfl⟩
          | none =>
            obtain rfl : failed' = none := by simpa using hfailed
            rw [makeChain_cons_of_made hd hparents] at hmake
            rw [makeChain_cons_of_made he hparents']
            exact hgains.makeChain_singleton hmake hlast
      · rw [hd] at hok
        cases hok
    · have he : e.newPlace p ≠ .error .missing := by
        rcases h.newPlace p with hsame | ⟨-, hexists⟩
        · rwa [hsame.eq_of_ne hd]
        · simp [hexists]
      rw [makeChain_cons_of_ne hd] at hmake
      rw [makeChain_cons_of_ne he]
      exact h.makeChain_singleton hmake hlast

theorem makeDirectories (h : d.GainsFile e place contents) {p : Path} {last : Disk}
    {problem : Option Problem} (hmake : d.makeDirectories p = (last, problem))
    (hlast : last.get? place ≠ some .directory) : ∃ last' problem',
      e.makeDirectories p = (last', problem') ∧ last.GainsFile last' place contents ∧
        problem'.isSome = problem.isSome := by
  refine h.makeChain ?_ (fun q hq => ?_) hmake hlast
  · have hchain : p.ancestors.IsChain fun p q => p.parent? = some q := Path.isChain_ancestorsUpTo _ p
    rw [← List.takeWhile_append_dropWhile (l := p.ancestors)] at hchain
    exact hchain.left_of_append
  · have hkept := List.mem_takeWhile_imp hq
    simp only [Bool.and_eq_true, Bool.not_eq_true', String.isEmpty_eq_false_iff] at hkept
    exact hkept.1

/-- A text is written alike, also to the new file. -/
theorem writeFile (h : d.GainsFile e place contents) {p : Path} {text : Option String} :
    (∃ last last', d.writeFile p text = .ok last ∧ e.writeFile p text = .ok last' ∧
      last.GainsFile last' place contents) ∨
    ∃ x y, d.writeFile p text = .error x ∧ e.writeFile p text = .error y := by
  cases hd : d.locate true p with
  | error x =>
    cases he : e.locate true p with
    | ok q =>
      rw [h.locate_iff, hd] at he
      cases he
    | error y => exact .inr ⟨x, y, by rw [Disk.writeFile, hd], by rw [Disk.writeFile, he]⟩
  | ok q =>
    have he := h.locate_iff.mpr hd
    rw [Disk.writeFile, Disk.writeFile, hd, he]
    dsimp only
    by_cases hdirectory : d.get? q = some .directory
    · rw [if_pos hdirectory, if_pos (h.directory_iff.mpr hdirectory)]
      exact .inr ⟨_, _, rfl, rfl⟩
    · rw [if_neg hdirectory, if_neg (h.directory_iff.not.mpr hdirectory)]
      refine .inl ⟨_, _, rfl, rfl, ?_⟩
      have hne : q ≠ [] := fun heq => hdirectory (by simp [heq, get?])
      by_cases hq : q = place
      · subst hq
        refine ⟨h.cwd, fun r hr => ?_, .inr ⟨text, get?_put_self hne, get?_put_self hne⟩⟩
        rw [get?_put_of_ne hr, get?_put_of_ne hr, h.other r hr]
      · exact h.put hne hq _

end GainsFile

end Disk

/-! ### Clients -/

open Disk

variable {place : Location} {contents : Option String}

/-- No directory is lost when a text is written. -/
theorem Disk.directory_of_writeFile {d last : Disk} {p : Path} {text : Option String}
    (h : d.writeFile p text = .ok last) {q : Location} (hq : d.get? q = some .directory) :
    last.get? q = some .directory := by
  unfold Disk.writeFile at h
  split at h
  · cases h
  · rename_i target _
    split at h
    · cases h
    · rename_i hfree
      cases h
      rwa [get?_put_of_ne fun heq : q = target => hfree (heq ▸ hq)]

/-- Once its directories are made, none is lost when a client is written. -/
theorem Client.Generated.directory_of_write {d made last : Disk} {client : Generated}
    {problem : Option Problem} {fault : Option WriteFault}
    (hmake : d.makeDirectories (client.path.parent?.getD ⟨""⟩) = (made, problem))
    (hwrite : client.write d = (last, fault)) {q : Location} (hq : made.get? q = some .directory) :
    last.get? q = some .directory := by
  unfold Client.Generated.write at hwrite
  dsimp only at hwrite
  rw [hmake] at hwrite
  split at hwrite
  · rename_i stopped _ heq
    cases hwrite
    rwa [← (Prod.mk.inj heq).1]
  · rename_i ready heq
    obtain ⟨rfl, -⟩ := Prod.mk.inj heq
    split at hwrite
    · cases hwrite
      exact hq
    · rename_i final hfinal
      cases hwrite
      exact directory_of_writeFile hfinal hq

theorem directory_of_writeClients {q : Location} : ∀ {clients : List Generated} {d last : Disk}
    {fault : Option WriteFault}, writeClients d clients = (last, fault) →
    d.get? q = some .directory → last.get? q = some .directory
  | [], d, last, fault, h, hq => by
    cases h
    exact hq
  | client :: clients, d, last, fault, h, hq => by
    cases hmake : d.makeDirectories (client.path.parent?.getD ⟨""⟩) with
    | mk made problem =>
    have hmade := (grown_makeDirectories hmake).keepsWays.directory q hq
    unfold writeClients at h
    split at h
    · rename_i next failed hwrite
      cases h
      exact client.directory_of_write hmake hwrite hmade
    · rename_i next hwrite
      exact directory_of_writeClients h (client.directory_of_write hmake hwrite hmade)

/-- A client is written alike. -/
theorem Client.Generated.write_of_gainsFile {d e last : Disk} (h : d.GainsFile e place contents)
    {client : Generated} {fault : Option WriteFault} (hwrite : client.write d = (last, fault))
    (hlast : last.get? place ≠ some .directory) : ∃ last' fault',
      client.write e = (last', fault') ∧ last.GainsFile last' place contents ∧
        fault'.isSome = fault.isSome := by
  cases hmake : d.makeDirectories (client.path.parent?.getD ⟨""⟩) with
  | mk made problem =>
  obtain ⟨made', problem', hmake', hgains, hproblem⟩ := h.makeDirectories hmake fun hget =>
    hlast (client.directory_of_write hmake hwrite hget)
  unfold Client.Generated.write at hwrite ⊢
  dsimp only at hwrite ⊢
  rw [hmake] at hwrite
  rw [hmake']
  cases problem with
  | some x =>
    obtain ⟨rfl, rfl⟩ := Prod.mk.inj hwrite
    obtain ⟨y, rfl⟩ := Option.isSome_iff_exists.mp hproblem
    exact ⟨_, _, rfl, hgains, rfl⟩
  | none =>
    obtain rfl : problem' = none := by simpa using hproblem
    dsimp only at hwrite ⊢
    rcases @GainsFile.writeFile _ _ _ _ hgains client.path (some client.contents) with
      ⟨next, next', hnext, hnext', hgains'⟩ | ⟨x, y, hx, hy⟩
    · rw [hnext] at hwrite
      rw [hnext']
      obtain ⟨rfl, rfl⟩ := Prod.mk.inj hwrite
      exact ⟨_, _, rfl, hgains', rfl⟩
    · rw [hx] at hwrite
      rw [hy]
      obtain ⟨rfl, rfl⟩ := Prod.mk.inj hwrite
      exact ⟨_, _, rfl, hgains, rfl⟩

/-- Clients are written alike on a disk with one more file, if the writing leaves no directory where
the file stands: up to the same client, and with the same contents. -/
theorem writeClients_of_gainsFile : ∀ {clients : List Generated} {d e last : Disk}
    {fault : Option WriteFault}, d.GainsFile e place contents →
    writeClients d clients = (last, fault) → last.get? place ≠ some .directory →
    ∃ last' fault', writeClients e clients = (last', fault') ∧
      last.GainsFile last' place contents ∧ fault'.isSome = fault.isSome
  | [], d, e, last, fault, h, hwrite, _ => by
    cases hwrite
    exact ⟨e, none, rfl, h, rfl⟩
  | client :: clients, d, e, last, fault, h, hwrites, hlast => by
    unfold writeClients at hwrites ⊢
    split at hwrites
    · rename_i next failed hwrite
      cases hwrites
      obtain ⟨next', failed', hwrite', hgains, hfailed⟩ := client.write_of_gainsFile h hwrite hlast
      obtain ⟨y, rfl⟩ := Option.isSome_iff_exists.mp hfailed
      rw [hwrite']
      exact ⟨_, _, rfl, hgains, rfl⟩
    · rename_i next hwrite
      obtain ⟨next', failed', hwrite', hgains, hfailed⟩ := client.write_of_gainsFile h hwrite
        fun hget => hlast (directory_of_writeClients hwrites hget)
      obtain rfl : failed' = none := by simpa using hfailed
      rw [hwrite']
      exact writeClients_of_gainsFile hgains hwrites hlast

end FetchClients
