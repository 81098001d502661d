/-
# Writing the same clients again

A directory that is there is not made again (`Disk.makeDirectories_of_isDirectory`), and a
file that is there is written over, so clients that have all been written can be written
again, and only contents of their files change on the way (`exists_writeClients_again`).
What stands at the place of a client in the end is what the last client with that place
has put there (`AllWritten.get?_of_last`). Both writings end with the same files
(`writeClients_again`).

Key theorems: `Disk.newPlace_of_isDirectory`, `Client.Generated.write_again`,
`AllWritten.get?_of_last`, `writeClients_again`.
-/
import FetchClients.Proofs.Shapes
import FetchClients.Proofs.Untouched

namespace FetchClients

open Client (Generated)

/-- Empty fields are no steps. -/
theorem Path.fieldComponents_empties (opening : Bool) : ∀ {empties : List (List Char)},
    (∀ f ∈ empties, f = []) → fieldComponents opening empties = []
  | [], _ => rfl
  | f :: empties, h => by
    obtain ⟨rfl, hrest⟩ := List.forall_mem_cons.mp h
    simp [fieldComponents, fieldNames, fieldComponents_empties false hrest]

namespace Disk

/-! ### Directories that are there -/

section Tree

variable {d : Disk} (h : d.IsTree)
include h

/-- Wherever a path leads, everything before its last step is a directory. -/
theorem directory_of_resolve {links : Nat} : ∀ (opening : Bool) {place target : Location}
    {fs : List (List Char)}, d.resolve true links place fs = .ok target →
    ∀ cs, cs <+: Path.fieldComponents opening fs → cs ≠ Path.fieldComponents opening fs →
      d.get? (Path.fold place cs) = some .directory
  | _, _, _, [], _, cs, hcs, hne => absurd (List.prefix_nil.mp hcs) hne
  | opening, place, target, f :: fs, hresolve, cs, hcs, hne => by
    obtain ⟨hplace, -, hrest⟩ := (resolve_cons_eq_ok_iff h).mp hresolve
    rcases fieldComponents_cons_cases opening place f fs with ⟨hcons, hfold⟩ | ⟨hskip, hstay⟩
    · rw [hcons] at hcs hne
      rcases List.prefix_cons_iff.mp hcs with rfl | ⟨more, rfl, hmore⟩
      · exact hplace
      · rw [hfold]
        refine directory_of_resolve false hrest more hmore fun heq => hne ?_
        rw [heq]
    · rw [hskip] at hcs hne
      rw [hstay] at hrest
      exact directory_of_resolve false hrest cs hcs hne

/-- The parent of a path that leads anywhere goes through directories only. -/
theorem passes_of_parent? {p q : Path} {place : Location} (hlocate : d.locate true p = .ok place)
    (hparent : p.parent? = some q) : d.Passes q := by
  obtain ⟨-, hresolve⟩ := locate_eq_ok_iff.mp hlocate
  obtain ⟨habs, last, hsteps⟩ := Path.steps_parent? hparent
  intro cs hcs
  rw [Path.base, habs]
  refine directory_of_resolve h (!p.body.1) hresolve cs ?_ fun heq => ?_
  · exact hcs.trans ⟨[last], hsteps.symm⟩
  · have hlength := hcs.length_le
    rw [heq, ← Path.steps_eq, hsteps, List.length_append, List.length_singleton] at hlength
    omega

theorem isDirectory_of_parent? {p q : Path} {place : Location}
    (hlocate : d.locate true p = .ok place) (hparent : p.parent? = some q) (hne : q.text ≠ "") :
    d.isDirectory q = true := by
  obtain ⟨hreadable, -⟩ := locate_eq_ok_iff.mp hlocate
  exact (isDirectory_iff h).mpr ⟨hreadable.of_opens (Path.toList_parent? hparent) hne,
    passes_of_parent? h hlocate hparent⟩

/-- A directory that is there cannot be made. -/
theorem newPlace_of_isDirectory {p : Path} (hdirectory : d.isDirectory p = true) :
    d.newPlace p = .error .alreadyExists := by
  obtain ⟨place, hlookup⟩ := isDirectory_eq_true_iff.mp hdirectory
  obtain ⟨hlocate, hget⟩ := lookup_eq_ok_iff.mp hlookup
  obtain ⟨hreadable, hresolve⟩ := locate_eq_ok_iff.mp hlocate
  obtain ⟨hrooted, hnotEmpty, empties, hbody, hempties⟩ := trimmedFields_eq p
  have hstart : (if (trimmedFields p).1 = true then [] else d.cwd) = p.base d.cwd := by
    rw [hrooted, Path.base]
  unfold newPlace
  rw [if_neg (by simpa using hreadable.no_zero), if_neg (by simpa using hreadable.ne_empty),
    if_neg (Nat.not_lt.mpr hreadable.short)]
  dsimp only
  rw [hstart]
  cases hlast : (trimmedFields p).2.getLast? with
  | none => rfl
  | some name =>
    have hsplit : (trimmedFields p).2 = (trimmedFields p).2.dropLast ++ [name] :=
      (List.dropLast_append_getLast? name hlast).symm
    rw [hbody, hsplit, List.append_assoc, List.singleton_append, resolve_append_eq_ok_iff h]
      at hresolve
    obtain ⟨above, habove, hname⟩ := hresolve
    obtain ⟨haboveDirectory, hshort, hrest⟩ := (resolve_cons_eq_ok_iff h).mp hname
    have hslash : d.resolve true linkLimit (p.base d.cwd) ((trimmedFields p).2.dropLast ++ [[]]) =
        .ok above := by
      refine (resolve_append_eq_ok_iff h).mpr ⟨above, habove, ?_⟩
      exact (resolve_cons_eq_ok_iff h).mpr ⟨haboveDirectory, by decide, resolve_nil ..⟩
    dsimp only
    rw [hslash]
    dsimp only
    split
    · rfl
    · rename_i hdots
      obtain ⟨hhere, hup⟩ := not_or.mp hdots
      have hne : name ≠ [] := fun he => hnotEmpty (he ▸ hlast)
      have halong : along above name = above ++ [String.ofList name] := by
        simp [along, hne, Path.componentOf, hhere, hup, Path.step]
      have htarget : along above name = place := by
        have hfold : Path.fold (along above name) (Path.fieldComponents false empties) = place :=
          fold_of_resolve h hrest
        rwa [Path.fieldComponents_empties false hempties] at hfold
      rw [if_neg (Nat.not_lt.mpr hshort), if_pos (by simp [← halong, htarget, hget])]

/-- Where a directory is there, nothing is made for it. -/
theorem makeDirectories_of_isDirectory {p : Path} (hdirectory : p.text ≠ "" → d.isDirectory p = true) :
    d.makeDirectories p = (d, none) := by
  have hopens : (p.ancestors.takeWhile fun q => !q.text.isEmpty && q.parent?.isSome) = [] ∨
      p.text ≠ "" ∧ ∃ parents,
        (p.ancestors.takeWhile fun q => !q.text.isEmpty && q.parent?.isSome) = p :: parents := by
    unfold Path.ancestors Path.ancestorsUpTo
    by_cases hp : (!p.text.isEmpty && p.parent?.isSome) = true
    · have hne : p.text ≠ "" := by simpa using (Bool.and_eq_true_iff.mp hp).1
      refine .inr ⟨hne, ?_⟩
      split <;> exact ⟨_, List.takeWhile_cons_of_pos hp⟩
    · refine .inl ?_
      split <;> exact List.takeWhile_cons_of_neg hp
  unfold makeDirectories
  rcases hopens with hnil | ⟨hne, parents, hcons⟩
  · rw [hnil]
    rfl
  · have hthere := hdirectory hne
    rw [hcons, makeChain, makeDirectory, newPlace_of_isDirectory h hthere]
    simp [Except.map, hthere]

end Tree

/-! ### Files that are there -/

namespace SameShape

theorem refl (d : Disk) : d.SameShape d := ⟨rfl, fun _ => .inl rfl⟩

theorem trans {d mid e : Disk} (h : d.SameShape mid) (h' : mid.SameShape e) : d.SameShape e where
  cwd := h'.cwd.trans h.cwd
  entry place := by
    rcases h.entry place with hsame | ⟨a, b, ha, hb⟩
    · rcases h'.entry place with hsame' | ⟨a, b, ha, hb⟩
      · exact .inl (hsame'.trans hsame)
      · exact .inr ⟨a, b, hsame ▸ ha, hb⟩
    · rcases h'.entry place with hsame' | ⟨_, c, -, hc⟩
      · exact .inr ⟨a, b, ha, hsame'.trans hb⟩
      · exact .inr ⟨a, c, ha, hc⟩

/-- A file that is written over keeps the shape. -/
theorem put {d : Disk} {place : Location} {a : Option String}
    (h : d.get? place = some (.file a)) (b : Option String) : d.SameShape (d.put place (.file b)) where
  cwd := rfl
  entry other := by
    by_cases heq : other = place
    · subst heq
      have hne : other ≠ [] := fun hnil => by simp [hnil, get?] at h
      exact .inr ⟨a, b, h, get?_put_self hne⟩
    · exact .inl (get?_put_of_ne heq)

end SameShape

end Disk

/-! ### Clients that are there -/

/-- Whether a client has a file. -/
def Client.Generated.IsThere (d : Disk) (client : Generated) : Prop :=
  ∃ place contents, d.locate true client.path = .ok place ∧ d.get? place = some (.file contents)

theorem Client.Generated.IsThere.congr {d e : Disk} {client : Generated} (h : client.IsThere d)
    (hshape : d.SameShape e) : client.IsThere e := by
  obtain ⟨place, contents, hlocate, hget⟩ := h
  rcases hshape.entry place with hsame | ⟨a, b, -, hb⟩
  · exact ⟨place, contents, (hshape.locate true _).trans hlocate, hsame.trans hget⟩
  · exact ⟨place, b, (hshape.locate true _).trans hlocate, hb⟩

/-- A client that has a file is written over it, and nothing else changes. -/
theorem Client.Generated.write_again {d : Disk} (htree : d.IsTree) {client : Generated}
    (h : client.IsThere d) : ∃ next, client.write d = (next, none) ∧ d.SameShape next := by
  obtain ⟨place, contents, hlocate, hget⟩ := h
  have hdirectories : d.makeDirectories (client.path.parent?.getD ⟨""⟩) = (d, none) := by
    refine Disk.makeDirectories_of_isDirectory htree fun hne => ?_
    cases hparent : client.path.parent? with
    | none => simp [hparent] at hne
    | some parent =>
      rw [hparent] at hne
      exact Disk.isDirectory_of_parent? htree hlocate hparent hne
  have hfile : d.writeFile client.path (some client.contents) =
      .ok (d.put place (.file (some client.contents))) := by
    rw [Disk.writeFile, hlocate]
    simp [hget]
  refine ⟨d.put place (.file (some client.contents)), ?_, .put hget _⟩
  unfold write
  dsimp only
  rw [hdirectories]
  dsimp only
  rw [hfile]

/-- Clients that all have files can all be written again. -/
theorem exists_writeClients_again : ∀ {clients : List Generated} {d : Disk}, d.IsTree →
    (∀ client ∈ clients, client.IsThere d) →
      ∃ again, writeClients d clients = (again, none) ∧ d.SameShape again
  | [], d, _, _ => ⟨d, rfl, .refl d⟩
  | client :: clients, d, htree, hthere => by
    obtain ⟨hclient, hclients⟩ := List.forall_mem_cons.mp hthere
    obtain ⟨next, hwrite, hnext⟩ := client.write_again htree hclient
    obtain ⟨again, hagain, hshape⟩ := exists_writeClients_again
      ((written_of_write hwrite).isTree htree) fun other hother => (hclients other hother).congr hnext
    refine ⟨again, ?_, hnext.trans hshape⟩
    unfold writeClients
    rw [hwrite]
    exact hagain

/-! ### The last client with a place -/

theorem Written.isThere {d last : Disk} {client : Generated} (h : Written d client last)
    (hrooted : d.Rooted) : ∃ place, last.locate true client.path = .ok place ∧
      last.get? place = some (.file (some client.contents)) := by
  cases h with
  | @file made place hmade hplace hfree =>
    have hgrown := hmade.changedBy hrooted [client]
    have hne : place ≠ [] := fun he => hfree (by simp [he, Disk.get?])
    have hkeeps := (Disk.changedBy_put_file hgrown.rooted hplace hfree).toKeepsWays
    exact ⟨place, Disk.locate_keep hkeeps hplace, Disk.get?_put_self hne⟩

/-- Later clients leave the file of a client a file, and change it only if they have its place. -/
theorem AllWritten.get?_file {d last : Disk} {clients : List Generated}
    (h : AllWritten d clients last) (hrooted : d.Rooted) {place : Location}
    {contents : Option String} (hfile : d.get? place = some (.file contents)) :
    (∃ now, last.get? place = some (.file now)) ∧
      ((∀ client ∈ clients, last.locate true client.path ≠ .ok place) →
        last.get? place = some (.file contents)) := by
  rcases (h.changedBy hrooted).change place with
    hsame | ⟨client, hclient, hlocate, hnow⟩ | ⟨hnone, -⟩
  · exact ⟨⟨contents, hsame.trans hfile⟩, fun _ => hsame.trans hfile⟩
  · exact ⟨⟨_, hnow⟩, fun hothers => absurd hlocate (hothers client hclient)⟩
  · rw [hfile] at hnone
    cases hnone

theorem AllWritten.isThere {d last : Disk} {clients : List Generated}
    (h : AllWritten d clients last) (hrooted : d.Rooted) :
    ∀ client ∈ clients, client.IsThere last := by
  induction h with
  | nil => simp
  | @cons d client next clients last hwrite hrest ih =>
    have hnext := (hwrite.changedBy hrooted).rooted
    refine List.forall_mem_cons.mpr ⟨?_, ih hnext⟩
    obtain ⟨place, hlocate, hfile⟩ := hwrite.isThere hrooted
    obtain ⟨⟨now, hnow⟩, -⟩ := hrest.get?_file hnext hfile
    exact ⟨place, now, Disk.locate_keep (hrest.changedBy hnext).toKeepsWays hlocate, hnow⟩

/-- The last client with a place decides what stands there. -/
theorem AllWritten.get?_of_last {d last : Disk} {clients : List Generated}
    (h : AllWritten d clients last) (hrooted : d.Rooted) {place : Location} :
    ∀ {before : List Generated} {client : Generated} {after : List Generated},
      clients = before ++ client :: after → last.locate true client.path = .ok place →
      (∀ other ∈ after, last.locate true other.path ≠ .ok place) →
        last.get? place = some (.file (some client.contents)) := by
  induction h with
  | nil => intro before client after heq; simp at heq
  | @cons d first next clients last hwrite hrest ih =>
    have hnext := (hwrite.changedBy hrooted).rooted
    intro before client after heq hlocate hafter
    cases before with
    | nil =>
      obtain ⟨rfl, rfl⟩ := List.cons.inj heq
      obtain ⟨placed, hplaced, hfile⟩ := hwrite.isThere hrooted
      have hkept := Disk.locate_keep (hrest.changedBy hnext).toKeepsWays hplaced
      obtain rfl := Except.ok.inj (hkept.symm.trans hlocate)
      exact (hrest.get?_file hnext hfile).2 hafter
    | cons b before =>
      obtain ⟨-, hclients⟩ := List.cons.inj heq
      exact ih hnext hclients hlocate hafter

/-- Of the elements of a list with a property there is a last one. -/
theorem exists_last {α : Type} {p : α → Prop} : ∀ {xs : List α}, (∃ x ∈ xs, p x) →
    ∃ before x after, xs = before ++ x :: after ∧ p x ∧ ∀ y ∈ after, ¬ p y
  | [], h => by simp at h
  | x :: xs, h => by
    by_cases hlater : ∃ y ∈ xs, p y
    · obtain ⟨before, y, after, rfl, hy⟩ := exists_last hlater
      exact ⟨x :: before, y, after, rfl, hy⟩
    · have hx : p x := by
        obtain ⟨y, hy, hpy⟩ := h
        rcases List.mem_cons.mp hy with rfl | hy
        · exact hpy
        · exact absurd ⟨y, hy, hpy⟩ hlater
      exact ⟨[], x, xs, rfl, hx, fun y hy hpy => hlater ⟨y, hy, hpy⟩⟩

/-- Clients that were all written can be written again, and leave the disk as it is. -/
theorem writeClients_again {d last : Disk} {clients : List Generated} (htree : d.IsTree)
    (h : writeClients d clients = (last, none)) :
    ∃ again, writeClients last clients = (again, none) ∧ again.cwd = last.cwd ∧
      ∀ place, again.get? place = last.get? place := by
  have hfirst := writeClients_eq_none h
  have hlast := hfirst.isTree htree
  obtain ⟨again, hwrite, hshape⟩ :=
    exists_writeClients_again hlast (hfirst.isThere htree.rooted)
  have hsecond := writeClients_eq_none hwrite
  refine ⟨again, hwrite, hshape.cwd, fun place => ?_⟩
  rcases (hsecond.changedBy hlast.rooted).change place with
    hsame | ⟨client, hclient, hlocate, -⟩ | ⟨hnone, hmade, -⟩
  · exact hsame
  · -- the last client with this place has written the same both times
    obtain ⟨before, final, after, heq, hfinal, hafter⟩ :=
      exists_last (p := fun c => again.locate true c.path = .ok place) ⟨client, hclient, hlocate⟩
    have hagain := hsecond.get?_of_last hlast.rooted heq hfinal hafter
    rw [hshape.locate] at hfinal
    have hthen := hfirst.get?_of_last htree.rooted heq hfinal fun other hother hplace =>
      hafter other hother ((hshape.locate true _).trans hplace)
    exact hagain.trans hthen.symm
  · rcases hshape.entry place with hsame | ⟨a, b, ha, -⟩
    · exact hsame
    · rw [ha] at hnone
      cases hnone

end FetchClients
