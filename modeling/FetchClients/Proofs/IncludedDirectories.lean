/-
# The directories that a pattern below a base leads to

An include is compiled when the configuration is checked, but searched for together
with the base: the text of the base takes part in the pattern, and each part between two
slashes is compiled by itself. If the base has no wildcard, its parts stand for
themselves, and the roots of the include are the directories below the base at the
relative paths that the include stands for (`Glob.Matches`), as long as each of its parts
is a pattern (`Scan.findsBelow_iff`). If the base has one, even one that is part of the
name of a directory, the include can be passed over as no pattern at all
(`Scan.not_findsBelow_bracket`).

Key definitions: `Glob.IsPlain`, `Glob.losesHere`, `Glob.Matches`, `Scan.FindsBelow`.
Key theorems: `Glob.tokens_append`, `Glob.partsOf_eq`, `Scan.findsBelow_iff`.
-/
import FetchClients.Proofs.PatternSearch
import FetchClients.Proofs.Results

namespace FetchClients

/-! ### Paths as fields -/

namespace Path

theorem body_ne_of_relative {p : Path} (habs : p.isAbsolute = false) (hne : p.text ≠ "") :
    p.body.2.head? ≠ some [] := by
  intro hhead
  have hbody := ofFields_body p
  rw [habs, body_eq_of_head? habs hhead] at hbody
  exact hne (congrArg Path.text hbody.symm)

end Path

namespace Glob

/-! ### Texts without wildcards -/

/-- A text without wildcards. -/
def IsPlain (text : List Char) : Prop :=
  ∀ c ∈ text, c ≠ '*' ∧ c ≠ '?' ∧ c ≠ '['

instance (text : List Char) : Decidable (IsPlain text) :=
  List.decidableBAll _ text

theorem tokens_cons {c : Char} (hc : c ≠ '*' ∧ c ≠ '?' ∧ c ≠ '[') (atStart : Bool) (position : Nat)
    (cs : List Char) : tokens atStart position (c :: cs) =
      (tokens (c = '/') (position + 1) cs).map (.char c :: ·) := by
  obtain ⟨hstar, hquestion, hbracket⟩ := hc
  rw [tokens]
  all_goals simp_all

theorem map_map {α β γ : Type} (f : α → β) (g : β → γ) (result : Except Fault α) :
    (result.map f).map g = result.map (g ∘ f) := by
  cases result <;> rfl

theorem text_ne_empty_of_isGlob {text : String} (h : isGlob text = true) : text ≠ "" := by
  rintro rfl
  cases h

/-- A text without wildcards stands for itself in front of any pattern. -/
theorem tokens_append {front : List Char} (hplain : IsPlain front) (rest : List Char) :
    ∀ (atStart : Bool) (position : Nat), tokens atStart position (front ++ rest) =
      (tokens (if front = [] then atStart else front.getLast? = some '/') (position + front.length)
        rest).map (front.map .char ++ ·) := by
  induction front with
  | nil =>
    intro atStart position
    rw [if_pos rfl, List.nil_append, List.length_nil, Nat.add_zero]
    cases tokens atStart position rest <;> rfl
  | cons c front ih =>
    obtain ⟨hc, hfront⟩ := List.forall_mem_cons.mp hplain
    intro atStart position
    have hstart : (if front = [] then decide (c = '/') else decide (front.getLast? = some '/')) =
        decide ((c :: front).getLast? = some '/') := by
      cases front with
      | nil => simp
      | cons d front => simp [List.getLast?_cons_cons]
    rw [List.cons_append, tokens_cons hc, ih hfront, map_map, hstart, if_neg (List.cons_ne_nil _ _),
      List.length_cons, Nat.add_right_comm, Nat.add_assoc]
    rfl

theorem tokens_of_isPlain {text : List Char} (hplain : IsPlain text) (atStart : Bool)
    (position : Nat) : tokens atStart position text = .ok (text.map .char) := by
  have happend := tokens_append hplain [] atStart position
  rw [List.append_nil, tokens] at happend
  rw [happend]
  simp [Except.map]

/-- Where a pattern stands matters for the place of its fault only. -/
theorem tokens_toOption {atStart : Bool} {position : Nat} {text : List Char} : ∀ other : Nat,
    (tokens atStart other text).toOption = (tokens atStart position text).toOption := by
  fun_induction tokens atStart position text with
  | case1 => intro other; rw [tokens]
  | case2 atStart position cs ih =>
    intro other
    rw [tokens]
    exact toOption_map_congr _ (ih _)
  | case3 =>
    intro other
    rw [tokens]
    rfl
  | case4 atStart position cs hnot hstart =>
    intro other
    have herror : tokens atStart other ('*' :: '*' :: cs) = .error ⟨.partialFolders, other - 1⟩ := by
      rcases cs with _ | ⟨c, cs⟩
      · rw [tokens, if_pos hstart]
      · by_cases hc : c = '/'
        · rw [hc, tokens, if_pos hstart]
        · rw [tokens, if_pos hstart]
          all_goals simp_all
    rw [herror]
    rfl
  | case5 atStart position hstart =>
    intro other
    rw [tokens, if_neg hstart]
  | case6 atStart position hstart rest _ ih =>
    intro other
    rw [tokens, if_neg hstart]
    exact toOption_map_congr _ (ih _)
  | case7 atStart position cs hnot hstart hnil hslash =>
    intro other
    rw [tokens, if_neg hstart]
    · rfl
    · exact hnot
    · exact hnil
    · exact hslash
  | case8 atStart position cs hmany htwo ih =>
    intro other
    rw [tokens]
    · exact toOption_map_congr _ (ih _)
    · exact hmany
    · exact htwo
  | case9 atStart position cs t length hset ih =>
    intro other
    rw [tokens, hset]
    exact toOption_map_congr _ (ih _)
  | case10 atStart position cs hset =>
    intro other
    rw [tokens, hset]
    rfl
  | case11 atStart position c cs hquestion _ _ hstar hbracket ih =>
    intro other
    rw [tokens_cons ⟨hstar, hquestion, hbracket⟩]
    exact toOption_map_congr _ (ih _)

theorem ne_nil_of_tokens {atStart : Bool} {position : Nat} {text : List Char} {part : List Token}
    (h : tokens atStart position text = .ok part) (htext : text ≠ []) : part ≠ [] := by
  have hmap : ∀ {t : Token} {result : Except Fault (List Token)},
      result.map (t :: ·) = .ok part → part ≠ [] := by
    intro t result hresult
    obtain ⟨rest, -, rfl⟩ := map_eq_ok_iff.mp hresult
    exact List.cons_ne_nil t rest
  unfold tokens at h
  split at h
  · exact absurd rfl htext
  · exact hmap h
  · cases h
  · split at h
    · cases h
    · split at h
      · obtain rfl := Except.ok.inj h
        simp
      · exact hmap h
      · cases h
  · exact hmap h
  · split at h
    · exact hmap h
    · cases h
  · exact hmap h

/-! ### Patterns below a base without wildcards -/

/-- The parts of a pattern without wildcards. -/
def literals (fields : List (List Char)) : List (List Token) :=
  fields.map (·.map .char)

theorem compileParts_append {front : List (List Char)} (hplain : ∀ f ∈ front, IsPlain f)
    (rest : List (List Char)) : compileParts (front ++ rest) =
      (compileParts rest).map (literals front ++ ·) := by
  induction front with
  | nil => cases h : compileParts rest <;> simp [h, Except.map, literals]
  | cons f front ih =>
    obtain ⟨hf, hfront⟩ := List.forall_mem_cons.mp hplain
    rw [List.cons_append, compileParts, tokens_of_isPlain hf, ih hfront]
    cases compileParts rest <;> rfl

/-- The fields that a pattern is compiled by: those of its text, but for an empty one at its end. -/
def trimmed (fields : List (List Char)) : List (List Char) :=
  if fields.getLast? = some [] then fields.dropLast else fields

theorem trimmed_append {fields : List (List Char)} (h : fields ≠ []) (front : List (List Char)) :
    trimmed (front ++ fields) = front ++ trimmed fields := by
  unfold trimmed
  rw [List.getLast?_append_of_ne_nil _ h, List.dropLast_append_of_ne_nil h]
  split <;> rfl

theorem partsOf_eq {p : Path} (h : p.body.2 ≠ [[]]) :
    partsOf p.text = compileParts (trimmed p.body.2) := by
  obtain ⟨inner, htext, hinner⟩ := Path.exists_inner p
  have hbody : p.body.2 = Text.fields '/' inner := by rw [Path.body_eq_of_toList htext hinner]
  have hpattern : (if p.text.toList.head? = some '/' then p.text.toList.tail
      else p.text.toList) = inner := by
    have hhead := Path.isAbsolute_eq p
    cases habs : p.isAbsolute with
    | true =>
      rw [habs] at htext hhead
      rw [if_pos (of_decide_eq_true hhead.symm), htext]
      rfl
    | false =>
      rw [habs] at htext hhead
      rw [if_neg (of_decide_eq_false hhead.symm), htext]
      rfl
  have hne : inner.isEmpty = false := by
    rw [List.isEmpty_eq_false_iff]
    rintro rfl
    exact h hbody
  unfold partsOf
  rw [hpattern, hbody]
  simp only [hne, Bool.false_eq_true, if_false]
  rfl

theorem fits_append_iff {kept : List (List Char)} {parts : List (List Token)} :
    ∀ {fs : List (List Char)}, Fits (literals kept ++ parts) fs ↔
      ∃ gs, fs = kept ++ gs ∧ Fits parts gs := by
  induction kept with
  | nil => simp [literals]
  | cons f kept ih =>
    intro fs
    rw [literals, List.map_cons, List.cons_append, fits_literal_iff (literal?_eq_some_iff.mpr rfl)]
    change (∃ gs, fs = f :: gs ∧ Fits (literals kept ++ parts) gs) ↔ _
    simp only [ih]
    constructor
    · rintro ⟨_, rfl, gs, rfl, hgs⟩
      exact ⟨gs, rfl, hgs⟩
    · rintro ⟨gs, rfl, hgs⟩
      exact ⟨_, rfl, gs, rfl, hgs⟩

/-- Whether a pattern stands for a relative path. -/
def Matches (pattern : String) (r : Path) : Prop :=
  r.isAbsolute = false ∧ ∃ parts, partsOf pattern = .ok parts ∧ Fits parts r.body.2

section Join

variable {base : Path} {text : String} (hplain : IsPlain base.text.toList)
  (hrelative : (Path.mk text).isAbsolute = false) (htext : text ≠ "")
include hrelative

/-- The base stands in front of the pattern as it is written. -/
theorem exists_compile_join (hplain : IsPlain base.text.toList)
    (hvalid : ∃ ts, compile text = .ok ts) : ∃ ts, compile (base.join ⟨text⟩).text = .ok ts := by
  have hfront : ∃ front, IsPlain front ∧ (front = [] ∨ front.getLast? = some '/') ∧
      (base.join ⟨text⟩).text.toList = front ++ text.toList := by
    rw [Path.toList_join_relative base hrelative]
    split
    · rename_i hends
      exact ⟨_, hplain, hends, rfl⟩
    · refine ⟨base.text.toList ++ ['/'], ?_, .inr (by simp), by simp⟩
      intro c hc
      rcases List.mem_append.mp hc with hc | hc
      · exact hplain c hc
      · rw [List.mem_singleton.mp hc]
        decide
  obtain ⟨front, hfront, hends, heq⟩ := hfront
  have hstart : (if front = [] then true else decide (front.getLast? = some '/')) = true := by
    rcases hends with rfl | hends
    · rfl
    · rw [decide_eq_true hends, ite_self]
  obtain ⟨ts, hts⟩ := hvalid
  have hoption := @tokens_toOption true 0 text.toList (0 + front.length)
  unfold compile at hts ⊢
  rw [heq, tokens_append hfront, hstart]
  rw [hts] at hoption
  rw [toOption_eq_some_iff.mp hoption]
  exact ⟨_, rfl⟩

include hplain htext

/-- A pattern has its own parts below a base, behind those of the base. -/
theorem exists_partsOf_join : ∃ kept, (base.isAbsolute = true ∨ base.text = "" ∨ kept ≠ []) ∧
    (∀ q : Path, q.isAbsolute = false → (base.join q).body = (base.isAbsolute, kept ++ q.body.2)) ∧
    partsOf (base.join ⟨text⟩).text = (partsOf text).map (literals kept ++ ·) := by
  obtain ⟨kept, hkept, hjoin⟩ := base.exists_body_join
  have hbody := hjoin ⟨text⟩ hrelative
  have hne : (Path.mk text).body.2 ≠ [[]] := fun he =>
    Path.body_ne_of_relative hrelative htext (by rw [he]; rfl)
  have hjoinNe : (base.join ⟨text⟩).body.2 ≠ [[]] := by
    rw [hbody]
    intro he
    rcases List.append_eq_singleton_iff.mp he with ⟨-, he⟩ | ⟨-, he⟩
    · exact hne he
    · exact Path.body_ne_nil _ he
  refine ⟨kept, ?_, hjoin, ?_⟩
  · by_cases hbase : base.text = ""
    · exact .inr (.inl hbase)
    · refine or_iff_not_imp_left.mpr fun habs => .inr ?_
      rintro rfl
      rcases hkept with hkept | hkept
      · exact Path.body_ne_nil _ hkept
      · exact Path.body_ne_of_relative (Bool.eq_false_iff.mpr habs) hbase (by rw [hkept]; rfl)
  · have hkeptPlain : ∀ f ∈ kept, IsPlain f := by
      intro f hf c hc
      refine hplain c (Path.mem_text_of_mem_body ?_ hc)
      rcases hkept with hkept | hkept
      · exact hkept ▸ hf
      · exact hkept ▸ List.mem_append_left _ hf
    rw [partsOf_eq hjoinNe, @partsOf_eq ⟨text⟩ hne, hbody, trimmed_append (Path.body_ne_nil _),
      compileParts_append hkeptPlain]

omit hplain in
/-- The first part of a relative pattern is not empty. -/
theorem exists_cons_of_partsOf {parts : List (List Token)} (h : partsOf text = .ok parts) :
    ∃ part rest, parts = part :: rest ∧ part ≠ [] := by
  have hhead := Path.body_ne_of_relative hrelative htext
  obtain ⟨f, fs, hbody⟩ := List.exists_cons_of_ne_nil (Path.body_ne_nil (Path.mk text))
  rw [hbody] at hhead
  have hf : f ≠ [] := fun he => hhead (by rw [he]; rfl)
  obtain ⟨others, hothers⟩ : ∃ others, trimmed (f :: fs) = f :: others := by
    unfold trimmed
    split
    · rename_i hlast
      cases fs with
      | nil => exact absurd (Option.some.inj hlast) hf
      | cons g fs => exact ⟨_, List.dropLast_cons_cons⟩
    · exact ⟨fs, rfl⟩
  have hne : (Path.mk text).body.2 ≠ [[]] := by
    rw [hbody]
    intro he
    exact hf (List.cons.inj he).1
  rw [@partsOf_eq ⟨text⟩ hne, hbody, hothers, compileParts] at h
  obtain ⟨part, hpart, h⟩ := bind_eq_ok_iff.mp h
  obtain ⟨rest, -, h⟩ := bind_eq_ok_iff.mp h
  exact ⟨part, rest, (Except.ok.inj h).symm, ne_nil_of_tokens hpart hf⟩

end Join

/-- Fields that a relative pattern stands for are those of a relative path. -/
theorem exists_matches {text : String} (hrelative : (Path.mk text).isAbsolute = false)
    (htext : text ≠ "") {parts : List (List Token)} {fs : List (List Char)}
    (hparts : partsOf text = .ok parts) (hfits : Fits parts fs) :
    ∃ r, Matches text r ∧ r.body.2 = fs := by
  obtain ⟨part, rest, rfl, hpart⟩ := exists_cons_of_partsOf hrelative htext hparts
  have hbody := @Path.body_ofFields false fs hfits.ne_nil
    (hfits.not_slash (isSlashless_of_partsOf hparts)) fun _ => hfits.head?_ne hpart
  refine ⟨Path.ofFields false fs, ⟨by rw [Path.isAbsolute, hbody], _, hparts, ?_⟩, by rw [hbody]⟩
  rwa [hbody]

end Glob

namespace Scan

/-- Whether an include leads exactly to the directories below a base that it stands for. -/
structure FindsBelow (d : Disk) (base : Path) (text : String) : Prop where
  expands : ∃ found, Glob.expand d (base.join ⟨text⟩).text = .ok found
  sound : ∀ root ∈ includeRoots d base text, ∃ place r,
    d.lookup true root = .ok (place, .directory) ∧ Glob.Matches text r ∧
      d.LeadsInto (base.join r) place
  complete : ∀ r place, Glob.Matches text r →
    d.lookup true (base.join r) = .ok (place, .directory) →
      ∃ root ∈ includeRoots d base text, d.lookup true root = .ok (place, .directory)

section Below

variable {d : Disk} {base : Path} {text : String} (hplain : Glob.IsPlain base.text.toList)
  (hglob : Glob.isGlob text = true) (hrelative : (Path.mk text).isAbsolute = false)
include hplain hglob hrelative

/-- An include that is valid is searched for exactly if each of its parts is a pattern. -/
theorem expands_iff (hvalid : ∃ ts, Glob.compile text = .ok ts) :
    (∃ found, Glob.expand d (base.join ⟨text⟩).text = .ok found) ↔
      ∃ parts, Glob.partsOf text = .ok parts := by
  obtain ⟨kept, -, -, hwhole⟩ :=
    Glob.exists_partsOf_join hplain hrelative (Glob.text_ne_empty_of_isGlob hglob)
  simp only [Glob.expand_eq_ok_iff, hwhole, map_eq_ok_iff]
  constructor
  · rintro ⟨_, -, _, ⟨parts, hparts, -⟩, -⟩
    exact ⟨parts, hparts⟩
  · rintro ⟨parts, hparts⟩
    exact ⟨_, Glob.exists_compile_join hrelative hplain hvalid, _, ⟨parts, hparts, rfl⟩, rfl⟩

/-- What is found below a base is found by a path from there. -/
theorem exists_matches_of_mem_includeRoots (htree : d.IsLinkedTree) {root : Path}
    (hroot : root ∈ includeRoots d base text) : ∃ place r,
      d.lookup true root = .ok (place, .directory) ∧ Glob.Matches text r ∧
        d.LeadsInto (base.join r) place := by
  have htext := Glob.text_ne_empty_of_isGlob hglob
  rcases mem_includeRoots_iff.mp hroot with ⟨hliteral, -⟩ | ⟨-, paths, hexpand, hmem, hdirectory⟩
  · rw [hglob] at hliteral
    cases hliteral
  · obtain ⟨place, hlookup⟩ := Disk.isDirectory_eq_true_iff.mp hdirectory
    obtain ⟨whole, fs, hwhole, hfits, hspells⟩ := Glob.fits_of_mem_expand hexpand htree hmem
    obtain ⟨kept, -, hjoin, hparts⟩ := Glob.exists_partsOf_join hplain hrelative htext
    rw [hparts] at hwhole
    obtain ⟨parts, hparts, rfl⟩ := map_eq_ok_iff.mp hwhole
    obtain ⟨gs, rfl, hgs⟩ := Glob.fits_append_iff.mp hfits
    obtain ⟨r, hmatches, hr⟩ := Glob.exists_matches hrelative htext hparts hgs
    have hbody := hjoin r hmatches.1
    obtain ⟨-, hleads⟩ := Disk.lookup_eq_directory_iff_leadsInto.mp hlookup
    refine ⟨place, r, hlookup, hmatches, (Disk.leadsInto_congr ?_ ?_).mp hleads⟩
    · rw [hspells.absolute, Path.isAbsolute, Path.isAbsolute, hbody, hjoin _ hrelative]
    · rw [hspells.moving, hbody, hr]

/-- What is there below a base is found, unless the search is lost at `.`. -/
theorem exists_mem_includeRoots (hbase : base.text ≠ "")
    (hvalid : ∃ ts, Glob.compile text = .ok ts)
    (hhere : Glob.losesHere (base.join ⟨text⟩).text = false) {r : Path} {place : Location}
    (hmatches : Glob.Matches text r) (hlookup : d.lookup true (base.join r) = .ok (place, .directory)) :
    ∃ root ∈ includeRoots d base text, d.lookup true root = .ok (place, .directory) := by
  have htext := Glob.text_ne_empty_of_isGlob hglob
  obtain ⟨hr, parts, hparts, hfits⟩ := hmatches
  obtain ⟨found, hexpand⟩ := (@expands_iff d _ _ hplain hglob hrelative hvalid).mpr ⟨parts, hparts⟩
  obtain ⟨kept, hkept, hjoin, hwhole⟩ := Glob.exists_partsOf_join hplain hrelative htext
  rw [hparts] at hwhole
  have habs : (base.join ⟨text⟩).isAbsolute = (base.join r).isAbsolute := by
    rw [Path.isAbsolute, Path.isAbsolute, hjoin _ hrelative, hjoin r hr]
  have hbody : (base.join r).body.2 = kept ++ r.body.2 := by rw [hjoin r hr]
  have hfits : Glob.Fits (Glob.literals kept ++ parts) (base.join r).body.2 :=
    Glob.fits_append_iff.mpr ⟨r.body.2, hbody, hfits⟩
  have hopens : (base.join r).isAbsolute = true ∨
      ∀ part ∈ (Glob.literals kept ++ parts).head?, Glob.literal? part ≠ none := by
    rw [Path.isAbsolute, hjoin r hr]
    refine hkept.imp_right fun hkept => ?_
    obtain ⟨f, fs, rfl⟩ := List.exists_cons_of_ne_nil (hkept.resolve_left hbase)
    rintro _ ⟨rfl⟩
    simp [Glob.literal?_eq_some_iff.mpr rfl]
  obtain ⟨root, hroot, hfound⟩ := Glob.mem_expand_of_fits hexpand hwhole hfits habs hopens hhere hlookup
  have hthere := Disk.isDirectory_eq_true_iff.mpr ⟨place, hfound⟩
  exact ⟨root, mem_includeRoots_iff.mpr (.inr ⟨hglob, found, hexpand, hroot, hthere⟩), hfound⟩

end Below

/-- The includes of a configuration without faults that are patterns can be compiled. -/
theorem exists_compile_of_fault? {c : Config} (hvalid : c.fault? = none) {text : String}
    (htext : text ∈ c.includes) (hglob : Glob.isGlob text = true) :
    ∃ ts, Glob.compile text = .ok ts := by
  have hnone : Config.patternFault? "includes" text = none := by
    simp only [Config.fault?, Option.or_eq_none_iff, List.findSome?_eq_none_iff] at hvalid
    exact hvalid.2.1 text htext
  rw [Config.patternFault?, if_pos hglob] at hnone
  split at hnone
  · rename_i ts hts
    exact ⟨ts, hts⟩
  · cases hnone

/-- Below a base without wildcards, a pattern that is valid leads to the directories that it stands
for exactly if each of its parts is a pattern. -/
theorem findsBelow_iff {d : Disk} (htree : d.IsLinkedTree) {c : Config} (hvalid : c.fault? = none)
    {text : String} (htext : text ∈ c.includes) (hglob : Glob.isGlob text = true)
    (hrelative : (Path.mk text).isAbsolute = false) {base : Path}
    (hbase : d.isDirectory base = true) (hplain : Glob.IsPlain base.text.toList)
    (hhere : Glob.losesHere (base.join ⟨text⟩).text = false) :
    FindsBelow d base text ↔ ∃ parts, Glob.partsOf text = .ok parts := by
  have hcompiles := exists_compile_of_fault? hvalid htext hglob
  have hne : base.text ≠ "" := by
    obtain ⟨place, hlookup⟩ := Disk.isDirectory_eq_true_iff.mp hbase
    exact (Disk.lookup_eq_directory_iff_leadsInto.mp hlookup).1.ne_empty
  rw [← @expands_iff d _ _ hplain hglob hrelative hcompiles]
  refine ⟨FindsBelow.expands, fun hexpands => ⟨hexpands, fun root hroot => ?_, fun r place => ?_⟩⟩
  · exact exists_matches_of_mem_includeRoots hplain hglob hrelative htree hroot
  · exact exists_mem_includeRoots hplain hglob hrelative hne hcompiles hhere

/-- A directory with a bracket in its name, and one without. -/
def bracketDirectories : Disk where
  entries := [
    (["a[b"], .directory),
    (["a[b", "src"], .directory),
    (["ab"], .directory),
    (["ab", "lib"], .link "../a[b/src"),
    (["ab", "src"], .directory)]
  cwd := []

/-- A configuration with one include. -/
def includesAll : Config := { Config.default with includes := ["*"] }

/-- Below a directory without a bracket, a pattern finds a directory and one behind a link. -/
theorem findsBelow_link : bracketDirectories.IsLinkedTree ∧ includesAll.fault? = none ∧
    bracketDirectories.isDirectory ⟨"ab"⟩ = true ∧ FindsBelow bracketDirectories ⟨"ab"⟩ "*" ∧
    includeRoots bracketDirectories ⟨"ab"⟩ "*" = [⟨"ab/lib"⟩, ⟨"ab/src"⟩] := by
  have htree : bracketDirectories.IsLinkedTree := by decide +kernel
  have hvalid : includesAll.fault? = none := by decide +kernel
  have hbase : bracketDirectories.isDirectory ⟨"ab"⟩ = true := by decide +kernel
  refine ⟨htree, hvalid, hbase, ?_, by decide +kernel⟩
  have htext : "*" ∈ includesAll.includes := by decide
  exact (findsBelow_iff htree hvalid htext (by decide) (by decide) hbase (by decide)
    (by decide +kernel)).mpr ⟨[[.anyText]], by decide +kernel⟩

/-- Below a directory with a bracket in its name, a valid include is no pattern and finds nothing. -/
theorem not_findsBelow_bracket : bracketDirectories.IsLinkedTree ∧ includesAll.fault? = none ∧
    "*" ∈ includesAll.includes ∧ bracketDirectories.isDirectory ⟨"a[b"⟩ = true ∧
    bracketDirectories.isDirectory ⟨"a[b/src"⟩ = true ∧
    includeRoots bracketDirectories ⟨"a[b"⟩ "*" = [] ∧
    ¬ FindsBelow bracketDirectories ⟨"a[b"⟩ "*" := by
  have hexpand : (Glob.expand bracketDirectories ((Path.mk "a[b").join ⟨"*"⟩).text).isOk = false := by
    decide +kernel
  refine ⟨by decide +kernel, by decide +kernel, by decide, by decide +kernel, by decide +kernel,
    by decide +kernel, fun h => ?_⟩
  obtain ⟨found, hfound⟩ := h.expands
  rw [hfound] at hexpand
  cases hexpand

end Scan
end FetchClients
