/-
# Services that share a file

A client is written to a file that is named after its service, in lower case and with a
`_` in front of every letter that was a capital, except the first. Read back, a `_` and
the letter behind it are that capital, so a name of letters, digits and `$` stands in its
file name but for the case of its first letter (`Client.snakeCase_eq_iff`). Two such
services are therefore written to one file exactly when they are written to one directory
and their names differ at most in that case (`Client.snakeCase_faithful`). A file name has
no capitals left to change.

Key definitions: `Client.IsUndivided`, `Client.SameButFirstCase`, `Client.readBack`.
Key theorems: `Client.readBack_flatMap_snakePart`, `Client.snakeCase_eq_iff`,
`Client.snakeCase_faithful`.
-/
import FetchClients.Client.Name
import FetchClients.Proofs.Places
import FetchClients.Proofs.ScriptLiterals

namespace FetchClients

namespace Text

variable {c : Char}

theorem toNat_lt_of_le {z : Char} (hle : c.val ≤ z.val) (hz : z.toNat < 0x80) : c.toNat < 0x80 :=
  Nat.lt_of_le_of_lt (UInt32.le_iff_toNat_le.mp hle) hz

theorem toNat_lt_of_isUpper (h : c.isUpper = true) : c.toNat < 0x80 :=
  toNat_lt_of_le (z := 'Z') (of_decide_eq_true h).2 (by decide)

theorem toNat_lt_of_isAlphanum (h : c.isAlphanum = true) : c.toNat < 0x80 := by
  rcases Bool.or_eq_true_iff.mp h with halpha | hdigit
  · rcases Bool.or_eq_true_iff.mp halpha with hupper | hlower
    · exact toNat_lt_of_isUpper hupper
    · obtain ⟨-, hle⟩ := Bool.and_eq_true_iff.mp hlower
      exact toNat_lt_of_le (z := 'z') (of_decide_eq_true hle) (by decide)
  · obtain ⟨-, hle⟩ := Bool.and_eq_true_iff.mp hdigit
    exact toNat_lt_of_le (z := '9') (of_decide_eq_true hle) (by decide)

/-- What holds of the first 128 characters, one by one, holds of every ASCII character. -/
theorem of_ascii {p : Char → Prop} (h : ∀ n < 0x80, p (Char.ofNat n)) (hc : c.toNat < 0x80) :
    p c := by
  rw [← Char.ofNat_toNat c]
  exact h _ hc

/-- The lower case of an ASCII character is an ASCII character, and no capital. -/
theorem toLower_ascii (hc : c.toNat < 0x80) :
    c.toLower.toNat < 0x80 ∧ c.toLower.isUpper = false :=
  of_ascii (p := fun c => c.toLower.toNat < 0x80 ∧ c.toLower.isUpper = false) (by decide) hc

/-- A capital is the upper case of its lower case, which is a letter. -/
theorem toLower_of_isUpper (h : c.isUpper = true) :
    c.toLower.isLower = true ∧ c.toLower.toUpper = c :=
  of_ascii (p := fun c => c.isUpper = true →
    c.toLower.isLower = true ∧ c.toLower.toUpper = c) (by decide) (toNat_lt_of_isUpper h) h

/-- Only capitals have a lower case of their own. -/
theorem toLower_of_not_isUpper (h : ¬ c.isUpper = true) : c.toLower = c :=
  dif_neg fun hupper => h (decide_eq_true hupper)

end Text

namespace Client

/-- A name of ASCII characters. -/
def IsAscii (name : String) : Prop :=
  ∀ c ∈ name.toList, c.toNat < 0x80

/-- A name of ASCII letters, digits and `$`. -/
def IsUndivided (name : String) : Prop :=
  ∀ c ∈ name.toList, c.isAlphanum = true ∨ c = '$'

/-- Two names that differ at most in the case of their first letter. -/
def SameButFirstCase (a b : String) : Prop :=
  a.toList.head?.map Char.toLower = b.toList.head?.map Char.toLower ∧ a.toList.tail = b.toList.tail

instance (name : String) : Decidable (IsAscii name) :=
  List.decidableBAll (fun c : Char => c.toNat < 0x80) name.toList

instance (a b : String) : Decidable (SameButFirstCase a b) :=
  inferInstanceAs (Decidable (_ ∧ _))

/-- What stands behind the first character of a file name, with each `_` and the letter behind it
read as a capital. -/
def readBack : List Char → List Char
  | [] => []
  | '_' :: c :: cs => c.toUpper :: readBack cs
  | c :: cs => c :: readBack cs

section Names

variable {name a b : String} {c : Char} {cs : List Char}

/-! ### Undivided names -/

/-- An identifier without `_` is undivided. -/
theorem isUndivided_of_isIdentifier (h : isIdentifier name) (hne : '_' ∉ name.toList) :
    IsUndivided name := by
  intro c hc
  have hpart : (c.isAlphanum = true ∨ c = '_') ∨ c = '$' := by
    simpa [isNamePart] using isNamePart_of_isIdentifier h c hc
  refine hpart.imp_left fun hpart => hpart.resolve_right ?_
  rintro rfl
  exact hne hc

theorem IsUndivided.isAscii (h : IsUndivided name) : IsAscii name := by
  intro c hc
  rcases h c hc with halphanum | rfl
  · exact Text.toNat_lt_of_isAlphanum halphanum
  · decide

theorem IsUndivided.ne_underscore (h : IsUndivided name) (hc : c ∈ name.toList) : c ≠ '_' := by
  rintro rfl
  exact absurd (h '_' hc) (by decide)

theorem IsUndivided.parts (h : IsUndivided name) (hcs : name.toList = c :: cs) :
    c.toNat < 0x80 ∧ ∀ d ∈ cs, d.toNat < 0x80 ∧ d ≠ '_' := by
  have hmem : ∀ d ∈ cs, d ∈ name.toList := fun d hd => hcs ▸ List.mem_cons_of_mem c hd
  exact ⟨h.isAscii c (by simp [hcs]),
    fun d hd => ⟨h.isAscii d (hmem d hd), h.ne_underscore (hmem d hd)⟩⟩

/-- The lower case of a letter, of a digit or of `$` is no slash. -/
theorem IsUndivided.toLower_ne_slash (h : IsUndivided name) (hc : c ∈ name.toList) :
    c.toLower ≠ '/' := by
  intro hslash
  by_cases hupper : c.isUpper = true
  · have hlower := (Text.toLower_of_isUpper hupper).1
    rw [hslash] at hlower
    exact absurd hlower (by decide)
  · rw [Text.toLower_of_not_isUpper hupper] at hslash
    subst hslash
    exact absurd (h '/' hc) (by decide)

/-! ### File names -/

theorem snakePart_of_isUpper (hc : c.toNat < 0x80) (h : c.isUpper = true) :
    snakePart c = ['_', c.toLower] := by
  rw [snakePart, Text.isUpper_of_ascii hc, if_pos h, Text.toLower_of_ascii hc]

theorem snakePart_of_not_isUpper (hc : c.toNat < 0x80) (h : ¬ c.isUpper = true) :
    snakePart c = [c] := by
  rw [snakePart, Text.isUpper_of_ascii hc, if_neg h]

theorem snakeCase_of_nil (h : name.toList = []) : snakeCase name = "" := by
  simp [snakeCase, h]

/-- A file name starts with the first character in lower case. -/
theorem toList_snakeCase (h : name.toList = c :: cs) (hc : c.toNat < 0x80) :
    (snakeCase name).toList = c.toLower :: cs.flatMap snakePart := by
  have hfirst : (if Text.isUpper c = true then Text.toLower c else [c]) = [c.toLower] := by
    by_cases hupper : c.isUpper = true
    · rw [Text.isUpper_of_ascii hc, if_pos hupper, Text.toLower_of_ascii hc]
    · rw [Text.isUpper_of_ascii hc, if_neg hupper, Text.toLower_of_not_isUpper hupper]
  simp [snakeCase, h, hfirst]

example : snakeCase "HTTPApi" = "h_t_t_p_api" := by decide

theorem readBack_cons (h : c ≠ '_') : readBack (c :: cs) = c :: readBack cs := by
  rw [readBack]
  rintro d ds rfl
  exact absurd rfl h

/-- What stands behind the first character of a name is read back from its file name. -/
theorem readBack_flatMap_snakePart : ∀ {cs : List Char},
    (∀ c ∈ cs, c.toNat < 0x80 ∧ c ≠ '_') → readBack (cs.flatMap snakePart) = cs
  | [], _ => rfl
  | c :: cs, h => by
    obtain ⟨hc, hne⟩ := h c (by simp)
    have ih := readBack_flatMap_snakePart fun d hd => h d (List.mem_cons_of_mem c hd)
    rw [List.flatMap_cons]
    by_cases hupper : c.isUpper = true
    · rw [snakePart_of_isUpper hc hupper, List.cons_append, List.singleton_append, readBack, ih,
        (Text.toLower_of_isUpper hupper).2]
    · rw [snakePart_of_not_isUpper hc hupper, List.singleton_append, readBack_cons hne, ih]

/-- Names of letters, digits and `$` have one file name exactly when they differ at most in the case
of the first letter. -/
theorem snakeCase_eq_iff (ha : IsUndivided a) (hb : IsUndivided b) :
    snakeCase a = snakeCase b ↔ SameButFirstCase a b := by
  unfold SameButFirstCase
  rw [← String.toList_inj]
  cases hcs : a.toList with
  | nil =>
    cases hds : b.toList with
    | nil => simp [snakeCase_of_nil hcs, snakeCase_of_nil hds]
    | cons d ds => simp [snakeCase_of_nil hcs, toList_snakeCase hds (hb.parts hds).1]
  | cons c cs =>
    obtain ⟨hc, hcs'⟩ := ha.parts hcs
    cases hds : b.toList with
    | nil => simp [toList_snakeCase hcs hc, snakeCase_of_nil hds]
    | cons d ds =>
      obtain ⟨hd, hds'⟩ := hb.parts hds
      rw [toList_snakeCase hcs hc, toList_snakeCase hds hd, List.cons.injEq]
      simp only [List.head?_cons, Option.map_some, Option.some.injEq, List.tail_cons]
      refine and_congr_right fun _ => ⟨fun h => ?_, fun h => by rw [h]⟩
      rw [← readBack_flatMap_snakePart hcs', h, readBack_flatMap_snakePart hds']

/-- The characters of a file name are `_` and those of the name in lower case. -/
theorem exists_of_mem_snakeCase (h : IsAscii name) (hc : c ∈ (snakeCase name).toList) :
    c = '_' ∨ ∃ d ∈ name.toList, c = d.toLower := by
  cases hds : name.toList with
  | nil => simp [snakeCase_of_nil hds] at hc
  | cons d ds =>
    have hascii : ∀ e ∈ d :: ds, e.toNat < 0x80 := fun e he => h e (hds ▸ he)
    rw [toList_snakeCase hds (hascii d (by simp)), List.mem_cons, List.mem_flatMap] at hc
    rcases hc with rfl | ⟨e, he, hc⟩
    · exact .inr ⟨d, by simp, rfl⟩
    · have he := List.mem_cons_of_mem d he
      by_cases hupper : e.isUpper = true
      · rw [snakePart_of_isUpper (hascii e he) hupper, List.mem_pair] at hc
        exact hc.imp_right fun hc => ⟨e, he, hc⟩
      · rw [snakePart_of_not_isUpper (hascii e he) hupper, List.mem_singleton] at hc
        exact .inr ⟨e, he, by rw [hc, Text.toLower_of_not_isUpper hupper]⟩

/-- A file name has no capitals. -/
theorem isUpper_of_mem_snakeCase (h : IsAscii name) (hc : c ∈ (snakeCase name).toList) :
    Text.isUpper c = false := by
  rcases exists_of_mem_snakeCase h hc with rfl | ⟨d, hd, rfl⟩
  · decide
  · obtain ⟨hascii, hlower⟩ := Text.toLower_ascii (h d hd)
    rw [Text.isUpper_of_ascii hascii, hlower]

/-- A name without capitals is its own file name. -/
theorem snakeCase_eq_self (h : ∀ c ∈ name.toList, Text.isUpper c = false) :
    snakeCase name = name := by
  rw [← String.toList_inj]
  cases hcs : name.toList with
  | nil => simp [snakeCase_of_nil hcs]
  | cons c cs =>
    have hparts : cs.flatMap snakePart = cs.flatMap fun d => [d] := by
      refine List.flatMap_congr fun d hd => ?_
      rw [snakePart, if_neg (by simp [h d (hcs ▸ List.mem_cons_of_mem c hd)])]
    simp [snakeCase, hcs, h c (by simp [hcs]), hparts]

theorem snakeCase_snakeCase (h : IsAscii name) : snakeCase (snakeCase name) = snakeCase name :=
  snakeCase_eq_self fun _ hc => isUpper_of_mem_snakeCase h hc

/-! ### Files -/

/-- The file of a client is one name in its directory. -/
theorem properName_file (h : IsUndivided name) : ProperName (snakeCase name ++ fileSuffix) := by
  have hlong : 7 ≤ (snakeCase name ++ fileSuffix).length := by
    rw [String.length_append]
    exact Nat.le_add_left 7 _
  have hne : ∀ other : String, other.length < 7 → snakeCase name ++ fileSuffix ≠ other := by
    rintro other hshort rfl
    omega
  refine ⟨fun hslash => ?_, hne "" (by decide), hne "." (by decide), hne ".." (by decide)⟩
  rw [String.toList_append, List.mem_append] at hslash
  rcases hslash with hslash | hslash
  · rcases exists_of_mem_snakeCase h.isAscii hslash with heq | ⟨c, hc, heq⟩
    · exact absurd heq (by decide)
    · exact h.toLower_ne_slash hc heq.symm
  · exact absurd hslash (by decide)

theorem components_outputPath (h : IsUndivided name) (source : Path) (outputDir : Option Path) :
    (outputPath source name outputDir).components =
      (outputDirectory source outputDir).components ++ [.name (snakeCase name ++ fileSuffix)] := by
  rw [outputPath_eq_join, Path.components_join _ (properName_file h)]

theorem locationFrom_outputPath (h : IsUndivided name) (source : Path) (outputDir : Option Path)
    (cwd : Path) : (outputPath source name outputDir).locationFrom cwd =
      (outputDirectory source outputDir).locationFrom cwd ++ [snakeCase name ++ fileSuffix] := by
  rw [outputPath_eq_join, Path.locationFrom_join _ cwd (properName_file h)]

/-- Two clients have one path exactly when they have one directory and names that differ at most in
the case of the first letter. -/
theorem sameSteps_outputPath_iff (ha : IsUndivided a) (hb : IsUndivided b) (source other : Path)
    (outputDir otherDir : Option Path) :
    (outputPath source a outputDir).sameSteps (outputPath other b otherDir) = true ↔
      (outputDirectory source outputDir).sameSteps (outputDirectory other otherDir) = true ∧
        SameButFirstCase a b := by
  simp only [Path.sameSteps, decide_eq_true_eq]
  rw [components_outputPath ha, components_outputPath hb, List.append_singleton_inj,
    Component.name.injEq, String.append_left_inj, snakeCase_eq_iff ha hb]

/-- Two clients have one place exactly when their directories have and their names differ at most in
the case of the first letter. -/
theorem locationFrom_outputPath_iff (ha : IsUndivided a) (hb : IsUndivided b) (source other : Path)
    (outputDir otherDir : Option Path) (cwd : Path) :
    (outputPath source a outputDir).locationFrom cwd =
        (outputPath other b otherDir).locationFrom cwd ↔
      (outputDirectory source outputDir).locationFrom cwd =
        (outputDirectory other otherDir).locationFrom cwd ∧ SameButFirstCase a b := by
  rw [locationFrom_outputPath ha, locationFrom_outputPath hb, List.append_singleton_inj,
    String.append_left_inj, snakeCase_eq_iff ha hb]

/-- **Few services share a file.** Names of letters, digits and `$` have one file name exactly when
they differ at most in the case of the first letter, and the clients of such services are written
to one path, or to one place, exactly when their directories are one and the names are so alike.
No file name of an ASCII name has a capital, so it is its own file name. -/
theorem snakeCase_faithful :
    (∀ a b, IsUndivided a → IsUndivided b →
      (snakeCase a = snakeCase b ↔ SameButFirstCase a b) ∧
      ∀ source other outputDir otherDir,
        ((outputPath source a outputDir).sameSteps (outputPath other b otherDir) = true ↔
          (outputDirectory source outputDir).sameSteps (outputDirectory other otherDir) = true ∧
            SameButFirstCase a b) ∧
        ∀ cwd, (outputPath source a outputDir).locationFrom cwd =
            (outputPath other b otherDir).locationFrom cwd ↔
          (outputDirectory source outputDir).locationFrom cwd =
            (outputDirectory other otherDir).locationFrom cwd ∧ SameButFirstCase a b) ∧
    ∀ name, IsAscii name → (∀ c ∈ (snakeCase name).toList, Text.isUpper c = false) ∧
      snakeCase (snakeCase name) = snakeCase name := by
  constructor
  · intro a b ha hb
    refine ⟨snakeCase_eq_iff ha hb, fun source other outputDir otherDir => ⟨?_, fun cwd => ?_⟩⟩
    · exact sameSteps_outputPath_iff ha hb source other outputDir otherDir
    · exact locationFrom_outputPath_iff ha hb source other outputDir otherDir cwd
  · intro name hname
    exact ⟨fun c hc => isUpper_of_mem_snakeCase hname hc, snakeCase_snakeCase hname⟩

theorem snakeCase_faithful_user :
    snakeCase "UserAPI" ≠ snakeCase "UserApi" ∧
      (outputPath ⟨"src/a.ts"⟩ "UserV2" none).sameSteps
        (outputPath ⟨"b.ts"⟩ "userV2" (some ⟨"src/./"⟩)) = true ∧
      (outputPath ⟨"src/a.ts"⟩ "$User" none).locationFrom ⟨"/w"⟩ ≠
        (outputPath ⟨"src/b.ts"⟩ "$user" none).locationFrom ⟨"/w"⟩ ∧
      snakeCase (snakeCase "HTTP_Api") = snakeCase "HTTP_Api" := by
  obtain ⟨hnames, hascii⟩ := snakeCase_faithful
  obtain ⟨hfiles, -⟩ := hnames "UserAPI" "UserApi"
    (isUndivided_of_isIdentifier (by decide) (by decide)) (isUndivided_of_isIdentifier (by decide) (by decide))
  obtain ⟨-, hsame⟩ := hnames "UserV2" "userV2"
    (isUndivided_of_isIdentifier (by decide) (by decide)) (isUndivided_of_isIdentifier (by decide) (by decide))
  obtain ⟨-, hother⟩ := hnames "$User" "$user"
    (isUndivided_of_isIdentifier (by decide) (by decide)) (isUndivided_of_isIdentifier (by decide) (by decide))
  refine ⟨fun h => absurd (hfiles.mp h) (by decide), ?_, fun h => ?_, (hascii _ (by decide)).2⟩
  · exact (hsame _ _ _ _).1.mpr ⟨by decide +kernel, by decide⟩
  · exact absurd (((hother _ _ _ _).2 _).mp h).2 (by decide)

end Names

end Client
end FetchClients
