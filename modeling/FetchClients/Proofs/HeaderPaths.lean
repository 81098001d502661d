/-
# The paths in the header of a client

Two paths stand in the text of every client: the source's, in a comment on the second
line, and the specifier of its module, in a string of the import. Names and method
paths are checked before they are written, but these two are written as they are. So
each stays where it belongs exactly when it has no character that is live there
(`Client.pathsInContext_iff`): a line end ends the comment, and a quote, a backslash or
a line break changes the string. All characters of a specifier but its dots and slashes
are from the source's path or the working directory's (`Client.mem_specifier`).

Key definitions: `Client.top`, `Client.PathsInContext`.
Key theorems: `TypeScript.Gap.scan_lineComment`, `Client.mem_specifier`,
`Client.toList_render_header`, `Client.pathsInContext_of_resolveImport`,
`Client.pathsInContext_iff`.
-/
import FetchClients.Proofs.ImportTarget
import FetchClients.Proofs.MethodLiterals
import FetchClients.Proofs.Tokens
import FetchClients.Proofs.Ways
import FetchClients.Scan

namespace FetchClients

/-! ### Line comments -/

namespace TypeScript

theorem Mark.after_of_not_isLineEnd (m : Mark) {c : Char} (h : isLineEnd c = false)
    (rest : List Char) : m.after c rest = ⟨m.offset + 1, m.line⟩ := by
  have hends : endsLine c rest = false := by
    simp only [isLineEnd, Bool.or_eq_false_iff, decide_eq_false_iff_not] at h
    simp [endsLine, h.1.1.1, h.1.1.2]
  rw [after, hends]
  rfl

namespace Gap

variable {previous : Option TokenKind} {broken : Bool} {comments : List (Bool × Comment)}

/-- A line comment goes on to the first line end. -/
theorem scan_line {start : Mark} {leading : Bool} {e : Char} (he : isLineEnd e = true)
    (rest : List Char) : ∀ {text read : List Char} {m : Mark}, (∀ c ∈ text, isLineEnd c = false) →
    scan previous 0 (.line start leading read) broken comments m (text ++ e :: rest) =
      scan previous 0 .blank true
        ((leading, finished .line start ⟨m.offset + text.length, m.line⟩ (text.reverse ++ read)) ::
          comments)
        (Mark.after ⟨m.offset + text.length, m.line⟩ e rest) rest
  | [], read, m, _ => by
    rw [List.nil_append, scan]
    simp [he]
  | c :: text, read, m, h => by
    obtain ⟨hc, htext⟩ := List.forall_mem_cons.mp h
    rw [List.cons_append, scan]
    simp only [ne_eq, not_true_eq_false, if_false, hc, Bool.false_eq_true]
    rw [m.after_of_not_isLineEnd hc, scan_line he rest htext]
    simp [Nat.add_assoc, Nat.add_comm 1]

/-- A line comment that starts a line documents what follows, and its text ends at the first line
end. -/
theorem scan_lineComment {text : List Char} {e : Char} (m : Mark) (he : isLineEnd e = true)
    (rest : List Char) (h : ∀ c ∈ text, isLineEnd c = false) :
    scan none 0 .blank true comments m ('/' :: '/' :: (text ++ e :: rest)) =
      scan none 0 .blank true
        ((true, ⟨.line, String.ofList text, m.line, m.line⟩) :: comments)
        (Mark.after ⟨m.offset + 2 + text.length, m.line⟩ e rest) rest := by
  have hslash : isLineEnd '/' = false := by decide
  have hspace : isSpace '/' = false := by decide
  have hopens : openedComment true ('/' :: '/' :: (text ++ e :: rest)) = some (.line, 2) := rfl
  rw [scan]
  simp only [ne_eq, not_true_eq_false, if_false, hspace, hslash, Bool.false_eq_true, hopens]
  rw [scan]
  simp only [ne_eq, Nat.one_ne_zero, not_false_eq_true, if_true, Nat.sub_self, Nat.add_one_sub_one]
  rw [m.after_of_not_isLineEnd hslash, Mark.after_of_not_isLineEnd _ hslash, scan_line he rest h]
  simp [finished, lineLeads]

theorem prefix_leading {g : Gap} (h : comments <:+ g.comments) :
    (comments.filter (·.1)).reverse.map (·.2) <+: g.leading := by
  obtain ⟨more, hmore⟩ := h
  rw [leading, ← hmore]
  simp

end Gap
end TypeScript

/-! ### Characters of paths -/

namespace Path

/-- The names in a path are made of its characters. -/
theorem mem_text_of_name {p : Path} {n : String} (h : .name n ∈ p.components) {c : Char}
    (hc : c ∈ n.toList) : c ∈ p.text.toList := by
  have hstep : .name n ∈ p.steps := by
    rw [components_eq] at h
    rcases List.mem_append.mp h with h | h
    · split at h <;> simp at h
    · exact h
  rw [steps_eq] at hstep
  obtain ⟨f, hf, -, hname⟩ := mem_fieldComponents hstep
  obtain rfl : n = String.ofList f := by
    unfold componentOf at hname
    split at hname
    · cases hname
    · split at hname
      · cases hname
      · exact Component.name.inj hname
  exact mem_text_of_mem_body hf (by simpa using hc)

end Path

namespace Client

theorem mem_intercalate {sep : String} {c : Char} {parts : List String}
    (h : c ∈ (String.intercalate sep parts).toList) :
    c ∈ sep.toList ∨ ∃ part ∈ parts, c ∈ part.toList := by
  rw [String.toList_intercalate, ← Text.joinWith_eq_intercalate] at h
  rcases Text.mem_joinWith h with h | ⟨part, hpart, hc⟩
  · exact .inl h
  · obtain ⟨text, htext, rfl⟩ := List.mem_map.mp hpart
    exact .inr ⟨text, htext, hc⟩

/-- The parts of a specifier climb, or are steps of the module's directory, or are its stem. -/
theorem mem_specifierParts {froms tos : List Component} {stem part : String}
    (h : part ∈ specifierParts froms tos stem) :
    part = ".." ∨ (∃ step ∈ tos, part = step.text) ∨ part = stem := by
  obtain ⟨common, -, htos⟩ := dropCommon_eq froms tos
  unfold specifierParts at h
  simp only [List.mem_append, List.mem_map, List.mem_singleton] at h
  rcases h with (⟨-, -, rfl⟩ | ⟨step, hstep, rfl⟩) | rfl
  · exact .inl rfl
  · exact .inr (.inl ⟨step, htos ▸ List.mem_append_right common hstep, rfl⟩)
  · exact .inr (.inr rfl)

/-- The directory of a source takes steps of the source. -/
theorem mem_components_of_mem_moves {source : Path} {step : Component}
    (h : step ∈ moves (source.parent?.getD ⟨""⟩)) : step ∈ source.components := by
  have hstep := List.mem_of_mem_filter h
  cases hparent : source.parent? with
  | none =>
    have hempty : (Path.mk "").components = [] := by decide
    simp [hparent, hempty] at hstep
  | some parent =>
    rw [hparent] at hstep
    obtain ⟨last, -, hcomponents⟩ := Path.components_of_parent? hparent
    exact hcomponents ▸ List.mem_append_left [last] hstep

theorem mem_text_of_stem {source : Path} {c : Char} (h : c ∈ (source.stem?.getD "").toList) :
    c ∈ source.text.toList := by
  cases hname : source.fileName? with
  | none => simp [Path.stem?, hname] at h
  | some name =>
    obtain ⟨parent, -, hcomponents⟩ := Path.exists_parent? hname
    obtain ⟨rest, hrest⟩ := cutExtension_eq name.toList
    refine Path.mem_text_of_name (n := name) (by simp [hcomponents]) ?_
    rw [hrest]
    exact List.mem_append_left rest (by simpa [Path.stem?, hname] using h)

/-- A specifier has the characters of the source, but for dots and slashes. -/
theorem mem_importPath {dir source : Path} {c : Char} (h : c ∈ (importPath dir source).toList) :
    c = '.' ∨ c = '/' ∨ c ∈ source.text.toList := by
  have hjoined : c ∈ (String.intercalate "/" (specifierParts (moves dir)
      (moves (source.parent?.getD ⟨""⟩)) (source.stem?.getD ""))).toList →
      c = '.' ∨ c = '/' ∨ c ∈ source.text.toList := by
    intro hc
    rcases mem_intercalate hc with hslash | ⟨part, hpart, hc⟩
    · exact .inr (.inl (by simpa using hslash))
    · rcases mem_specifierParts hpart with rfl | ⟨step, hstep, rfl⟩ | rfl
      · exact .inl (by simpa using hc)
      · cases step with
        | root => exact .inr (.inl (by simpa [Component.text] using hc))
        | here => exact .inl (by simpa [Component.text] using hc)
        | up => exact .inl (by simpa [Component.text] using hc)
        | name n => exact .inr (.inr (Path.mem_text_of_name (mem_components_of_mem_moves hstep) hc))
      · exact .inr (.inr (mem_text_of_stem hc))
  unfold importPath at h
  extract_lets moduleDir parts joined at h
  split at h
  · exact hjoined h
  · rw [String.toList_append] at h
    rcases List.mem_append.mp h with h | h
    · have hdot : c = '.' ∨ c = '/' := by simpa using h
      exact hdot.imp_right .inl
    · exact hjoined h

/-- A specifier has the characters of the source and, if it is made from absolute paths, of the
working directory, but for dots and slashes. -/
theorem mem_specifier {cwd dir source : Path} {specifier : String}
    (h : resolveImport cwd dir source = .ok specifier) {c : Char} (hc : c ∈ specifier.toList) :
    c = '.' ∨ c = '/' ∨ c ∈ source.text.toList ∨ c ∈ cwd.text.toList := by
  unfold resolveImport at h
  split at h
  · obtain rfl := Except.ok.inj h
    exact (mem_importPath hc).imp_right (.imp_right .inl)
  · split at h
    · rename_i absDir absSource _ habsolute
      obtain rfl := Except.ok.inj h
      obtain rfl := Path.eq_of_absolute? habsolute
      rcases mem_importPath hc with hdot | hslash | hc
      · exact .inl hdot
      · exact .inr (.inl hslash)
      · rw [Path.ofLocation, String.toList_append] at hc
        rcases List.mem_append.mp hc with hc | hc
        · exact .inr (.inl (by simpa using hc))
        · rcases mem_intercalate hc with hslash | ⟨n, hn, hc⟩
          · exact .inr (.inl (by simpa using hslash))
          · rcases Path.mem_locationFrom hn with hn | hn
            · exact .inr (.inr (.inr (Path.mem_text_of_name hn hc)))
            · exact .inr (.inr (.inl (Path.mem_text_of_name hn hc)))
    · cases h

open TypeScript (Gap isLineEnd)

/-! ### The header of a client -/

/-- The text of the first comment of every client. -/
def notice : String := " Code generated by stubgen. DO NOT EDIT."

/-- The text of the comment that names a source. -/
def sourceNote (source : String) : String := " source: " ++ source

/-- The text of a client from the import to the quote that opens the specifier. -/
def upToSpecifier (s : Service) : String :=
  "import type \x7b " ++ String.intercalate ", " (importedNames s) ++ " \x7d from "

/-- The text of a client after the quote that closes the specifier. -/
def afterSpecifier (s : Service) : String :=
  unlines ([
    ";",
    "",
    "export class " ++ s.className ++ " implements " ++ s.interface ++ " \x7b",
    "  constructor(",
    "    private readonly endpoint: string,",
    "    private readonly path: string,",
    "    private readonly fetchFn: typeof fetch = fetch,",
    "  ) \x7b\x7d"] ++ s.methods.flatMap methodLines ++ ["\x7d"])

/-- The text of a client below its comments. -/
def belowNotes (s : Service) (specifier : String) : List Char :=
  '\n' :: ((upToSpecifier s).toList ++ '"' :: (specifier.toList ++ '"' ::
    (afterSpecifier s).toList))

/-- A client is two comments, an import of a specifier, and a class. -/
theorem toList_render_header (s : Service) (source specifier : String) :
    (render s source specifier).toList =
      '/' :: '/' :: (notice.toList ++ '\n' ::
        ('/' :: '/' :: (" source: ".toList ++ (source.toList ++ '\n' ::
          belowNotes s specifier)))) := by
  have hnotice : "// Code generated by stubgen. DO NOT EDIT.".toList =
      '/' :: '/' :: notice.toList := by simp [notice]
  have hsource : "// source: ".toList = '/' :: '/' :: " source: ".toList := by simp
  have hopen : " \x7d from \"".toList = " \x7d from ".toList ++ ['"'] := by simp
  have hclose : "\";".toList = '"' :: ";".toList := by simp
  have hline : "\n".toList = ['\n'] := by simp
  unfold render headerLines belowNotes afterSpecifier upToSpecifier
  simp only [toList_unlines_append]
  unfold unlines
  simp only [List.map_cons, List.map_nil, String.toList_join, List.flatMap_cons, List.flatMap_nil,
    String.toList_append, hnotice, hsource, hopen, hclose, hline, List.append_assoc,
    List.cons_append, List.nil_append, String.toList_empty, List.append_nil]

/-! ### What stands above the import -/

/-- The comments and blanks above the import of a client. -/
def top (s : Service) (source specifier : String) : Gap :=
  .after none ⟨.origin, (render s source specifier).toList⟩

theorem not_isLineEnd_of_all {text : List Char} (h : text.all (!isLineEnd ·) = true) :
    ∀ c ∈ text, isLineEnd c = false := by
  simpa using h

/-- The second comment goes on to the first line end behind its marker. -/
theorem exists_top_eq {s : Service} {source specifier : String} {plain tail : List Char} {e : Char}
    (hplain : ∀ c ∈ plain, isLineEnd c = false) (he : isLineEnd e = true)
    (hsplit : source.toList ++ '\n' :: belowNotes s specifier = plain ++ e :: tail) :
    ∃ m, top s source specifier =
      .scan none 0 .blank true
        [(true, ⟨.line, String.ofList (" source: ".toList ++ plain), 2, 2⟩),
          (true, ⟨.line, notice, 1, 1⟩)] m tail := by
  have hnotice := @not_isLineEnd_of_all notice.toList (by decide)
  have hnote : ∀ c ∈ " source: ".toList ++ plain, isLineEnd c = false := by
    intro c hc
    rcases List.mem_append.mp hc with hc | hc
    · exact not_isLineEnd_of_all (by decide) c hc
    · exact hplain c hc
  rw [top, Gap.after, toList_render_header, hsplit, Option.isNone_none,
    Gap.scan_lineComment _ (by decide) _ hnotice, ← List.append_assoc,
    Gap.scan_lineComment _ he _ hnote, String.ofList_toList]
  exact ⟨_, rfl⟩

/-- A source without line ends stands in one comment, and the import follows it. -/
theorem exists_top_eq_of_plain {s : Service} {source : String} (specifier : String)
    (h : ∀ c ∈ source.toList, isLineEnd c = false) :
    ∃ m, top s source specifier =
      ⟨true, [(true, ⟨.line, sourceNote source, 2, 2⟩), (true, ⟨.line, notice, 1, 1⟩)],
        ⟨m, (upToSpecifier s).toList ++ '"' :: (specifier.toList ++ '"' ::
          (afterSpecifier s).toList)⟩⟩ := by
  have hsplit : source.toList ++ '\n' :: belowNotes s specifier =
      source.toList ++ '\n' :: belowNotes s specifier := rfl
  obtain ⟨m, htop⟩ := exists_top_eq h (by decide) hsplit
  obtain ⟨rest, hrest⟩ : ∃ rest, (upToSpecifier s).toList = 'i' :: rest :=
    ⟨("mport type \x7b " ++ String.intercalate ", " (importedNames s) ++ " \x7d from ").toList, by
      unfold upToSpecifier
      simp⟩
  have hbreak : isLineEnd '\n' = true ∧ TypeScript.isSpace '\n' = false := by decide
  have hword : isLineEnd 'i' = false ∧ TypeScript.isSpace 'i' = false := by decide
  have hnone : ∀ text, Gap.openedComment true ('i' :: text) = none := fun _ => rfl
  rw [htop, belowNotes, hrest, Gap.scan]
  simp only [ne_eq, not_true_eq_false, if_false, hbreak, if_true, Bool.false_eq_true]
  rw [List.cons_append, Gap.scan]
  simp only [ne_eq, not_true_eq_false, if_false, hword, hnone, Bool.false_eq_true]
  exact ⟨_, by rw [sourceNote, ← String.toList_append, String.ofList_toList]⟩

/-- Whether both paths of a client stay where they belong, for one who reads the client from its
start: the comments above the import are one line each, the second with the source, and the string of
the import denotes the specifier and ends where the text of the client ends it. -/
structure PathsInContext (s : Service) (source specifier : String) : Prop where
  comments : (top s source specifier).leading =
    [⟨.line, notice, 1, 1⟩, ⟨.line, sourceNote source, 2, 2⟩]
  literal : ∃ afterQuote,
    (top s source specifier).cursor.rest = (upToSpecifier s).toList ++ '"' :: afterQuote ∧
      Script.string? 0 afterQuote =
        some (Script.units specifier.toList, (afterSpecifier s).toList)

/-- In a source without line ends only the specifier can leave its place. -/
theorem pathsInContext_iff_of_plain {s : Service} {source : String} (specifier : String)
    (h : ∀ c ∈ source.toList, isLineEnd c = false) :
    PathsInContext s source specifier ↔
      ∀ c ∈ specifier.toList, c ≠ '"' ∧ c ≠ '\\' ∧ c ≠ '\n' ∧ c ≠ '\r' := by
  obtain ⟨m, htop⟩ := exists_top_eq_of_plain (s := s) specifier h
  rw [← @Script.string?_append_iff (afterSpecifier s).toList]
  constructor
  · rintro ⟨-, afterQuote, hrest, hstring⟩
    rw [htop] at hrest
    obtain rfl := (List.cons.inj (List.append_cancel_left hrest)).2
    exact hstring
  · intro hstring
    refine ⟨?_, _, by rw [htop], hstring⟩
    rw [htop]
    rfl

/-- Both paths stay where they belong if the source's path and the working directory's have no
character that is live in a comment or a string. -/
theorem pathsInContext_of_resolveImport {s : Service} {cwd dir : Path} {source specifier : String}
    (h : resolveImport cwd dir ⟨source⟩ = .ok specifier)
    (hplain : ∀ c ∈ source.toList ++ cwd.text.toList,
      isLineEnd c = false ∧ c ≠ '"' ∧ c ≠ '\\') :
    PathsInContext s source specifier := by
  rw [pathsInContext_iff_of_plain specifier fun c hc => (hplain c (List.mem_append_left _ hc)).1]
  intro c hc
  have hlive : isLineEnd c = false ∧ c ≠ '"' ∧ c ≠ '\\' := by
    rcases mem_specifier h hc with rfl | rfl | hc | hc
    · decide
    · decide
    · exact hplain c (List.mem_append_left _ hc)
    · exact hplain c (List.mem_append_right _ hc)
  obtain ⟨hline, hquote, hbackslash⟩ := hlive
  refine ⟨hquote, hbackslash, ?_, ?_⟩ <;> rintro rfl <;> exact absurd hline (by decide)

/-- A line end in a source ends the comment before the source does. -/
theorem not_pathsInContext_of_lineEnd {s : Service} {source specifier : String}
    {plain more : List Char} {e : Char} (hsplit : source.toList = plain ++ e :: more) (he : isLineEnd e = true)
    (hplain : ∀ c ∈ plain, isLineEnd c = false) : ¬ PathsInContext s source specifier := by
  intro h
  have hbelow : source.toList ++ '\n' :: belowNotes s specifier =
      plain ++ e :: (more ++ '\n' :: belowNotes s specifier) := by
    rw [hsplit, List.append_assoc, List.cons_append]
  obtain ⟨m, htop⟩ := exists_top_eq hplain he hbelow
  have hkept : [(true, ⟨.line, String.ofList (" source: ".toList ++ plain), 2, 2⟩),
      (true, ⟨.line, notice, 1, 1⟩)] <:+ (top s source specifier).comments := by
    rw [htop]
    exact Gap.suffix_comments_scan _
  have hread := Gap.prefix_leading hkept
  rw [h.comments] at hread
  have htext : String.ofList (" source: ".toList ++ plain) = sourceNote source := by
    simpa using hread
  have hlength := congrArg (List.length ∘ String.toList) htext
  simp [sourceNote, hsplit] at hlength

/-- Both paths of a client stay where they belong exactly when the source has no line ends and the
specifier no quotes, backslashes and line breaks. -/
theorem pathsInContext_iff (s : Service) (source specifier : String) :
    PathsInContext s source specifier ↔
      (∀ c ∈ source.toList, isLineEnd c = false) ∧
        ∀ c ∈ specifier.toList, c ≠ '"' ∧ c ≠ '\\' ∧ c ≠ '\n' ∧ c ≠ '\r' := by
  by_cases hsource : ∀ c ∈ source.toList, isLineEnd c = false
  · rw [pathsInContext_iff_of_plain specifier hsource]
    exact (and_iff_right hsource).symm
  · refine iff_of_false ?_ fun h => hsource h.1
    cases hfind : source.toList.find? isLineEnd with
    | none =>
      exact absurd (fun c hc => by simpa using List.find?_eq_none.mp hfind c hc) hsource
    | some e =>
      obtain ⟨he, plain, more, hsplit, hplain⟩ := List.find?_eq_some_iff_append.mp hfind
      exact not_pathsInContext_of_lineEnd hsplit he fun c hc => by simpa using hplain c hc

/-- A working directory with two sources, one with a quote in its name and one with a line break. -/
def oddNames : Disk :=
  ⟨[(["project"], .directory), (["project", "we\"ird.ts"], .file (some "")),
    (["project", "a\nb.ts"], .file (some ""))], ["project"]⟩

/-- A declaration without methods. -/
def bareUser : TypeOutline := ⟨⟨⟨"User", .interface, 2⟩, [⟨"HttpClient", ""⟩]⟩, []⟩

/-- Sources with such names are found, and their clients written; in each a path leaves its place. -/
theorem not_pathsInContext_scanned :
    (Scan.run oddNames ⟨"."⟩ ⟨[], [], false⟩).files = ["./a\nb.ts", "./we\"ird.ts"] ∧
      Service.ofType "user" bareUser userKeys = .ok ⟨"user", "User", "User", []⟩ ∧
      resolveImport (.ofLocation oddNames.cwd) ⟨"."⟩ ⟨"./we\"ird.ts"⟩ = .ok "./we\"ird" ∧
      ¬ PathsInContext ⟨"user", "User", "User", []⟩ "./we\"ird.ts" "./we\"ird" ∧
      resolveImport (.ofLocation oddNames.cwd) ⟨"."⟩ ⟨"./a\nb.ts"⟩ = .ok "./a\nb" ∧
      ¬ PathsInContext ⟨"user", "User", "User", []⟩ "./a\nb.ts" "./a\nb" := by
  refine ⟨by decide +kernel, by decide +kernel, by decide +kernel, ?_, by decide +kernel, ?_⟩
  · rw [pathsInContext_iff_of_plain _ (not_isLineEnd_of_all (by decide))]
    exact fun hplain => (hplain '"' (by decide)).1 rfl
  · have hsplit : "./a\nb.ts".toList = "./a".toList ++ '\n' :: "b.ts".toList := by decide
    exact not_pathsInContext_of_lineEnd hsplit (by decide) (not_isLineEnd_of_all (by decide))

end Client
end FetchClients
