/-
# An import leads back to its source

A specifier is followed segment by segment from the directory of the generated
file: `.` stays, `..` goes up, and any other segment goes down. The specifier of
a client leads to the directory of its source and there to the stem of the
source's name (`Client.follow_generate`), and it never climbs above the root.
Two paths below one start share the part that opens both, and the specifier
climbs out of what is left of the one and goes down what is left of the other
(`Client.follow_importPath`); all other paths are first made absolute.

Key definitions: `Client.followSegment`, `Client.follow`.
Key theorems: `Client.follow_importPath`, `Client.follow_generate`.
-/
import FetchClients.Client.Generated
import FetchClients.Proofs.Paths

namespace FetchClients
namespace Client

/-- The place that a segment of a specifier leads to; nothing is above the root. -/
def followSegment (place : Location) (segment : List Char) : Option Location :=
  if segment = ['.'] then some place
  else if segment = ['.', '.'] then if place = [] then none else some place.dropLast
  else some (place ++ [String.ofList segment])

/-- The place that a specifier leads to from a directory. -/
def follow (place : Location) (specifier : String) : Option Location :=
  (Text.fields '/' specifier.toList).foldlM followSegment place

/-! ### Segments -/

theorem followSegment_name {place : Location} {n : String} (h : ProperName n) :
    followSegment place n.toList = some (place ++ [n]) := by
  have hhere : n.toList ≠ ['.'] := fun he => h.ne_here (String.ext he)
  have hup : n.toList ≠ ['.', '.'] := fun he => h.ne_up (String.ext he)
  simp [followSegment, hhere, hup]

/-- As many `..` as there are names lead out of the names. -/
theorem foldlM_up (base : Location) : ∀ (n : Nat) (names : Location), names.length = n →
    (List.replicate n ['.', '.']).foldlM followSegment (base ++ names) = some base
  | 0, names, h => by
    obtain rfl := List.length_eq_zero_iff.mp h
    simp
  | n + 1, names, h => by
    have hne : names ≠ [] := List.ne_nil_of_length_eq_add_one h
    have hlength : names.dropLast.length = n := by
      rw [List.length_dropLast]
      omega
    have hstep : followSegment (base ++ names) ['.', '.'] = some (base ++ names.dropLast) := by
      simp [followSegment, hne, List.dropLast_append_of_ne_nil]
    rw [List.replicate_succ, List.foldlM_cons, hstep]
    exact foldlM_up base n names.dropLast hlength

theorem foldlM_names : ∀ (place : Location) (names : List String), (∀ n ∈ names, ProperName n) →
    (names.map String.toList).foldlM followSegment place = some (place ++ names)
  | place, [], _ => by simp
  | place, n :: names, h => by
    have ih := foldlM_names (place ++ [n]) names fun m hm => h m (List.mem_cons_of_mem n hm)
    rw [List.map_cons, List.foldlM_cons, followSegment_name (h n (by simp))]
    simpa using ih

theorem follow_intercalate {place : Location} {parts : List String} (hne : parts ≠ [])
    (hslash : ∀ part ∈ parts, '/' ∉ part.toList) :
    follow place (String.intercalate "/" parts) =
      (parts.map String.toList).foldlM followSegment place := by
  have hfields : Text.fields '/' (String.intercalate "/" parts).toList =
      parts.map String.toList := by
    rw [String.toList_intercalate]
    have hjoin := Text.joinWith_eq_intercalate ['/'] (parts.map String.toList)
    rw [show "/".toList = ['/'] from rfl, ← hjoin]
    refine Text.fields_joinWith (by simpa using hne) fun segment hsegment => ?_
    obtain ⟨part, hpart, rfl⟩ := List.mem_map.mp hsegment
    exact hslash part hpart
  rw [follow, hfields]

/-- A `./` in front changes nothing. -/
theorem follow_here (place : Location) (specifier : String) :
    follow place ("./" ++ specifier) = follow place specifier := by
  have hfields : Text.fields '/' ("./" ++ specifier).toList =
      ['.'] :: Text.fields '/' specifier.toList := by
    simp [Text.fields]
  rw [follow, hfields]
  simp [followSegment, follow]

/-! ### The specifier -/

theorem dropCommon_eq {α : Type} [DecidableEq α] : ∀ xs ys : List α,
    ∃ common, xs = common ++ (dropCommon xs ys).1 ∧ ys = common ++ (dropCommon xs ys).2
  | [], ys => ⟨[], by simp [dropCommon]⟩
  | x :: xs, [] => ⟨[], by simp [dropCommon]⟩
  | x :: xs, y :: ys => by
    by_cases h : x = y
    · subst h
      obtain ⟨common, hx, hy⟩ := dropCommon_eq xs ys
      refine ⟨x :: common, ?_, ?_⟩
      · simpa [dropCommon] using hx
      · simpa [dropCommon] using hy
    · exact ⟨[], by simp [dropCommon, h]⟩

theorem dropCommon_append {α : Type} [DecidableEq α] (xs ys : List α) : ∀ common : List α,
    dropCommon (common ++ xs) (common ++ ys) = dropCommon xs ys
  | [] => rfl
  | c :: common => by
    rw [List.cons_append, List.cons_append, dropCommon, if_pos rfl, dropCommon_append xs ys common]

/-- Steps in front of both places do not show in the parts. -/
theorem specifierParts_append (common froms tos : List Component) (stem : String) :
    specifierParts (common ++ froms) (common ++ tos) stem = specifierParts froms tos stem := by
  rw [specifierParts, specifierParts, dropCommon_append]

/-- A specifier leads where its parts lead, with a `./` in front or without. -/
theorem follow_importPath_eq (place : Location) (dir source : Path) :
    follow place (importPath dir source) = follow place (String.intercalate "/"
      (specifierParts (moves dir) (moves (source.parent?.getD ⟨""⟩)) (source.stem?.getD ""))) := by
  unfold importPath
  extract_lets moduleDir parts joined
  split
  · rfl
  · exact follow_here place joined

/-- The parts from one place to another climb out of the names that only the first has, and go down
those that only the second has. -/
theorem specifierParts_names (rooted : Bool) (froms tos : List String) (stem : String) :
    ∃ common ups downs, froms = common ++ ups ∧ tos = common ++ downs ∧
      specifierParts ((if rooted then [.root] else []) ++ froms.map .name)
        ((if rooted then [.root] else []) ++ tos.map .name) stem =
      List.replicate ups.length ".." ++ downs ++ [stem] := by
  obtain ⟨shared, hfroms, htos⟩ := dropCommon_eq (froms.map Component.name) (tos.map .name)
  obtain ⟨common, ups, rfl, hcommon, hups⟩ := List.map_eq_append_iff.mp hfroms
  obtain ⟨common', downs, rfl, hcommon', hdowns⟩ := List.map_eq_append_iff.mp htos
  -- both lists of names are cut behind the same components
  obtain rfl : common = common' :=
    (List.map_inj_right fun _ _ => Component.name.inj).mp (hcommon.trans hcommon'.symm)
  refine ⟨common, ups, downs, rfl, rfl, ?_⟩
  rw [specifierParts_append, specifierParts]
  cases hdrop : dropCommon ((common ++ ups).map Component.name) ((common ++ downs).map .name) with
  | mk up down =>
    simp only [hdrop] at hups hdowns
    subst hups hdowns
    simp [Component.text, Function.comp_def, List.map_const']

/-- The parts between two places below one start lead from the one to the other. -/
theorem foldlM_specifierParts (start : Location) {rooted : Bool} {froms tos parts : List String}
    {stem : String}
    (hparts : parts = specifierParts ((if rooted then [.root] else []) ++ froms.map .name)
      ((if rooted then [.root] else []) ++ tos.map .name) stem)
    (htos : ∀ n ∈ tos, ProperName n) (hstem : ProperName stem) :
    parts ≠ [] ∧ (∀ part ∈ parts, '/' ∉ part.toList) ∧
      (parts.map String.toList).foldlM followSegment (start ++ froms) =
        some (start ++ tos ++ [stem]) := by
  obtain ⟨common, ups, downs, rfl, rfl, heq⟩ := specifierParts_names rooted froms tos stem
  obtain rfl := hparts.trans heq
  have hnames : ∀ n ∈ downs ++ [stem], ProperName n := by
    intro n hn
    rcases List.mem_append.mp hn with hn | hn
    · exact htos n (List.mem_append_right common hn)
    · rw [List.mem_singleton.mp hn]
      exact hstem
  rw [List.append_assoc]
  refine ⟨by simp, fun part hpart => ?_, ?_⟩
  · rcases List.mem_append.mp hpart with hpart | hpart
    · rw [List.eq_of_mem_replicate hpart]
      decide
    · exact (hnames part hpart).not_slash
  · have hup := foldlM_up (start ++ common) ups.length ups rfl
    have hdown := foldlM_names (start ++ common) (downs ++ [stem]) hnames
    rw [List.append_assoc] at hup
    rw [List.map_append, List.map_replicate, List.foldlM_append]
    simp only [show "..".toList = ['.', '.'] from rfl, hup, Option.bind_eq_bind, Option.bind_some,
      hdown, List.append_assoc]

/-! ### The stem -/

theorem cutExtension_eq (name : List Char) :
    ∃ rest, name = (Path.cutExtension name).1 ++ rest := by
  unfold Path.cutExtension
  split
  · exact ⟨[], by simp⟩
  · exact ⟨[], by simp⟩
  · rename_i after before _ hcut
    have heq := (Text.cutAt?_eq_some hcut).1
    refine ⟨'.' :: after.reverse, ?_⟩
    rw [← List.reverse_reverse name, heq]
    simp

theorem cutExtension_ne_nil {name : List Char} (h : name ≠ []) :
    (Path.cutExtension name).1 ≠ [] := by
  unfold Path.cutExtension
  split
  · exact h
  · exact h
  · rename_i hbefore _
    exact fun he => hbefore (List.reverse_eq_nil_iff.mp he)

theorem not_slash_stem {p : Path} {stem : String} (h : p.stem? = some stem) :
    '/' ∉ stem.toList := by
  obtain ⟨name, hname, rfl⟩ := Option.map_eq_some_iff.mp h
  obtain ⟨parent, -, hcomponents⟩ := Path.exists_parent? hname
  have hproper : ProperName name := Path.properName_of_mem (p := p) (by simp [hcomponents])
  obtain ⟨rest, hrest⟩ := cutExtension_eq name.toList
  intro hslash
  apply hproper.not_slash
  rw [hrest]
  exact List.mem_append_left rest (by simpa using hslash)

/-- A stem is a name, unless it consists of one dot or two. -/
theorem properName_stem {p : Path} {stem : String} (h : p.stem? = some stem) (hhere : stem ≠ ".")
    (hup : stem ≠ "..") : ProperName stem := by
  obtain ⟨name, hname, rfl⟩ := Option.map_eq_some_iff.mp h
  obtain ⟨parent, -, hcomponents⟩ := Path.exists_parent? hname
  have hproper : ProperName name := Path.properName_of_mem (p := p) (by simp [hcomponents])
  have hne : name.toList ≠ [] := fun he => hproper.ne_empty (String.ext he)
  refine ⟨not_slash_stem h, fun he => cutExtension_ne_nil hne ?_, hhere, hup⟩
  simpa using congrArg String.toList he

/-! ### From a directory to a source -/

section Target

variable {cwd dir source : Path} {stem : String}

/-- Two paths that start in the same place and do not climb go down names from there. -/
theorem exists_names_below {name : String} (hname : source.fileName? = some name)
    (habs : dir.isAbsolute = source.isAbsolute) (hdir : .up ∉ dir.components)
    (hsource : .up ∉ source.components) :
    ∃ (moduleDir : Path) (froms tos : List String), source.parent? = some moduleDir ∧
      (∀ n ∈ tos, ProperName n) ∧
      moves dir = (if source.isAbsolute then [.root] else []) ++ froms.map .name ∧
      moves moduleDir = (if source.isAbsolute then [.root] else []) ++ tos.map .name ∧
      dir.locationFrom cwd =
        (if source.isAbsolute then [] else Path.fold [] cwd.components) ++ froms ∧
      source.locationFrom cwd =
        (if source.isAbsolute then [] else Path.fold [] cwd.components) ++ tos ++ [name] := by
  obtain ⟨moduleDir, hparent, hcomponents⟩ := Path.exists_parent? hname
  have hmodule : .up ∉ moduleDir.components := fun h => hsource (by simp [hcomponents, h])
  have habs' : moduleDir.isAbsolute = source.isAbsolute := by
    rw [Bool.eq_iff_iff, Path.isAbsolute_iff, Path.isAbsolute_iff, hcomponents]
    simp
  obtain ⟨froms, -, hfromMoves, hfromFold⟩ := Path.exists_names hdir
  obtain ⟨tos, htos, htoMoves, htoFold⟩ := Path.exists_names hmodule
  rw [habs'] at htoMoves htoFold
  rw [habs] at hfromMoves hfromFold
  refine ⟨moduleDir, froms, tos, hparent, htos, hfromMoves, htoMoves, hfromFold _, ?_⟩
  rw [Path.locationFrom_concat cwd hcomponents]
  exact congrArg (· ++ [name]) (htoFold _)

/-- The specifier between two paths that start in the same place and do not climb. -/
theorem follow_importPath (hstem : source.stem? = some stem) (hproper : ProperName stem)
    (habs : dir.isAbsolute = source.isAbsolute) (hdir : .up ∉ dir.components)
    (hsource : .up ∉ source.components) :
    follow (dir.locationFrom cwd) (importPath dir source) =
      some ((source.locationFrom cwd).dropLast ++ [stem]) := by
  obtain ⟨name, hname, -⟩ := Option.map_eq_some_iff.mp hstem
  obtain ⟨moduleDir, froms, tos, hparent, htos, hfroms, htoMoves, hplace, htarget⟩ :=
    @exists_names_below cwd dir source name hname habs hdir hsource
  rw [hplace, htarget, List.dropLast_concat]
  have hparts : specifierParts (moves dir) (moves moduleDir) stem =
      specifierParts ((if source.isAbsolute then [.root] else []) ++ froms.map .name)
        ((if source.isAbsolute then [.root] else []) ++ tos.map .name) stem := by
    rw [hfroms, htoMoves]
  obtain ⟨hne, hslash, hlead⟩ := foldlM_specifierParts
    (if source.isAbsolute then [] else Path.fold [] cwd.components) hparts htos hproper
  have hfollow := (follow_intercalate hne hslash).trans hlead
  rw [follow_importPath_eq, hparent, hstem]
  exact hfollow

/-- The absolute form of a path has the same file name. -/
theorem stem?_ofLocation (h : source.stem? = some stem) :
    (Path.ofLocation (source.locationFrom cwd)).stem? = some stem := by
  obtain ⟨name, hname, hcut⟩ := Option.map_eq_some_iff.mp h
  obtain ⟨parent, -, hcomponents⟩ := Path.exists_parent? hname
  have hplace := Path.locationFrom_concat cwd hcomponents
  have hlast : (Path.ofLocation (source.locationFrom cwd)).fileName? = some name := by
    unfold Path.fileName?
    -- the place is not empty, so its last name is the last component
    rw [Path.components_ofLocation Path.proper_of_mem_locationFrom, hplace, List.map_append,
      List.map_singleton, ← List.cons_append, List.getLast?_concat]
  rw [Path.stem?, hlast, Option.map_some, hcut]

/-- A specifier leads from a directory to its source, however the two are written. -/
theorem follow_resolveImport {specifier : String} (hstem : source.stem? = some stem)
    (hproper : ProperName stem) (h : resolveImport cwd dir source = .ok specifier) :
    follow (dir.locationFrom cwd) specifier =
      some ((source.locationFrom cwd).dropLast ++ [stem]) := by
  unfold resolveImport at h
  split at h
  · rename_i hdirect
    obtain ⟨habs, hdir, hsource⟩ := hdirect
    obtain rfl := Except.ok.inj h
    refine follow_importPath hstem hproper habs ?_ ?_
    · simpa [climbs] using hdir
    · simpa [climbs] using hsource
  · split at h
    · rename_i folded file hfolded hfile
      obtain rfl := Except.ok.inj h
      obtain rfl := Path.eq_of_absolute? hfolded
      obtain rfl := Path.eq_of_absolute? hfile
      have hdirProper := @Path.proper_of_mem_locationFrom dir cwd
      have hsourceProper := @Path.proper_of_mem_locationFrom source cwd
      have hfollow := @follow_importPath cwd _ _ _ (stem?_ofLocation hstem) hproper
        ((Path.isAbsolute_ofLocation hdirProper).trans (Path.isAbsolute_ofLocation hsourceProper).symm)
        (Path.up_not_mem_ofLocation hdirProper) (Path.up_not_mem_ofLocation hsourceProper)
      rwa [Path.locationFrom_ofLocation hdirProper,
        Path.locationFrom_ofLocation hsourceProper] at hfollow
    · cases h

end Target

/-! ### Generated clients -/

/-- The path of a client has a file name with the suffix. -/
theorem exists_fileName?_outputPath (source : Path) (service : String) (outputDir : Option Path) :
    ∃ before, (outputPath source service outputDir).fileName? = some (before ++ fileSuffix) := by
  have hends : ∃ text, outputPath source service outputDir = ⟨text ++ fileSuffix⟩ := by
    rw [outputPath_eq_join]
    generalize outputDirectory source outputDir = dir
    unfold Path.join
    split
    · exact ⟨snakeCase service, rfl⟩
    · split
      · exact ⟨dir.text ++ snakeCase service, by rw [String.append_assoc]⟩
      · exact ⟨dir.text ++ "/" ++ snakeCase service, by simp only [String.append_assoc]⟩
  obtain ⟨text, htext⟩ := hends
  obtain ⟨before, hname⟩ := @Path.fileName?_append text fileSuffix (by decide) (by decide)
  exact ⟨before, htext ▸ hname⟩

/-- The specifier of a client leads from the directory of the client to the stem of its source in
the directory of the source, and does not leave the root on the way. -/
theorem follow_generate {cwd : Path} {s : Service} {source stem : String} {outputDir : Option Path}
    {client : Generated} (hgenerate : generate cwd s source outputDir = .ok client)
    (hstem : (Path.mk source).stem? = some stem) (hhere : stem ≠ ".") (hup : stem ≠ "..") :
    ∃ (dir moduleDir : Path) (specifier : String),
      client.path.parent? = some dir ∧ (Path.mk source).parent? = some moduleDir ∧
      client.contents = render s source specifier ∧
      follow (dir.locationFrom cwd) specifier = some (moduleDir.locationFrom cwd ++ [stem]) := by
  obtain ⟨hpath, -, -, specifier, hresolve, hcontents⟩ := generate_eq_ok_iff.mp hgenerate
  obtain ⟨before, hfile⟩ := exists_fileName?_outputPath ⟨source⟩ s.name outputDir
  rw [← hpath] at hfile
  obtain ⟨dir, hdir, -⟩ := Path.exists_parent? hfile
  obtain ⟨name, hname, -⟩ := Option.map_eq_some_iff.mp hstem
  obtain ⟨moduleDir, hmodule, hcomponents⟩ := Path.exists_parent? hname
  rw [hdir, Option.getD_some] at hresolve
  have hproper := properName_stem hstem hhere hup
  have hfollow := follow_resolveImport hstem hproper hresolve
  rw [Path.locationFrom_concat cwd hcomponents, List.dropLast_concat] at hfollow
  exact ⟨dir, moduleDir, specifier, hdir, hmodule, hcontents, hfollow⟩

theorem follow_generate_climbing :
    ∃ client, generate ⟨"/w"⟩ ⟨"api", "Api", "Api", []⟩ "../lib/./v1.2.ts" (some ⟨"/w/../out"⟩) =
        .ok client ∧
      ∃ (dir moduleDir : Path) (specifier : String),
        client.path.parent? = some dir ∧ (Path.mk "../lib/./v1.2.ts").parent? = some moduleDir ∧
        client.contents = render ⟨"api", "Api", "Api", []⟩ "../lib/./v1.2.ts" specifier ∧
        follow (dir.locationFrom ⟨"/w"⟩) specifier =
          some (moduleDir.locationFrom ⟨"/w"⟩ ++ ["v1.2"]) := by
  have hgenerate : ∃ client, generate ⟨"/w"⟩ ⟨"api", "Api", "Api", []⟩ "../lib/./v1.2.ts"
      (some ⟨"/w/../out"⟩) = .ok client := ⟨_, by rfl⟩
  obtain ⟨client, hclient⟩ := hgenerate
  exact ⟨client, hclient, follow_generate hclient (by decide +kernel) (by decide) (by decide)⟩

end Client
end FetchClients
