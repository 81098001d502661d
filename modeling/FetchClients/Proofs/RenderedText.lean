/-
# What the text of a client says

A client holds all of its service: when the names of the service are words, with no
blanks and no punctuation but `_` and `$`, and the paths of its methods are absolute
paths of plain characters, the text can be read back, since no delimiter of the text
occurs in what it delimits. So two services have the same client for one source and
one specifier exactly when they agree on interface, name and methods
(`Client.render_eq_iff`). The module that declares a service does not stand in its
client; source and specifier can be any texts.

Key definitions: `Client.isWord`, `Client.Legible`.
Key theorems: `Client.eq_of_methodLines_append`, `Client.eq_of_methodTexts`,
`Client.render_eq_iff`.
-/
import FetchClients.Proofs.HeaderPaths
import FetchClients.Text.Blank

namespace FetchClients

/-- A text that is cut at the first separator has one front and one rest. -/
theorem Text.eq_of_append_cons {sep : Char} {front other rest more : List Char}
    (hfront : sep ∉ front) (hother : sep ∉ other) (h : front ++ sep :: rest = other ++ sep :: more) :
    front = other ∧ rest = more := by
  have hcut := cutAt?_append_cons rest hfront
  rw [h, cutAt?_append_cons more hother, Option.some.injEq, Prod.mk.injEq] at hcut
  exact ⟨hcut.1.symm, hcut.2.symm⟩

namespace Client

/-! ### Words -/

/-- An ASCII punctuation mark other than `_` and `$`. -/
def isMark (c : Char) : Bool :=
  "!\"#%&'()*+,-./:;<=>?@[\\]^`\x7b|\x7d~".toList.contains c

/-- Whether a text has no blanks and no punctuation but `_` and `$`. -/
def isWord (text : String) : Bool :=
  text.toList.all fun c => !Text.isBlank c && !isMark c

/-- Services whose names are words and whose methods have absolute paths. -/
structure Legible (s : Service) : Prop where
  interface : isWord s.interface
  name : isWord s.name
  methodName : ∀ m ∈ s.methods, isWord m.name
  requestType : ∀ m ∈ s.methods, isWord m.requestType
  responseType : ∀ m ∈ s.methods, isWord m.responseType
  path : ∀ m ∈ s.methods, isMethodPath m.path

/-- A word has no delimiter. -/
theorem notMem_of_isWord {text : String} (h : isWord text) {c : Char}
    (hc : (Text.isBlank c || isMark c) = true) : c ∉ text.toList := by
  intro hmem
  have hpart := List.all_eq_true.mp h c hmem
  simp only [Bool.and_eq_true, Bool.not_eq_true'] at hpart
  simp [hpart] at hc

theorem notMem_of_isMethodPath {path : String} (h : isMethodPath path) {c : Char}
    (hc : isPathPart c = false) : c ∉ path.toList := by
  intro hmem
  simp [isPathPart_of_isMethodPath h c hmem] at hc

/-! ### The methods -/

/-- The text of a method up to its path, cut at the ends of the names in it. -/
theorem toList_upToPath (m : Method) :
    (upToPath m).toList =
      "\n  async ".toList ++ (m.name.toList ++ '(' :: ("req: ".toList ++ (m.requestType.toList ++
        ')' :: (": Promise<".toList ++ (m.responseType.toList ++ '>' ::
          " \x7b\n    const resp = await this.fetchFn(this.endpoint + this.path + ".toList))))) := by
  unfold upToPath unlines
  simp

/-- The text of a method ends where it ends, and says all of the method. -/
theorem eq_of_methodLines_append {s t : Service} (hs : Legible s) (ht : Legible t) {m n : Method}
    (hm : m ∈ s.methods) (hn : n ∈ t.methods) {rest more : List Char}
    (h : (unlines (methodLines m)).toList ++ rest = (unlines (methodLines n)).toList ++ more) :
    m = n ∧ rest = more := by
  simp only [toList_methodLines, toList_upToPath, List.append_assoc, List.cons_append] at h
  obtain ⟨hname, h⟩ := Text.eq_of_append_cons (notMem_of_isWord (hs.methodName m hm) (by decide))
    (notMem_of_isWord (ht.methodName n hn) (by decide)) (List.append_cancel_left h)
  obtain ⟨hrequest, h⟩ := Text.eq_of_append_cons
    (notMem_of_isWord (hs.requestType m hm) (by decide))
    (notMem_of_isWord (ht.requestType n hn) (by decide)) (List.append_cancel_left h)
  obtain ⟨hresponse, h⟩ := Text.eq_of_append_cons
    (notMem_of_isWord (hs.responseType m hm) (by decide))
    (notMem_of_isWord (ht.responseType n hn) (by decide)) (List.append_cancel_left h)
  obtain ⟨hpath, h⟩ := Text.eq_of_append_cons
    (notMem_of_isMethodPath (hs.path m hm) (by decide))
    (notMem_of_isMethodPath (ht.path n hn) (by decide))
    (List.cons.inj (List.append_cancel_left h)).2
  obtain rfl : m = n := by
    cases m
    cases n
    simp_all [String.toList_inj]
  exact ⟨rfl, by simpa using h⟩

theorem toList_methodTexts_cons (m : Method) (methods : List Method) :
    (unlines ((m :: methods).flatMap methodLines ++ ["\x7d"])).toList =
      (unlines (methodLines m)).toList ++
        (unlines (methods.flatMap methodLines ++ ["\x7d"])).toList := by
  rw [List.flatMap_cons, List.append_assoc, toList_unlines_append]

/-- A method starts with a blank line, unlike the brace that closes the class. -/
theorem methodTexts_ne_nil (m : Method) (methods : List Method) :
    (unlines ((m :: methods).flatMap methodLines ++ ["\x7d"])).toList ≠
      (unlines ([].flatMap methodLines ++ ["\x7d"])).toList := by
  have hbrace : (unlines ([].flatMap methodLines ++ ["\x7d"])).toList = ['\x7d', '\n'] := by decide
  rw [toList_methodTexts_cons, hbrace, toList_methodLines, toList_upToPath]
  simp

/-- The methods of a client are read one after the other, up to the brace that closes the class. -/
theorem eq_of_methodTexts {s t : Service} (hs : Legible s) (ht : Legible t)
    {methods others : List Method} (hmethods : ∀ m ∈ methods, m ∈ s.methods)
    (hothers : ∀ m ∈ others, m ∈ t.methods)
    (h : (unlines (methods.flatMap methodLines ++ ["\x7d"])).toList =
      (unlines (others.flatMap methodLines ++ ["\x7d"])).toList) : methods = others := by
  induction methods generalizing others with
  | nil =>
    cases others with
    | nil => rfl
    | cons n others => exact absurd h.symm (methodTexts_ne_nil n others)
  | cons m methods ih =>
    cases others with
    | nil => exact absurd h (methodTexts_ne_nil m methods)
    | cons n others =>
      obtain ⟨hm, hmethods⟩ := List.forall_mem_cons.mp hmethods
      obtain ⟨hn, hothers⟩ := List.forall_mem_cons.mp hothers
      rw [toList_methodTexts_cons, toList_methodTexts_cons] at h
      obtain ⟨hmn, hrest⟩ := eq_of_methodLines_append hs ht hm hn h
      rw [hmn, ih hmethods hothers hrest]

/-! ### The header -/

/-- The text of a client up to its specifier has no quote. -/
theorem notMem_upToSpecifier {s : Service} (hs : Legible s) : '"' ∉ (upToSpecifier s).toList := by
  have hopen : '"' ∉ "import type \x7b ".toList := by decide
  have hclose : '"' ∉ " \x7d from ".toList := by decide
  unfold upToSpecifier
  simp only [String.toList_append, List.mem_append]
  rintro ((h | h) | h)
  · exact hopen h
  · rcases mem_intercalate h with h | ⟨name, hname, h⟩
    · exact absurd h (by decide)
    · refine notMem_of_isWord ?_ (by decide) h
      rcases List.mem_cons.mp hname with rfl | himported
      · exact hs.interface
      · obtain ⟨m, hm, rfl | rfl⟩ := Service.mem_imports.mp himported
        · exact hs.requestType m hm
        · exact hs.responseType m hm
  · exact hclose h

/-- The text of a client from the brace that opens the class to the methods. -/
def constructorText : String :=
  "\x7b\n" ++ unlines [
    "  constructor(",
    "    private readonly endpoint: string,",
    "    private readonly path: string,",
    "    private readonly fetchFn: typeof fetch = fetch,",
    "  ) \x7b\x7d"]

/-- The text of a client behind its specifier, cut at the ends of the names in it. -/
theorem toList_afterSpecifier (s : Service) :
    (afterSpecifier s).toList =
      ";\n\nexport class ".toList ++ (s.className.toList ++ ' ' :: ("implements ".toList ++
        (s.interface.toList ++ ' ' :: (constructorText.toList ++
          (unlines (s.methods.flatMap methodLines ++ ["\x7d"])).toList)))) := by
  have hopen : ";\n\nexport class ".toList =
      ";".toList ++ ("\n".toList ++ ("".toList ++ ("\n".toList ++ "export class ".toList))) := by simp
  have himplements : " implements ".toList = ' ' :: "implements ".toList := by simp
  have hbrace : " \x7b".toList ++ "\n".toList = ' ' :: "\x7b\n".toList := by simp
  unfold afterSpecifier constructorText
  simp only [toList_unlines_append, List.append_assoc]
  unfold unlines
  simp only [List.map_cons, List.map_nil, String.toList_join, List.flatMap_cons, List.flatMap_nil,
    String.toList_append, hopen, himplements, hbrace, List.append_assoc, List.cons_append,
    List.append_nil]

/-- The name of a class has no blanks, and what stands in front of `Gen` is the name of the
service. -/
theorem notMem_className {s : Service} (hs : Legible s) : ' ' ∉ s.className.toList := by
  rw [Service.className, String.toList_append, List.mem_append]
  rintro (h | h)
  · exact notMem_of_isWord hs.name (by decide) h
  · exact absurd h (by decide)

/-- Rendering loses nothing: the clients of two legible services for one source and one specifier
have the same text exactly when the services have the same interface, the same name and the same
methods in the same order. -/
theorem render_eq_iff {s t : Service} (hs : Legible s) (ht : Legible t)
    (source specifier : String) :
    render s source specifier = render t source specifier ↔
      s.interface = t.interface ∧ s.name = t.name ∧ s.methods = t.methods := by
  constructor
  · intro h
    have hlist := congrArg String.toList h
    simp only [toList_render_header, belowNotes, List.cons.injEq, true_and,
      List.append_cancel_left_eq] at hlist
    obtain ⟨-, hlist⟩ := Text.eq_of_append_cons (notMem_upToSpecifier hs) (notMem_upToSpecifier ht)
      hlist
    have hafter := (List.cons.inj (List.append_cancel_left hlist)).2
    rw [toList_afterSpecifier, toList_afterSpecifier] at hafter
    obtain ⟨hclass, hafter⟩ := Text.eq_of_append_cons (notMem_className hs) (notMem_className ht)
      (List.append_cancel_left hafter)
    obtain ⟨hinterface, hafter⟩ := Text.eq_of_append_cons
      (notMem_of_isWord hs.interface (by decide)) (notMem_of_isWord ht.interface (by decide))
      (List.append_cancel_left hafter)
    have hname : s.name.toList = t.name.toList := by
      simpa [Service.className] using hclass
    exact ⟨String.toList_inj.mp hinterface, String.toList_inj.mp hname,
      eq_of_methodTexts hs ht (fun _ => id) (fun _ => id) (List.append_cancel_left hafter)⟩
  · rintro ⟨hinterface, hname, hmethods⟩
    obtain ⟨module, interface, name, methods⟩ := s
    obtain ⟨other, _, _, _⟩ := t
    subst hinterface hname hmethods
    rfl

/-- The service of `userService` with another method for the same types. -/
def renamedService : Service :=
  { userService with methods := [⟨"get", "/users/\x7bid\x7d:get", "GetUser", "Answer"⟩] }

/-- The client says which of two methods a service has. -/
theorem render_eq_iff_user :
    Legible userService ∧ Legible renamedService ∧
      render userService "api.ts" "./api" ≠ render renamedService "api.ts" "./api" := by
  have huser : Legible userService :=
    ⟨by decide, by decide, by decide, by decide, by decide, by decide⟩
  have hrenamed : Legible renamedService :=
    ⟨by decide, by decide, by decide, by decide, by decide, by decide⟩
  refine ⟨huser, hrenamed, fun h => ?_⟩
  have hmethods := ((render_eq_iff huser hrenamed "api.ts" "./api").mp h).2.2
  exact absurd hmethods (by decide)

end Client
end FetchClients
