/-
# The literals of a method in the text of a client

Every method of a client holds two literals that are made from a declaration: the
string of its path, and the template of the error that a failed request throws.
Neither can be left early, whatever the declaration and its annotations say: names
are identifiers and paths hold only plain characters, so none of them is live in its
literal (`Client.literals_of_methods`).

Key definitions: `Client.upToPath`, `Client.betweenLiterals`, `Client.afterError`,
`Client.errorParts`.
Key theorems: `Client.toList_methodLines`, `Client.literals_of_methods`.
-/
import FetchClients.Client.Render
import FetchClients.Proofs.ScriptLiterals
import FetchClients.Proofs.Services

namespace FetchClients

theorem Service.of_mem_methods {module : String} {type : TypeOutline} {keys : Keys} {s : Service}
    (h : ofType module type keys = .ok s) {m : Method} (hm : m ∈ s.methods) :
    ∃ field ∈ type.methodFields, Method.Of keys field m := by
  obtain ⟨-, -, -, hmethods⟩ := ofType_eq_ok_iff.mp h
  obtain ⟨i, hi, rfl⟩ := List.getElem_of_mem hm
  have hlength := hmethods.length_eq
  exact ⟨_, List.getElem_mem _, hmethods.get (hlength.symm ▸ hi) hi⟩

namespace Client

/-! ### The text of a method -/

/-- The text of a method up to the quote that opens its path. -/
def upToPath (m : Method) : String :=
  unlines [
    "",
    "  async " ++ m.name ++ "(req: " ++ m.requestType ++ "): Promise<" ++ m.responseType ++ "> \x7b"] ++
  "    const resp = await this.fetchFn(this.endpoint + this.path + "

/-- The text of a method from the quote that closes its path to the backquote of its error. -/
def betweenLiterals : String :=
  unlines [
    ", \x7b",
    "      method: \"POST\",",
    "      headers: \x7b \"Content-Type\": \"application/json\" \x7d,",
    "      body: JSON.stringify(req),",
    "    \x7d);",
    "    if (!resp.ok) \x7b"] ++
  "      throw new Error("

/-- The text of a method after the backquote that closes its error. -/
def afterError (m : Method) : String :=
  unlines [
    ");",
    "    \x7d",
    "    return (await resp.json()) as " ++ m.responseType ++ ";",
    "  \x7d"]

theorem toList_unlines_append (lines more : List String) :
    (unlines (lines ++ more)).toList = (unlines lines).toList ++ (unlines more).toList := by
  simp [unlines, String.toList_join]

/-- The text of a method, cut at the ends of its two literals. -/
theorem toList_methodLines (m : Method) :
    (unlines (methodLines m)).toList =
      (upToPath m).toList ++ '"' :: (m.path.toList ++ '"' :: (betweenLiterals.toList ++ '`' ::
        (m.name.toList ++ ": HTTP ".toList ++ '$' :: '\x7b' :: ("resp.status".toList ++ '\x7d' ::
          '`' :: (afterError m).toList)))) := by
  have hopen : "    const resp = await this.fetchFn(this.endpoint + this.path + \"".toList =
      "    const resp = await this.fetchFn(this.endpoint + this.path + ".toList ++ ['"'] := by simp
  have hclose : "\", \x7b".toList = '"' :: ", \x7b".toList := by simp
  have hthrow : "      throw new Error(`".toList = "      throw new Error(".toList ++ ['`'] := by simp
  have herror : ": HTTP $\x7bresp.status\x7d`);".toList =
      ": HTTP ".toList ++ '$' :: '\x7b' :: ("resp.status".toList ++ '\x7d' :: '`' :: ");".toList) := by
    simp
  unfold upToPath betweenLiterals afterError unlines methodLines
  simp only [List.map_cons, List.map_nil, String.toList_join, List.flatMap_cons, List.flatMap_nil,
    String.toList_append, hopen, hclose, hthrow, herror, List.append_assoc, List.cons_append,
    List.nil_append]

/-- A client is its header, its methods one after the other, and a closing brace. -/
theorem toList_render {s : Service} {source specifier : String} {before after : List Method}
    {m : Method} (hm : s.methods = before ++ m :: after) :
    (render s source specifier).toList =
      (unlines (headerLines s source specifier ++ before.flatMap methodLines)).toList ++
        ((unlines (methodLines m)).toList ++
          (unlines (after.flatMap methodLines ++ ["\x7d"])).toList) := by
  have hlines : s.methods.flatMap methodLines =
      before.flatMap methodLines ++ (methodLines m ++ after.flatMap methodLines) := by
    rw [hm, List.flatMap_append, List.flatMap_cons]
  rw [render, hlines, ← toList_unlines_append, ← toList_unlines_append]
  simp only [List.append_assoc]

/-! ### What the literals denote -/

/-- The parts of the template that a failed request throws: the method's name, a fixed text, and
the status. -/
def errorParts (m : Method) : List Script.Part :=
  (m.name.toList ++ ": HTTP ".toList).map .plain ++ [.substitution "resp.status".toList]

theorem value_errorParts (eval : List Char → List Nat) (m : Method) :
    Script.value eval (errorParts m) =
      Script.units (m.name ++ ": HTTP ").toList ++ eval "resp.status".toList := by
  simp [Script.value, errorParts, Script.units, List.flatMap_map]

/-- A path is what stands between its quotes. -/
theorem string?_path {m : Method} (hpath : isMethodPath m.path) (rest : List Char) :
    Script.string? 0 (m.path.toList ++ '"' :: rest) = some (Script.units m.path.toList, rest) := by
  apply Script.string?_append
  intro c hc
  have hplain := isPathPart_of_isMethodPath hpath c hc
  exact ⟨ne_of_isPathPart hplain (by decide), ne_of_isPathPart hplain (by decide),
    ne_of_isPathPart hplain (by decide), ne_of_isPathPart hplain (by decide)⟩

/-- The error of a method is what stands between its backquotes, and its only substitution is the
status. -/
theorem template?_error {m : Method} (hname : isIdentifier m.name) (rest : List Char) :
    Script.template? 0 (m.name.toList ++ ": HTTP ".toList ++ '$' :: '\x7b' ::
      ("resp.status".toList ++ '\x7d' :: '`' :: rest)) = some (errorParts m, rest) := by
  have hfixed : ∀ c ∈ ": HTTP ".toList, c ≠ '`' ∧ c ≠ '\\' ∧ c ≠ '\r' ∧ c ≠ '\x7b' := by simp
  have hplain : ∀ c ∈ m.name.toList ++ ": HTTP ".toList,
      c ≠ '`' ∧ c ≠ '\\' ∧ c ≠ '\r' ∧ c ≠ '\x7b' := by
    intro c hc
    rcases List.mem_append.mp hc with hc | hc
    · have hpart := isNamePart_of_isIdentifier hname c hc
      exact ⟨ne_of_isNamePart hpart (by decide), ne_of_isNamePart hpart (by decide),
        ne_of_isNamePart hpart (by decide), ne_of_isNamePart hpart (by decide)⟩
    · exact hfixed c hc
  rw [Script.template?_append (by simp) hplain,
    Script.template?_substitution (by decide) (by decide)]
  simp [Script.template?, errorParts]

/-- In the text of every client, the string of a method's path and the template of its error end
where the text of the method ends them: the string denotes the path, and the template, which has no
escape and only one substitution, the name, the fixed text and the status. -/
theorem literals_of_methods {module : String} {type : TypeOutline} {keys : Keys} {s : Service}
    (h : Service.ofType module type keys = .ok s) {before after : List Method} {m : Method}
    (hm : s.methods = before ++ m :: after) (source specifier : String) :
    ∃ afterQuote afterBackquote,
      (render s source specifier).toList =
        (unlines (headerLines s source specifier ++ before.flatMap methodLines) ++
          upToPath m).toList ++ '"' :: afterQuote ∧
      Script.string? 0 afterQuote =
        some (Script.units m.path.toList, betweenLiterals.toList ++ '`' :: afterBackquote) ∧
      Script.template? 0 afterBackquote =
        some (errorParts m,
          (afterError m ++ unlines (after.flatMap methodLines ++ ["\x7d"])).toList) ∧
      ∀ eval, Script.value eval (errorParts m) =
        Script.units (m.name ++ ": HTTP ").toList ++ eval "resp.status".toList := by
  obtain ⟨field, -, hof⟩ := Service.of_mem_methods h (m := m) (by simp [hm])
  refine ⟨_, _, ?_, string?_path hof.methodPath _, template?_error hof.identifier _,
    fun eval => value_errorParts eval m⟩
  rw [toList_render hm, toList_methodLines]
  simp only [String.toList_append, List.append_assoc, List.cons_append]

/-- A declaration whose method has a name and a path with characters that are live elsewhere in a
script. -/
def markedUser : TypeOutline where
  decl := ⟨⟨"User", .interface, 2⟩, [⟨"HttpClient", ""⟩]⟩
  fields := [⟨⟨"get$", .method [⟨"req", some (.named "GetUser" [])⟩]
    (some (.named "Promise" [.named "Answer" []])), false, 4⟩, [⟨"path", " /users/\x7bid\x7d:get "⟩]⟩]

def userKeys : Keys := ⟨"HttpClient", "service", "path"⟩

def userMethod : Method := ⟨"get$", "/users/\x7bid\x7d:get", "GetUser", "Answer"⟩

def userService : Service := ⟨"api", "User", "User", [userMethod]⟩

theorem literals_of_methods_user :
    Service.ofType "api" markedUser userKeys = .ok userService ∧
      userService.methods = [] ++ userMethod :: [] ∧
      ∃ afterQuote afterBackquote,
        (render userService "api.ts" "./api").toList =
          (unlines (headerLines userService "api.ts" "./api" ++ [].flatMap methodLines) ++
            upToPath userMethod).toList ++ '"' :: afterQuote ∧
        Script.string? 0 afterQuote =
          some (Script.units userMethod.path.toList,
            betweenLiterals.toList ++ '`' :: afterBackquote) ∧
        Script.template? 0 afterBackquote =
          some (errorParts userMethod,
            (afterError userMethod ++ unlines ([].flatMap methodLines ++ ["\x7d"])).toList) ∧
        ∀ eval, Script.value eval (errorParts userMethod) =
          Script.units (userMethod.name ++ ": HTTP ").toList ++ eval "resp.status".toList := by
  have hservice : Service.ofType "api" markedUser userKeys = .ok userService := by decide +kernel
  exact ⟨hservice, rfl, literals_of_methods hservice rfl "api.ts" "./api"⟩

end Client
end FetchClients
