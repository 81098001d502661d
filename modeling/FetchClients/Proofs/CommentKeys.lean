/-
# The keys of comments

Putting the markers back around the text of a comment and taking them off again gives
the text, whichever markers they are: a comment annotates exactly when its text starts
with a space and has an `@`, and then its key and its value are the parts of the text
behind the first `@`, before and behind the first space there
(`Annotation.ofComment?_literal`).

A key ends at a space only, while a configuration accepts no key with a blank of any
kind. So a key that is read is accepted exactly when the first blank behind its `@` is a
space, and an accepted key is read from every comment in which a space or the end
follows it (`Annotation.accepts_key_iff`).

Key definitions: `Annotation.Parts`, `Annotation.Marked`, `Config.Accepts`.
Key theorems: `Annotation.commentBody?_literal`, `Annotation.ofComment?_literal`,
`Annotation.accepts_key_iff`.
-/
import FetchClients.Annotation
import FetchClients.Config.Basic
import FetchClients.TypeScript.Comment
import Mathlib.Data.List.TakeWhile
import Mathlib.Logic.ExistsUnique

namespace FetchClients
namespace Annotation

open TypeScript (Comment CommentKind)

/-! ### The parts of a comment -/

/-- What stands in front of the first `@` of a text, the key behind it, and the rest with the space
that ends the key. -/
structure Parts where
  before : List Char
  key : List Char
  rest : List Char

/-- The annotation of the parts; without a rest the value is empty. -/
def Parts.annotation (p : Parts) : Annotation :=
  ⟨String.ofList p.key, String.ofList p.rest.tail⟩

/-- A body that is made of parts. -/
structure Parts.OfBody (p : Parts) (body : List Char) : Prop where
  body_eq : body = p.before ++ '@' :: (p.key ++ p.rest)
  before : '@' ∉ p.before
  key : ' ' ∉ p.key
  rest : p.rest = [] ∨ ∃ value, p.rest = ' ' :: value

/-- A text that is a space and the parts. -/
def Parts.Of (p : Parts) (text : List Char) : Prop :=
  ∃ body, text = ' ' :: body ∧ p.OfBody body

/-- A text that can annotate: it starts with a space and has an `@`. -/
def Marked (text : List Char) : Prop :=
  text.head? = some ' ' ∧ '@' ∈ text

variable {p q : Parts} {body text : List Char}

theorem marked_cons_iff : Marked (' ' :: body) ↔ '@' ∈ body := by
  simp [Marked]

theorem Parts.OfBody.mem (h : p.OfBody body) : '@' ∈ body := by
  simp [h.body_eq]

/-- The cuts at the first `@` and at the first space behind it find the parts. -/
theorem Parts.OfBody.cutAt? (h : p.OfBody body) :
    Text.cutAt? '@' body = some (p.before, p.key ++ p.rest) := by
  rw [h.body_eq]
  exact Text.cutAt?_append_cons _ h.before

theorem Parts.OfBody.ofMarked (h : p.OfBody body) : ofMarked (p.key ++ p.rest) = p.annotation := by
  unfold Annotation.ofMarked Parts.annotation
  rcases h.rest with hrest | ⟨value, hrest⟩
  · have hcut : Text.cutAt? ' ' p.key = none := Text.cutAt?_eq_none.mpr h.key
    simp [hrest, hcut]
  · simp [hrest, Text.cutAt?_append_cons value h.key]

theorem exists_ofBody (h : '@' ∈ body) : ∃ p : Parts, p.OfBody body := by
  obtain ⟨⟨before, marked⟩, hcut⟩ : ∃ cut, Text.cutAt? '@' body = some cut :=
    Option.ne_none_iff_exists'.mp fun hnone => Text.cutAt?_eq_none.mp hnone h
  obtain ⟨rfl, hbefore⟩ := Text.cutAt?_eq_some hcut
  cases hspace : Text.cutAt? ' ' marked with
  | none =>
    exact ⟨⟨before, marked, []⟩, by simp, hbefore, Text.cutAt?_eq_none.mp hspace, .inl rfl⟩
  | some cut =>
    obtain ⟨rfl, hkey⟩ := Text.cutAt?_eq_some hspace
    exact ⟨⟨before, cut.1, ' ' :: cut.2⟩, rfl, hbefore, hkey, .inr ⟨_, rfl⟩⟩

/-- A key that ends at a space or with its text is one part in one way. -/
theorem eq_of_key_append {key other rest more : List Char} (hkey : ' ' ∉ key) (hother : ' ' ∉ other)
    (hrest : rest = [] ∨ ∃ value, rest = ' ' :: value)
    (hmore : more = [] ∨ ∃ value, more = ' ' :: value) (h : key ++ rest = other ++ more) :
    key = other ∧ rest = more := by
  have hcut := congrArg (Text.cutAt? ' ') h
  rcases hrest with rfl | ⟨value, rfl⟩ <;> rcases hmore with rfl | ⟨value', rfl⟩
  · simpa using h
  · rw [List.append_nil, Text.cutAt?_eq_none.mpr hkey, Text.cutAt?_append_cons _ hother] at hcut
    cases hcut
  · rw [List.append_nil, Text.cutAt?_eq_none.mpr hother, Text.cutAt?_append_cons _ hkey] at hcut
    cases hcut
  · rw [Text.cutAt?_append_cons _ hkey, Text.cutAt?_append_cons _ hother] at hcut
    cases hcut
    exact ⟨rfl, rfl⟩

theorem Parts.OfBody.unique (hp : p.OfBody body) (hq : q.OfBody body) : p = q := by
  have hcut := hp.cutAt?.symm.trans hq.cutAt?
  simp only [Option.some.injEq, Prod.mk.injEq] at hcut
  obtain ⟨hkey, hrest⟩ := eq_of_key_append hp.key hq.key hp.rest hq.rest hcut.2
  cases p
  cases q
  simp_all

/-- Exactly the texts that can annotate have parts, and these in one way. -/
theorem existsUnique_parts_iff : Marked text ↔ ∃! p : Parts, p.Of text := by
  constructor
  · rintro ⟨hhead, hmem⟩
    obtain ⟨body, rfl⟩ := List.head?_eq_some_iff.mp hhead
    obtain ⟨p, hp⟩ := exists_ofBody (marked_cons_iff.mp ⟨hhead, hmem⟩)
    refine ⟨p, ⟨body, rfl, hp⟩, ?_⟩
    rintro q ⟨_, hbody, hq⟩
    cases hbody
    exact hq.unique hp
  · rintro ⟨p, ⟨body, rfl, hp⟩, -⟩
    exact marked_cons_iff.mpr hp.mem

/-! ### Comments with their markers -/

theorem commentBody?_line (body : List Char) : commentBody? ("// ".toList ++ body) = some body := by
  have hdrop := Text.dropPrefix?_eq_some_iff.mpr (rfl : "// ".toList ++ body = "// ".toList ++ body)
  simp only [commentBody?, hdrop]

theorem commentBody?_block (body : List Char) :
    commentBody? ("/* ".toList ++ (body ++ "*/".toList)) = some body := by
  have hline : Text.dropPrefix? "// ".toList ("/* ".toList ++ (body ++ "*/".toList)) = none := by
    simp [Text.dropPrefix?]
  have hdrop := Text.dropPrefix?_eq_some_iff.mpr
    (rfl : "/* ".toList ++ (body ++ "*/".toList) = "/* ".toList ++ (body ++ "*/".toList))
  have hend := Text.dropSuffix?_eq_some_iff.mpr (rfl : body ++ "*/".toList = body ++ "*/".toList)
  simp only [commentBody?, hline, hdrop, hend, Option.map_some, Option.getD_some]

/-- The markers that a comment gets are taken off again, with a space behind the first. -/
theorem commentBody?_of_text {c : Comment} (h : c.text.toList = ' ' :: body) :
    commentBody? c.literal.toList = some body := by
  cases hkind : c.kind with
  | line => simpa [Comment.literal, hkind, h] using commentBody?_line body
  | block => simpa [Comment.literal, hkind, h] using commentBody?_block body

theorem commentBody?_literal {c : Comment} :
    commentBody? c.literal.toList = some body ↔ c.text.toList = ' ' :: body := by
  refine ⟨fun h => ?_, commentBody?_of_text⟩
  cases htext : c.text.toList with
  | nil =>
    cases hkind : c.kind <;>
      simp [Comment.literal, hkind, htext, commentBody?, Text.dropPrefix?] at h
  | cons first rest =>
    by_cases hspace : first = ' '
    · subst hspace
      rw [commentBody?_of_text htext] at h
      rw [Option.some.inj h]
    · cases hkind : c.kind <;>
        simp [Comment.literal, hkind, htext, commentBody?, Text.dropPrefix?, Ne.symm hspace] at h

variable {comment : String} {a : Annotation}

theorem ofComment?_of_parts (hbody : commentBody? comment.toList = some body) (hp : p.OfBody body) :
    ofComment? comment = some p.annotation := by
  simp only [ofComment?, hbody, Option.bind_some, hp.cutAt?, Option.map_some, hp.ofMarked]

theorem exists_parts_of_ofComment? (h : ofComment? comment = some a) :
    ∃ body p, commentBody? comment.toList = some body ∧ Parts.OfBody p body ∧ a = p.annotation := by
  obtain ⟨body, before, marked, hbody, hmarked, -⟩ := ofComment?_eq_some h
  have hmem : '@' ∈ body := by simp [hmarked]
  obtain ⟨p, hp⟩ := exists_ofBody hmem
  rw [ofComment?_of_parts hbody hp] at h
  exact ⟨body, p, hbody, hp, (Option.some.inj h).symm⟩

theorem ofComment?_literal_of_parts {c : Comment} (h : p.Of c.text.toList) :
    ofComment? c.literal = some p.annotation := by
  obtain ⟨body, htext, hp⟩ := h
  exact ofComment?_of_parts (commentBody?_of_text htext) hp

theorem isSome_ofComment?_literal {c : Comment} :
    (ofComment? c.literal).isSome = true ↔ Marked c.text.toList := by
  constructor
  · intro h
    obtain ⟨a, ha⟩ := Option.isSome_iff_exists.mp h
    obtain ⟨body, p, hbody, hp, -⟩ := exists_parts_of_ofComment? ha
    rw [commentBody?_literal.mp hbody]
    exact marked_cons_iff.mpr hp.mem
  · intro h
    obtain ⟨p, hp, -⟩ := existsUnique_parts_iff.mp h
    rw [ofComment?_literal_of_parts hp]
    rfl

/-- **A comment is read by its text.** Whichever its markers are, it annotates exactly when its text
starts with a space and has an `@`. The text is then made of parts in one way, and these are the
annotation. -/
theorem ofComment?_literal (c : Comment) :
    ((ofComment? c.literal).isSome = true ↔ Marked c.text.toList) ∧
      (Marked c.text.toList ↔ ∃! p : Parts, p.Of c.text.toList) ∧
      (∀ p : Parts, p.Of c.text.toList → ofComment? c.literal = some p.annotation) ∧
      ∀ kind : CommentKind, ofComment? { c with kind }.literal = ofComment? c.literal := by
  refine ⟨isSome_ofComment?_literal, existsUnique_parts_iff,
    fun p => ofComment?_literal_of_parts, fun kind => ?_⟩
  by_cases hmarked : Marked c.text.toList
  · obtain ⟨p, hp, -⟩ := existsUnique_parts_iff.mp hmarked
    rw [ofComment?_literal_of_parts hp]
    exact ofComment?_literal_of_parts hp
  · have hnone : ∀ c' : Comment, c'.text = c.text → ofComment? c'.literal = none := by
      intro c' htext
      rw [← htext, ← isSome_ofComment?_literal] at hmarked
      simpa using hmarked
    rw [hnone c rfl]
    exact hnone _ rfl

/-- Two spaces, a second `@`, a line break and what would end a block comment. -/
theorem ofComment?_literal_ending :
    ofComment? (Comment.mk .block " see @Path  a */ @b\n*" 1 2).literal =
      some ⟨"Path", " a */ @b\n*"⟩ :=
  (ofComment?_literal _).2.2.1 ⟨"see ".toList, "Path".toList, "  a */ @b\n*".toList⟩
    ⟨_, rfl, rfl, by decide, by decide, .inr ⟨_, rfl⟩⟩

end Annotation

/-! ### Keys of a configuration -/

namespace Config

/-- A key that may stand in the place of each key of every valid configuration. -/
def Accepts (key : String) : Prop :=
  ∀ c : Config, c.fault? = none →
    { c with markerKey := key }.fault? = none ∧ { c with serviceNameKey := key }.fault? = none ∧
      { c with pathKey := key }.fault? = none

theorem keyFault?_eq_none_iff {setting key : String} :
    keyFault? setting key = none ↔ isKey key = true := by
  simp [keyFault?]

theorem accepts_iff {key : String} : Accepts key ↔ isKey key = true := by
  constructor
  · intro h
    have hmarker := (h default (by decide +kernel)).1
    simp only [fault?, Option.or_eq_none_iff, keyFault?_eq_none_iff] at hmarker
    exact hmarker.2.2.1
  · intro hkey c hc
    simp only [fault?, Option.or_eq_none_iff, keyFault?_eq_none_iff] at hc ⊢
    simp only [hc, hkey, and_self]

end Config

namespace Annotation

/-- What stands behind the first `@` of a comment's body. -/
def behindMark? (comment : String) : Option (List Char) :=
  (commentBody? comment.toList).bind fun body => (Text.cutAt? '@' body).map Prod.snd

variable {p : Parts} {body : List Char} {comment : String} {a : Annotation}

theorem behindMark?_of_parts (hbody : commentBody? comment.toList = some body)
    (hp : p.OfBody body) : behindMark? comment = some (p.key ++ p.rest) := by
  simp only [behindMark?, hbody, Option.bind_some, hp.cutAt?, Option.map_some]

/-- A key has no blank exactly when the first blank behind its `@` is the space that ends it. -/
theorem Parts.OfBody.all_key_iff (hp : p.OfBody body) :
    (∀ c ∈ p.key, Text.isBlank c = false) ↔
      ∀ c ∈ (p.key ++ p.rest).find? Text.isBlank, c = ' ' := by
  rw [List.find?_append]
  constructor
  · intro hkey c hc
    rw [List.find?_eq_none.mpr (by simpa using hkey), Option.none_or] at hc
    rcases hp.rest with hrest | ⟨value, hrest⟩
    · simp [hrest] at hc
    · have hspace : Text.isBlank ' ' = true := by decide
      simp only [hrest, List.find?_cons, hspace, Option.mem_def, Option.some.injEq] at hc
      exact hc.symm
  · intro hfirst c hc
    refine Bool.eq_false_iff.mpr fun hblank => ?_
    obtain ⟨first, hfind⟩ : ∃ first, p.key.find? Text.isBlank = some first :=
      Option.isSome_iff_exists.mp (List.find?_isSome.mpr ⟨c, hc, hblank⟩)
    have hspace : first = ' ' := hfirst first (by simp [hfind])
    exact hp.key (hspace ▸ List.mem_of_find?_eq_some hfind)

theorem Parts.OfBody.accepts_iff (hp : p.OfBody body) (hne : p.annotation.key ≠ "") :
    Config.Accepts p.annotation.key ↔
      ∀ c ∈ (p.key ++ p.rest).find? Text.isBlank, c = ' ' := by
  rw [Config.accepts_iff, Config.isKey_eq_true_iff, ← hp.all_key_iff]
  simp only [hne, ne_eq, not_false_iff, true_and]
  simp [Parts.annotation]

theorem space_notMem_of_accepts {key : String} (h : Config.Accepts key) : ' ' ∉ key.toList := by
  intro hmem
  have hblank := (Config.isKey_eq_true_iff.mp (Config.accepts_iff.mp h)).2 ' ' hmem
  exact absurd hblank (by decide)

/-- What stands behind an `@` that opens a body is cut into a key and the rest. -/
theorem ofComment?_of_key {key rest : List Char}
    (hbody : commentBody? comment.toList = some ('@' :: (key ++ rest))) (hkey : ' ' ∉ key)
    (hrest : rest = [] ∨ ∃ value, rest = ' ' :: value) :
    ofComment? comment = some ⟨String.ofList key, String.ofList rest.tail⟩ :=
  ofComment?_of_parts hbody (p := ⟨[], key, rest⟩) ⟨rfl, by simp, hkey, hrest⟩

/-- Behind a key and a blank that is no space, the key goes on to the next space. -/
theorem ofComment?_of_blank {key more : List Char} {blank : Char}
    (hbody : commentBody? comment.toList = some ('@' :: (key ++ blank :: more)))
    (hkey : ' ' ∉ key) (hblank : blank ≠ ' ') :
    ∃ a, ofComment? comment = some a ∧
      a.key = String.ofList (key ++ blank :: more.takeWhile (· ≠ ' ')) := by
  have hmore := List.takeWhile_append_dropWhile (p := (· ≠ ' ')) (l := more)
  have hcut : commentBody? comment.toList = some
      ('@' :: ((key ++ blank :: more.takeWhile (· ≠ ' ')) ++ more.dropWhile (· ≠ ' '))) := by
    rw [hbody, List.append_assoc, List.cons_append, hmore]
  have htake : ' ' ∉ more.takeWhile (· ≠ ' ') := fun hmem => by
    simpa using List.mem_takeWhile_imp hmem
  have hlonger : ' ' ∉ key ++ blank :: more.takeWhile (· ≠ ' ') := by
    simp only [List.mem_append, List.mem_cons, hkey, Ne.symm hblank, htake, or_self, not_false_iff]
  refine ⟨_, ofComment?_of_key hcut hlonger ?_, rfl⟩
  cases hdrop : more.dropWhile (· ≠ ' ') with
  | nil => exact .inl rfl
  | cons c value =>
    have hc := List.head?_dropWhile_not (· ≠ ' ') more
    simp only [hdrop, List.head?_cons] at hc
    exact .inr ⟨value, by simpa using hc⟩

theorem not_accepts_of_blank {key more : List Char} {blank : Char}
    (hblank : Text.isBlank blank = true) :
    ¬Config.Accepts (String.ofList (key ++ blank :: more)) := by
  intro h
  have hkey := (Config.isKey_eq_true_iff.mp (Config.accepts_iff.mp h)).2 blank (by simp)
  simp [hblank] at hkey

/-- **Keys end at spaces, and blanks are not accepted.** A key that is read is accepted exactly when
the first blank behind its `@` is a space; and a key that is accepted is read wherever a space or
the end of the comment follows it, but is part of a longer key, which is not accepted, wherever
another blank does. -/
theorem accepts_key_iff :
    (∀ comment a, ofComment? comment = some a → a.key ≠ "" →
      (Config.Accepts a.key ↔
        ∀ text ∈ behindMark? comment, ∀ c ∈ text.find? Text.isBlank, c = ' ')) ∧
    ∀ key, Config.Accepts key →
      ofComment? ("// @" ++ key) = some ⟨key, ""⟩ ∧
      (∀ value, ofComment? ("// @" ++ key ++ " " ++ value) = some ⟨key, value⟩) ∧
      ofComment? ("/* @" ++ key ++ " */") = some ⟨key, ""⟩ ∧
      ∀ blank more, Text.isBlank blank = true → blank ≠ ' ' →
        ∃ a, ofComment? ("/* @" ++ key ++ String.ofList (blank :: more) ++ "*/") = some a ∧
          a.key = key ++ String.ofList (blank :: more.takeWhile (· ≠ ' ')) ∧
          ¬Config.Accepts a.key := by
  refine ⟨fun comment a ha hne => ?_, fun key haccepts => ?_⟩
  · obtain ⟨body, p, hbody, hp, rfl⟩ := exists_parts_of_ofComment? ha
    rw [hp.accepts_iff hne, behindMark?_of_parts hbody hp]
    simp
  have hkey := space_notMem_of_accepts haccepts
  refine ⟨?_, fun value => ?_, ?_, fun blank more hblank hspace => ?_⟩
  · have hbody : commentBody? ("// @" ++ key).toList = some ('@' :: (key.toList ++ [])) := by
      simpa using commentBody?_line ('@' :: key.toList)
    simpa using ofComment?_of_key hbody hkey (.inl rfl)
  · have hbody : commentBody? ("// @" ++ key ++ " " ++ value).toList =
        some ('@' :: (key.toList ++ ' ' :: value.toList)) := by
      simpa using commentBody?_line ('@' :: (key.toList ++ ' ' :: value.toList))
    simpa using ofComment?_of_key hbody hkey (.inr ⟨_, rfl⟩)
  · have hbody : commentBody? ("/* @" ++ key ++ " */").toList =
        some ('@' :: (key.toList ++ [' '])) := by
      simpa using commentBody?_block ('@' :: (key.toList ++ [' ']))
    simpa using ofComment?_of_key hbody hkey (.inr ⟨_, rfl⟩)
  · have hbody : commentBody? ("/* @" ++ key ++ String.ofList (blank :: more) ++ "*/").toList =
        some ('@' :: (key.toList ++ blank :: more)) := by
      simpa using commentBody?_block ('@' :: (key.toList ++ blank :: more))
    obtain ⟨a, ha, hlonger⟩ := ofComment?_of_blank hbody hkey hspace
    refine ⟨a, ha, by simp [hlonger], ?_⟩
    rw [hlonger]
    exact not_accepts_of_blank hblank

/-- A path behind a tab. -/
theorem accepts_key_iff_path :
    ¬Config.Accepts "Path\t/users" ∧ Config.Accepts "Path" ∧
      ofComment? "// @Path /users" = some ⟨"Path", "/users"⟩ := by
  have hread : ofComment? "/* @Path\t/users */" = some ⟨"Path\t/users", ""⟩ := by decide +kernel
  have htab := accepts_key_iff.1 _ _ hread (by decide)
  have hpath : Config.Accepts "Path" := Config.accepts_iff.mpr (by decide +kernel)
  refine ⟨fun h => ?_, hpath, (accepts_key_iff.2 "Path" hpath).2.1 "/users"⟩
  exact absurd (htab.mp h "Path\t/users ".toList (by decide +kernel) '\t' (by decide +kernel))
    (by decide)

/-- A tab does not end a key: neither is every key that is read accepted, nor is an accepted key
read wherever a tab follows it. -/
theorem not_accepts_key_before_tab :
    ¬(∀ comment a, ofComment? comment = some a → a.key ≠ "" → Config.Accepts a.key) ∧
      ¬∀ key, Config.Accepts key → ∀ more, ∃ value,
        ofComment? ("/* @" ++ key ++ "\t" ++ more ++ "*/") = some ⟨key, value⟩ := by
  have hread : ofComment? "/* @Path\t/users */" = some ⟨"Path\t/users", ""⟩ := by decide +kernel
  constructor
  · intro h
    have haccepts := Config.accepts_iff.mp (h _ _ hread (by decide))
    exact absurd haccepts (by decide +kernel)
  · intro h
    obtain ⟨value, hvalue⟩ := h "Path" (Config.accepts_iff.mpr (by decide +kernel)) "/users "
    have htext : "/* @" ++ "Path" ++ "\t" ++ "/users " ++ "*/" = "/* @Path\t/users */" := by decide
    rw [htext, hread] at hvalue
    simp at hvalue

end Annotation
end FetchClients
