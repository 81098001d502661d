/-
# Annotations in comments

A comment `// … @key value` or `/* … @key value */` annotates what it stands
above. The key runs from the first `@` to the next space and the value is the
rest. A comment counts only if a space follows its opening marker, so `///` and
`/**` comments never annotate.

Key definitions: `Annotation`, `Annotation.ofComment?`, `Annotated`,
`Annotated.ofComments`, `Annotated.get?`.
Key theorem: `Annotation.ofComment?_eq_some`.
-/
import FetchClients.Text.Basic

namespace FetchClients

/-- A key with its value, which is empty if the comment gives none. -/
structure Annotation where
  key : String
  value : String
deriving DecidableEq, Repr, Inhabited

namespace Annotation

/-- The text of a comment between its markers, if a space follows the first. -/
def commentBody? (comment : List Char) : Option (List Char) :=
  match Text.dropPrefix? "// ".toList comment with
  | some body => some body
  | none =>
    (Text.dropPrefix? "/* ".toList comment).map fun body =>
      (Text.dropSuffix? "*/".toList body).getD body

/-- The key and the value that follow an `@`. -/
def ofMarked (text : List Char) : Annotation :=
  match Text.cutAt? ' ' text with
  | some (key, value) => ⟨String.ofList key, String.ofList value⟩
  | none => ⟨String.ofList text, ""⟩

/-- The annotation that a comment with its markers gives. -/
def ofComment? (comment : String) : Option Annotation :=
  (commentBody? comment.toList).bind fun body =>
    (Text.cutAt? '@' body).map fun (_, marked) => ofMarked marked

/-- The annotation starts at the first `@` of the comment's body. -/
theorem ofComment?_eq_some {comment : String} {a : Annotation} (h : ofComment? comment = some a) :
    ∃ body before marked, commentBody? comment.toList = some body ∧
      body = before ++ '@' :: marked ∧ '@' ∉ before ∧ a = ofMarked marked := by
  simp only [ofComment?, Option.bind_eq_some_iff, Option.map_eq_some_iff] at h
  obtain ⟨body, hbody, ⟨before, marked⟩, hcut, rfl⟩ := h
  obtain ⟨rfl, hnot⟩ := Text.cutAt?_eq_some hcut
  exact ⟨_, before, marked, hbody, rfl, hnot, rfl⟩

end Annotation

/-- Something with the annotations that stand above it, in the order of the comments. -/
structure Annotated (α : Type) where
  node : α
  annotations : List Annotation
deriving DecidableEq, Repr

namespace Annotated

variable {α : Type}

/-- A node below its doc comments; comments that do not annotate are left out. -/
def ofComments (node : α) (comments : List String) : Annotated α :=
  ⟨node, comments.filterMap Annotation.ofComment?⟩

/-- The first annotation with a key. -/
def get? (a : Annotated α) (key : String) : Option Annotation :=
  a.annotations.find? (·.key = key)

/-- All annotations with a key. -/
def getAll (a : Annotated α) (key : String) : List Annotation :=
  a.annotations.filter (·.key = key)

/-- Whether a key annotates the node. -/
def has (a : Annotated α) (key : String) : Bool :=
  (a.get? key).isSome

theorem has_eq_true_iff {a : Annotated α} {key : String} :
    a.has key = true ↔ ∃ x ∈ a.annotations, x.key = key := by
  simp [has, get?, List.find?_isSome]

/-- The first annotation with a key opens the list of all of them. -/
theorem head?_getAll (a : Annotated α) (key : String) :
    (a.getAll key).head? = a.get? key := by
  simp [getAll, get?, List.head?_filter]

end Annotated
end FetchClients
