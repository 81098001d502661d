/-
# Folding a path by its text

The absolute form of a path puts a relative path below a working directory and
folds `.` and `..` away, without asking which directories exist. A `..` at the
root stays at the root.

Key definitions: `Path.fold`, `Path.absolute?`, `Path.ofLocation`.
Key theorem: `Path.fold_append`.
-/
import FetchClients.Path.Basic

namespace FetchClients

/-- A place in a tree of directories: the names from the root down. -/
abbrev Location := List String

namespace Path

/-- The place that one component leads to. -/
def step (at_ : Location) : Component → Location
  | .root => []
  | .here => at_
  | .up => at_.dropLast
  | .name n => at_ ++ [n]

/-- The place that components lead to. -/
def fold (start : Location) (steps : List Component) : Location :=
  steps.foldl step start

/-- The absolute path of a place. -/
def ofLocation (place : Location) : Path :=
  ⟨"/" ++ String.intercalate "/" place⟩

/-- The place that a path names from a working directory. -/
def locationFrom (p cwd : Path) : Location :=
  fold (fold [] cwd.components) p.components

/-- The absolute form of a path; an empty path has none. -/
def absolute? (p cwd : Path) : Option Path :=
  if p.text.isEmpty then none else some (ofLocation (p.locationFrom cwd))

theorem fold_append (start : Location) (xs ys : List Component) :
    fold start (xs ++ ys) = fold (fold start xs) ys := by
  simp [fold]

end Path
end FetchClients
