/-
# The paths that a pattern stands for on a disk

A pattern is taken apart at its slashes, and each part picks names in the
directories that the parts before it led to. A part without wildcards is not
looked for in the directory but followed, so that `.` and `..` lead where they
always do. A `**` picks a directory and all directories below it, links
included. Paths are spelled as the pattern spells them, without a `.` in front
that the pattern does not have.

Key definitions: `Glob.parts`, `Glob.Search`, `Glob.expand`.
-/
import FetchClients.Disk.Resolve
import FetchClients.Glob.Pattern

namespace FetchClients
namespace Glob

/-- The texts between the slashes of a text, without an empty one at the end. -/
def parts (text : List Char) : List (List Char) :=
  let fields := Text.fields '/' text
  if fields.getLast? = some [] then fields.dropLast else fields

/-- The tokens of each of some parts, if all can be compiled. -/
def compileParts : List (List Char) → Except Fault (List (List Token))
  | [] => .ok []
  | part :: parts => do
    let first ← tokens true 0 part
    return first :: (← compileParts parts)

/-- A search on a disk, for all that is found or for directories only. -/
structure Search where
  disk : Disk
  directoriesOnly : Bool

namespace Search

/-- A path at which the pattern ends, if it is one that is searched for. -/
def result (s : Search) (p : Path) : List Path :=
  if !s.directoriesOnly || s.disk.isDirectory p then [p] else []

/-- The path of a name in a directory; the directory `.` is not spelled. -/
def child (directory : Path) (name : String) : Path :=
  if directory.sameSteps ⟨"."⟩ then ⟨name⟩ else directory.join ⟨name⟩

/-- The names in the directory that a path stands for. -/
def names (s : Search) (directory : Path) : List String :=
  match s.disk.lookup true directory with
  | .ok (place, .directory) => s.disk.names place
  | _ => []

mutual

/-- The paths that patterns lead to from a directory; the bound is on the names that are
followed. -/
def under (s : Search) : Nat → List (List Token) → Path → List Path
  | 0, _, _ => []
  | _ + 1, [], _ => []
  | n + 1, pattern :: patterns, directory =>
    match literal? pattern with
    | some name =>
      let name := String.ofList name
      let next := child directory name
      let isThere :=
        if name = "." || name = ".." then s.disk.isDirectory directory
        else (s.disk.lookup false next).isOk
      if isThere then s.onward n patterns next else []
    | none =>
      if s.disk.isDirectory directory then
        let special := [".", ".."].filter fun name =>
          pattern.head? = some (.char '.') && accepts pattern name.toList
        ((s.names directory).flatMap fun name =>
            s.visit n (pattern :: patterns) name (child directory name)) ++
          special.flatMap fun name => s.onward n patterns (directory.join ⟨name⟩)
      else []

/-- The paths that the patterns after the one that led to a path lead to. -/
def onward (s : Search) : Nat → List (List Token) → Path → List Path
  | 0, _, _ => []
  | _ + 1, [], p => s.result p
  | n + 1, patterns, p => s.under n patterns p

/-- The paths that patterns lead to from a name in a directory. -/
def visit (s : Search) : Nat → List (List Token) → String → Path → List Path
  | 0, _, _, _ => []
  | _ + 1, [], _, _ => []
  | n + 1, pattern :: patterns, name, p =>
    if isRecursive pattern then
      let rest := patterns.dropWhile isRecursive
      let deeper := if s.disk.isDirectory p then s.under n (pattern :: rest) p else []
      match rest with
      | [] => if s.disk.isDirectory p then p :: deeper else []
      | next :: rest =>
        deeper ++ if accepts next name.toList then s.onward n rest p else []
    else if accepts pattern name.toList then s.onward n patterns p
    else []

end

end Search

/-- The paths that a pattern stands for on a disk. Every name that is followed makes a path longer,
and no path that can be looked at is longer than `Disk.pathLimit`. -/
def expand (d : Disk) (pattern : String) : Except Fault (List Path) := do
  let _ ← compile pattern
  let rooted := pattern.toList.head? = some '/'
  let inner := if rooted then pattern.toList.tail else pattern.toList
  let patterns ← compileParts (if inner.isEmpty then [[]] else parts inner)
  let search : Search := ⟨d, pattern.toList.getLast? = some '/'⟩
  let bound := 3 * (patterns.length + Disk.pathLimit)
  return search.under bound patterns (if rooted then ⟨"/"⟩ else ⟨"."⟩)

end Glob
end FetchClients
