/-
# The values on a command line

A parameter takes effect once, and if it has a value only with one that is not empty
(`Given.put`). Every step of the reading keeps that (`Given.Filled`), so the paths
that a command gets from a command line are never empty.

Key definition: `CommandLine.Given.Filled`.
Key theorems: `CommandLine.filled_readArgument`, `CommandLine.ne_empty_of_parse`.
-/
import FetchClients.CommandLine.Parse
import FetchClients.Proofs.Results

namespace FetchClients
namespace CommandLine

namespace Given

/-- Whether all values that took effect are filled in. -/
def Filled (g : Given) : Prop :=
  ∀ setting ∈ g.settled, setting.1.takesValue = true → setting.2 ≠ ""

theorem filled_empty : empty.Filled := by
  simp [Filled, empty]

theorem Filled.put {g next : Given} {p : Parameter} {value : String} (hg : g.Filled)
    (h : g.put p value = .ok next) : next.Filled := by
  unfold Given.put at h
  split at h
  · cases h
  · split at h
    · cases h
    · rename_i hvalue
      obtain rfl := Except.ok.inj h
      intro setting hsetting htakes
      rcases List.mem_cons.mp hsetting with rfl | hsetting
      · exact fun hempty => hvalue (by simp_all)
      · exact hg setting hsetting htakes

theorem Filled.settle {g next : Given} (hg : g.Filled) (h : g.settle = .ok next) :
    next.Filled := by
  unfold Given.settle at h
  split at h
  · exact Except.ok.inj h ▸ hg
  · cases h
  · exact Filled.put (show Filled { g with pending := none } from hg) h

theorem Filled.value? {g : Given} (hg : g.Filled) {p : Parameter} {value : String}
    (hp : p.takesValue = true) (h : g.value? p = some value) : value ≠ "" := by
  obtain ⟨setting, hfind, rfl⟩ := Option.map_eq_some_iff.mp h
  have hparameter : setting.1 = p := by simpa using List.find?_some hfind
  exact hg setting (List.mem_of_find?_eq_some hfind) (hparameter ▸ hp)

end Given

section Reading

variable {u : Usage} {g next : Given} (hg : g.Filled)
include hg

theorem filled_readFlag {p : Parameter} (h : readFlag g p = .ok (.more next)) : next.Filled := by
  unfold readFlag at h
  split at h
  · cases h
  · rename_i settled hsettled
    split at h
    · cases h
    · obtain ⟨given, hput, heq⟩ := map_eq_ok_iff.mp h
      cases heq
      exact (hg.settle hsettled).put hput

theorem filled_readLong {name : String} {value : Option String}
    (h : readLong u g name value = .ok (.more next)) : next.Filled := by
  unfold readLong at h
  split at h
  · cases h
  · split at h
    · obtain ⟨given, hsettled, heq⟩ := map_eq_ok_iff.mp h
      have hgiven := hg.settle hsettled
      cases heq
      exact hgiven
    · exact filled_readFlag hg h
  · split at h
    · split at h
      · cases h
      · rename_i settled hsettled
        obtain ⟨given, hput, heq⟩ := map_eq_ok_iff.mp h
        cases heq
        exact (hg.settle hsettled).put hput
    · cases h

theorem filled_readOperand {text : String} (h : readOperand u g text = .ok (.more next)) :
    next.Filled := by
  unfold readOperand at h
  split at h
  · obtain ⟨given, hsettled, heq⟩ := map_eq_ok_iff.mp h
    have hgiven := hg.settle hsettled
    cases heq
    exact hgiven
  · cases h

end Reading

theorem filled_readLetters {u : Usage} : ∀ {cs : List Char} {g next : Given}, g.Filled →
    readLetters u g cs = .ok (.more next) → next.Filled
  | [], g, next, hg, h => by
    cases h
    exact hg
  | c :: cs, g, next, hg, h => by
    unfold readLetters at h
    split at h
    · cases h
    · split at h
      · cases h
      · cases h
      · rename_i given hflag
        exact filled_readLetters (filled_readFlag hg hflag) h

/-- One more argument leaves all values filled in. -/
theorem filled_readArgument {u : Usage} {g next : Given} {text : String} (hg : g.Filled)
    (h : readArgument u g text = .ok (.more next)) : next.Filled := by
  unfold readArgument at h
  split at h
  · exact filled_readOperand hg h
  · split at h
    · cases h
      exact hg
    · exact filled_readLong hg h
    · exact filled_readLetters hg h
    · split at h
      · cases h
        exact hg
      · exact filled_readOperand hg h

/-- A command that is run was made from values that are filled in. -/
theorem exists_filled_of_readArguments {u : Usage} {finish : Given → Request} {command : Command} :
    ∀ {texts : List String} {g : Given}, g.Filled →
    readArguments u finish g texts = .run command →
      ∃ given : Given, given.Filled ∧ finish given = .run command
  | [], g, hg, h => by
    unfold readArguments at h
    split at h
    · cases h
    · rename_i settled hsettled
      exact ⟨settled, hg.settle hsettled, h⟩
  | text :: texts, g, hg, h => by
    unfold readArguments at h
    split at h
    · cases h
    · cases h
    · rename_i next hnext
      exact exists_filled_of_readArguments (filled_readArgument hg hnext) h

/-- The paths that a command line gives to a run are not empty. -/
theorem ne_empty_of_parse {arguments : List String} {options : GenerateOptions}
    (h : parse arguments = .run (.generate options)) :
    (∀ p, options.sourceRoot = some p → p.text ≠ "") ∧
      ∀ p, options.outputDir = some p → p.text ≠ "" := by
  unfold parse at h
  split at h
  · cases h
  · obtain ⟨given, hgiven, hfinish⟩ := exists_filled_of_readArguments Given.filled_empty h
    cases hfinish
    refine ⟨fun p hp => ?_, fun p hp => ?_⟩
    · obtain ⟨value, hvalue, rfl⟩ := Option.map_eq_some_iff.mp hp
      exact hgiven.value? rfl hvalue
    · obtain ⟨value, hvalue, rfl⟩ := Option.map_eq_some_iff.mp hp
      exact hgiven.value? rfl hvalue
  · obtain ⟨given, -, hfinish⟩ := exists_filled_of_readArguments Given.filled_empty h
    unfold inspectRequest at hfinish
    split at hfinish <;> cases hfinish
  · obtain ⟨given, -, hfinish⟩ := exists_filled_of_readArguments Given.filled_empty h
    cases hfinish
  · unfold helpRequest at h
    split at h
    · cases h
    · split at h <;> cases h
  · split at h
    · cases h
    · split at h <;> cases h
  · split at h
    · unfold longRequest at h
      split at h <;> cases h
    · unfold letterRequest at h
      split at h
      · cases h
      · split at h <;> cases h
    · cases h

end CommandLine
end FetchClients
