/-
# What gives a result or a fault

A computation that goes on only where another one gave a result has a result only
if the other one has, and then it is made from that one.

Key theorems: `map_eq_ok_iff`, `bind_eq_ok_iff`, `toOption_map_eq_some_iff`.
-/

namespace FetchClients

variable {ε α β : Type} {result : Except ε α}

theorem map_eq_ok_iff {f : α → β} {value : β} :
    result.map f = .ok value ↔ ∃ v, result = .ok v ∧ f v = value := by
  cases result <;> simp [Except.map]

theorem bind_eq_ok_iff {f : α → Except ε β} {value : β} :
    (result >>= f) = .ok value ↔ ∃ v, result = .ok v ∧ f v = .ok value := by
  cases result <;> simp [bind, Except.bind]

theorem toOption_eq_some_iff {value : α} : result.toOption = some value ↔ result = .ok value := by
  cases result <;> simp [Except.toOption]

theorem toOption_map_eq_some_iff {f : α → β} {value : β} :
    (result.map f).toOption = some value ↔ ∃ v, result = .ok v ∧ f v = value :=
  toOption_eq_some_iff.trans map_eq_ok_iff

/-- What has the same result keeps the same one, whatever is made from it. -/
theorem toOption_map_congr (f : α → β) {other : Except ε α}
    (h : result.toOption = other.toOption) : (result.map f).toOption = (other.map f).toOption := by
  cases result <;> cases other <;> simp_all [Except.map, Except.toOption]

end FetchClients
