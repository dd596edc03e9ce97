import Mathlib.Data.List.Basic

/-!
# FirstIndex — the first index of a table that satisfies a test

The search `for(i = 0; i < n; i++) if(p(i)) { ..; break; }`.
-/

namespace FosMemory
namespace Lib

/-- The first `i < n` with `p i`. -/
@[irreducible] def firstIndex (n : Nat) (p : Nat → Bool) : Option Nat :=
  (List.range n).find? p

theorem firstIndex_eq_some {n i : Nat} {p : Nat → Bool} :
    firstIndex n p = some i ↔ p i = true ∧ i < n ∧ ∀ j < i, p j = false := by
  simp [firstIndex]

theorem firstIndex_eq_none {n : Nat} {p : Nat → Bool} :
    firstIndex n p = none ↔ ∀ i < n, p i = false := by
  simp [firstIndex]

/-- A table with exactly one hit is searched successfully. -/
theorem firstIndex_of_unique {n i : Nat} {p : Nat → Bool} (hi : i < n) (hp : p i = true)
    (huniq : ∀ j < n, p j = true → j = i) : firstIndex n p = some i := by
  refine firstIndex_eq_some.2 ⟨hp, hi, ?_⟩
  intro j hj
  by_contra hcon
  have hpj : p j = true := by simpa using hcon
  exact absurd (huniq j (Nat.lt_trans hj hi) hpj) (Nat.ne_of_lt hj)

end Lib
end FosMemory
