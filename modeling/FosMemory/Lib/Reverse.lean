import Mathlib.Logic.Function.Basic
import FosMemory.Lib.WhileLoop

/-!
# Reverse — reversing a segment of a buffer in place

Two indices move towards each other and swap what they stand on.
-/

namespace FosMemory
namespace Lib

variable {β : Type}

/-- A buffer and the two indices. -/
structure Mirror (β : Type) where
  buf : Nat → β
  start : Nat
  stop : Nat

/-- `tmp = buf[start]; buf[start] = buf[stop]; buf[stop] = tmp; start++; stop--;` -/
def Mirror.swap (s : Mirror β) : Mirror β :=
  { buf := Function.update (Function.update s.buf s.start (s.buf s.stop)) s.stop (s.buf s.start)
    start := s.start + 1
    stop := s.stop - 1 }

/-- The segment `[a, b]` of `f` read backwards. -/
def reversed (f : Nat → β) (a b : Nat) : Nat → β :=
  fun i => if a ≤ i ∧ i ≤ b then f (a + b - i) else f i

theorem reversed_inside {f : Nat → β} {a b i : Nat} (ha : a ≤ i) (hb : i ≤ b) :
    reversed f a b i = f (a + b - i) :=
  if_pos ⟨ha, hb⟩

theorem reversed_outside {f : Nat → β} {a b i : Nat} (h : ¬ (a ≤ i ∧ i ≤ b)) :
    reversed f a b i = f i :=
  if_neg h

/-- One swap, and the rest of the segment reversed. -/
theorem reversed_swap {s : Mirror β} (h : s.start < s.stop) :
    reversed s.swap.buf s.swap.start s.swap.stop = reversed s.buf s.start s.stop := by
  funext i
  have hswap : ∀ j, s.swap.buf j =
      if j = s.stop then s.buf s.start else if j = s.start then s.buf s.stop else s.buf j := by
    intro j
    simp only [Mirror.swap, Function.update_apply]
  rcases Nat.lt_trichotomy i s.start with hlt | heq | hgt
  · -- left of the segment
    rw [reversed_outside (by simp only [Mirror.swap]; omega), reversed_outside (by omega), hswap,
      if_neg (by omega), if_neg (by omega)]
  · subst heq
    rw [reversed_outside (by simp only [Mirror.swap]; omega),
      reversed_inside (Nat.le_refl _) (Nat.le_of_lt h), hswap,
      if_neg (by omega), if_pos rfl, Nat.add_sub_cancel_left]
  · rcases Nat.lt_trichotomy i s.stop with hlt | heq | hgt'
    · -- strictly between the two indices
      have hmirror : s.start + 1 + (s.stop - 1) - i = s.start + s.stop - i := by omega
      calc reversed s.swap.buf s.swap.start s.swap.stop i
          = s.swap.buf (s.start + 1 + (s.stop - 1) - i) :=
            reversed_inside (show s.start + 1 ≤ i from hgt) (show i ≤ s.stop - 1 by omega)
        _ = s.buf (s.start + s.stop - i) := by
            rw [hmirror, hswap, if_neg (by omega), if_neg (by omega)]
        _ = reversed s.buf s.start s.stop i :=
            (reversed_inside (Nat.le_of_lt hgt) (Nat.le_of_lt hlt)).symm
    · subst heq
      rw [reversed_outside (by simp only [Mirror.swap]; omega),
        reversed_inside (Nat.le_of_lt hgt) (Nat.le_refl _), hswap,
        if_pos rfl, Nat.add_sub_cancel]
    · rw [reversed_outside (by simp only [Mirror.swap]; omega), reversed_outside (by omega), hswap,
        if_neg (by omega), if_neg (by omega)]

theorem reversed_self {f : Nat → β} {a b : Nat} (h : ¬ a < b) : reversed f a b = f := by
  funext i
  by_cases hi : a ≤ i ∧ i ≤ b
  · have heq : a + b - i = i := by omega
    rw [reversed_inside hi.1 hi.2, heq]
  · exact reversed_outside hi

/-- The loop leaves the segment reversed. -/
theorem halts_reversed (s : Mirror β) :
    ∃ t, Halts (fun s : Mirror β => s.start < s.stop) Mirror.swap s t ∧
      t.buf = reversed s.buf s.start s.stop := by
  -- induction on the distance of the indices
  obtain ⟨n, hn⟩ : ∃ n, n = s.stop - s.start := ⟨_, rfl⟩
  induction n using Nat.strong_induction_on generalizing s with
  | _ n ih =>
    by_cases h : s.start < s.stop
    · have hsmall : s.swap.stop - s.swap.start < n := by
        simp only [Mirror.swap]
        omega
      obtain ⟨t, ht, hbuf⟩ := ih _ hsmall s.swap rfl
      exact ⟨t, .round h ht, hbuf.trans (reversed_swap h)⟩
    · exact ⟨s, .stop h, (reversed_self h).symm⟩

end Lib
end FosMemory
