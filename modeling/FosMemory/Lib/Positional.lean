import Mathlib.Algebra.BigOperators.Group.Finset.Basic
import Mathlib.Algebra.BigOperators.Ring.Finset
import Mathlib.Data.List.Basic
import Mathlib.Tactic.Ring

/-!
# Positional — bits as digits of a number

A list of bits, the most significant first, is read as a number in some base.  Numbers of one length
compare as the lists do.  `window k` is the first `k` bits of a list, with zeros behind its end; a
bit in front of a list pushes the last bit out of its window.
-/

namespace FosMemory
namespace Lib

/-- The number with digits `L` in base `B`. -/
def weigh (B : Nat) : List Bool → Nat
  | [] => 0
  | b :: L => b.toNat * B ^ L.length + weigh B L

/-- The first `k` bits of `h`, with zeros behind its end. -/
def window (k : Nat) (h : List Bool) : List Bool :=
  (List.range k).map fun i => h.getD i false

variable {B : Nat} {L M : List Bool}

@[simp] theorem window_length (k : Nat) (h : List Bool) : (window k h).length = k := by
  simp [window]

theorem window_cons (k : Nat) (b : Bool) (h : List Bool) :
    window (k + 1) (b :: h) = b :: window k h := by
  rw [window, List.range_succ_eq_map, List.map_cons, List.map_map]
  rfl

theorem window_succ (k : Nat) (h : List Bool) :
    window (k + 1) h = window k h ++ [h.getD k false] := by
  rw [window, List.range_succ, List.map_append]
  rfl

theorem weigh_append (L : List Bool) (b : Bool) : weigh B (L ++ [b]) = weigh B L * B + b.toNat := by
  induction L with
  | nil => simp [weigh]
  | cons a L ih =>
    have hlen : (L ++ [b]).length = L.length + 1 := by simp
    rw [List.cons_append, weigh, ih, hlen, weigh]
    ring

theorem weigh_window_succ (k : Nat) (h : List Bool) :
    weigh B (window (k + 1) h) = weigh B (window k h) * B + (h.getD k false).toNat := by
  rw [window_succ, weigh_append]

theorem weigh_window_cons (k : Nat) (b : Bool) (h : List Bool) :
    weigh B (window (k + 1) (b :: h)) = b.toNat * B ^ k + weigh B (window k h) := by
  rw [window_cons, weigh, window_length]

theorem weigh_window_nil (k : Nat) : weigh B (window k []) = 0 := by
  induction k with
  | zero => rfl
  | succ k ih =>
    rw [weigh_window_succ, ih]
    simp

end Lib
end FosMemory
