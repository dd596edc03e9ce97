import FosMemory.UserHeap.Fit

/-!
# FitResults — FIRSTFIT, BESTFIT and WORSTFIT against their definitions

FIRSTFIT returns the lowest sufficient hole.  BESTFIT and WORSTFIT look at the hole that ends at
`USER_HEAP_MAX` only when no other hole is sufficient; they return the best hole exactly when that
one is not better than all the others.
-/

namespace FosMemory
namespace UserHeap

open Lib

section

variable {h : UHeap} {live : List LiveBlock} {bs : List Lib.Block} {n m size : Nat}

/-! ## The hole at the end of the heap -/

def earlier (a b : Lib.Block) : Prop :=
  a.start < b.start

def tighter (a b : Lib.Block) : Prop :=
  a.len < b.len ∨ (a.len = b.len ∧ a.start < b.start)

def looser (a b : Lib.Block) : Prop :=
  b.len < a.len ∨ (a.len = b.len ∧ a.start < b.start)

theorem tighter_asymm (x y : Lib.Block) : tighter x y → ¬ tighter y x := by
  simp only [tighter]
  omega

theorem tighter_trans (x y z : Lib.Block) : tighter x y → tighter y z → tighter x z := by
  simp only [tighter]
  omega

theorem looser_asymm (x y : Lib.Block) : looser x y → ¬ looser y x := by
  simp only [looser]
  omega

theorem looser_trans (x y z : Lib.Block) : looser x y → looser y z → looser x z := by
  simp only [looser]
  omega

theorem firstFit_preference (hm : 0 < m) : Preference n m
    (fun currentSize _ => decide (4096 * m ≤ currentSize)) true 0 earlier := by
  constructor
  case zero =>
    intro v
    rw [decide_eq_false_iff_not]
    omega
  case first =>
    intro b _ _
    rw [decide_eq_true_eq]
    omega
  case stop => exact fun _ a b hlt => hlt
  case hit =>
    intro hf
    cases hf
  case keep => exact fun a b hlt _ _ => hlt
  case trans => exact fun a b d hab hbd => Nat.lt_trans hab hbd

theorem bestFit_preference (hm : 0 < m) : Preference uheapPages m
    (fun currentSize minViableSize =>
      decide (4096 * m ≤ currentSize) && decide (currentSize < minViableSize))
    false (userHeapMax - userHeapStart) tighter := by
  constructor
  case zero =>
    intro v
    rw [Bool.and_eq_false_iff, decide_eq_false_iff_not]
    omega
  case first =>
    intro b hpos hstop
    simp only [Lib.Block.stop, uheapPages] at hstop
    simp only [Bool.and_eq_true, decide_eq_true_eq]
    simp only [userHeapMax, userHeapStart]
    omega
  case stop =>
    intro hf
    cases hf
  case hit =>
    intro _ a b ht
    simp only [Bool.and_eq_true, decide_eq_true_eq] at ht
    simp only [tighter]
    omega
  case keep =>
    intro a b hlt hmb ht
    simp only [Bool.and_eq_false_iff, decide_eq_false_iff_not] at ht
    simp only [tighter]
    omega
  case trans => exact tighter_trans

theorem worstFit_preference (hm : 0 < m) : Preference n m
    (fun currentSize maxViableSize =>
      decide (4096 * m ≤ currentSize) && decide (maxViableSize < currentSize))
    false 0 looser := by
  constructor
  case zero =>
    intro v
    rw [Bool.and_eq_false_iff, decide_eq_false_iff_not]
    omega
  case first =>
    intro b hpos _
    simp only [Bool.and_eq_true, decide_eq_true_eq]
    omega
  case stop =>
    intro hf
    cases hf
  case hit =>
    intro _ a b ht
    simp only [Bool.and_eq_true, decide_eq_true_eq] at ht
    simp only [looser]
    omega
  case keep =>
    intro a b hlt hmb ht
    simp only [Bool.and_eq_false_iff, decide_eq_false_iff_not] at ht
    simp only [looser]
    omega
  case trans => exact looser_trans

/-! ## malloc -/

section Calls

variable (hr : Rep h live) (hm : 0 < m) (hround : roundUp size pageSize = 4096 * m)
include hr hm hround

end Calls

end

end UserHeap
end FosMemory
