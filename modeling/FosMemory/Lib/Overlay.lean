import Mathlib.Logic.Basic

/-!
# Overlay — partial maps on top of each other

What a sequence of writes leaves behind is a partial map from places to values: the places that
were written, with the value of the last write.  `overlay` puts one such map on top of another,
`single` is one write, `spread` is a counted loop of them.
-/

namespace FosMemory
namespace Lib

variable {α β : Type}

/-- `f` on top of `g`. -/
def overlay (f g : α → Option β) : α → Option β :=
  fun a => (f a).or (g a)

section Overlay

variable {f g h : α → Option β} {a : α} {b : β}

theorem overlay_of_some (hf : f a = some b) : overlay f g a = some b := by
  rw [overlay, hf, Option.some_or]

theorem overlay_of_none (hf : f a = none) : overlay f g a = g a := by
  rw [overlay, hf, Option.none_or]

theorem overlay_eq_none : overlay f g a = none ↔ f a = none ∧ g a = none := by
  rw [overlay, Option.or_eq_none_iff]

/-- A value comes from the upper map, or from the lower one where the upper has none. -/
theorem overlay_eq_some :
    overlay f g a = some b ↔ f a = some b ∨ f a = none ∧ g a = some b := by
  cases hf : f a with
  | none => simp [overlay_of_none hf]
  | some x => simp [overlay_of_some hf]

@[simp] theorem overlay_none_left : overlay (fun _ => none) g = g :=
  funext fun _ => overlay_of_none rfl

@[simp] theorem overlay_none_right : overlay f (fun _ => none) = f := by
  funext a
  rw [overlay, Option.or_none]

theorem overlay_getD {d : β} : (overlay f g a).getD d = (f a).getD ((g a).getD d) := by
  rw [overlay, Option.getD_or]

theorem overlay_assoc : overlay (overlay f g) h = overlay f (overlay g h) := by
  funext a
  simp only [overlay, Option.or_assoc]

end Overlay

/-! ## Single writes and loops -/

variable [DecidableEq α]

def single (a : α) (b : β) : α → Option β :=
  fun x => if x = a then some b else none

@[simp] theorem single_self (a : α) (b : β) : single a b a = some b :=
  if_pos rfl

theorem single_of_ne {a x : α} (b : β) (hne : x ≠ a) : single a b x = none :=
  if_neg hne

/-- The writes `key 0 := val 0`, `key 1 := val 1`, … -/
def spread (key : Nat → α) (val : Nat → β) : Nat → α → Option β
  | 0 => fun _ => none
  | n + 1 => overlay (single (key n) (val n)) (spread key val n)

section Spread

variable {key : Nat → α} {val : Nat → β} {n : Nat} {a : α} {b : β}

theorem spread_of_ne (h : ∀ i < n, key i ≠ a) : spread key val n a = none := by
  induction n with
  | zero => rfl
  | succ n ih =>
    rw [spread, overlay_of_none (single_of_ne _ fun hx => h n (Nat.lt_succ_self n) hx.symm)]
    exact ih fun i hi => h i (Nat.lt_succ_of_lt hi)

theorem spread_eq_some (h : spread key val n a = some b) : ∃ i < n, key i = a ∧ val i = b := by
  induction n with
  | zero => cases h
  | succ n ih =>
    rw [spread, overlay_eq_some] at h
    rcases h with h | ⟨-, h⟩
    · by_cases ha : a = key n
      · rw [ha, single_self] at h
        exact ⟨n, Nat.lt_succ_self n, ha.symm, Option.some.inj h⟩
      · rw [single_of_ne _ ha] at h
        cases h
    · obtain ⟨i, hi, hk⟩ := ih h
      exact ⟨i, Nat.lt_succ_of_lt hi, hk⟩

/-- Where the keys are different every write is still there. -/
theorem spread_of_lt (hinj : ∀ i < n, ∀ j < n, key i = key j → i = j) {i : Nat} (hi : i < n) :
    spread key val n (key i) = some (val i) := by
  cases hs : spread key val n (key i) with
  | none =>
    exfalso
    induction n with
    | zero => exact absurd hi (Nat.not_lt_zero i)
    | succ n ih =>
      rw [spread, overlay_eq_none] at hs
      obtain ⟨hlast, hrest⟩ := hs
      by_cases hin : i = n
      · rw [hin, single_self] at hlast
        cases hlast
      · refine ih (fun j hj k hk => hinj j (Nat.lt_succ_of_lt hj) k (Nat.lt_succ_of_lt hk)) ?_ hrest
        exact Nat.lt_of_le_of_ne (Nat.le_of_lt_succ hi) hin
  | some b =>
    obtain ⟨j, hj, hkey, hval⟩ := spread_eq_some hs
    rw [← hval, hinj j hj i hi hkey]

end Spread

end Lib
end FosMemory
