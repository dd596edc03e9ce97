import Mathlib.Data.List.Basic

/-!
# Ring — a ring buffer that overwrites its oldest cell

Values are written to the cells of a ring one after the other.  Once the ring is full every write
pushes out a value, and the values leave in the order in which they came.
-/

namespace FosMemory
namespace Lib

variable {α : Type} {n : Nat} {cell cell' : Nat → Option α} {added removed : List α}

/-- The values `added` have been written in turn, `removed` have been pushed out; the others are in
their cells and every other cell is empty. -/
structure RingQueue (n : Nat) (cell : Nat → Option α) (added removed : List α) : Prop where
  le : removed.length ≤ added.length
  room : added.length ≤ removed.length + n
  filled : ∀ (j : Nat) (v : α), removed.length ≤ j → added[j]? = some v → cell (j % n) = some v
  empty : ∀ i < n, (∀ j, removed.length ≤ j → j < added.length → j % n ≠ i) → cell i = none
  order : ∀ (k : Nat) (v : α), removed[k]? = some v → added[k]? = some v

/-- Two writes less than a round apart go to different cells. -/
theorem mod_ne_of_lt {j k : Nat} (hjk : j < k) (hk : k < j + n) : j % n ≠ k % n := by
  intro heq
  have hzero : (k - j) % n = 0 := Nat.sub_mod_eq_zero_of_mod_eq heq.symm
  rw [Nat.mod_eq_of_lt (by omega)] at hzero
  omega

/-- A round of writes meets every cell. -/
theorem exists_mod_eq (start : Nat) {i : Nat} (hi : i < n) :
    ∃ j, start ≤ j ∧ j < start + n ∧ j % n = i := by
  have hpos : 0 < n := by omega
  have hlt : start % n < n := Nat.mod_lt _ hpos
  have hsplit : n * (start / n) + start % n = start := Nat.div_add_mod start n
  by_cases hle : start % n ≤ i
  · refine ⟨n * (start / n) + i, by omega, by omega, ?_⟩
    rw [Nat.mul_add_mod, Nat.mod_eq_of_lt hi]
  · refine ⟨n * (start / n) + (i + n), by omega, by omega, ?_⟩
    rw [Nat.mul_add_mod, Nat.add_mod_right, Nat.mod_eq_of_lt hi]

/-- A ring that has not come round yet. -/
theorem RingQueue.start (hlen : added.length ≤ n) (hcell : ∀ i < n, cell i = added[i]?) :
    RingQueue n cell added [] := by
  constructor
  case le => exact Nat.zero_le _
  case room =>
    rw [List.length_nil]
    omega
  case filled =>
    intro j v _ hv
    obtain ⟨hlt, -⟩ := List.getElem?_eq_some_iff.1 hv
    rw [Nat.mod_eq_of_lt (by omega), hcell j (by omega), hv]
  case empty =>
    intro i hi hno
    rw [hcell i hi, List.getElem?_eq_none]
    by_contra hlt
    exact hno i (Nat.zero_le _) (by omega) (Nat.mod_eq_of_lt hi)
  case order => exact fun k v hv => by cases hv

theorem RingQueue.congr (h : RingQueue n cell added removed) (hcell : ∀ i < n, cell' i = cell i)
    (hn : 0 < n) : RingQueue n cell' added removed where
  le := h.le
  room := h.room
  filled := fun j v hj hv => by rw [hcell _ (Nat.mod_lt j hn), h.filled j v hj hv]
  empty := fun i hi hno => by rw [hcell i hi, h.empty i hi hno]
  order := h.order

section Push

variable (h : RingQueue n cell added removed) (hn : 0 < n)
include h hn

/-- The cell of the next write is the oldest one of a full ring, and empty otherwise. -/
theorem RingQueue.next_cell : (∃ v, added.length = removed.length + n ∧
      added[removed.length]? = some v ∧ cell (added.length % n) = some v) ∨
    (added.length < removed.length + n ∧ cell (added.length % n) = none) := by
  have hroom := h.room
  rcases Nat.lt_or_eq_of_le hroom with hlt | heq
  · refine .inr ⟨hlt, h.empty _ (Nat.mod_lt _ hn) fun j hj hja => ?_⟩
    exact mod_ne_of_lt hja (by omega)
  · obtain ⟨v, hv⟩ : ∃ v, added[removed.length]? = some v :=
      ⟨_, List.getElem?_eq_getElem (by omega)⟩
    refine .inl ⟨v, heq, hv, ?_⟩
    rw [heq, Nat.add_mod_right]
    exact h.filled _ v (Nat.le_refl _) hv

/-- Either no cell is empty or the next write goes to an empty one. -/
theorem RingQueue.full_or : (∀ i < n, cell i ≠ none) ∨ cell (added.length % n) = none := by
  rcases h.next_cell hn with ⟨v, hfull, -, -⟩ | ⟨-, hnone⟩
  · refine .inl fun i hi => ?_
    obtain ⟨j, hlo, hhi, rfl⟩ := exists_mod_eq removed.length hi
    have hget : added[j]? = some added[j] := List.getElem?_eq_getElem (by omega)
    rw [h.filled j _ hlo hget]
    exact Option.some_ne_none _
  · exact .inr hnone

/-- A write at the next cell; what was there is pushed out. -/
theorem RingQueue.push {p : α} (hself : cell' (added.length % n) = some p)
    (hother : ∀ i < n, i ≠ added.length % n → cell' i = cell i) :
    RingQueue n cell' (added ++ [p]) (removed ++ (cell (added.length % n)).toList) := by
  have hlen : (added ++ [p]).length = added.length + 1 := by simp
  obtain ⟨out, hout⟩ : ∃ out, out = (cell (added.length % n)).toList := ⟨_, rfl⟩
  rw [← hout]
  -- the window of values in the ring after the write
  have hwin : removed.length ≤ (removed ++ out).length ∧
      (removed ++ out).length ≤ added.length ∧
      added.length + 1 ≤ (removed ++ out).length + n := by
    rcases h.next_cell hn with ⟨v, hfull, -, hv⟩ | ⟨hlt, hnone⟩
    · rw [hout, hv, List.length_append, Option.toList_some, List.length_singleton]
      omega
    · have hle := h.le
      rw [hout, hnone, Option.toList_none, List.append_nil]
      omega
  constructor
  case le =>
    rw [hlen]
    exact Nat.le_succ_of_le hwin.2.1
  case room =>
    rw [hlen]
    exact hwin.2.2
  case filled =>
    intro j v hj hv
    rcases Nat.lt_or_ge j added.length with hlt | hge
    · rw [List.getElem?_append_left hlt] at hv
      have hne : j % n ≠ added.length % n := mod_ne_of_lt hlt (by omega)
      rw [hother _ (Nat.mod_lt _ hn) hne]
      exact h.filled j v (by omega) hv
    · obtain ⟨hj', -⟩ := List.getElem?_eq_some_iff.1 hv
      obtain rfl : j = added.length := by omega
      rw [List.getElem?_concat_length] at hv
      rw [hself, hv]
  case empty =>
    intro i hi hno
    have hne : i ≠ added.length % n := fun hx =>
      hno added.length hwin.2.1 (by rw [hlen]; exact Nat.lt_succ_self _) hx.symm
    rw [hother i hi hne]
    refine h.empty i hi fun j hj hlt => ?_
    rcases Nat.lt_or_ge j (removed ++ out).length with hold | hnew
    · -- only the value pushed out is older, and it was in the cell just written
      have hfull : added.length = removed.length + n ∧ j = removed.length := by
        rcases h.next_cell hn with ⟨v, hfull, -, hv⟩ | ⟨-, hnone⟩
        · rw [hout, hv, List.length_append, Option.toList_some, List.length_singleton] at hold
          omega
        · rw [hout, hnone, Option.toList_none, List.append_nil] at hold
          omega
      rw [hfull.2]
      rw [hfull.1, Nat.add_mod_right] at hne
      exact Ne.symm hne
    · exact hno j hnew (by rw [hlen]; omega)
  case order =>
    intro k v hv
    rcases Nat.lt_or_ge k removed.length with hlt | hge
    · rw [List.getElem?_append_left hlt] at hv
      have hk := h.order k v hv
      obtain ⟨hka, -⟩ := List.getElem?_eq_some_iff.1 hk
      rw [List.getElem?_append_left hka, hk]
    · rw [List.getElem?_append_right hge] at hv
      rcases h.next_cell hn with ⟨x, hfull, hx, hc⟩ | ⟨-, hnone⟩
      · rw [hout, hc, Option.toList_some] at hv
        obtain ⟨hk, hxv⟩ := List.getElem?_eq_some_iff.1 hv
        rw [List.length_singleton] at hk
        obtain rfl : k = removed.length := by omega
        simp only [List.getElem_singleton] at hxv
        rw [List.getElem?_append_left (by omega), hx, hxv]
      · rw [hout, hnone] at hv
        cases hv

end Push

end Lib
end FosMemory
