import Mathlib.Data.List.Rotate

/-!
# Rotation — a linear list with a roving pointer

A list and a pointer into it represent the queue that one gets by reading the list circularly from
the pointer on.  Inserting in front of the pointer appends to the queue, moving the pointer on
rotates it, and an element can be taken out anywhere if the pointer moves off it first.
-/

namespace FosMemory
namespace Lib

variable {α : Type}

/-- `q` is `xs` read circularly from `next` on. -/
def Rotated (xs : List α) (next : Option α) (q : List α) : Prop :=
  ∃ as bs, xs = as ++ bs ∧ q = bs ++ as ∧ next = bs.head? ∧ (bs = [] → as = [])

/-- The element after `n` in `as ++ n :: bs`, circularly. -/
def circularNext (as : List α) (n : α) (bs : List α) : Option α :=
  bs.head?.or (as ++ n :: bs).head?

theorem rotated_nil : Rotated ([] : List α) none [] :=
  ⟨[], [], rfl, rfl, rfl, fun _ => rfl⟩

theorem rotated_split (as : List α) (n : α) (bs : List α) :
    Rotated (as ++ n :: bs) (some n) (n :: bs ++ as) :=
  ⟨as, n :: bs, rfl, rfl, rfl, fun h => by cases h⟩

variable {xs q : List α} {next : Option α}

theorem Rotated.split {n : α} (h : Rotated xs (some n) q) :
    ∃ as bs, xs = as ++ n :: bs ∧ q = n :: bs ++ as := by
  obtain ⟨as, bs, hxs, hq, hnext, -⟩ := h
  cases bs with
  | nil => cases hnext
  | cons b bs =>
    cases hnext
    exact ⟨as, bs, hxs, hq⟩

theorem Rotated.eq_nil (h : Rotated xs none q) : xs = [] ∧ q = [] := by
  obtain ⟨as, bs, rfl, rfl, hnext, hnil⟩ := h
  have hbs : bs = [] := List.head?_eq_none_iff.1 hnext.symm
  rw [hbs, hnil hbs]
  exact ⟨rfl, rfl⟩

theorem Rotated.perm (h : Rotated xs next q) : q.Perm xs := by
  obtain ⟨as, bs, rfl, rfl, -, -⟩ := h
  exact List.perm_append_comm

theorem Rotated.head? (h : Rotated xs next q) : q.head? = next := by
  cases next with
  | none =>
    rw [h.eq_nil.2]
    rfl
  | some n =>
    obtain ⟨as, bs, -, rfl⟩ := h.split
    rfl

theorem Rotated.next_eq_none_iff (h : Rotated xs next q) : next = none ↔ xs = [] := by
  constructor
  · rintro rfl
    exact h.eq_nil.1
  · rintro rfl
    have hq : q = [] := List.perm_nil.1 h.perm
    rw [← h.head?, hq]
    rfl

/-- An element put in front of the pointer is the last of the queue. -/
theorem rotated_insertBefore (as : List α) (e n : α) (bs : List α) :
    Rotated (as ++ e :: n :: bs) (some n) ((n :: bs ++ as) ++ [e]) := by
  refine ⟨as ++ [e], n :: bs, ?_, ?_, rfl, fun h => by cases h⟩
  · rw [List.append_assoc]
    rfl
  · rw [List.append_assoc]

/-- Moving the pointer on. -/
theorem rotated_advance (as : List α) (n : α) (bs : List α) :
    Rotated (as ++ n :: bs) (circularNext as n bs) ((n :: bs ++ as).rotate 1) := by
  have hrot : (n :: bs ++ as).rotate 1 = bs ++ (as ++ [n]) := by
    rw [List.cons_append, List.rotate_cons_succ, List.rotate_zero, List.append_assoc]
  rw [hrot]
  cases bs with
  | nil =>
    -- the pointer was at the end: it goes back to the first element
    exact ⟨[], as ++ [n], rfl, by simp, rfl, fun _ => rfl⟩
  | cons b bs =>
    refine ⟨as ++ [n], b :: bs, ?_, rfl, rfl, fun h => by cases h⟩
    rw [List.append_assoc]
    rfl

variable [DecidableEq α]

theorem erase_middle {as bs : List α} {e : α} (he : e ∉ as) :
    (as ++ e :: bs).erase e = as ++ bs := by
  rw [List.erase_append_right _ he, List.erase_cons_head]

/-- Taking out the element under the pointer. -/
theorem rotated_erase_next {as bs : List α} {n : α} (hnd : (as ++ n :: bs).Nodup) :
    Rotated ((as ++ n :: bs).erase n)
      (if circularNext as n bs = some n then none else circularNext as n bs)
      ((n :: bs ++ as).erase n) := by
  obtain ⟨-, hnd₂, hdisj⟩ := List.nodup_append.1 hnd
  have hna : n ∉ as := fun h => hdisj n h n List.mem_cons_self rfl
  rw [erase_middle hna, List.cons_append, List.erase_cons_head]
  cases bs with
  | nil =>
    cases as with
    | nil =>
      have heq : circularNext [] n [] = some n := rfl
      rw [if_pos heq]
      exact rotated_nil
    | cons a as =>
      have hne : circularNext (a :: as) n [] ≠ some n := by
        intro h
        exact hna (Option.some.inj h ▸ List.mem_cons_self)
      rw [if_neg hne]
      exact ⟨[], a :: as, by simp, by simp, rfl, fun _ => rfl⟩
  | cons b bs =>
    have hne : circularNext as n (b :: bs) ≠ some n := by
      intro h
      exact (List.nodup_cons.1 hnd₂).1 (Option.some.inj h ▸ List.mem_cons_self)
    rw [if_neg hne]
    exact ⟨as, b :: bs, rfl, rfl, rfl, fun h => by cases h⟩

/-- Taking out another element. -/
theorem Rotated.erase_of_ne {e : α} (h : Rotated xs next q) (hnd : xs.Nodup) (he : next ≠ some e) :
    Rotated (xs.erase e) next (q.erase e) := by
  obtain ⟨as, bs, rfl, rfl, rfl, hnil⟩ := h
  obtain ⟨-, -, hdisj⟩ := List.nodup_append.1 hnd
  cases bs with
  | nil =>
    rw [hnil rfl]
    exact rotated_nil
  | cons b bs =>
    have hbe : b ≠ e := fun h => he (congrArg some h)
    by_cases hea : e ∈ as
    · have heb : e ∉ b :: bs := fun h => hdisj e hea e h rfl
      rw [List.erase_append_left _ hea, List.erase_append_right _ heb]
      exact ⟨as.erase e, b :: bs, rfl, rfl, rfl, fun h => by cases h⟩
    · have hcons : (b :: bs).erase e = b :: bs.erase e :=
        List.erase_cons_tail (by simpa using hbe)
      rw [List.erase_append_right _ hea, hcons]
      have hq : (b :: bs ++ as).erase e = b :: bs.erase e ++ as := by
        by_cases heb : e ∈ b :: bs
        · rw [List.erase_append_left _ heb, hcons]
        · rw [List.erase_append_right _ heb, List.erase_of_not_mem hea, ← hcons,
            List.erase_of_not_mem heb]
      rw [hq]
      exact ⟨as, b :: bs.erase e, rfl, rfl, rfl, fun h => by cases h⟩

end Lib
end FosMemory
