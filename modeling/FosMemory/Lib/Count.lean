import Mathlib.Algebra.BigOperators.Ring.Finset
import Mathlib.Algebra.Order.BigOperators.Group.Finset
import FosMemory.Lib.Outcome

/-!
# Count — counting the places of a table that satisfy a test

The number of places of a finite set at which a predicate holds, and how it changes when the
predicate changes at one place.
-/

namespace FosMemory
namespace Lib

variable {α β δ ε : Type}

/-- The number of places in `A` that satisfy `p`. -/
def hits (A : Finset α) (p : α → Prop) [DecidablePred p] : Nat :=
  (A.filter p).card

theorem hits_congr {A : Finset α} {p q : α → Prop} [DecidablePred p] [DecidablePred q]
    (h : ∀ a ∈ A, p a ↔ q a) : hits A p = hits A q := by
  rw [hits, hits, Finset.filter_congr h]

/-- The count after a change at one place. -/
theorem hits_change [DecidableEq α] {A : Finset α} {p q : α → Prop} [DecidablePred p]
    [DecidablePred q] {a : α} (ha : a ∈ A) (h : ∀ b ∈ A, b ≠ a → (p b ↔ q b)) :
    hits A q + (if p a then 1 else 0) = hits A p + (if q a then 1 else 0) := by
  have hsplit : ∀ (r : α → Prop) [DecidablePred r],
      hits A r = (if r a then 1 else 0) + hits (A.erase a) r := by
    intro r _
    rw [hits, hits, Finset.card_filter, Finset.card_filter]
    exact (Finset.add_sum_erase A (fun x => if r x then 1 else 0) ha).symm
  have hrest : hits (A.erase a) p = hits (A.erase a) q :=
    hits_congr fun b hb => h b (Finset.mem_of_mem_erase hb) (Finset.ne_of_mem_erase hb)
  rw [hsplit q, hsplit p, hrest]
  omega

theorem hits_union [DecidableEq α] {A B : Finset α} {p : α → Prop} [DecidablePred p]
    (h : Disjoint A B) : hits (A ∪ B) p = hits A p + hits B p := by
  rw [hits, Finset.filter_union, Finset.card_union_of_disjoint]
  · rfl
  · exact Finset.disjoint_filter_filter h

theorem hits_eq_zero {A : Finset α} {p : α → Prop} [DecidablePred p] (h : ∀ a ∈ A, ¬ p a) :
    hits A p = 0 := by
  rw [hits, Finset.card_eq_zero, Finset.filter_eq_empty_iff]
  exact fun _ ha => h _ ha

theorem hits_pos {A : Finset α} {p : α → Prop} [DecidablePred p] {a : α} (ha : a ∈ A) (hp : p a) :
    1 ≤ hits A p :=
  Finset.card_pos.2 ⟨a, Finset.mem_filter.2 ⟨ha, hp⟩⟩

/-- Row by row. -/
theorem hits_product (A : Finset α) (B : Finset β) (p : α × β → Prop) [DecidablePred p] :
    hits (A ×ˢ B) p = ∑ a ∈ A, hits B fun b => p (a, b) := by
  simp only [hits, Finset.card_filter, Finset.sum_product]

theorem hits_range (n : Nat) (p : Nat → Prop) [DecidablePred p] :
    hits (Finset.range n) p = (List.range n).countP fun k => p k := by
  induction n with
  | zero => rfl
  | succ n ih =>
    rw [List.range_succ, List.countP_append, ← ih, hits, hits, Finset.range_add_one,
      Finset.filter_insert]
    by_cases hp : p n
    · rw [if_pos hp, Finset.card_insert_of_notMem (by simp)]
      simp [hp]
    · rw [if_neg hp]
      simp [hp]

/-- A table in which every value stands at one place has as many filled places as values. -/
theorem hits_isSome {A : Finset α} {D : Finset δ} {f : α → Option δ}
    (inj : ∀ a ∈ A, ∀ b ∈ A, ∀ d, f a = some d → f b = some d → a = b)
    (hD : ∀ d, d ∈ D ↔ ∃ a ∈ A, f a = some d) :
    hits A (fun a => (f a).isSome = true) = D.card := by
  refine Finset.card_bij (fun a ha => (f a).get (Finset.mem_filter.1 ha).2) ?_ ?_ ?_
  · intro a ha
    exact (hD _).2 ⟨a, (Finset.mem_filter.1 ha).1, (Option.some_get _).symm⟩
  · intro a ha b hb hab
    have hfa := (Option.some_get (Finset.mem_filter.1 ha).2).symm
    refine inj a (Finset.mem_filter.1 ha).1 b (Finset.mem_filter.1 hb).1 _ hfa ?_
    rw [hab, Option.some_get]
  · intro d hd
    obtain ⟨a, ha, hf⟩ := (hD d).1 hd
    have hsome : (f a).isSome = true := by
      rw [hf]
      rfl
    exact ⟨a, Finset.mem_filter.2 ⟨ha, hsome⟩, by simp [hf]⟩

/-- A loop that adds `g k` in round `k`. -/
theorem forRange_sum {body : Nat → Nat → Except ε Nat} {g : Nat → Nat} {n m : Nat}
    (h : ∀ k < n, ∀ x, body k x = .ok (x + g k)) :
    forRange body 0 n m = .ok (m + ∑ k ∈ Finset.range n, g k) := by
  have hloop := forRange_ensures (E := fun _ : ε => False) (b := body) (a := 0) (n := n) (s := m)
    (I := fun i x => x = m + ∑ k ∈ Finset.range i, g k) ?_ (by simp)
  · rw [Nat.zero_add] at hloop
    obtain ⟨x, hx, rfl⟩ := hloop.exists_ok
    exact hx
  · rintro i x - hi rfl
    rw [h i (by omega), ensures_ok, Finset.sum_range_succ, Nat.add_assoc]

end Lib
end FosMemory
