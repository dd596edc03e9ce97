import Mathlib.Data.List.Basic
import Mathlib.Data.Nat.Find

/-!
# Runs — the maximal runs of a text between separators

A text of length `n` is given by the positions of its separators.  `starts n` lists where its runs
begin, from left to right; a reader that goes through the text meets them one by one.
-/

namespace FosMemory
namespace Lib

/-- `[a, e)` is a maximal run of positions below `n` that are not separators. -/
structure IsRun (sep : Nat → Prop) (n a e : Nat) : Prop where
  lt : a < e
  le : e ≤ n
  inside : ∀ i, a ≤ i → i < e → ¬ sep i
  left : a = 0 ∨ sep (a - 1)
  right : e = n ∨ sep e

/-- A run is fixed by its start. -/
theorem IsRun.end_unique {sep : Nat → Prop} {n a e e' : Nat} (h : IsRun sep n a e) (h' : IsRun sep n a e') : e = e' := by
  -- an end inside the other run would be a separator there
  have hle : ∀ {e e'}, IsRun sep n a e → IsRun sep n a e' → e ≤ e' := by
    intro e e' h h'
    by_contra hlt
    rcases h'.right with rfl | hsep
    · exact hlt h.le
    · exact h.inside e' (Nat.le_of_lt h'.lt) (Nat.not_le.1 hlt) hsep
  exact Nat.le_antisymm (hle h h') (hle h' h)

/-- `runs` lists all the runs of the text, from left to right. -/
structure IsRunList (sep : Nat → Prop) (n : Nat) (runs : List (Nat × Nat)) : Prop where
  mem : ∀ r, r ∈ runs ↔ IsRun sep n r.1 r.2
  sorted : runs.Pairwise fun r r' => r.1 < r'.1

section Starts

variable (sep : Nat → Prop)

/-- A run begins at `i`. -/
def RunStart (i : Nat) : Prop :=
  ¬ sep i ∧ (i = 0 ∨ sep (i - 1))

variable [DecidablePred sep]

instance : DecidablePred (RunStart sep) :=
  fun i => inferInstanceAs (Decidable (¬ sep i ∧ (i = 0 ∨ sep (i - 1))))

/-- The places below `p` where a run begins. -/
def starts (p : Nat) : List Nat :=
  (List.range p).filter (RunStart sep ·)

/-- The end of the run that begins at `a`: the next separator, or the end of the text. -/
def runEnd (n a : Nat) : Nat :=
  Nat.find (p := fun e => n ≤ e ∨ a ≤ e ∧ sep e) ⟨n, .inl le_rfl⟩

end Starts

section Rules

variable {sep : Nat → Prop} [DecidablePred sep] {n p q a e : Nat}

theorem mem_starts : a ∈ starts sep p ↔ a < p ∧ RunStart sep a := by
  simp only [starts, List.mem_filter, List.mem_range, decide_eq_true_eq]

theorem starts_succ_of_start (h : RunStart sep p) :
    starts sep (p + 1) = starts sep p ++ [p] := by
  rw [starts, List.range_succ, List.filter_append, List.filter_singleton, starts,
    decide_eq_true h, cond_true]

theorem starts_succ_of_not (h : ¬ RunStart sep p) : starts sep (p + 1) = starts sep p := by
  rw [starts, List.range_succ, List.filter_append, List.filter_singleton, starts,
    decide_eq_false h, cond_false, List.append_nil]

/-- Where no run begins in `[p, q)`, the list stays. -/
theorem starts_eq (hpq : p ≤ q) (h : ∀ i, p ≤ i → i < q → ¬ RunStart sep i) :
    starts sep q = starts sep p := by
  induction q, hpq using Nat.le_induction with
  | base => rfl
  | succ q hpq ih =>
    rw [starts_succ_of_not (h q hpq (Nat.lt_succ_self q))]
    exact ih fun i hi hiq => h i hi (Nat.lt_succ_of_lt hiq)

/-- Over separators no run begins. -/
theorem starts_of_sep (hpq : p ≤ q) (h : ∀ i, p ≤ i → i < q → sep i) :
    starts sep q = starts sep p :=
  starts_eq hpq fun i hi hiq hstart => hstart.1 (h i hi hiq)

/-- Over a run only its own start is new. -/
theorem starts_of_run (ha : RunStart sep a) (hae : a < e)
    (h : ∀ i, a ≤ i → i < e → ¬ sep i) : starts sep e = starts sep a ++ [a] := by
  rw [← starts_succ_of_start ha]
  refine starts_eq hae fun i hi hie hstart => ?_
  rcases hstart.2 with rfl | hsep
  · exact absurd hi (Nat.not_succ_le_zero a)
  · exact h (i - 1) (Nat.le_sub_one_of_lt hi) (by omega) hsep

theorem starts_isInitial (hpq : p ≤ q) : starts sep p <+: starts sep q := by
  induction q, hpq using Nat.le_induction with
  | base => exact List.prefix_rfl
  | succ q _ ih =>
    by_cases h : RunStart sep q
    · rw [starts_succ_of_start h]
      exact ih.trans (List.prefix_append _ _)
    · rwa [starts_succ_of_not h]

theorem runEnd_spec (h : RunStart sep a) (ha : a < n) : IsRun sep n a (runEnd sep n a) := by
  have hspec := Nat.find_spec (p := fun e => n ≤ e ∨ a ≤ e ∧ sep e) ⟨n, .inl le_rfl⟩
  have hmin : ∀ i, i < runEnd sep n a → ¬ (n ≤ i ∨ a ≤ i ∧ sep i) := fun i hi =>
    Nat.find_min (p := fun e => n ≤ e ∨ a ≤ e ∧ sep e) ⟨n, .inl le_rfl⟩ hi
  have hle : runEnd sep n a ≤ n := Nat.find_min' _ (.inl le_rfl)
  change n ≤ runEnd sep n a ∨ a ≤ runEnd sep n a ∧ sep (runEnd sep n a) at hspec
  have hlt : a < runEnd sep n a := by
    rcases hspec with hn | ⟨hae, hsep⟩
    · exact Nat.lt_of_lt_of_le ha hn
    · rcases Nat.lt_or_eq_of_le hae with hlt | heq
      · exact hlt
      · exact absurd (heq ▸ hsep) h.1
  refine ⟨hlt, hle, fun i hi hie hsep => hmin i hie (.inr ⟨hi, hsep⟩), h.2, ?_⟩
  exact hspec.imp (Nat.le_antisymm hle) And.right

/-- The runs of the text, by their starts. -/
theorem isRunList_starts :
    IsRunList sep n ((starts sep n).map fun a => (a, runEnd sep n a)) := by
  constructor
  case mem =>
    rintro ⟨a, e⟩
    simp only [List.mem_map, Prod.mk.injEq, mem_starts]
    constructor
    · rintro ⟨a, ⟨ha, hstart⟩, rfl, rfl⟩
      exact runEnd_spec hstart ha
    · intro hrun
      have ha : a < n := Nat.lt_of_lt_of_le hrun.lt hrun.le
      have hstart : RunStart sep a := ⟨hrun.inside a le_rfl hrun.lt, hrun.left⟩
      exact ⟨a, ⟨ha, hstart⟩, rfl, (runEnd_spec hstart ha).end_unique hrun⟩
  case sorted =>
    rw [List.pairwise_map]
    exact List.pairwise_lt_range.filter _

end Rules

end Lib
end FosMemory
