import FosMemory.Lib.Blocks

/-!
# Holes — the maximal free runs between disjoint blocks

A hole is a run of free cells that cannot be made longer on either side.  A scan from left to right
over a layout meets the holes in the order of their addresses: `Walked` is what it knows when it
stands on a position, with the holes it has left behind and the run it is in.
-/

namespace FosMemory
namespace Lib

/-- A maximal run of free cells below `n`. -/
structure Hole (n : Nat) (bs : List Block) (b : Block) : Prop where
  nonempty : 0 < b.len
  bounded : b.stop ≤ n
  free : FreeRun bs b.start b.stop
  left : b.start = 0 ∨ ¬ FreeCell bs (b.start - 1)
  right : b.stop = n ∨ ¬ FreeCell bs b.stop

/-- The scan stands on `p`; its current run is `[q, p)`, and `holes` are the holes before it. -/
structure Walked (n : Nat) (bs : List Block) (holes : List Block) (q p : Nat) : Prop where
  le : q ≤ p
  le_bound : p ≤ n
  run : FreeRun bs q p
  left : q = 0 ∨ ¬ FreeCell bs (q - 1)
  mem : ∀ b, b ∈ holes ↔ Hole n bs b ∧ b.stop ≤ q
  sorted : holes.Pairwise fun a b => a.start < b.start

section

variable {n : Nat} {bs holes : List Block} {a b c : Block} {p q : Nat}

/-! ## Holes -/

/-- A free run that starts where nothing on its left is free contains no second start of a hole. -/
theorem Hole.start_eq (hb : Hole n bs b) (hrun : FreeRun bs q p) (hq : q ≤ b.start)
    (hp : b.start < p) : b.start = q := by
  by_contra hne
  rcases hb.left with h0 | hused
  · omega
  · exact hused (hrun (b.start - 1) (by omega) (by omega))

/-- A hole ends where its run meets a used cell. -/
theorem Hole.stop_eq (hb : Hole n bs b) (hrun : FreeRun bs b.start p) (hp : b.start < p)
    (hpn : p ≤ n) (hend : p = n ∨ ¬ FreeCell bs p) : b.stop = p := by
  have hpos := hb.nonempty
  have hstop : b.stop = b.start + b.len := rfl
  refine Nat.le_antisymm ?_ ?_
  · by_contra hlt
    rcases hend with heq | hused
    · have := hb.bounded
      omega
    · exact hused (hb.free p (by omega) (by omega))
  · by_contra hlt
    rcases hb.right with hn | hused
    · omega
    · exact hused (hrun b.stop (by omega) (by omega))

/-- Two holes with one start are one hole. -/
theorem Hole.eq_of_start (ha : Hole n bs a) (hb : Hole n bs b) (h : a.start = b.start) : a = b := by
  have hpos := hb.nonempty
  have hbstop : b.stop = b.start + b.len := rfl
  have hastop : a.stop = a.start + a.len := rfl
  have hrun : FreeRun bs a.start b.stop := by
    rw [h]
    exact hb.free
  have hstop := ha.stop_eq hrun (by omega) hb.bounded hb.right
  rcases a with ⟨s, k⟩
  rcases b with ⟨s', k'⟩
  simp only at h hbstop hastop
  simp only [Block.mk.injEq]
  omega

/-- Two holes with one end are one hole. -/
theorem Hole.eq_of_stop (ha : Hole n bs a) (hb : Hole n bs b) (h : a.stop = b.stop) : a = b := by
  have hapos := ha.nonempty
  have hbpos := hb.nonempty
  have hastop : a.stop = a.start + a.len := rfl
  have hbstop : b.stop = b.start + b.len := rfl
  refine ha.eq_of_start hb ?_
  rcases Nat.lt_or_ge a.start b.start with hlt | hge
  · exact (hb.start_eq ha.free (by omega) (by omega)).symm
  · exact ha.start_eq hb.free hge (by omega)

/-- A hole that starts before the current run ends before it. -/
theorem Walked.stop_le (h : Walked n bs holes q p) (hb : Hole n bs b) (hlt : b.start < q) :
    b.stop ≤ q := by
  by_contra hcon
  rcases h.left with h0 | hused
  · omega
  · exact hused (hb.free (q - 1) (by omega) (by omega))

/-- The current run is a hole once it is closed on the right. -/
theorem Walked.hole (h : Walked n bs holes q p) (hqp : q < p) (hend : p = n ∨ ¬ FreeCell bs p) :
    Hole n bs { start := q, len := p - q } := by
  have hstop : Block.stop { start := q, len := p - q } = p := by
    show q + (p - q) = p
    omega
  refine ⟨by simp only; omega, ?_, ?_, h.left, ?_⟩
  · rw [hstop]
    exact h.le_bound
  · rw [hstop]
    exact h.run
  · rw [hstop]
    exact hend

/-- A hole that starts in the current run is the current run. -/
theorem Walked.eq_of_start (h : Walked n bs holes q p) (hend : p = n ∨ ¬ FreeCell bs p)
    (hb : Hole n bs b) (hq : q ≤ b.start) (hp : b.start < p) : b = { start := q, len := p - q } := by
  refine hb.eq_of_start (h.hole (by omega) hend) ?_
  exact hb.start_eq h.run hq hp

/-! ## Walking -/

theorem Walked.start (n : Nat) (bs : List Block) : Walked n bs [] 0 0 := by
  refine ⟨le_rfl, Nat.zero_le n, FreeRun.self bs 0, .inl rfl, ?_, List.Pairwise.nil⟩
  intro b
  constructor
  · intro hb
    cases hb
  · rintro ⟨hb, hstop⟩
    have hpos := hb.nonempty
    have hdef : b.stop = b.start + b.len := rfl
    omega

theorem Walked.overFree (h : Walked n bs holes q p) (hp : p < n) (hfree : FreeCell bs p) :
    Walked n bs holes q (p + 1) :=
  ⟨Nat.le_succ_of_le h.le, hp, h.run.snoc hfree, h.left, h.mem, h.sorted⟩

/-- Behind a block the current run, if there is one, is a hole. -/
theorem Walked.overBlock (hl : Layout n bs) (h : Walked n bs holes q p) (hc : c ∈ bs)
    (hstart : c.start = p) :
    Walked n bs (if q < p then holes ++ [{ start := q, len := p - q }] else holes) (p + c.len)
      (p + c.len) := by
  have hlen := hl.nonempty c hc
  have hbound := hl.bounded c hc
  simp only [Block.stop, hstart] at hbound
  have hin : ∀ r, p ≤ r → r < p + c.len → ¬ FreeCell bs r := by
    intro r hr hr' hfree
    refine hfree c hc ⟨by omega, ?_⟩
    simp only [Block.stop]
    omega
  have hend : p = n ∨ ¬ FreeCell bs p := .inr (hin p le_rfl (by omega))
  -- a hole that ends behind the block is an old one or the current run
  have hcases : ∀ b, Hole n bs b ∧ b.stop ≤ p + c.len ↔
      (Hole n bs b ∧ b.stop ≤ q) ∨ (q < p ∧ b = { start := q, len := p - q }) := by
    intro b
    constructor
    · rintro ⟨hb, hstop⟩
      have hpos := hb.nonempty
      have hdef : b.stop = b.start + b.len := rfl
      by_cases hlt : b.start < q
      · exact .inl ⟨hb, h.stop_le hb hlt⟩
      · have hsp : b.start < p := by
          by_contra hge
          exact hin b.start (by omega) (by omega) (hb.free _ le_rfl (by omega))
        exact .inr ⟨by omega, h.eq_of_start hend hb (by omega) hsp⟩
    · rintro (⟨hb, hstop⟩ | ⟨hqp, rfl⟩)
      · have := h.le
        exact ⟨hb, by omega⟩
      · refine ⟨h.hole hqp hend, ?_⟩
        show q + (p - q) ≤ p + c.len
        omega
  refine ⟨le_rfl, hbound, FreeRun.self bs _, .inr (hin _ (by omega) (by omega)), ?_, ?_⟩
  · intro b
    rw [hcases b, ← h.mem b]
    by_cases hqp : q < p
    · rw [if_pos hqp, List.mem_append, List.mem_singleton]
      simp only [hqp, true_and]
    · rw [if_neg hqp]
      simp only [hqp, false_and, or_false]
  · by_cases hqp : q < p
    · rw [if_pos hqp, List.pairwise_append]
      refine ⟨h.sorted, List.pairwise_singleton _ _, ?_⟩
      intro a ha b hb
      rw [List.mem_singleton] at hb
      subst hb
      obtain ⟨hhole, hstop⟩ := (h.mem a).1 ha
      have hpos := hhole.nonempty
      have hdef : a.stop = a.start + a.len := rfl
      show a.start < q
      omega
    · rw [if_neg hqp]
      exact h.sorted

/-- At the end of the layout the holes are those behind and the current run. -/
theorem Walked.all (h : Walked n bs holes q n) :
    Hole n bs b ↔ b ∈ holes ∨ (q < n ∧ b = { start := q, len := n - q }) := by
  rw [h.mem b]
  constructor
  · intro hb
    have hpos := hb.nonempty
    have hbound := hb.bounded
    have hdef : b.stop = b.start + b.len := rfl
    by_cases hlt : b.start < q
    · exact .inl ⟨hb, h.stop_le hb hlt⟩
    · exact .inr ⟨by omega, h.eq_of_start (.inl rfl) hb (by omega) (by omega)⟩
  · rintro (⟨hb, -⟩ | ⟨hqn, rfl⟩)
    · exact hb
    · exact h.hole hqn (.inl rfl)

/-- The holes behind are not at the end. -/
theorem Walked.stop_lt (h : Walked n bs holes q p) (hb : b ∈ holes) : b.stop < n ∧ b.start < q := by
  obtain ⟨hhole, hstop⟩ := (h.mem b).1 hb
  have hpos := hhole.nonempty
  have hdef : b.stop = b.start + b.len := rfl
  have hle := h.le
  have hbound := h.le_bound
  have hne : b.stop ≠ q := by
    intro heq
    rcases h.left with h0 | hused
    · omega
    · exact hused (hhole.free (q - 1) (by omega) (by omega))
  omega

end

end Lib
end FosMemory
