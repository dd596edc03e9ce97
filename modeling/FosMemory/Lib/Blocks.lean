import Mathlib.Data.List.Pairwise
import Mathlib.Tactic.Ring

/-!
# Blocks — disjoint intervals of naturals and scans over them

A block is a start and a length.  A family of pairwise disjoint blocks is scanned from left to
right by standing on positions that are never strictly inside a block: from such a position one
either steps over a free cell or jumps over the block that starts there, and both moves end on
such a position again.
-/

namespace FosMemory
namespace Lib

/-- A block of cells `[start, start + len)`. -/
structure Block where
  start : Nat
  len : Nat
  deriving DecidableEq, Repr

namespace Block

/-- The first position after the block. -/
def stop (b : Block) : Nat :=
  b.start + b.len

/-- Membership of a cell in the block. -/
def Mem (b : Block) (p : Nat) : Prop :=
  b.start ≤ p ∧ p < b.stop

/-- The position lies inside the block but not at its start. -/
def StrictlyInside (b : Block) (p : Nat) : Prop :=
  b.start < p ∧ p < b.stop

/-- Two blocks that share no cell. -/
def Disjoint (a b : Block) : Prop :=
  a.stop ≤ b.start ∨ b.stop ≤ a.start

instance : Std.Symm Block.Disjoint where
  symm _ _ h := Or.symm h

end Block

/-- Pairwise disjoint non-empty blocks below `n`. -/
structure Layout (n : Nat) (bs : List Block) : Prop where
  nonempty : ∀ b ∈ bs, 0 < b.len
  bounded : ∀ b ∈ bs, b.stop ≤ n
  disjoint : bs.Pairwise Block.Disjoint

/-- No block contains the cell. -/
def FreeCell (bs : List Block) (p : Nat) : Prop :=
  ∀ b ∈ bs, ¬ b.Mem p

/-- No block has the position strictly inside. -/
def Boundary (bs : List Block) (p : Nat) : Prop :=
  ∀ b ∈ bs, ¬ b.StrictlyInside p

/-- Every cell of `[p, q)` is free. -/
def FreeRun (bs : List Block) (p q : Nat) : Prop :=
  ∀ r, p ≤ r → r < q → FreeCell bs r

section

variable {n : Nat} {bs : List Block} {a b : Block} {p q : Nat}

/-! ## Layouts -/

theorem Layout.nil (n : Nat) : Layout n [] := by
  refine ⟨?_, ?_, List.Pairwise.nil⟩
  · intro b hb
    cases hb
  · intro b hb
    cases hb

theorem Layout.disjoint_of_ne (h : Layout n bs) (ha : a ∈ bs) (hb : b ∈ bs) (hne : a ≠ b) :
    a.Disjoint b :=
  h.disjoint.forall ha hb hne

/-- Two blocks of a layout that share a start are the same block. -/
theorem Layout.eq_of_start (h : Layout n bs) (ha : a ∈ bs) (hb : b ∈ bs)
    (hs : a.start = b.start) : a = b := by
  by_contra hne
  have hdis := h.disjoint_of_ne ha hb hne
  have hap := h.nonempty a ha
  have hbp := h.nonempty b hb
  simp only [Block.Disjoint, Block.stop] at hdis
  omega

/-- A free run takes a new block. -/
theorem Layout.cons (h : Layout n bs) (hlen : 0 < b.len) (hstop : b.stop ≤ n)
    (hfree : FreeRun bs b.start b.stop) : Layout n (b :: bs) := by
  refine ⟨?_, ?_, List.pairwise_cons.2 ⟨?_, h.disjoint⟩⟩
  · intro c hc
    rcases List.mem_cons.1 hc with rfl | hc
    · exact hlen
    · exact h.nonempty c hc
  · intro c hc
    rcases List.mem_cons.1 hc with rfl | hc
    · exact hstop
    · exact h.bounded c hc
  · intro c hc
    -- otherwise the later of the two starts is a cell of both blocks
    by_contra hdis
    have hcp := h.nonempty c hc
    have hcell := hfree (max b.start c.start)
    simp only [Block.Disjoint, Block.stop, not_or, not_le] at hdis
    refine hcell (le_max_left _ _) ?_ c hc ?_
    · simp only [Block.stop]
      omega
    · simp only [Block.Mem, Block.stop]
      omega

theorem Layout.sublist {cs : List Block} (h : Layout n bs) (hs : cs.Sublist bs) :
    Layout n cs :=
  ⟨fun b hb => h.nonempty b (hs.subset hb), fun b hb => h.bounded b (hs.subset hb),
    h.disjoint.sublist hs⟩

/-! ## Boundaries -/

theorem boundary_zero (bs : List Block) : Boundary bs 0 := by
  intro b _ h
  exact Nat.not_lt_zero _ h.1

/-- On a boundary, a cell at which no block starts is free. -/
theorem Boundary.freeCell (h : Boundary bs p) (hno : ∀ b ∈ bs, b.start ≠ p) :
    FreeCell bs p := by
  intro b hb hmem
  refine h b hb ⟨?_, hmem.2⟩
  exact lt_of_le_of_ne hmem.1 (hno b hb)

/-- Stepping over a free cell leads to a boundary. -/
theorem FreeCell.boundary_succ (h : FreeCell bs p) : Boundary bs (p + 1) := by
  intro b hb hin
  refine h b hb ⟨Nat.le_of_lt_succ hin.1, ?_⟩
  exact lt_trans (Nat.lt_succ_self p) hin.2

/-- The end of a block is a boundary. -/
theorem Layout.boundary_stop (h : Layout n bs) (hb : b ∈ bs) : Boundary bs b.stop := by
  intro c hc hin
  have hbp := h.nonempty b hb
  by_cases hbc : b = c
  · subst hbc
    exact lt_irrefl _ hin.2
  · have hdis := h.disjoint_of_ne hb hc hbc
    simp only [Block.Disjoint, Block.StrictlyInside, Block.stop] at hdis hin
    omega

/-- A block that starts before a boundary ends before it. -/
theorem Boundary.stop_le (h : Boundary bs q) (hb : b ∈ bs) (hlt : b.start < q) :
    b.stop ≤ q := by
  by_contra hcon
  exact h b hb ⟨hlt, not_le.1 hcon⟩

theorem Boundary.cons_self (h : Boundary bs b.start) : Boundary (b :: bs) b.start := by
  intro c hc hin
  rcases List.mem_cons.1 hc with rfl | hc
  · exact lt_irrefl _ hin.1
  · exact h c hc hin

theorem Boundary.sublist {cs : List Block} (h : Boundary bs p) (hs : cs.Sublist bs) :
    Boundary cs p :=
  fun b hb => h b (hs.subset hb)

/-! ## Free runs -/

theorem FreeRun.self (bs : List Block) (p : Nat) : FreeRun bs p p := by
  intro r hle hlt
  exact absurd hle (not_le.2 hlt)

theorem FreeRun.snoc (h : FreeRun bs p q) (hq : FreeCell bs q) : FreeRun bs p (q + 1) := by
  intro r hle hlt
  rcases Nat.lt_succ_iff_lt_or_eq.1 hlt with hlt | rfl
  · exact h r hle hlt
  · exact hq

theorem FreeRun.mono_right {r : Nat} (h : FreeRun bs p q) (hr : r ≤ q) : FreeRun bs p r :=
  fun x hle hlt => h x hle (lt_of_lt_of_le hlt hr)

/-- The first cell of a non-empty free run is a boundary. -/
theorem FreeRun.boundary_left (h : FreeRun bs p q) (hpq : p < q) : Boundary bs p := by
  intro b hb hin
  exact h p le_rfl hpq b hb ⟨le_of_lt hin.1, hin.2⟩

end

end Lib
end FosMemory
