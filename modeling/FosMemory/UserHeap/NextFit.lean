import FosMemory.UserHeap.Fit

/-!
# NextFit — the place the circular scan chooses

The scan of NEXTFIT starts at `generalAddress`, goes to the end of the heap, and from the start of
the heap up to `generalAddress` again.  It reports the first place it meets in this order, where a
place crosses neither the end of the heap nor `generalAddress`.
-/

namespace FosMemory
namespace UserHeap

open Lib

/-- `m` free pages start on page `a`, and going around from `g` they come in one piece. -/
def CircularPlace (bs : List Lib.Block) (g m a : Nat) : Prop :=
  a + m ≤ uheapPages ∧ FreeRun bs a (a + m) ∧ (g ≤ a ∨ a + m ≤ g)

/-- `a` comes first among the places, going around from `g`. -/
def FirstAround (bs : List Lib.Block) (g m a : Nat) : Prop :=
  CircularPlace bs g m a ∧ ∀ b, CircularPlace bs g m b →
    (g ≤ a ∧ (b < g ∨ a ≤ b)) ∨ (a < g ∧ b < g ∧ a ≤ b)

/-- The scan stands on page `p`, its current run starts on page `q`, and no place starts on a page
between `g` and `q`. -/
structure Circling (bs : List Lib.Block) (g m : Nat) (ns : NextFitScan) (q p : Nat) : Prop where
  position : ns.scan.i = userHeapStart + 4096 * p
  boundary : Boundary bs p
  le : q ≤ p
  le_pages : p ≤ uheapPages
  run : FreeRun bs q p
  size : ns.scan.currentSize = 4096 * (p - q)
  flag : ns.scan.flag = true ↔ q < p
  start : q < p → ns.scan.j = userHeapStart + 4096 * q
  short : p - q < m
  phase : (g ≤ q ∧ ns.k = uheapPages - p + g ∧ ∀ a, g ≤ a → a < q → ¬ CircularPlace bs g m a) ∨
    (p ≤ g ∧ ns.k = g - p ∧ (∀ a, g ≤ a → ¬ CircularPlace bs g m a) ∧
      ∀ a < q, ¬ CircularPlace bs g m a)
  not_found : ns.found = false

/-- The outcome of the circular scan. -/
structure NextFits (bs : List Lib.Block) (g m : Nat) (h : UHeap) (pl : Placement) : Prop where
  found : pl.found = true → ∃ a, FirstAround bs g m a ∧
    pl.generalAddress = userHeapStart + 4096 * a
  not_found : pl.found = false → pl.generalAddress = h.generalAddress ∧
    ∀ a, ¬ CircularPlace bs g m a

section

variable {h : UHeap} {live : List LiveBlock} {bs : List Lib.Block} {g m q p : Nat} {ns : NextFitScan}

/-! ## One round -/

theorem Circling.start_inv (hm : 0 < m) (hg : g < uheapPages) (hb : Boundary bs g)
    (hga : h.generalAddress = userHeapStart + 4096 * g) :
    Circling bs g m (NextFitScan.start h) g g := by
  refine ⟨hga, hb, le_rfl, le_of_lt hg, FreeRun.self bs g, ?_, ?_, ?_, by omega,
    .inl ⟨le_rfl, ?_, ?_⟩, rfl⟩
  · simp [NextFitScan.start, Scan.at]
  · simp [NextFitScan.start, Scan.at]
  · intro hlt
    exact absurd hlt (lt_irrefl _)
  · simp only [NextFitScan.start]
    omega
  · intro a hle hlt
    omega

/-- The tests at the end of a round without a sufficient run: the scan goes on, from the start of
the heap if it has reached the end. -/
theorem Circling.tail (hg : g < uheapPages) (hc : Circling bs g m ns q p) :
    ∃ ns' q' p', nextFitTail (4096 * m) ns = .more ns' ∧ ns'.k = ns.k ∧ p' < uheapPages ∧
      Circling bs g m ns' q' p' := by
  have hpos := hc.position
  have hle := hc.le_pages
  have hshort := hc.short
  have hsize := hc.size
  have hno : ¬ 4096 * m ≤ ns.scan.currentSize := by omega
  by_cases hmax : userHeapMax ≤ ns.scan.i
  · have hp : p = uheapPages := by
      simp only [userHeapStart, userHeapMax, uheapPages] at hpos hmax hle ⊢
      omega
    refine ⟨{ ns with
      scan := { ns.scan with currentSize := 0, flag := false, i := userHeapStart } }, 0, 0, ?_, rfl,
      by decide, ?_⟩
    · simp only [nextFitTail, if_neg hno, if_pos hmax]
    · refine ⟨rfl, boundary_zero bs, le_rfl, Nat.zero_le _, FreeRun.self bs 0, rfl, ?_, ?_, by omega,
        ?_, hc.not_found⟩
      · simp
      · intro hlt
        exact absurd hlt (lt_irrefl _)
      · -- the first half is over: the last run is too short for a place
        rcases hc.phase with ⟨-, hk, hnone⟩ | ⟨hpg, -, -⟩
        · refine .inr ⟨Nat.zero_le g, ?_, ?_, fun a ha => absurd ha (Nat.not_lt_zero a)⟩
          · show ns.k = g - 0
            omega
          · intro a ha hplace
            by_cases haq : a < q
            · exact hnone a ha haq hplace
            · have := hplace.1
              omega
        · omega
  · refine ⟨ns, q, p, ?_, rfl, ?_, hc⟩
    · simp only [nextFitTail, if_neg hno, if_neg hmax]
    · simp only [userHeapStart, userHeapMax, uheapPages] at hpos hmax hle ⊢
      omega

/-- No place starts in a run that a block ends too early, or inside that block. -/
theorem Circling.no_place (hc : Circling bs g m ns q p) {c : Lib.Block} (hcb : c ∈ bs)
    (hstart : c.start = p) (hcpos : 0 < c.len) {a : Nat} (hqa : q ≤ a) (ha : a < p + c.len) :
    ¬ CircularPlace bs g m a := by
  rintro ⟨-, hrun, -⟩
  have hshort := hc.short
  have hle := hc.le
  refine hrun (max a p) (le_max_left _ _) (by omega) c hcb ⟨by omega, ?_⟩
  simp only [Lib.Block.stop]
  omega

/-- One round looks at a free page or passes a block. -/
theorem Circling.round (hr : Rep h live) (hg : g < uheapPages)
    (hbg : Boundary (pageBlocks live) g) (hc : Circling (pageBlocks live) g m ns q p)
    (hp : p < uheapPages) (hk : ns.k ≠ 0) :
    (∃ ns' q' p', nextFitRound h (4096 * m) ns = .more ns' ∧ ns'.k < ns.k ∧ p' < uheapPages ∧
        Circling (pageBlocks live) g m ns' q' p') ∨
      (∃ ns' a, nextFitRound h (4096 * m) ns = .exit ns' ∧ ns'.found = true ∧
        ns'.scan.j = userHeapStart + 4096 * a ∧ FirstAround (pageBlocks live) g m a) := by
  have hpos := hc.position
  have hle := hc.le
  have hsize := hc.size
  have hshort := hc.short
  have hphase := hc.phase
  have hidx : heapIndex ns.scan.i = p := by
    rw [hpos]
    exact heapIndex_page (le_of_lt hp)
  simp only [uheapPages] at hp hg hphase
  by_cases h0 : h.uheapTracker p = 0
  · have hfree := hr.freeCell_of_tracker hc.boundary h0
    have hk1 : (ns.k + wordMod - 1) % wordMod = ns.k - 1 := by
      simp only [wordMod]
      omega
    have hround : nextFitRound h (4096 * m) ns =
        nextFitTail (4096 * m) { ns with scan := ns.scan.overFree, k := ns.k - 1 } := by
      simp only [nextFitRound, hidx, if_pos h0, hk1]
    have hcs : (ns.scan.overFree).currentSize = 4096 * (p + 1 - q) := by
      simp only [Scan.overFree, pageSize, wordMod]
      omega
    have hj : ns.scan.overFree.j = userHeapStart + 4096 * q := by
      by_cases hqp : q < p
      · have hflag := hc.flag.2 hqp
        simpa [Scan.overFree, hflag] using hc.start hqp
      · have hflag : ns.scan.flag = false := by
          rw [Bool.eq_false_iff]
          exact fun hf => hqp (hc.flag.1 hf)
        have hqeq : q = p := by omega
        simpa [Scan.overFree, hflag, hqeq] using hpos
    rw [hround]
    by_cases hlong : p + 1 - q < m
    · -- the run is still too short
      have hnext : Circling (pageBlocks live) g m
          { ns with scan := ns.scan.overFree, k := ns.k - 1 } q (p + 1) := by
        refine ⟨?_, hfree.boundary_succ, by omega, hp, hc.run.snoc hfree, hcs, ?_, fun _ => hj,
          hlong, ?_, hc.not_found⟩
        · simp only [userHeapStart] at hpos
          simp only [Scan.overFree, pageSize, wordMod, userHeapStart]
          omega
        · simp only [Scan.overFree, true_iff]
          omega
        · rcases hphase with ⟨hgq, hkk, hnone⟩ | ⟨hpg, hkk, hnone⟩
          · refine .inl ⟨hgq, ?_, hnone⟩
            show ns.k - 1 = uheapPages - (p + 1) + g
            simp only [uheapPages]
            omega
          · refine .inr ⟨by omega, ?_, hnone⟩
            show ns.k - 1 = g - (p + 1)
            omega
      obtain ⟨ns', q', p', hmore, hkk, hp', hc'⟩ := hnext.tail (by simpa only [uheapPages] using hg)
      refine .inl ⟨ns', q', p', hmore, ?_, hp', hc'⟩
      have : ns'.k = ns.k - 1 := hkk
      omega
    · -- the run has just become long enough, so it is the first place
      have hlen : p + 1 = q + m := by omega
      have hyes : 4096 * m ≤ ns.scan.overFree.currentSize := by
        rw [hcs]
        omega
      have hplace : CircularPlace (pageBlocks live) g m q := by
        refine ⟨by simp only [uheapPages]; omega, ?_, ?_⟩
        · rw [← hlen]
          exact hc.run.snoc hfree
        · rcases hphase with ⟨hgq, -⟩ | ⟨hpg, hkk, -⟩
          · exact .inl hgq
          · exact .inr (by omega)
      refine .inr ⟨{ ns with scan := ns.scan.overFree, k := ns.k - 1, found := true }, q, ?_, rfl,
        hj, hplace, ?_⟩
      · simp only [nextFitTail, if_pos hyes]
      · intro b hb
        rcases hphase with ⟨hgq, -, hnone⟩ | ⟨hpg, hkk, hsecond, hnone⟩
        · refine .inl ⟨hgq, ?_⟩
          by_contra hcon
          exact hnone b (by omega) (by omega) hb
        · refine .inr ⟨by omega, ?_, ?_⟩
          · by_contra hcon
            exact hsecond b (by omega) hb
          · by_contra hcon
            exact hnone b (by omega) hb
  · obtain ⟨c, hcb, hstart, hlen⟩ := hr.block_of_tracker (by simpa only [uheapPages] using hp) h0
    have hcpos := hr.layout.nonempty c hcb
    have hbound := hr.layout.bounded c hcb
    have hbd := hr.layout.boundary_stop hcb
    simp only [Lib.Block.stop, hstart] at hbound hbd
    have hcross : p < g → p + c.len ≤ g := by
      intro hpg
      have hle := hbg.stop_le hcb (by omega)
      simpa only [Lib.Block.stop, hstart] using hle
    have hbound' : p + c.len ≤ 131072 := by simpa only [uheapPages] using hbound
    have hk1 : (ns.k + wordMod - h.uheapTracker p) % wordMod = ns.k - c.len := by
      simp only [wordMod, ← hlen]
      omega
    have hno : ¬ 4096 * m ≤ ns.scan.currentSize := by omega
    have hround : nextFitRound h (4096 * m) ns = nextFitTail (4096 * m)
        { ns with scan := ns.scan.overBlock (h.uheapTracker p), k := ns.k - c.len } := by
      simp only [nextFitRound, hidx, if_neg h0, if_neg hno, hk1]
    have hnext : Circling (pageBlocks live) g m
        { ns with scan := ns.scan.overBlock (h.uheapTracker p), k := ns.k - c.len }
        (p + c.len) (p + c.len) := by
      refine ⟨?_, hbd, le_rfl, hbound, FreeRun.self _ _, ?_, ?_, ?_, by omega, ?_, hc.not_found⟩
      · simp only [userHeapStart] at hpos
        simp only [Scan.overBlock, pageSize, wordMod, userHeapStart, ← hlen]
        omega
      · simp only [Scan.overBlock, Nat.sub_self, Nat.mul_zero]
      · simp [Scan.overBlock]
      · intro hlt
        exact absurd hlt (lt_irrefl _)
      · rcases hphase with ⟨hgq, hkk, hnone⟩ | ⟨hpg, hkk, hsecond, hnone⟩
        · refine .inl ⟨by omega, ?_, ?_⟩
          · show ns.k - c.len = uheapPages - (p + c.len) + g
            simp only [uheapPages]
            omega
          · intro a ha hlt
            by_cases haq : a < q
            · exact hnone a ha haq
            · exact hc.no_place hcb hstart hcpos (by omega) hlt
        · refine .inr ⟨by omega, ?_, hsecond, ?_⟩
          · show ns.k - c.len = g - (p + c.len)
            omega
          · intro a hlt
            by_cases haq : a < q
            · exact hnone a haq
            · exact hc.no_place hcb hstart hcpos (by omega) hlt
    rw [hround]
    obtain ⟨ns', q', p', hmore, hkk, hp', hc'⟩ := hnext.tail (by simpa only [uheapPages] using hg)
    refine .inl ⟨ns', q', p', hmore, ?_, hp', hc'⟩
    have : ns'.k = ns.k - c.len := hkk
    rcases hphase with ⟨hgq, hkk', -⟩ | ⟨hpg, hkk', -⟩ <;> omega

/-! ## The loop -/

theorem nextFitLoop_first (hr : Rep h live) (hg : g < uheapPages)
    (hbg : Boundary (pageBlocks live) g) :
    ∀ (fuel : Nat) (ns : NextFitScan) (q p : Nat), Circling (pageBlocks live) g m ns q p →
      p < uheapPages → ns.k < fuel →
      ∃ ns', nextFitLoop h (4096 * m) fuel ns = some ns' ∧
        ((ns'.found = true ∧ ∃ a, ns'.scan.j = userHeapStart + 4096 * a ∧
            FirstAround (pageBlocks live) g m a) ∨
          (ns'.found = false ∧ ns'.scan.currentSize < 4096 * m ∧
            ∀ a, ¬ CircularPlace (pageBlocks live) g m a)) := by
  intro fuel
  induction fuel with
  | zero =>
      intro ns q p _ _ hlt
      exact absurd hlt (Nat.not_lt_zero _)
  | succ fuel ih =>
      intro ns q p hc hp hlt
      by_cases hk : ns.k ≠ 0
      · rcases hc.round hr hg hbg hp hk with
          ⟨ns', q', p', hround, hkk, hp', hc'⟩ | ⟨ns', a, hround, hfound, hj, hfirst⟩
        · obtain ⟨ns'', hloop, hres⟩ := ih ns' q' p' hc' hp' (by omega)
          refine ⟨ns'', ?_, hres⟩
          simpa only [nextFitLoop, if_pos hk, hround] using hloop
        · refine ⟨ns', ?_, .inl ⟨hfound, a, hj, hfirst⟩⟩
          simp only [nextFitLoop, if_pos hk, hround]
      · -- the scan has come around
        have hsize := hc.size
        have hshort := hc.short
        refine ⟨ns, by simp only [nextFitLoop, if_neg hk], .inr ⟨hc.not_found, by omega, ?_⟩⟩
        intro a hplace
        rcases hc.phase with ⟨hgq, hkk, -⟩ | ⟨hpg, hkk, hsecond, hnone⟩
        · omega
        · rcases hplace.2.2 with hga | hag
          · exact hsecond a hga hplace
          · exact hnone a (by omega) hplace

theorem placeNextFit_first (hr : Rep h live) (hm : 0 < m) (hg : g < uheapPages)
    (hga : h.generalAddress = userHeapStart + 4096 * g) (hbg : Boundary (pageBlocks live) g) :
    ∃ pl, placeNextFit h (4096 * m) = some pl ∧ NextFits (pageBlocks live) g m h pl := by
  obtain ⟨ns, hloop, hres⟩ := nextFitLoop_first hr hg hbg scanFuel _ g g
    (Circling.start_inv hm hg hbg hga) hg (by
      show (131072 : Nat) < 131073
      decide)
  refine ⟨ns.finish h (4096 * m), by rw [placeNextFit, hloop, Option.map_some], ?_⟩
  rcases hres with ⟨hf, a, hj, hfirst⟩ | ⟨hf, hsize, hnone⟩
  · simp only [NextFitScan.finish, hf, if_true]
    refine ⟨fun _ => ⟨a, hfirst, hj⟩, ?_⟩
    intro hcon
    cases hcon
  · have hno : ¬ 4096 * m ≤ ns.scan.currentSize := by omega
    simp only [NextFitScan.finish, hf, if_neg hno, Bool.false_eq_true, if_false]
    refine ⟨?_, fun _ => ⟨rfl, hnone⟩⟩
    intro hcon
    cases hcon

end

end UserHeap
end FosMemory
