import FosMemory.UserHeap.Scan

/-!
# Invariant — the user heap over whole runs

Runs of `malloc` and `free` with the blocks that are live at each moment, and the representation
invariant they keep: the tables describe exactly the live blocks, which are page-aligned, disjoint
and inside the heap, and the scans stay inside the tables and end.
-/

namespace FosMemory
namespace UserHeap

open Lib

/-- The largest request `ROUNDUP` does not wrap around. -/
@[simp] def maxRequest : Nat := 0xFFFFF000

/-- A run of the allocator and the blocks that are live after it.  The strategy may differ from
call to call. -/
inductive HeapRun : UHeap → List LiveBlock → Prop where
  | start : HeapRun UHeap.initial []
  | malloc {h : UHeap} {live : List LiveBlock} {r : MallocResult} (st : Strategy) (size : Nat) :
      HeapRun h live → 1 ≤ size → size ≤ maxRequest → malloc st h size = some r →
        HeapRun r.heap
          (if r.ret = 0 then live
            else { addr := r.ret, size := roundUp size pageSize } :: live)
  | free {h : UHeap} {live : List LiveBlock} (p : Nat) :
      HeapRun h live → p ≠ 0 →
        HeapRun (free h p).1 (live.filter fun b => decide (b.addr ≠ p))

section

variable {h : UHeap} {live : List LiveBlock}

theorem Rep.initial : Rep UHeap.initial [] := by
  refine ⟨?_, Layout.nil _, ?_, fun _ _ _ => rfl, ?_, fun _ _ _ => rfl,
    0, by decide, rfl, boundary_zero _⟩
  · intro b hb
    cases hb
  · intro b hb
    cases hb
  · intro b hb
    cases hb

/-- Rounding a request up gives a positive number of whole pages. -/
theorem roundUp_request {size : Nat} (h1 : 1 ≤ size) (hmax : size ≤ maxRequest) :
    ∃ m, 0 < m ∧ roundUp size pageSize = 4096 * m ∧ size ≤ 4096 * m := by
  refine ⟨(size + 4095) / 4096, ?_, ?_, ?_⟩
  · omega
  · simp only [maxRequest] at hmax
    simp only [roundUp, roundDown, pageSize, wordMod]
    omega
  · omega

theorem LiveBlock.pages_of {g q m : Nat} (hg : g = userHeapStart + 4096 * q) :
    LiveBlock.pages { addr := g, size := 4096 * m } = { start := q, len := m } := by
  simp only [LiveBlock.pages, hg, userHeapStart, Lib.Block.mk.injEq]
  omega

/-- Committing a block in a free place keeps the representation. -/
theorem Rep.commit (hr : Rep h live) {m g : Nat} (hm : 0 < m)
    (hpl : Placed (pageBlocks live) m g) :
    Rep (commit h (4096 * m) g) ({ addr := g, size := 4096 * m } :: live) := by
  rcases hpl with ⟨q, hg, hq, hfree⟩
  have hpages := LiveBlock.pages_of (m := m) hg
  have hidx : heapIndex g = q := by
    rw [hg]
    exact heapIndex_page (by omega)
  have hnew : ∀ b ∈ live, b.pages.start ≠ q := by
    intro b hb hstart
    have hmem : b.pages ∈ pageBlocks live := List.mem_map.2 ⟨b, hb, rfl⟩
    have hlen := hr.layout.nonempty _ hmem
    refine hfree q le_rfl (by omega) _ hmem ⟨le_of_eq hstart, ?_⟩
    simp only [Lib.Block.stop]
    omega
  have hbd : Boundary (pageBlocks live) q := hfree.boundary_left (by omega)
  simp only [uheapPages] at hq
  refine ⟨?_, ?_, ?_, ?_, ?_, ?_, ?_⟩
  · intro b hb
    rcases List.mem_cons.1 hb with rfl | hb
    · simp only [userHeapStart] at hg
      refine ⟨?_, ?_, ?_, ?_⟩
      · show g % 4096 = 0
        omega
      · show 4096 * m % 4096 = 0
        omega
      · show userHeapStart ≤ g
        simp only [userHeapStart]
        omega
      · show g + 4096 * m ≤ userHeapMax
        simp only [userHeapMax]
        omega
    · exact hr.placed b hb
  · rw [pageBlocks, List.map_cons, hpages]
    exact hr.layout.cons hm hq hfree
  · intro b hb
    rcases List.mem_cons.1 hb with rfl | hb
    · rw [hpages]
      simp only [UserHeap.commit, hidx, Function.update_self, pageSize]
      omega
    · simp only [UserHeap.commit, hidx]
      rw [Function.update_of_ne (hnew b hb)]
      exact hr.tracker_live b hb
  · intro i hi hno
    have hiq : i ≠ q := by
      intro hiq
      refine hno _ List.mem_cons_self ?_
      rw [hpages, hiq]
    simp only [UserHeap.commit, hidx]
    rw [Function.update_of_ne hiq]
    exact hr.tracker_rest i hi fun b hb => hno b (List.mem_cons_of_mem _ hb)
  · intro b hb
    rcases List.mem_cons.1 hb with rfl | hb
    · rw [hpages]
      simp only [UserHeap.commit, hidx, Function.update_self]
    · simp only [UserHeap.commit, hidx]
      rw [Function.update_of_ne (hnew b hb)]
      exact hr.record_live b hb
  · intro i hi hno
    have hiq : i ≠ q := by
      intro hiq
      refine hno _ List.mem_cons_self ?_
      rw [hpages, hiq]
    simp only [UserHeap.commit, hidx]
    rw [Function.update_of_ne hiq]
    exact hr.record_rest i hi fun b hb => hno b (List.mem_cons_of_mem _ hb)
  · rw [pageBlocks, List.map_cons, hpages]
    by_cases hwrap : userHeapMax ≤ (g + 4096 * m) % wordMod
    · refine ⟨0, by decide, ?_, boundary_zero _⟩
      simp only [UserHeap.commit, if_pos hwrap]
      rfl
    · refine ⟨q, by simp only [uheapPages]; omega, ?_, Boundary.cons_self hbd⟩
      simpa only [UserHeap.commit, if_neg hwrap] using hg

/-- A call that places nothing only moves `generalAddress`. -/
theorem Rep.not_placed (hr : Rep h live) {g : Nat}
    (hg : g = userHeapStart ∨ g = h.generalAddress) :
    Rep { h with generalAddress := g } live := by
  refine ⟨hr.placed, hr.layout, hr.tracker_live, hr.tracker_rest, hr.record_live,
    hr.record_rest, ?_⟩
  rcases hg with rfl | rfl
  · exact ⟨0, by decide, rfl, boundary_zero _⟩
  · exact hr.general

/-- `malloc` returns, and the representation follows the new live blocks. -/
theorem malloc_spec (hr : Rep h live) (st : Strategy) {size : Nat} (h1 : 1 ≤ size)
    (hmax : size ≤ maxRequest) :
    ∃ r, malloc st h size = some r ∧
      Rep r.heap (if r.ret = 0 then live
        else { addr := r.ret, size := roundUp size pageSize } :: live) := by
  rcases roundUp_request h1 hmax with ⟨m, hm, hround, _⟩
  rcases place_sound hr st hm with ⟨⟨g, found⟩, hplace, hsound⟩
  cases found with
  | true =>
      have hpl := hsound.found rfl
      refine ⟨⟨commit h (4096 * m) g, g, some (.allocateMem g (4096 * m))⟩, ?_, ?_⟩
      · simp only [malloc, mallocWith, hround, hplace]
      · have hne : g ≠ 0 := by
          rcases hpl with ⟨q, hg, _⟩
          simp only [userHeapStart] at hg
          omega
        rw [hround]
        simpa only [if_neg hne] using hr.commit hm hpl
  | false =>
      refine ⟨⟨{ h with generalAddress := g }, 0, none⟩, ?_, ?_⟩
      · simp only [malloc, mallocWith, hround, hplace]
      · simpa using hr.not_placed (hsound.not_found rfl)

/-- The page index of the start of a live block, as the code computes it. -/
theorem Rep.heapIndex_addr (hr : Rep h live) {b : LiveBlock} (hb : b ∈ live) :
    heapIndex b.addr = b.pages.start := by
  have h1 := (hr.placed b hb).addr_aligned
  have h2 := (hr.placed b hb).start_le
  have h3 := (hr.placed b hb).stop_le
  simp only [userHeapStart, userHeapMax] at h2 h3
  simp only [heapIndex, LiveBlock.pages, wordMod, userHeapStart, pageSize]
  omega

theorem Rep.start_lt (hr : Rep h live) {b : LiveBlock} (hb : b ∈ live) :
    b.pages.start < uheapPages := by
  have hmem : b.pages ∈ pageBlocks live := List.mem_map.2 ⟨b, hb, rfl⟩
  have hbound := hr.layout.bounded _ hmem
  have hlen := hr.layout.nonempty _ hmem
  simp only [Lib.Block.stop, uheapPages] at hbound ⊢
  omega

/-- Live blocks that start on the same page have the same address. -/
theorem Rep.addr_eq_of_start (hr : Rep h live) {b c : LiveBlock} (hb : b ∈ live) (hc : c ∈ live)
    (hs : c.pages.start = b.pages.start) : c.addr = b.addr := by
  have e1 := (hr.placed b hb).addr_aligned
  have e2 := (hr.placed c hc).addr_aligned
  have e3 := (hr.placed b hb).start_le
  have e4 := (hr.placed c hc).start_le
  simp only [LiveBlock.pages, userHeapStart] at hs e3 e4
  omega

/-- The record the search of `free` finds is that of a live block. -/
theorem Rep.find_some (hr : Rep h live) {p i : Nat} (hp : p ≠ 0) (hfind : findRecord h p = some i) :
    ∃ b ∈ live, b.addr = p ∧ b.pages.start = i := by
  have hi := firstIndex_eq_some.1 hfind
  have hrec : (h.sizeOfVAs i).virtualAddress = p := by simpa using hi.1
  have hlt : i < uheapPages := hi.2.1
  by_contra hcon
  refine hp ?_
  rw [← hrec, hr.record_rest i hlt ?_]
  intro b hb hbi
  refine hcon ⟨b, hb, ?_, hbi⟩
  rw [← hrec, ← hbi, hr.record_live b hb]

/-- Without a record no live block starts at the address. -/
theorem Rep.find_none (hr : Rep h live) {p : Nat} (hfind : findRecord h p = none) :
    ∀ b ∈ live, b.addr ≠ p := by
  intro b hb hbp
  have hnone := firstIndex_eq_none.1 hfind b.pages.start (hr.start_lt hb)
  rw [hr.record_live b hb] at hnone
  simp [hbp] at hnone

/-- `free` of a non-`NULL` pointer removes the live block that starts there, if there is one. -/
theorem free_spec (hr : Rep h live) {p : Nat} (hp : p ≠ 0) :
    Rep (free h p).1 (live.filter fun b => decide (b.addr ≠ p)) := by
  cases hfind : findRecord h p with
  | none =>
      have hno := hr.find_none hfind
      have hlive : live.filter (fun b => decide (b.addr ≠ p)) = live := by
        refine List.filter_eq_self.2 ?_
        intro b hb
        simpa using hno b hb
      rw [hlive, free, hfind]
      exact hr
  | some i =>
      obtain ⟨b, hb, hbp, hbi⟩ := hr.find_some hp hfind
      have hrec : (h.sizeOfVAs i).virtualAddress = p := by
        rw [← hbi, hr.record_live b hb, hbp]
      have hidx : heapIndex p = i := by
        rw [← hbp, hr.heapIndex_addr hb, hbi]
      have hsub : (live.filter fun b => decide (b.addr ≠ p)).Sublist live :=
        List.filter_sublist
      have hstart : ∀ c ∈ live, c.addr ≠ p → c.pages.start ≠ i := by
        intro c hc hcp hci
        exact hcp ((hr.addr_eq_of_start hb hc (hci.trans hbi.symm)).trans hbp)
      have hkeep : ∀ c, c ∈ live.filter (fun b => decide (b.addr ≠ p)) ↔
          c ∈ live ∧ c.addr ≠ p := by
        intro c
        simp [List.mem_filter]
      have hrest : ∀ j < uheapPages, j ≠ i →
          (∀ c ∈ live.filter (fun b => decide (b.addr ≠ p)), c.pages.start ≠ j) →
          ∀ c ∈ live, c.pages.start ≠ j := by
        intro j _ hji hno c hc hcj
        by_cases hcp : c.addr = p
        · refine hji ?_
          rw [← hcj, ← hidx, ← hcp, hr.heapIndex_addr hc]
        · exact hno c ((hkeep c).2 ⟨hc, hcp⟩) hcj
      rw [free, hfind]
      simp only [freeFound, clearRecord, hrec, hidx]
      refine ⟨?_, hr.layout.sublist (hsub.map _), ?_, ?_, ?_, ?_, ?_⟩
      · intro c hc
        exact hr.placed c (hsub.subset hc)
      · intro c hc
        have hc' := (hkeep c).1 hc
        show Function.update h.uheapTracker i 0 c.pages.start = _
        rw [Function.update_of_ne (hstart c hc'.1 hc'.2)]
        exact hr.tracker_live c hc'.1
      · intro j hj hno
        show Function.update h.uheapTracker i 0 j = 0
        by_cases hji : j = i
        · rw [hji, Function.update_self]
        · rw [Function.update_of_ne hji]
          exact hr.tracker_rest j hj (hrest j hj hji hno)
      · intro c hc
        have hc' := (hkeep c).1 hc
        show Function.update h.sizeOfVAs i _ c.pages.start = _
        rw [Function.update_of_ne (hstart c hc'.1 hc'.2)]
        exact hr.record_live c hc'.1
      · intro j hj hno
        show Function.update h.sizeOfVAs i _ j = _
        by_cases hji : j = i
        · rw [hji, Function.update_self]
        · rw [Function.update_of_ne hji]
          exact hr.record_rest j hj (hrest j hj hji hno)
      · rcases hr.general with ⟨g, hg, hga, hbg⟩
        exact ⟨g, hg, hga, hbg.sublist (hsub.map _)⟩

/-- Every run keeps the representation invariant. -/
theorem HeapRun.rep (hrun : HeapRun h live) : Rep h live := by
  induction hrun with
  | start =>
      exact Rep.initial
  | malloc st size _ h1 hmax hres ih =>
      rcases malloc_spec ih st h1 hmax with ⟨r, hr, hrep⟩
      rw [hres] at hr
      cases hr
      exact hrep
  | free p _ hp ih =>
      exact free_spec ih hp

/-! ## What holds after every run -/

/-- The scans of the next `malloc(size)` end, read inside the tables and never take more pages from
the NEXTFIT counter than it holds. -/
structure ScansSafe (h : UHeap) (size : Nat) : Prop where
  ends : ∀ st : Strategy, ∃ r, malloc st h size = some r
  linear_index : ∀ (take : Nat → Nat → Bool) (stopAtFirst : Bool) (viableSize : Nat)
    (ls : LinearScan), LinearVisits h take stopAtFirst (LinearScan.start viableSize) ls →
      ls.scan.i < userHeapMax → heapIndex ls.scan.i < uheapPages
  nextFit_index : ∀ ns : NextFitScan,
    NextFitVisits h (roundUp size pageSize) (NextFitScan.start h) ns → ns.k ≠ 0 →
      heapIndex ns.scan.i < uheapPages
  nextFit_counter : ∀ ns : NextFitScan,
    NextFitVisits h (roundUp size pageSize) (NextFitScan.start h) ns → ns.k ≠ 0 →
      h.uheapTracker (heapIndex ns.scan.i) ≤ ns.k

/-- The user heap as its callers see it, in addresses. -/
structure UserHeapInvariant (h : UHeap) (live : List LiveBlock) : Prop where
  aligned : ∀ b ∈ live, b.addr % pageSize = 0 ∧ b.size % pageSize = 0 ∧ 0 < b.size
  inside : ∀ b ∈ live, userHeapStart ≤ b.addr ∧ b.addr + b.size ≤ userHeapMax
  disjoint : live.Pairwise fun a b => a.addr + a.size ≤ b.addr ∨ b.addr + b.size ≤ a.addr
  tables_live : ∀ b ∈ live, ∀ i, b.addr = userHeapStart + pageSize * i →
    h.uheapTracker i = b.size / pageSize ∧
      h.sizeOfVAs i = { size := b.size, virtualAddress := b.addr }
  tables_rest : ∀ i < uheapPages, (∀ b ∈ live, b.addr ≠ userHeapStart + pageSize * i) →
    h.uheapTracker i = 0 ∧ h.sizeOfVAs i = { size := 0, virtualAddress := 0 }
  general_inside : userHeapStart ≤ h.generalAddress ∧ h.generalAddress < userHeapMax
  general_boundary : ∀ b ∈ live, ¬ (b.addr < h.generalAddress ∧
    h.generalAddress < b.addr + b.size)
  scans : ∀ size, 1 ≤ size → size ≤ maxRequest → ScansSafe h size

theorem Rep.scansSafe (hr : Rep h live) {size : Nat} (h1 : 1 ≤ size) (hmax : size ≤ maxRequest) :
    ScansSafe h size := by
  rcases roundUp_request h1 hmax with ⟨m, hm, hround, _⟩
  refine ⟨?_, ?_, ?_, ?_⟩
  · intro st
    rcases malloc_spec hr st h1 hmax with ⟨r, hres, _⟩
    exact ⟨r, hres⟩
  · intro take stopAtFirst viableSize ls hv hlt
    rcases linearVisits_index hr hv with ⟨p, hs⟩
    have hpos := hs.position
    simp only [userHeapStart, userHeapMax, uheapPages] at hpos hlt ⊢
    simp only [heapIndex, wordMod, userHeapStart, pageSize]
    omega
  · intro ns hv hk
    rw [hround] at hv
    exact (nextFitVisits_inv hr hm hv hk).1
  · intro ns hv hk
    rw [hround] at hv
    exact (nextFitVisits_inv hr hm hv hk).2

/-- The address and the size of a live block from its pages. -/
theorem Rep.addr_eq (hr : Rep h live) {b : LiveBlock} (hb : b ∈ live) :
    b.addr = userHeapStart + 4096 * b.pages.start ∧ b.size = 4096 * b.pages.len := by
  have h1 := (hr.placed b hb).addr_aligned
  have h2 := (hr.placed b hb).start_le
  have h3 := (hr.placed b hb).size_aligned
  simp only [userHeapStart, LiveBlock.pages] at h2 ⊢
  omega

theorem Rep.disjoint (hr : Rep h live) :
    live.Pairwise fun a b => a.addr + a.size ≤ b.addr ∨ b.addr + b.size ≤ a.addr := by
  have hpw := List.pairwise_map.1 hr.layout.disjoint
  refine hpw.imp_of_mem ?_
  intro a b ha hb hab
  have h1 := hr.addr_eq ha
  have h2 := hr.addr_eq hb
  simp only [Lib.Block.Disjoint, Lib.Block.stop] at hab
  omega

/-- After every run of `malloc` and `free`, under any strategies, the tables record exactly the
live blocks, these are aligned, disjoint and inside the heap, and the next scan is safe. -/
theorem heapRun_invariant (hrun : HeapRun h live) : UserHeapInvariant h live := by
  have hr := hrun.rep
  have hlen : ∀ b ∈ live, 0 < b.pages.len :=
    fun b hb => hr.layout.nonempty _ (List.mem_map.2 ⟨b, hb, rfl⟩)
  refine ⟨?_, ?_, ?_, ?_, ?_, ?_, ?_, fun size h1 hmax => hr.scansSafe h1 hmax⟩
  · intro b hb
    have hw := hr.placed b hb
    have hp := hlen b hb
    have ha := hr.addr_eq hb
    exact ⟨hw.addr_aligned, hw.size_aligned, by omega⟩
  · intro b hb
    exact ⟨(hr.placed b hb).start_le, (hr.placed b hb).stop_le⟩
  · exact hr.disjoint
  · intro b hb i hi
    have ha := hr.addr_eq hb
    have hstart : b.pages.start = i := by
      simp only [pageSize] at hi
      omega
    rw [← hstart]
    exact ⟨hr.tracker_live b hb, hr.record_live b hb⟩
  · intro i hi hno
    have hno' : ∀ b ∈ live, b.pages.start ≠ i := by
      intro b hb hstart
      refine hno b hb ?_
      rw [(hr.addr_eq hb).1, hstart, pageSize]
    exact ⟨hr.tracker_rest i hi hno', hr.record_rest i hi hno'⟩
  · rcases hr.general with ⟨g, hg, hga, _⟩
    simp only [uheapPages] at hg
    simp only [hga, userHeapStart, userHeapMax]
    omega
  · rcases hr.general with ⟨g, _, hga, hbg⟩
    intro b hb hin
    have ha := hr.addr_eq hb
    refine hbg b.pages (List.mem_map.2 ⟨b, hb, rfl⟩) ⟨?_, ?_⟩
    · omega
    · simp only [Lib.Block.stop]
      omega

end

/-- Two blocks placed by NEXTFIT, with their tables. -/
theorem heapRun_invariant_two_blocks :
    ∃ h, HeapRun h [{ addr := 0x80001000, size := 8192 }, { addr := 0x80000000, size := 4096 }] ∧
      UserHeapInvariant h
        [{ addr := 0x80001000, size := 8192 }, { addr := 0x80000000, size := 4096 }] := by
  have h1 : (malloc .nextFit UHeap.initial 1).map (·.ret) = some 0x80000000 := by decide +kernel
  have h2 : ((malloc .nextFit UHeap.initial 1).bind fun r => malloc .nextFit r.heap 5000).map
      (·.ret) = some 0x80001000 := by decide +kernel
  rcases Option.map_eq_some_iff.1 h1 with ⟨r, hr, hret⟩
  rw [hr, Option.bind_some] at h2
  rcases Option.map_eq_some_iff.1 h2 with ⟨r', hr', hret'⟩
  have hrun1 := HeapRun.malloc .nextFit 1 HeapRun.start (by decide) (by decide) hr
  rw [hret, if_neg (by decide)] at hrun1
  have hrun2 := HeapRun.malloc .nextFit 5000 hrun1 (by decide) (by decide) hr'
  rw [hret', if_neg (by decide)] at hrun2
  exact ⟨r'.heap, hrun2, heapRun_invariant hrun2⟩

end UserHeap
end FosMemory
