import FosMemory.Lib.Blocks
import FosMemory.UserHeap.Malloc

/-!
# Scan — what the four placement scans visit and find

The representation invariant of the user heap (`Rep`), the invariant every scan keeps (`ScanInv`),
and from them: each scan stays inside the tables, ends, and only reports places that are free.
-/

namespace FosMemory
namespace UserHeap

open Lib

/-! ## Representation invariant -/

/-- A block `malloc` has returned and `free` has not taken back: address and size in bytes. -/
structure LiveBlock where
  addr : Nat
  size : Nat
  deriving DecidableEq, Repr

namespace LiveBlock

/-- The pages of a live block, counted from the start of the heap. -/
def pages (b : LiveBlock) : Lib.Block :=
  { start := (b.addr - userHeapStart) / 4096, len := b.size / 4096 }

/-- Page-aligned and inside the user heap. -/
structure WellPlaced (b : LiveBlock) : Prop where
  addr_aligned : b.addr % 4096 = 0
  size_aligned : b.size % 4096 = 0
  start_le : userHeapStart ≤ b.addr
  stop_le : b.addr + b.size ≤ userHeapMax

end LiveBlock

/-- The blocks of the heap in pages. -/
abbrev pageBlocks (live : List LiveBlock) : List Lib.Block :=
  live.map LiveBlock.pages

/-- The tables of the heap describe exactly the live blocks. -/
structure Rep (h : UHeap) (live : List LiveBlock) : Prop where
  placed : ∀ b ∈ live, b.WellPlaced
  layout : Layout uheapPages (pageBlocks live)
  tracker_live : ∀ b ∈ live, h.uheapTracker b.pages.start = b.pages.len
  tracker_rest : ∀ i < uheapPages, (∀ b ∈ live, b.pages.start ≠ i) → h.uheapTracker i = 0
  record_live : ∀ b ∈ live,
    h.sizeOfVAs b.pages.start = { size := b.size, virtualAddress := b.addr }
  record_rest : ∀ i < uheapPages, (∀ b ∈ live, b.pages.start ≠ i) →
    h.sizeOfVAs i = { size := 0, virtualAddress := 0 }
  general : ∃ g < uheapPages, h.generalAddress = userHeapStart + 4096 * g ∧
    Boundary (pageBlocks live) g

/-- The page at `p` has index `p` in both tables. -/
theorem heapIndex_page {p : Nat} (hp : p ≤ uheapPages) :
    heapIndex (userHeapStart + 4096 * p) = p := by
  simp only [uheapPages] at hp
  simp only [heapIndex, wordMod, userHeapStart, pageSize]
  omega

section

variable {h : UHeap} {live : List LiveBlock}

/-- On a boundary, tracker value `0` means that the page is free. -/
theorem Rep.freeCell_of_tracker (hr : Rep h live) {p : Nat}
    (hb : Boundary (pageBlocks live) p) (h0 : h.uheapTracker p = 0) :
    FreeCell (pageBlocks live) p := by
  refine hb.freeCell ?_
  intro c hc hstart
  rcases List.mem_map.1 hc with ⟨b, hbl, rfl⟩
  have hlen := hr.layout.nonempty _ hc
  have ht := hr.tracker_live b hbl
  rw [hstart, h0] at ht
  omega

/-- A tracker value other than `0` is the page count of the block that starts there. -/
theorem Rep.block_of_tracker (hr : Rep h live) {p : Nat} (hp : p < uheapPages)
    (h0 : h.uheapTracker p ≠ 0) :
    ∃ c ∈ pageBlocks live, c.start = p ∧ c.len = h.uheapTracker p := by
  by_contra hcon
  apply h0
  refine hr.tracker_rest p hp ?_
  intro b hb hstart
  refine hcon ⟨b.pages, List.mem_map.2 ⟨b, hb, rfl⟩, hstart, ?_⟩
  rw [← hstart, hr.tracker_live b hb]

/-! ## The invariant of a scan -/

/-- The scan stands on page `p`, never inside a block, and its current run is free. -/
structure ScanInv (bs : List Lib.Block) (sc : Scan) (p : Nat) : Prop where
  le_pages : p ≤ uheapPages
  position : sc.i = userHeapStart + 4096 * p
  boundary : Boundary bs p
  run : sc.flag = true → ∃ q < p, sc.j = userHeapStart + 4096 * q ∧
    sc.currentSize = 4096 * (p - q) ∧ FreeRun bs q p
  no_run : sc.flag = false → sc.currentSize = 0

theorem ScanInv.start {bs : List Lib.Block} {p : Nat} (hp : p ≤ uheapPages) (hb : Boundary bs p) :
    ScanInv bs (Scan.at (userHeapStart + 4096 * p)) p := by
  refine ⟨hp, rfl, hb, ?_, ?_⟩
  · intro hf
    cases hf
  · intro _
    rfl

theorem ScanInv.overFree {bs : List Lib.Block} {sc : Scan} {p : Nat} (hs : ScanInv bs sc p)
    (hp : p < uheapPages) (hfree : FreeCell bs p) : ScanInv bs sc.overFree (p + 1) := by
  have hpos := hs.position
  simp only [uheapPages, userHeapStart] at hp hpos
  refine ⟨hp, ?_, hfree.boundary_succ, ?_, ?_⟩
  · simp only [Scan.overFree, pageSize, wordMod, userHeapStart]
    omega
  · intro _
    cases hf : sc.flag with
    | true =>
        rcases hs.run hf with ⟨q, hqp, hj, hcs, hrun⟩
        refine ⟨q, Nat.lt_succ_of_lt hqp, ?_, ?_, hrun.snoc hfree⟩
        · simpa [Scan.overFree, hf] using hj
        · simp only [Scan.overFree, pageSize, wordMod]
          omega
    | false =>
        have hcs := hs.no_run hf
        refine ⟨p, Nat.lt_succ_self p, ?_, ?_, (FreeRun.self bs p).snoc hfree⟩
        · simpa [Scan.overFree, hf] using hs.position
        · simp only [Scan.overFree, pageSize, wordMod]
          omega
  · intro hf
    cases hf

theorem ScanInv.overBlock {bs : List Lib.Block} {sc : Scan} {p : Nat} (hl : Layout uheapPages bs)
    (hs : ScanInv bs sc p) {c : Lib.Block} (hc : c ∈ bs) (hstart : c.start = p) :
    ScanInv bs (sc.overBlock c.len) (p + c.len) := by
  have hpos := hs.position
  have hstop := hl.bounded c hc
  have hbd := hl.boundary_stop hc
  simp only [Lib.Block.stop, hstart] at hstop hbd
  refine ⟨hstop, ?_, hbd, ?_, ?_⟩
  · simp only [uheapPages] at hstop
    simp only [Scan.overBlock, pageSize, wordMod, userHeapStart] at hpos ⊢
    omega
  · intro hf
    cases hf
  · intro _
    rfl

/-! ## What a scan reports -/

/-- `m` free pages start at address `g`. -/
def Placed (bs : List Lib.Block) (m g : Nat) : Prop :=
  ∃ q, g = userHeapStart + 4096 * q ∧ q + m ≤ uheapPages ∧ FreeRun bs q (q + m)

/-- A current run of at least `m` pages is a place for `m` pages. -/
theorem ScanInv.placed {bs : List Lib.Block} {sc : Scan} {p m : Nat} (hs : ScanInv bs sc p)
    (hm : 0 < m) (hle : 4096 * m ≤ sc.currentSize) : Placed bs m sc.j := by
  cases hf : sc.flag with
  | false =>
      have hcs := hs.no_run hf
      omega
  | true =>
      rcases hs.run hf with ⟨q, hqp, hj, hcs, hrun⟩
      have hp := hs.le_pages
      exact ⟨q, hj, by omega, hrun.mono_right (by omega)⟩

/-! ## FIRSTFIT, BESTFIT, WORSTFIT -/

/-- The states a linear scan goes through. -/
inductive LinearVisits (h : UHeap) (take : Nat → Nat → Bool) (stopAtFirst : Bool)
    (a : LinearScan) : LinearScan → Prop where
  | start : LinearVisits h take stopAtFirst a a
  | round {b c : LinearScan} :
      LinearVisits h take stopAtFirst a b → b.scan.i < userHeapMax →
        linearRound h take stopAtFirst b = .more c → LinearVisits h take stopAtFirst a c

/-- The invariant of a linear scan for a request of `m` pages. -/
structure LinearInv (bs : List Lib.Block) (m : Nat) (ls : LinearScan) (p : Nat) : Prop where
  scan : ScanInv bs ls.scan p
  found : ls.found = true → Placed bs m ls.generalAddress
  not_found : ls.found = false → ls.generalAddress = userHeapStart

/-- One round keeps the invariant and moves forward; a round that leaves the loop has found a
place. -/
theorem linearRound_inv (hr : Rep h live) {take : Nat → Nat → Bool} (stopAtFirst : Bool)
    {m : Nat} (hm : 0 < m) (htake : ∀ c v, take c v = true → 4096 * m ≤ c) {ls : LinearScan} {p : Nat}
    (hi : LinearInv (pageBlocks live) m ls p) (hp : p < uheapPages) :
    (∃ ls' p', linearRound h take stopAtFirst ls = .more ls' ∧ p < p' ∧
        LinearInv (pageBlocks live) m ls' p') ∨
      (∃ ls', linearRound h take stopAtFirst ls = .exit ls' ∧ ls'.found = true ∧
        Placed (pageBlocks live) m ls'.generalAddress) := by
  have hidx : heapIndex ls.scan.i = p := by
    rw [hi.scan.position]
    exact heapIndex_page (le_of_lt hp)
  by_cases h0 : h.uheapTracker p = 0
  · have hfree := hr.freeCell_of_tracker hi.scan.boundary h0
    refine Or.inl ⟨{ ls with scan := ls.scan.overFree }, p + 1, ?_, Nat.lt_succ_self p, ?_⟩
    · simp [linearRound, hidx, h0]
    · exact ⟨hi.scan.overFree hp hfree, hi.found, hi.not_found⟩
  · rcases hr.block_of_tracker hp h0 with ⟨c, hc, hstart, hlen⟩
    have hnext : ScanInv (pageBlocks live) (ls.scan.overBlock (h.uheapTracker p)) (p + c.len) := by
      rw [← hlen]
      exact hi.scan.overBlock hr.layout hc hstart
    have hpos := hr.layout.nonempty c hc
    by_cases ht : take ls.scan.currentSize ls.viableSize = true
    · have hplaced := hi.scan.placed hm (htake _ _ ht)
      cases stopAtFirst with
      | true =>
          refine Or.inr ⟨{ ls with
            generalAddress := ls.scan.j, viableSize := ls.scan.currentSize, found := true },
            ?_, rfl, hplaced⟩
          simp [linearRound, hidx, h0, ht]
      | false =>
          refine Or.inl ⟨{ ls with
            scan := ls.scan.overBlock (h.uheapTracker p), generalAddress := ls.scan.j,
            viableSize := ls.scan.currentSize, found := true }, p + c.len, ?_, by omega, ?_⟩
          · simp [linearRound, hidx, h0, ht]
          · refine ⟨hnext, fun _ => hplaced, ?_⟩
            intro hf
            cases hf
    · refine Or.inl ⟨{ ls with scan := ls.scan.overBlock (h.uheapTracker p) }, p + c.len, ?_,
        by omega, hnext, hi.found, hi.not_found⟩
      simp [linearRound, hidx, h0, ht]

/-- The loop ends within as many rounds as there are pages left, and its result is sound. -/
theorem linearLoop_spec (hr : Rep h live) {take : Nat → Nat → Bool} (stopAtFirst : Bool)
    {m : Nat} (hm : 0 < m) (htake : ∀ c v, take c v = true → 4096 * m ≤ c) :
    ∀ (fuel : Nat) (ls : LinearScan) (p : Nat), LinearInv (pageBlocks live) m ls p →
      uheapPages - p < fuel →
      ∃ ls' p', linearLoop h take stopAtFirst fuel ls = some ls' ∧
        (ls'.found = true → Placed (pageBlocks live) m ls'.generalAddress) ∧
        (ls'.found = false → LinearInv (pageBlocks live) m ls' p') := by
  intro fuel
  induction fuel with
  | zero =>
      intro ls p _ hlt
      exact absurd hlt (Nat.not_lt_zero _)
  | succ fuel ih =>
      intro ls p hi hlt
      have hpos := hi.scan.position
      have hle := hi.scan.le_pages
      by_cases hmax : ls.scan.i < userHeapMax
      · have hp : p < uheapPages := by
          simp only [userHeapStart, userHeapMax, uheapPages] at hpos hmax ⊢
          omega
        rcases linearRound_inv hr stopAtFirst hm htake hi hp with
          ⟨ls', p', hround, hpp, hi'⟩ | ⟨ls', hround, hfound, hplaced⟩
        · rcases ih ls' p' hi' (by omega) with ⟨ls'', p'', hloop, hres⟩
          refine ⟨ls'', p'', ?_, hres⟩
          simpa only [linearLoop, if_pos hmax, hround] using hloop
        · refine ⟨ls', p, ?_, fun _ => hplaced, ?_⟩
          · simp only [linearLoop, if_pos hmax, hround]
          · intro hf
            rw [hfound] at hf
            cases hf
      · refine ⟨ls, p, ?_, hi.found, fun _ => hi⟩
        simp only [linearLoop, if_neg hmax]

/-- What the strategies report: a place for the request, or the address a failed call leaves in
`generalAddress`. -/
structure PlacementSound (h : UHeap) (bs : List Lib.Block) (m : Nat) (pl : Placement) : Prop where
  found : pl.found = true → Placed bs m pl.generalAddress
  not_found : pl.found = false →
    pl.generalAddress = userHeapStart ∨ pl.generalAddress = h.generalAddress

theorem linearStart_inv (bs : List Lib.Block) (m viableSize : Nat) :
    LinearInv bs m (LinearScan.start viableSize) 0 := by
  refine ⟨ScanInv.start (Nat.zero_le _) (boundary_zero bs), ?_, fun _ => rfl⟩
  intro hf
  cases hf

theorem linearFinish_sound {bs : List Lib.Block} {m p : Nat} (hm : 0 < m) {ls : LinearScan}
    (hfound : ls.found = true → Placed bs m ls.generalAddress)
    (hnot : ls.found = false → LinearInv bs m ls p) :
    PlacementSound h bs m (ls.finish (4096 * m)) := by
  unfold LinearScan.finish
  split
  · next hf =>
      refine ⟨fun _ => hfound hf, ?_⟩
      intro hcon
      cases hcon
  · next hf =>
      have hi := hnot (by simpa using hf)
      split
      · next hcs =>
          refine ⟨fun _ => hi.scan.placed hm hcs, ?_⟩
          intro hcon
          cases hcon
      · refine ⟨?_, fun _ => Or.inl (hi.not_found (by simpa using hf))⟩
        intro hcon
        cases hcon

theorem linearPlace_sound (hr : Rep h live) {take : Nat → Nat → Bool} (stopAtFirst : Bool)
    {m : Nat} (hm : 0 < m) (htake : ∀ c v, take c v = true → 4096 * m ≤ c) (viableSize : Nat) :
    ∃ pl, linearPlace h (4096 * m) take stopAtFirst viableSize = some pl ∧
      PlacementSound h (pageBlocks live) m pl := by
  rcases linearLoop_spec hr stopAtFirst hm htake scanFuel _ 0
      (linearStart_inv (pageBlocks live) m viableSize) (by decide) with
    ⟨ls, p, hloop, hfound, hnot⟩
  refine ⟨ls.finish (4096 * m), ?_, linearFinish_sound hm hfound hnot⟩
  rw [linearPlace, hloop, Option.map_some]

/-- Every index a linear scan uses is in range, whatever it takes on the way. -/
theorem linearVisits_index (hr : Rep h live) {take : Nat → Nat → Bool} {stopAtFirst : Bool}
    {viableSize : Nat} {ls : LinearScan}
    (hv : LinearVisits h take stopAtFirst (LinearScan.start viableSize) ls) :
    ∃ p, ScanInv (pageBlocks live) ls.scan p := by
  induction hv with
  | start =>
      exact ⟨0, ScanInv.start (Nat.zero_le _) (boundary_zero _)⟩
  | round hv hlt hround ih =>
      rename_i b c
      rcases ih with ⟨p, hs⟩
      have hp : p < uheapPages := by
        have hpos := hs.position
        simp only [userHeapStart, userHeapMax, uheapPages] at hpos hlt ⊢
        omega
      have hidx : heapIndex b.scan.i = p := by
        rw [hs.position]
        exact heapIndex_page (le_of_lt hp)
      by_cases h0 : h.uheapTracker p = 0
      · have hfree := hr.freeCell_of_tracker hs.boundary h0
        simp only [linearRound, hidx, if_pos h0, Round.more.injEq] at hround
        subst hround
        exact ⟨p + 1, hs.overFree hp hfree⟩
      · rcases hr.block_of_tracker hp h0 with ⟨d, hd, hstart, hlen⟩
        have hnext := hs.overBlock hr.layout hd hstart
        rw [hlen] at hnext
        refine ⟨p + h.uheapTracker p, ?_⟩
        have hscan : c.scan = b.scan.overBlock (h.uheapTracker p) := by
          simp only [linearRound, hidx, if_neg h0] at hround
          split at hround
          · split at hround
            · cases hround
            · cases hround
              rfl
          · cases hround
            rfl
        rw [hscan]
        exact hnext

/-! ## NEXTFIT -/

/-- The states the circular scan goes through. -/
inductive NextFitVisits (h : UHeap) (size : Nat) (a : NextFitScan) : NextFitScan → Prop where
  | start : NextFitVisits h size a a
  | round {b c : NextFitScan} :
      NextFitVisits h size a b → b.k ≠ 0 → nextFitRound h size b = .more c →
        NextFitVisits h size a c

/-- The invariant of the circular scan that started on page `g`: it stands on page `p`, and `k` is
the number of pages between `p` and `g` going around. -/
structure NextFitInv (bs : List Lib.Block) (g : Nat) (ns : NextFitScan) (p : Nat) : Prop where
  scan : ScanInv bs ns.scan p
  lt_pages : p < uheapPages
  count : (g ≤ p ∧ ns.k = uheapPages - p + g) ∨ (p ≤ g ∧ ns.k = g - p)
  not_found : ns.found = false

/-- The tests at the end of a round, from a state that stands on page `p ≤ uheapPages`. -/
theorem nextFitTail_inv {bs : List Lib.Block} {m p : Nat} (g : Nat) (hm : 0 < m) (ns : NextFitScan)
    (hs : ScanInv bs ns.scan p)
    (hcount : (g ≤ p ∧ ns.k = uheapPages - p + g) ∨ (p ≤ g ∧ p < uheapPages ∧ ns.k = g - p))
    (hnf : ns.found = false) :
    (∃ ns' p', nextFitTail (4096 * m) ns = .more ns' ∧ ns'.k = ns.k ∧ NextFitInv bs g ns' p') ∨
      (∃ ns', nextFitTail (4096 * m) ns = .exit ns' ∧ ns'.found = true ∧
        Placed bs m ns'.scan.j) := by
  by_cases hcs : 4096 * m ≤ ns.scan.currentSize
  · refine Or.inr ⟨{ ns with found := true }, ?_, rfl, hs.placed hm hcs⟩
    simp only [nextFitTail, if_pos hcs]
  · have hpos := hs.position
    have hle := hs.le_pages
    by_cases hmax : userHeapMax ≤ ns.scan.i
    · have hp : p = uheapPages := by
        simp only [userHeapStart, userHeapMax, uheapPages] at hpos hmax hle ⊢
        omega
      refine Or.inl ⟨{ ns with
        scan := { ns.scan with currentSize := 0, flag := false, i := userHeapStart } }, 0,
        by simp only [nextFitTail, if_neg hcs, if_pos hmax], rfl, ?_⟩
      refine ⟨⟨Nat.zero_le _, rfl, boundary_zero bs, ?_, fun _ => rfl⟩, by decide, ?_, hnf⟩
      · intro hf
        cases hf
      · refine Or.inr ⟨Nat.zero_le g, ?_⟩
        simp only [uheapPages] at hcount hp
        show ns.k = g - 0
        omega
    · have hp : p < uheapPages := by
        simp only [userHeapStart, userHeapMax, uheapPages] at hpos hmax hle ⊢
        omega
      refine Or.inl ⟨ns, p, by simp only [nextFitTail, if_neg hcs, if_neg hmax], rfl, hs, hp, ?_,
        hnf⟩
      rcases hcount with hc | hc
      · exact Or.inl hc
      · exact Or.inr ⟨hc.1, hc.2.2⟩

/-- A block the circular scan stands on fits into the pages still to be looked at. -/
theorem NextFitInv.block_le (hr : Rep h live) {g p : Nat} {ns : NextFitScan}
    (hbg : Boundary (pageBlocks live) g)
    (hi : NextFitInv (pageBlocks live) g ns p) (hk : ns.k ≠ 0) {c : Lib.Block}
    (hc : c ∈ pageBlocks live) (hstart : c.start = p) :
    c.len ≤ ns.k ∧ (p < g → p + c.len ≤ g) := by
  have hbound := hr.layout.bounded c hc
  have hcross : p < g → p + c.len ≤ g := by
    intro hpg
    have hle := hbg.stop_le hc (by omega)
    simpa only [Lib.Block.stop, hstart] using hle
  refine ⟨?_, hcross⟩
  simp only [Lib.Block.stop, hstart] at hbound
  rcases hi.count with hcnt | hcnt
  · omega
  · have := hcross (by omega)
    omega

/-- One round keeps the invariant and looks at one page at least. -/
theorem nextFitRound_inv (hr : Rep h live) {g m p : Nat} (hg : g < uheapPages)
    (hbg : Boundary (pageBlocks live) g) (hm : 0 < m) {ns : NextFitScan}
    (hi : NextFitInv (pageBlocks live) g ns p) (hk : ns.k ≠ 0) :
    (∃ ns' p', nextFitRound h (4096 * m) ns = .more ns' ∧ ns'.k < ns.k ∧
        NextFitInv (pageBlocks live) g ns' p') ∨
      (∃ ns', nextFitRound h (4096 * m) ns = .exit ns' ∧ ns'.found = true ∧
        Placed (pageBlocks live) m ns'.scan.j) := by
  have hp := hi.lt_pages
  have hidx : heapIndex ns.scan.i = p := by
    rw [hi.scan.position]
    exact heapIndex_page (le_of_lt hp)
  have hcount := hi.count
  simp only [uheapPages] at hg hp hcount
  have hklt : ns.k < wordMod := by
    simp only [wordMod]
    omega
  simp only [wordMod] at hklt
  by_cases h0 : h.uheapTracker p = 0
  · have hfree := hr.freeCell_of_tracker hi.scan.boundary h0
    have hk1 : (ns.k + wordMod - 1) % wordMod = ns.k - 1 := by
      simp only [wordMod]
      omega
    have htail := nextFitTail_inv g hm { ns with scan := ns.scan.overFree, k := ns.k - 1 }
      (hi.scan.overFree hi.lt_pages hfree)
      (by
        show _ ∧ ns.k - 1 = _ ∨ _ ∧ _ ∧ ns.k - 1 = _
        simp only [uheapPages]
        omega) hi.not_found
    have heq : nextFitRound h (4096 * m) ns =
        nextFitTail (4096 * m) { ns with scan := ns.scan.overFree, k := ns.k - 1 } := by
      simp only [nextFitRound, hidx, if_pos h0, hk1]
    rw [heq]
    rcases htail with ⟨ns', p', hmore, hk', hi'⟩ | hexit
    · refine Or.inl ⟨ns', p', hmore, ?_, hi'⟩
      have : ns'.k = ns.k - 1 := hk'
      omega
    · exact Or.inr hexit
  · rcases hr.block_of_tracker hi.lt_pages h0 with ⟨c, hc, hstart, hlen⟩
    have hpos := hr.layout.nonempty c hc
    have hbound := hr.layout.bounded c hc
    rcases hi.block_le hr hbg hk hc hstart with ⟨hle, hcross⟩
    simp only [Lib.Block.stop, hstart, uheapPages] at hbound
    have hk1 : (ns.k + wordMod - h.uheapTracker p) % wordMod = ns.k - c.len := by
      simp only [wordMod, ← hlen]
      omega
    have htail := nextFitTail_inv g hm
      { ns with scan := ns.scan.overBlock (h.uheapTracker p), k := ns.k - c.len }
      (by
        rw [← hlen]
        exact hi.scan.overBlock hr.layout hc hstart)
      (by
        show _ ∧ ns.k - c.len = _ ∨ _ ∧ _ ∧ ns.k - c.len = _
        simp only [uheapPages]
        omega) hi.not_found
    by_cases hcs : 4096 * m ≤ ns.scan.currentSize
    · refine Or.inr ⟨{ ns with found := true }, ?_, rfl, hi.scan.placed hm hcs⟩
      simp only [nextFitRound, hidx, if_neg h0, if_pos hcs]
    · have heq : nextFitRound h (4096 * m) ns = nextFitTail (4096 * m)
          { ns with scan := ns.scan.overBlock (h.uheapTracker p), k := ns.k - c.len } := by
        simp only [nextFitRound, hidx, if_neg h0, if_neg hcs, hk1]
      rw [heq]
      rcases htail with ⟨ns', p', hmore, hk', hi'⟩ | hexit
      · refine Or.inl ⟨ns', p', hmore, ?_, hi'⟩
        have : ns'.k = ns.k - c.len := hk'
        omega
      · exact Or.inr hexit

/-- The circular scan ends, and a reported place is free. -/
theorem nextFitLoop_spec (hr : Rep h live) {g m : Nat} (hg : g < uheapPages)
    (hbg : Boundary (pageBlocks live) g) (hm : 0 < m) :
    ∀ (fuel : Nat) (ns : NextFitScan) (p : Nat), NextFitInv (pageBlocks live) g ns p →
      ns.k < fuel →
      ∃ ns' p', nextFitLoop h (4096 * m) fuel ns = some ns' ∧
        (ns'.found = true → Placed (pageBlocks live) m ns'.scan.j) ∧
        (ns'.found = false → ScanInv (pageBlocks live) ns'.scan p') := by
  intro fuel
  induction fuel with
  | zero =>
      intro ns p _ hlt
      exact absurd hlt (Nat.not_lt_zero _)
  | succ fuel ih =>
      intro ns p hi hlt
      by_cases hk : ns.k ≠ 0
      · rcases nextFitRound_inv hr hg hbg hm hi hk with
          ⟨ns', p', hround, hkk, hi'⟩ | ⟨ns', hround, hfound, hplaced⟩
        · rcases ih ns' p' hi' (by omega) with ⟨ns'', p'', hloop, hres⟩
          refine ⟨ns'', p'', ?_, hres⟩
          simpa only [nextFitLoop, if_pos hk, hround] using hloop
        · refine ⟨ns', p, ?_, fun _ => hplaced, ?_⟩
          · simp only [nextFitLoop, if_pos hk, hround]
          · intro hf
            rw [hfound] at hf
            cases hf
      · refine ⟨ns, p, ?_, ?_, fun _ => hi.scan⟩
        · simp only [nextFitLoop, if_neg hk]
        · intro hf
          rw [hi.not_found] at hf
          cases hf

theorem nextFitStart_inv {bs : List Lib.Block} {g : Nat} (hg : g < uheapPages) (hbg : Boundary bs g)
    (hga : h.generalAddress = userHeapStart + 4096 * g) :
    NextFitInv bs g (NextFitScan.start h) g := by
  refine ⟨?_, hg, Or.inl ⟨le_rfl, ?_⟩, rfl⟩
  · simp only [NextFitScan.start, hga]
    exact ScanInv.start (le_of_lt hg) hbg
  · simp only [NextFitScan.start]
    omega

theorem placeNextFit_sound (hr : Rep h live) {m : Nat} (hm : 0 < m) :
    ∃ pl, placeNextFit h (4096 * m) = some pl ∧ PlacementSound h (pageBlocks live) m pl := by
  rcases hr.general with ⟨g, hg, hga, hbg⟩
  rcases nextFitLoop_spec hr hg hbg hm scanFuel _ g (nextFitStart_inv hg hbg hga) (by
    show (131072 : Nat) < 131073
    decide) with ⟨ns, p, hloop, hfound, hnot⟩
  refine ⟨ns.finish h (4096 * m), by rw [placeNextFit, hloop, Option.map_some], ?_⟩
  unfold NextFitScan.finish
  split
  · next hf =>
      refine ⟨fun _ => hfound hf, ?_⟩
      intro hcon
      cases hcon
  · next hf =>
      split
      · next hcs =>
          refine ⟨fun _ => (hnot (by simpa using hf)).placed hm hcs, ?_⟩
          intro hcon
          cases hcon
      · refine ⟨?_, fun _ => Or.inr rfl⟩
        intro hcon
        cases hcon

/-- Every round of the circular scan reads inside the tables and never takes more pages from `k`
than are left. -/
theorem nextFitVisits_inv (hr : Rep h live) {m : Nat} (hm : 0 < m) {ns : NextFitScan}
    (hv : NextFitVisits h (4096 * m) (NextFitScan.start h) ns) (hk : ns.k ≠ 0) :
    heapIndex ns.scan.i < uheapPages ∧ h.uheapTracker (heapIndex ns.scan.i) ≤ ns.k := by
  rcases hr.general with ⟨g, hg, hga, hbg⟩
  have hinv : ∃ p, NextFitInv (pageBlocks live) g ns p := by
    clear hk
    induction hv with
    | start =>
        exact ⟨g, nextFitStart_inv hg hbg hga⟩
    | round _ hk hround ih =>
        rename_i b c _
        rcases ih with ⟨p, hi⟩
        rcases nextFitRound_inv hr hg hbg hm hi hk with
          ⟨ns', p', hmore, _, hi'⟩ | ⟨ns', hexit, _⟩
        · rw [hround] at hmore
          cases hmore
          exact ⟨p', hi'⟩
        · rw [hround] at hexit
          cases hexit
  rcases hinv with ⟨p, hi⟩
  have hidx : heapIndex ns.scan.i = p := by
    rw [hi.scan.position]
    exact heapIndex_page (le_of_lt hi.lt_pages)
  rw [hidx]
  refine ⟨hi.lt_pages, ?_⟩
  by_cases h0 : h.uheapTracker p = 0
  · rw [h0]
    exact Nat.zero_le _
  · rcases hr.block_of_tracker hi.lt_pages h0 with ⟨c, hc, hstart, hlen⟩
    rw [← hlen]
    exact (hi.block_le hr hbg hk hc hstart).1

/-! ## All strategies -/

theorem place_sound (hr : Rep h live) (st : Strategy) {m : Nat} (hm : 0 < m) :
    ∃ pl, place st.answers h (4096 * m) = some pl ∧
      PlacementSound h (pageBlocks live) m pl := by
  cases st with
  | nextFit =>
      exact placeNextFit_sound hr hm
  | firstFit =>
      refine linearPlace_sound hr true hm ?_ 0
      intro c v ht
      simpa using ht
  | bestFit =>
      refine linearPlace_sound hr false hm ?_ (userHeapMax - userHeapStart)
      intro c v ht
      simp only [Bool.and_eq_true, decide_eq_true_eq] at ht
      exact ht.1
  | worstFit =>
      refine linearPlace_sound hr false hm ?_ 0
      intro c v ht
      simp only [Bool.and_eq_true, decide_eq_true_eq] at ht
      exact ht.1

end

end UserHeap
end FosMemory
