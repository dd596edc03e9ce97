import FosMemory.UserHeap.Invariant

/-!
# AnyCall — histories with requests of any size and with `free(NULL)`

`ROUNDUP` takes `0` and the sizes of the last page below 2^32 to `0`.  Such a request gets a block
without pages, which only shows in `sizeOfVAs`; where the page its scan starts on is taken, the scan
takes the value of the uninitialised `j` for the address, and nothing is said about what follows.
`free(NULL)` clears an unused record.  Neither touches what the scans look at.
-/

namespace FosMemory
namespace UserHeap

open Lib

section

variable {h : UHeap} {live : List LiveBlock} {p size : Nat} {ls : LinearScan}

/-! ## Histories -/

/-- The page the scan of a strategy starts on. -/
def scanStart (st : Strategy) (h : UHeap) : Nat :=
  if st = .nextFit then h.generalAddress else userHeapStart

/-- The scan for no page at all starts on a block: it stops there, and `j` has not been set. -/
def ReadsUninitialised (st : Strategy) (h : UHeap) (size : Nat) : Prop :=
  roundUp size pageSize = 0 ∧ h.uheapTracker (heapIndex (scanStart st h)) ≠ 0

/-- Any history of calls that does not depend on an uninitialised variable, and the blocks that
have been returned and not freed. -/
inductive CallRun : UHeap → List LiveBlock → Prop where
  | start : CallRun UHeap.initial []
  | malloc {h : UHeap} {live : List LiveBlock} {r : MallocResult} (st : Strategy) (size : Nat) :
      CallRun h live → size < wordMod → ¬ ReadsUninitialised st h size →
        malloc st h size = some r →
        CallRun r.heap
          (if r.ret = 0 then live
            else { addr := r.ret, size := roundUp size pageSize } :: live)
  | free {h : UHeap} {live : List LiveBlock} (p : Nat) :
      CallRun h live → CallRun (free h p).1 (live.filter fun b => decide (b.addr ≠ p))

/-- The histories of requests that `ROUNDUP` keeps are among them. -/
theorem HeapRun.callRun (hrun : HeapRun h live) : CallRun h live := by
  induction hrun with
  | start => exact .start
  | malloc st size _ h1 hmax hres ih =>
    obtain ⟨m, hm, hround, -⟩ := roundUp_request h1 hmax
    refine .malloc st size ih ?_ ?_ hres
    · simp only [maxRequest] at hmax
      simp only [wordMod]
      omega
    · rintro ⟨hzero, -⟩
      omega
  | free p _ _ ih => exact .free p ih

/-- A request that is rounded up to whole pages, or to none. -/
theorem roundUp_pages {size : Nat} (hsize : size < wordMod) :
    (∃ m, 0 < m ∧ roundUp size pageSize = 4096 * m ∧ 1 ≤ size ∧ size ≤ maxRequest) ∨
      roundUp size pageSize = 0 ∧ (size = 0 ∨ maxRequest < size) := by
  by_cases hrange : 1 ≤ size ∧ size ≤ maxRequest
  · obtain ⟨m, hm, hround, -⟩ := roundUp_request hrange.1 hrange.2
    exact .inl ⟨m, hm, hround, hrange⟩
  · refine .inr ⟨?_, by omega⟩
    simp only [wordMod] at hsize
    simp only [maxRequest] at hrange
    simp only [roundUp, roundDown, pageSize, wordMod]
    omega

/-! ## The scans do not look at the records -/

/-- The same heap with other records. -/
def UHeap.withRecords (h : UHeap) (recs : Nat → SizeAddressUHeap) : UHeap :=
  { h with sizeOfVAs := recs }

/-- A heap with the same tracker. -/
theorem Rep.congr_tracker {h' : UHeap} {recs : Nat → SizeAddressUHeap}
    (hr : Rep (h.withRecords recs) live) (htracker : h'.uheapTracker = h.uheapTracker)
    (hgeneral : ∃ g < uheapPages, h'.generalAddress = userHeapStart + 4096 * g ∧
      Boundary (pageBlocks live) g) : Rep (h'.withRecords recs) live where
  placed := hr.placed
  layout := hr.layout
  tracker_live := by
    intro b hb
    show h'.uheapTracker _ = _
    rw [htracker]
    exact hr.tracker_live b hb
  tracker_rest := by
    intro i hi hno
    show h'.uheapTracker i = 0
    rw [htracker]
    exact hr.tracker_rest i hi hno
  record_live := hr.record_live
  record_rest := hr.record_rest
  general := hgeneral

theorem linearLoop_records (h : UHeap) (recs : Nat → SizeAddressUHeap) (take : Nat → Nat → Bool)
    (stopAtFirst : Bool) (fuel : Nat) (ls : LinearScan) :
    linearLoop (h.withRecords recs) take stopAtFirst fuel ls =
      linearLoop h take stopAtFirst fuel ls := by
  induction fuel generalizing ls with
  | zero => rfl
  | succ fuel ih =>
    have hround : linearRound (h.withRecords recs) take stopAtFirst ls =
        linearRound h take stopAtFirst ls := rfl
    simp only [linearLoop, hround, ih]

theorem nextFitLoop_records (h : UHeap) (recs : Nat → SizeAddressUHeap) (size fuel : Nat)
    (ns : NextFitScan) :
    nextFitLoop (h.withRecords recs) size fuel ns = nextFitLoop h size fuel ns := by
  induction fuel generalizing ns with
  | zero => rfl
  | succ fuel ih =>
    have hround : nextFitRound (h.withRecords recs) size ns = nextFitRound h size ns := rfl
    simp only [nextFitLoop, hround, ih]

theorem place_records (q : StrategyAnswers) (h : UHeap) (recs : Nat → SizeAddressUHeap)
    (size : Nat) : place q (h.withRecords recs) size = place q h size := by
  simp only [place, placeNextFit, placeFirstFit, placeBestFit, placeWorstFit, linearPlace,
    linearLoop_records, nextFitLoop_records]
  rfl

/-! ## Requests for no page -/

/-- The address is that of a free page. -/
def FreeAddress (bs : List Lib.Block) (a : Nat) : Prop :=
  ∃ q < uheapPages, a = userHeapStart + 4096 * q ∧ FreeCell bs q

/-- A linear scan for no page: once a free page has been seen `j` is one, and so is every address the
scan takes. -/
structure ZeroScan (bs : List Lib.Block) (ls : LinearScan) (p : Nat) : Prop where
  scan : ScanInv bs ls.scan p
  free : FreeAddress bs ls.scan.j
  found : ls.found = true → FreeAddress bs ls.generalAddress

theorem ZeroScan.round (hr : Rep h live) {take : Nat → Nat → Bool} {stopAtFirst : Bool}
    (hz : ZeroScan (pageBlocks live) ls p) (hp : p < uheapPages) :
    (∃ ls' p', linearRound h take stopAtFirst ls = .more ls' ∧ ZeroScan (pageBlocks live) ls' p') ∨
      ∃ ls', linearRound h take stopAtFirst ls = .exit ls' ∧
        FreeAddress (pageBlocks live) ls'.scan.j ∧ ls'.found = true ∧
          FreeAddress (pageBlocks live) ls'.generalAddress := by
  have hidx : heapIndex ls.scan.i = p := by
    rw [hz.scan.position]
    exact heapIndex_page (le_of_lt hp)
  by_cases h0 : h.uheapTracker p = 0
  · have hfree := hr.freeCell_of_tracker hz.scan.boundary h0
    refine .inl ⟨{ ls with scan := ls.scan.overFree }, p + 1, ?_, hz.scan.overFree hp hfree, ?_,
      hz.found⟩
    · simp [linearRound, hidx, h0]
    · -- `j` keeps its value, or becomes the page just seen
      show FreeAddress _ (if ls.scan.flag then ls.scan.j else ls.scan.i)
      split
      · exact hz.free
      · exact ⟨p, hp, hz.scan.position, hfree⟩
  · obtain ⟨c, hc, hstart, hlen⟩ := hr.block_of_tracker hp h0
    have hnext : ScanInv (pageBlocks live) (ls.scan.overBlock (h.uheapTracker p)) (p + c.len) := by
      rw [← hlen]
      exact hz.scan.overBlock hr.layout hc hstart
    by_cases ht : take ls.scan.currentSize ls.viableSize = true
    · cases stopAtFirst with
      | true =>
        refine .inr ⟨{ ls with
          generalAddress := ls.scan.j, viableSize := ls.scan.currentSize, found := true },
          ?_, hz.free, rfl, hz.free⟩
        simp [linearRound, hidx, h0, ht]
      | false =>
        refine .inl ⟨{ ls with
          scan := ls.scan.overBlock (h.uheapTracker p), generalAddress := ls.scan.j,
          viableSize := ls.scan.currentSize, found := true }, p + c.len, ?_, hnext, hz.free,
          fun _ => hz.free⟩
        simp [linearRound, hidx, h0, ht]
    · refine .inl ⟨{ ls with scan := ls.scan.overBlock (h.uheapTracker p) }, p + c.len, ?_, hnext,
        hz.free, hz.found⟩
      simp [linearRound, hidx, h0, ht]

theorem ZeroScan.loop (hr : Rep h live) {take : Nat → Nat → Bool} {stopAtFirst : Bool} :
    ∀ (fuel : Nat) (ls ls' : LinearScan) (p : Nat), ZeroScan (pageBlocks live) ls p →
      linearLoop h take stopAtFirst fuel ls = some ls' →
      FreeAddress (pageBlocks live) ls'.scan.j ∧
        (ls'.found = true → FreeAddress (pageBlocks live) ls'.generalAddress) := by
  intro fuel
  induction fuel with
  | zero =>
    intro ls ls' p _ hloop
    cases hloop
  | succ fuel ih =>
    intro ls ls' p hz hloop
    rw [linearLoop] at hloop
    by_cases hlt : ls.scan.i < userHeapMax
    · have hp : p < uheapPages := by
        have hpos := hz.scan.position
        simp only [userHeapStart, userHeapMax] at hpos hlt
        simp only [uheapPages]
        omega
      rw [if_pos hlt] at hloop
      rcases hz.round hr hp with
        ⟨ls₁, p₁, hround, hz₁⟩ | ⟨ls₁, hround, hj, -, hg⟩
      · rw [hround] at hloop
        exact ih ls₁ ls' p₁ hz₁ hloop
      · rw [hround] at hloop
        cases hloop
        exact ⟨hj, fun _ => hg⟩
    · rw [if_neg hlt] at hloop
      cases hloop
      exact ⟨hz.free, hz.found⟩

/-- A linear scan for no page that starts on a free page ends with a free page. -/
theorem linearPlace_zero (hr : Rep h live) (hfirst : h.uheapTracker 0 = 0)
    {take : Nat → Nat → Bool} {stopAtFirst : Bool} {viableSize : Nat} {pl : Placement}
    (hplace : linearPlace h 0 take stopAtFirst viableSize = some pl) :
    pl.found = true ∧ FreeAddress (pageBlocks live) pl.generalAddress := by
  have hfree := hr.freeCell_of_tracker (boundary_zero _) hfirst
  have hidx : heapIndex userHeapStart = 0 := by decide
  obtain ⟨ls, hloop, rfl⟩ := Option.map_eq_some_iff.1 hplace
  -- the first round sees the free page
  have hround : linearRound h take stopAtFirst (LinearScan.start viableSize) =
      .more { LinearScan.start viableSize with scan := (Scan.at userHeapStart).overFree } := by
    simp only [linearRound, LinearScan.start, Scan.at, hidx, hfirst, if_true]
  have hz : ZeroScan (pageBlocks live)
      { LinearScan.start viableSize with scan := (Scan.at userHeapStart).overFree } 1 :=
    ⟨(ScanInv.start (Nat.zero_le _) (boundary_zero _)).overFree (by decide) hfree,
      ⟨0, by decide, rfl, hfree⟩, fun hf => by cases hf⟩
  have hlt : (LinearScan.start viableSize).scan.i < userHeapMax := by
    show userHeapStart < userHeapMax
    decide
  rw [scanFuel, linearLoop, if_pos hlt, hround] at hloop
  obtain ⟨hj, hg⟩ := hz.loop hr _ _ _ _ hloop
  rw [LinearScan.finish]
  split
  · rename_i hfound
    exact ⟨rfl, hg hfound⟩
  · rw [if_pos (Nat.zero_le _)]
    exact ⟨rfl, hj⟩

theorem place_zero (hr : Rep h live) (st : Strategy) (hfirst : ¬ ReadsUninitialised st h size)
    (hround : roundUp size pageSize = 0) {pl : Placement}
    (hplace : place st.answers h 0 = some pl) :
    pl.found = true ∧ FreeAddress (pageBlocks live) pl.generalAddress := by
  have hfree : h.uheapTracker (heapIndex (scanStart st h)) = 0 :=
    not_not.1 fun hne => hfirst ⟨hround, hne⟩
  cases st with
  | nextFit =>
    obtain ⟨g, hg, hga, hbd⟩ := hr.general
    have hstart : scanStart .nextFit h = h.generalAddress := rfl
    rw [hstart, hga, heapIndex_page (le_of_lt hg)] at hfree
    have hcell := hr.freeCell_of_tracker hbd hfree
    have hidx : heapIndex h.generalAddress = g := by
      rw [hga]
      exact heapIndex_page (le_of_lt hg)
    -- the first round is the last one
    have hround₁ : nextFitRound h 0 (NextFitScan.start h) = .exit
        { NextFitScan.start h with
          scan := (Scan.at h.generalAddress).overFree
          k := ((NextFitScan.start h).k + wordMod - 1) % wordMod
          found := true } := by
      have htail : ∀ ns, nextFitTail 0 ns = .exit { ns with found := true } :=
        fun ns => if_pos (Nat.zero_le _)
      have hzero : h.uheapTracker (heapIndex (NextFitScan.start h).scan.i) = 0 := by
        show h.uheapTracker (heapIndex h.generalAddress) = 0
        rw [hidx]
        exact hfree
      rw [nextFitRound]
      dsimp only
      rw [if_pos hzero, htail]
      rfl
    have hk : (NextFitScan.start h).k ≠ 0 := by
      show uheapPages ≠ 0
      decide
    have hloop : placeNextFit h 0 = some { generalAddress := h.generalAddress, found := true } := by
      rw [placeNextFit, scanFuel, nextFitLoop, if_pos hk, hround₁]
      rfl
    have heq : place Strategy.nextFit.answers h 0 = placeNextFit h 0 := rfl
    rw [heq, hloop] at hplace
    cases hplace
    exact ⟨rfl, g, hg, hga, hcell⟩
  | firstFit | bestFit | worstFit =>
    have hidx : heapIndex userHeapStart = 0 := by decide
    have hstart : h.uheapTracker (heapIndex userHeapStart) = 0 := hfree
    rw [hidx] at hstart
    exact linearPlace_zero hr hstart hplace

/-! ## What every history keeps -/

/-- The blocks with pages. -/
def paged (live : List LiveBlock) : List LiveBlock :=
  live.filter fun b => decide (0 < b.size)

/-- Tracker and `generalAddress` describe the blocks with pages, and the records name the blocks. -/
structure CallInv (h : UHeap) (live : List LiveBlock) : Prop where
  rep : ∃ recs, Rep (h.withRecords recs) (paged live)
  beyond : ∀ i, uheapPages ≤ i → h.uheapTracker i = 0
  inside : ∀ b ∈ live, ∃ i < uheapPages, b.addr = userHeapStart + 4096 * i
  record : ∀ i < uheapPages,
    (h.sizeOfVAs i).virtualAddress = userHeapStart + 4096 * i ∧
        (∃ b ∈ live, b.addr = userHeapStart + 4096 * i) ∨
      (h.sizeOfVAs i).virtualAddress = 0 ∧ ∀ b ∈ live, b.addr ≠ userHeapStart + 4096 * i

theorem CallInv.initial : CallInv UHeap.initial [] := by
  constructor
  case rep => exact ⟨_, Rep.initial⟩
  case beyond => exact fun _ _ => rfl
  case inside => exact fun b hb => absurd hb List.not_mem_nil
  case record => exact fun i _ => .inr ⟨rfl, fun b hb => absurd hb List.not_mem_nil⟩

/-- The two ways to take a page: with the block of a request, or for no page at all. -/
theorem CallInv.commit (hi : CallInv h live) {m g q : Nat} (hq : q < uheapPages)
    (hg : g = userHeapStart + 4096 * q)
    (hrep : ∃ recs, Rep ((commit h (4096 * m) g).withRecords recs)
      (paged ({ addr := g, size := 4096 * m } :: live))) :
    CallInv (commit h (4096 * m) g) ({ addr := g, size := 4096 * m } :: live) := by
  have hidx : heapIndex g = q := by
    rw [hg]
    exact heapIndex_page (le_of_lt hq)
  constructor
  case rep => exact hrep
  case beyond =>
    intro i hi'
    have hne : i ≠ q := by omega
    simp only [UserHeap.commit, hidx]
    rw [Function.update_of_ne hne]
    exact hi.beyond i hi'
  case inside =>
    intro b hb
    rcases List.mem_cons.1 hb with rfl | hb
    · exact ⟨q, hq, hg⟩
    · exact hi.inside b hb
  case record =>
    intro i hi'
    simp only [UserHeap.commit, hidx]
    by_cases hiq : i = q
    · subst hiq
      rw [Function.update_self]
      exact .inl ⟨hg, _, List.mem_cons_self, hg⟩
    · rw [Function.update_of_ne hiq]
      rcases hi.record i hi' with ⟨hva, b, hb, hba⟩ | ⟨hva, hno⟩
      · exact .inl ⟨hva, b, List.mem_cons_of_mem _ hb, hba⟩
      · refine .inr ⟨hva, fun b hb => ?_⟩
        rcases List.mem_cons.1 hb with rfl | hb
        · show g ≠ userHeapStart + 4096 * i
          omega
        · exact hno b hb

/-- `malloc` for any size, where it does not depend on an uninitialised variable. -/
theorem CallInv.malloc (hi : CallInv h live) (st : Strategy) (hsize : size < wordMod)
    (hinit : ¬ ReadsUninitialised st h size) {r : MallocResult} (hres : malloc st h size = some r) :
    CallInv r.heap (if r.ret = 0 then live
      else { addr := r.ret, size := roundUp size pageSize } :: live) := by
  obtain ⟨recs, hr⟩ := hi.rep
  rw [UserHeap.malloc, mallocWith] at hres
  rcases roundUp_pages hsize with ⟨m, hm, hround, -⟩ | ⟨hround, -⟩
  · obtain ⟨⟨g, found⟩, hplace, hsound⟩ := place_sound hr st hm
    rw [place_records] at hplace
    simp only [hround, hplace] at hres
    cases found with
    | true =>
      have hpl := hsound.found rfl
      have hcommit := hr.commit hm hpl
      obtain ⟨q, hg, hq, -⟩ := hpl
      cases hres
      have hne : g ≠ 0 := by
        simp only [userHeapStart] at hg
        omega
      have hpos : 0 < 4096 * m := by omega
      rw [if_neg hne, hround]
      refine hi.commit (by omega) hg ⟨(UserHeap.commit (h.withRecords recs) (4096 * m) g).sizeOfVAs, ?_⟩
      rw [paged, List.filter_cons, if_pos (decide_eq_true hpos)]
      exact hcommit
    | false =>
      cases hres
      rw [if_pos rfl]
      exact ⟨⟨recs, hr.not_placed (hsound.not_found rfl)⟩, hi.beyond, hi.inside, hi.record⟩
  · rw [hround] at hres
    cases hplace : place st.answers h 0 with
    | none =>
      rw [hplace] at hres
      cases hres
    | some pl =>
      have hzero := place_zero hr st (h := h.withRecords recs) hinit hround
        (by rw [place_records]; exact hplace)
      obtain ⟨hfound, q, hq, hg, hcell⟩ := hzero
      rcases pl with ⟨g, found⟩
      simp only at hfound hg
      subst hfound
      rw [hplace] at hres
      cases hres
      have hne : g ≠ 0 := by
        simp only [userHeapStart] at hg
        omega
      have hidx : heapIndex g = q := by
        rw [hg]
        exact heapIndex_page (le_of_lt hq)
      have hmul : roundUp size pageSize = 4096 * 0 := hround
      rw [if_neg hne, hmul]
      refine hi.commit (m := 0) hq hg ⟨recs, ?_⟩
      have hlive : paged ({ addr := g, size := 4096 * 0 } :: live) = paged live := by
        have hno : ¬ decide (0 < 4096 * 0) = true := by decide
        rw [paged, List.filter_cons, if_neg hno]
        rfl
      -- the page is free, so its entry is zero already
      have hentry : h.uheapTracker q = 0 := by
        refine hr.tracker_rest q hq fun b hb hstart => ?_
        have hmem : b.pages ∈ pageBlocks (paged live) := List.mem_map.2 ⟨b, hb, rfl⟩
        have hlen := hr.layout.nonempty _ hmem
        refine hcell _ hmem ⟨le_of_eq hstart, ?_⟩
        simp only [Lib.Block.stop]
        omega
      have htracker : (UserHeap.commit h (4096 * 0) g).uheapTracker = h.uheapTracker := by
        simp only [UserHeap.commit, hidx, Nat.mul_zero, Nat.zero_div]
        rw [← hentry, Function.update_eq_self]
      have hbd : Boundary (pageBlocks (paged live)) q :=
        ((FreeRun.self _ q).snoc hcell).boundary_left (Nat.lt_succ_self q)
      rw [hlive]
      refine hr.congr_tracker htracker ?_
      by_cases hwrap : userHeapMax ≤ (g + 4096 * 0) % wordMod
      · refine ⟨0, by decide, ?_, boundary_zero _⟩
        simp only [UserHeap.commit]
        rw [if_pos hwrap, Nat.mul_zero, Nat.add_zero]
      · refine ⟨q, hq, ?_, hbd⟩
        simp only [UserHeap.commit]
        rw [if_neg hwrap, hg]

/-! ## free -/

/-- The record `free` finds. -/
theorem CallInv.find_some (hi : CallInv h live) {i : Nat} (hfind : findRecord h p = some i) :
    i < uheapPages ∧ (h.sizeOfVAs i).virtualAddress = p ∧
      (p = 0 ∨ p = userHeapStart + 4096 * i ∧ ∃ b ∈ live, b.addr = p) := by
  obtain ⟨hrec, hlt, -⟩ := firstIndex_eq_some.1 hfind
  rw [decide_eq_true_eq] at hrec
  refine ⟨hlt, hrec, ?_⟩
  rcases hi.record i hlt with ⟨hva, hex⟩ | ⟨hva, -⟩
  · have hp : p = userHeapStart + 4096 * i := hrec.symm.trans hva
    rw [← hp] at hex
    exact .inr ⟨hp, hex⟩
  · exact .inl (hrec.symm.trans hva)

/-- Without a record no block starts at the address. -/
theorem CallInv.find_none (hi : CallInv h live) (hfind : findRecord h p = none) :
    ∀ b ∈ live, b.addr ≠ p := by
  rintro b hb rfl
  obtain ⟨i, hlt, haddr⟩ := hi.inside b hb
  have hne := firstIndex_eq_none.1 hfind i hlt
  rw [decide_eq_false_iff_not] at hne
  rcases hi.record i hlt with ⟨hva, -⟩ | ⟨-, hno⟩
  · exact hne (hva.trans haddr.symm)
  · exact hno b hb haddr

/-- `free(NULL)` clears a record that is clear, and an entry behind the tracker. -/
theorem CallInv.free_null (hi : CallInv h live) {i : Nat} (hlt : i < uheapPages)
    (hrec : (h.sizeOfVAs i).virtualAddress = 0) : CallInv (clearRecord h i) live := by
  have hidx : heapIndex 0 = 524288 := by decide
  have htracker : (clearRecord h i).uheapTracker = h.uheapTracker := by
    have hentry := hi.beyond 524288 (by decide)
    simp only [clearRecord, hrec, hidx]
    rw [← hentry, Function.update_eq_self]
  obtain ⟨recs, hr⟩ := hi.rep
  constructor
  case rep => exact ⟨recs, hr.congr_tracker htracker hr.general⟩
  case beyond => exact fun j hj => (congrFun htracker j).trans (hi.beyond j hj)
  case inside => exact hi.inside
  case record =>
    intro j hj
    simp only [clearRecord]
    by_cases hji : j = i
    · subst hji
      rw [Function.update_self]
      rcases hi.record j hj with ⟨hva, -⟩ | ⟨-, hno⟩
      · rw [hrec] at hva
        simp only [userHeapStart] at hva
        omega
      · exact .inr ⟨rfl, hno⟩
    · rw [Function.update_of_ne hji]
      exact hi.record j hj

theorem paged_filter (live : List LiveBlock) (p : Nat) :
    paged (live.filter fun b => decide (b.addr ≠ p)) =
      (paged live).filter fun b => decide (b.addr ≠ p) := by
  simp only [paged, List.filter_filter, Bool.and_comm]

/-- `free` of a block takes all blocks at its address away. -/
theorem CallInv.free_block (hi : CallInv h live) {i : Nat} (hlt : i < uheapPages)
    (hrec : (h.sizeOfVAs i).virtualAddress = p) (hp : p = userHeapStart + 4096 * i) :
    CallInv (clearRecord h i) (live.filter fun b => decide (b.addr ≠ p)) := by
  have hidx : heapIndex p = i := by
    rw [hp]
    exact heapIndex_page (le_of_lt hlt)
  have hpos : p ≠ 0 := by
    simp only [userHeapStart] at hp
    omega
  obtain ⟨recs, hr⟩ := hi.rep
  constructor
  case rep =>
    rw [paged_filter]
    have hfree := free_spec hr hpos
    cases hfind : findRecord (h.withRecords recs) p with
    | some j =>
      obtain ⟨b, hb, hbp, hbj⟩ := hr.find_some hpos hfind
      have hij : j = i := by
        rw [← hbj, ← hr.heapIndex_addr hb, hbp, hidx]
      subst hij
      have hrec' : (recs j).virtualAddress = p := by
        have hrl := hr.record_live b hb
        rw [hbj] at hrl
        rw [← hbp]
        exact congrArg SizeAddressUHeap.virtualAddress hrl
      rw [UserHeap.free, hfind] at hfree
      have hsame : (freeFound (h.withRecords recs) p (some j)).1 = (clearRecord h j).withRecords
          (clearRecord (h.withRecords recs) j).sizeOfVAs := by
        simp only [freeFound, clearRecord, UHeap.withRecords, hrec, hrec']
      rw [hsame] at hfree
      exact ⟨_, hfree⟩
    | none =>
      -- a block without pages: its entry in the tracker is zero
      have hno := hr.find_none hfind
      have hentry : h.uheapTracker i = 0 := by
        refine hr.tracker_rest i hlt fun b hb hstart => hno b hb ?_
        rw [(hr.addr_eq hb).1, hstart, hp]
      have htracker : (clearRecord h i).uheapTracker = h.uheapTracker := by
        simp only [clearRecord, hrec, hidx]
        rw [← hentry, Function.update_eq_self]
      have hkeep : (paged live).filter (fun b => decide (b.addr ≠ p)) = paged live :=
        List.filter_eq_self.2 fun b hb => decide_eq_true (hno b hb)
      rw [hkeep]
      exact ⟨recs, hr.congr_tracker htracker hr.general⟩
  case beyond =>
    intro j hj
    have hne : j ≠ i := by omega
    simp only [clearRecord, hrec, hidx]
    rw [Function.update_of_ne hne]
    exact hi.beyond j hj
  case inside => exact fun b hb => hi.inside b (List.mem_filter.1 hb).1
  case record =>
    intro j hj
    simp only [clearRecord]
    by_cases hji : j = i
    · subst hji
      rw [Function.update_self]
      refine .inr ⟨rfl, fun b hb hba => ?_⟩
      have hne := of_decide_eq_true (List.mem_filter.1 hb).2
      exact hne (hba.trans hp.symm)
    · rw [Function.update_of_ne hji]
      rcases hi.record j hj with ⟨hva, b, hb, hba⟩ | ⟨hva, hno⟩
      · refine .inl ⟨hva, b, List.mem_filter.2 ⟨hb, decide_eq_true ?_⟩, hba⟩
        omega
      · exact .inr ⟨hva, fun b hb => hno b (List.mem_filter.1 hb).1⟩

theorem CallInv.free (hi : CallInv h live) (p : Nat) :
    CallInv (free h p).1 (live.filter fun b => decide (b.addr ≠ p)) := by
  have hsame : (∀ b ∈ live, b.addr ≠ p) → live.filter (fun b => decide (b.addr ≠ p)) = live :=
    fun hno => List.filter_eq_self.2 fun b hb => decide_eq_true (hno b hb)
  rw [UserHeap.free]
  cases hfind : findRecord h p with
  | none =>
    rw [hsame (hi.find_none hfind)]
    exact hi
  | some i =>
    obtain ⟨hlt, hrec, rfl | ⟨hp, -⟩⟩ := hi.find_some hfind
    · have hno : ∀ b ∈ live, b.addr ≠ 0 := by
        intro b hb h0
        obtain ⟨j, -, hj⟩ := hi.inside b hb
        simp only [userHeapStart] at hj
        omega
      rw [hsame hno]
      exact hi.free_null hlt hrec
    · exact hi.free_block hlt hrec hp

theorem CallRun.inv (hrun : CallRun h live) : CallInv h live := by
  induction hrun with
  | start => exact .initial
  | malloc st size _ hsize hinit hres ih => exact ih.malloc st hsize hinit hres
  | free p _ ih => exact ih.free p

end

end UserHeap
end FosMemory
