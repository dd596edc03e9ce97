import FosMemory.UserHeap.NextFit
import FosMemory.UserHeap.FitResults

/-!
# PageMalloc — the user heap of `kern/uheap.c`

An earlier version of `lib/uheap.c`: it marks every page of a block in `UHeap_Tracker`, and its
scans go page by page.  The globals are the same.  Read as the heap in which every used page is a
block of its own, its scans are those of `lib/uheap.c`; since a scan reports what the free pages
determine, both versions give the same answers in every run.
-/

namespace FosMemory
namespace UserHeap

open Lib

namespace Kern

/-! ## Scans -/

/-- The two branches for a free page, before the scan moves on. -/
def extend (sc : Scan) : Scan :=
  { sc with
    j := if sc.flag then sc.j else sc.i
    currentSize := (sc.currentSize + pageSize) % wordMod
    flag := true }

/-- The end of the branch for a used page. -/
def dropRun (sc : Scan) : Scan :=
  { sc with currentSize := 0, flag := false }

/-- `i += PAGE_SIZE`. -/
def nextPage (sc : Scan) : Scan :=
  { sc with i := (sc.i + pageSize) % wordMod }

/-- One round of the `for` loops of FIRSTFIT, BESTFIT and WORSTFIT. -/
def linearRound (h : UHeap) (take : Nat → Nat → Bool) (stopAtFirst : Bool) (ls : LinearScan) :
    Round LinearScan :=
  if h.uheapTracker (heapIndex ls.scan.i) = 0 then
    .more { ls with scan := nextPage (extend ls.scan) }
  else if take ls.scan.currentSize ls.viableSize then
    let hit : LinearScan :=
      { ls with generalAddress := ls.scan.j, viableSize := ls.scan.currentSize, found := true }
    if stopAtFirst then .exit hit else .more { hit with scan := nextPage (dropRun ls.scan) }
  else
    .more { ls with scan := nextPage (dropRun ls.scan) }

/-- `for(i = USER_HEAP_START; i < USER_HEAP_MAX; i += PAGE_SIZE)`. -/
def linearLoop (h : UHeap) (take : Nat → Nat → Bool) (stopAtFirst : Bool) :
    Nat → LinearScan → Option LinearScan
  | 0, _ => none
  | fuel + 1, ls =>
      if ls.scan.i < userHeapMax then
        match linearRound h take stopAtFirst ls with
        | .more ls' => linearLoop h take stopAtFirst fuel ls'
        | .exit ls' => some ls'
      else
        some ls

def linearPlace (h : UHeap) (size : Nat) (take : Nat → Nat → Bool) (stopAtFirst : Bool)
    (viableSize : Nat) : Option Placement :=
  (linearLoop h take stopAtFirst scanFuel (LinearScan.start viableSize)).map
    (LinearScan.finish size)

def placeFirstFit (h : UHeap) (size : Nat) : Option Placement :=
  linearPlace h size (fun currentSize _ => decide (size ≤ currentSize)) true 0

def placeBestFit (h : UHeap) (size : Nat) : Option Placement :=
  linearPlace h size
    (fun currentSize minViableSize =>
      decide (size ≤ currentSize) && decide (currentSize < minViableSize))
    false (userHeapMax - userHeapStart)

def placeWorstFit (h : UHeap) (size : Nat) : Option Placement :=
  linearPlace h size
    (fun currentSize maxViableSize =>
      decide (size ≤ currentSize) && decide (maxViableSize < currentSize))
    false 0

/-- The end of a round of NEXTFIT: leave with a sufficient run, or move on and wrap around. -/
def nextFitTail (size : Nat) (ns : NextFitScan) : Round NextFitScan :=
  if size ≤ ns.scan.currentSize then
    .exit { ns with found := true }
  else
    let sc := nextPage ns.scan
    if userHeapMax ≤ sc.i then
      .more { ns with scan := { sc with currentSize := 0, flag := false, i := userHeapStart } }
    else
      .more { ns with scan := sc }

/-- The body of `while(k-- != 0)`. -/
def nextFitRound (h : UHeap) (size : Nat) (ns : NextFitScan) : Round NextFitScan :=
  if h.uheapTracker (heapIndex ns.scan.i) = 0 then
    nextFitTail size { ns with scan := extend ns.scan }
  else if size ≤ ns.scan.currentSize then
    .exit { ns with found := true }
  else
    nextFitTail size { ns with scan := dropRun ns.scan }

/-- `while(k-- != 0)`: the test sees the old value. -/
def nextFitLoop (h : UHeap) (size : Nat) : Nat → NextFitScan → Option NextFitScan
  | 0, _ => none
  | fuel + 1, ns =>
      let ns' := { ns with k := (ns.k + wordMod - 1) % wordMod }
      if ns.k ≠ 0 then
        match nextFitRound h size ns' with
        | .more ns'' => nextFitLoop h size fuel ns''
        | .exit ns'' => some ns''
      else
        some ns'

def placeNextFit (h : UHeap) (size : Nat) : Option Placement :=
  (nextFitLoop h size scanFuel (NextFitScan.start h)).map (NextFitScan.finish h size)

/-! ## malloc and free -/

def place (q : StrategyAnswers) (h : UHeap) (size : Nat) : Option Placement :=
  if q.isNextFit then placeNextFit h size
  else if q.isFirstFit then placeFirstFit h size
  else if q.isBestFit then placeBestFit h size
  else if q.isWorstFit then placeWorstFit h size
  else some { generalAddress := h.generalAddress, found := true }

/-- `for(j = 0; j < n; ++j) UHeap_Tracker[i+j] = v`. -/
def setPages (tracker : Nat → Nat) (i v : Nat) : Nat → Nat → Nat
  | 0 => tracker
  | n + 1 => Function.update (setPages tracker i v n) (i + n) v

/-- The part of `malloc` after the scans. -/
def commit (h : UHeap) (size generalAddress : Nat) : UHeap :=
  let i := heapIndex generalAddress
  { uheapTracker := setPages h.uheapTracker i 1 (size / pageSize)
    sizeOfVAs := Function.update h.sizeOfVAs i { size := size, virtualAddress := generalAddress }
    generalAddress :=
      if userHeapMax ≤ (generalAddress + size) % wordMod then userHeapStart else generalAddress }

/-- `malloc(size)` under a strategy that does not change during the call. -/
def malloc (st : Strategy) (h : UHeap) (size : Nat) : Option MallocResult :=
  let size := roundUp size pageSize
  match place st.answers h size with
  | none => none
  | some { generalAddress := g, found := true } =>
      some { heap := commit h size g, ret := g, call := some (.allocateMem g size) }
  | some { generalAddress := g, found := false } =>
      some { heap := { h with generalAddress := g }, ret := 0, call := none }

/-- The body of the loop of `free` for record `i`. -/
def clearRecord (h : UHeap) (i : Nat) : UHeap :=
  { h with
    uheapTracker := setPages h.uheapTracker (heapIndex (h.sizeOfVAs i).virtualAddress) 0
      ((h.sizeOfVAs i).size / pageSize)
    sizeOfVAs := Function.update h.sizeOfVAs i { size := 0, virtualAddress := 0 } }

/-- `free` after the search has found record `i`, or none. -/
def freeFound (h : UHeap) (virtualAddress : Nat) : Option Nat → UHeap × Option HeapCall
  | none => (h, none)
  | some i => (clearRecord h i, some (.freeMem virtualAddress (h.sizeOfVAs i).size))

/-- `free(virtual_address)`. -/
def free (h : UHeap) (virtualAddress : Nat) : UHeap × Option HeapCall :=
  freeFound h virtualAddress (findRecord h virtualAddress)

end Kern

section

variable {h k : UHeap} {live : List LiveBlock} {bs bs' : List Lib.Block} {n m g : Nat}

/-! ## The scans on pages are scans on blocks of one page -/

theorem nextPage_extend (sc : Scan) : Kern.nextPage (Kern.extend sc) = sc.overFree :=
  rfl

theorem nextPage_dropRun (sc : Scan) : Kern.nextPage (Kern.dropRun sc) = sc.overBlock 1 := by
  simp only [Kern.nextPage, Kern.dropRun, Scan.overBlock, Nat.mul_one]

theorem kern_linearRound (hk : ∀ i, k.uheapTracker i ≤ 1) (take : Nat → Nat → Bool)
    (stopAtFirst : Bool) (ls : LinearScan) :
    Kern.linearRound k take stopAtFirst ls = linearRound k take stopAtFirst ls := by
  have hle := hk (heapIndex ls.scan.i)
  by_cases h0 : k.uheapTracker (heapIndex ls.scan.i) = 0
  · simp only [Kern.linearRound, linearRound, h0, if_true, nextPage_extend]
  · have h1 : k.uheapTracker (heapIndex ls.scan.i) = 1 := by omega
    simp only [Kern.linearRound, linearRound, h1, nextPage_dropRun]
    rfl

theorem kern_linearLoop (hk : ∀ i, k.uheapTracker i ≤ 1) (take : Nat → Nat → Bool)
    (stopAtFirst : Bool) : ∀ (fuel : Nat) (ls : LinearScan),
      Kern.linearLoop k take stopAtFirst fuel ls = linearLoop k take stopAtFirst fuel ls := by
  intro fuel
  induction fuel with
  | zero =>
      intro ls
      rfl
  | succ fuel ih =>
      intro ls
      rw [Kern.linearLoop, linearLoop, kern_linearRound hk]
      cases linearRound k take stopAtFirst ls with
      | more ls' => simp only [ih ls']
      | exit ls' => rfl

theorem kern_linearPlace (hk : ∀ i, k.uheapTracker i ≤ 1) (size : Nat) (take : Nat → Nat → Bool)
    (stopAtFirst : Bool) (viableSize : Nat) :
    Kern.linearPlace k size take stopAtFirst viableSize =
      linearPlace k size take stopAtFirst viableSize := by
  rw [Kern.linearPlace, linearPlace, kern_linearLoop hk]

/-- The outcome of NEXTFIT does not depend on where the scan stands. -/
theorem finish_congr (h : UHeap) (size : Nat) {a b : NextFitScan} (hf : a.found = b.found)
    (hj : a.scan.j = b.scan.j) (hc : a.scan.currentSize = b.scan.currentSize) :
    NextFitScan.finish h size a = NextFitScan.finish h size b := by
  simp only [NextFitScan.finish, hf, hj, hc]

/-- A round of NEXTFIT goes on in the same state, or leaves with the same outcome.  `kern/uheap.c`
has counted the page down before the round. -/
theorem kern_nextFitRound (hk : ∀ i, k.uheapTracker i ≤ 1) {size : Nat} (hsize : 0 < size)
    (ns : NextFitScan) {rest : Nat} (hrest : rest = (ns.k + wordMod - 1) % wordMod) :
    (∃ ns', nextFitRound k size ns = .more ns' ∧
        Kern.nextFitRound k size { ns with k := rest } = .more ns') ∨
      (∃ ns' ns'', nextFitRound k size ns = .exit ns' ∧
        Kern.nextFitRound k size { ns with k := rest } = .exit ns'' ∧
        NextFitScan.finish k size ns'' = NextFitScan.finish k size ns') := by
  have hle := hk (heapIndex ns.scan.i)
  by_cases h0 : k.uheapTracker (heapIndex ns.scan.i) = 0
  · simp only [nextFitRound, Kern.nextFitRound, h0, if_true, ← hrest]
    by_cases hlong : size ≤ ns.scan.overFree.currentSize
    · have hlong' : size ≤ (Kern.extend ns.scan).currentSize := hlong
      refine .inr ?_
      simp only [nextFitTail, Kern.nextFitTail, if_pos hlong, if_pos hlong']
      exact ⟨_, _, rfl, rfl, finish_congr k size rfl rfl rfl⟩
    · have hlong' : ¬ size ≤ (Kern.extend ns.scan).currentSize := hlong
      refine .inl ?_
      simp only [nextFitTail, Kern.nextFitTail, if_neg hlong, if_neg hlong', nextPage_extend]
      by_cases hwrap : userHeapMax ≤ ns.scan.overFree.i
      · simp only [hwrap, if_true]
        exact ⟨_, rfl, rfl⟩
      · simp only [hwrap, if_false]
        exact ⟨_, rfl, rfl⟩
  · have h1 : k.uheapTracker (heapIndex ns.scan.i) = 1 := by omega
    simp only [nextFitRound, Kern.nextFitRound, h1, Nat.one_ne_zero, if_false, ← hrest]
    by_cases hlong : size ≤ ns.scan.currentSize
    · simp only [if_pos hlong]
      exact .inr ⟨_, _, rfl, rfl, finish_congr k size rfl rfl rfl⟩
    · have hz : ¬ size ≤ (ns.scan.overBlock 1).currentSize := by
        simp only [Scan.overBlock]
        omega
      have hz' : ¬ size ≤ (Kern.dropRun ns.scan).currentSize := by
        simp only [Kern.dropRun]
        omega
      refine .inl ?_
      simp only [nextFitTail, Kern.nextFitTail, if_neg hlong, if_neg hz, if_neg hz',
        nextPage_dropRun]
      by_cases hwrap : userHeapMax ≤ (ns.scan.overBlock 1).i
      · simp only [hwrap, if_true]
        exact ⟨_, rfl, rfl⟩
      · simp only [hwrap, if_false]
        exact ⟨_, rfl, rfl⟩

theorem kern_nextFitLoop (hk : ∀ i, k.uheapTracker i ≤ 1) {size : Nat} (hsize : 0 < size) :
    ∀ (fuel : Nat) (ns : NextFitScan),
      (Kern.nextFitLoop k size fuel ns).map (NextFitScan.finish k size) =
        (nextFitLoop k size fuel ns).map (NextFitScan.finish k size) := by
  intro fuel
  induction fuel with
  | zero =>
      intro ns
      rfl
  | succ fuel ih =>
      intro ns
      rw [Kern.nextFitLoop, nextFitLoop]
      by_cases hk0 : ns.k ≠ 0
      · rw [if_pos hk0, if_pos hk0]
        rcases kern_nextFitRound hk hsize ns rfl with
          ⟨ns', hmore, hmore'⟩ | ⟨ns', ns'', hexit, hexit', hf⟩
        · simp only [hmore, hmore']
          exact ih ns'
        · simp only [hexit, hexit', Option.map_some, hf]
      · rw [if_neg hk0, if_neg hk0, Option.map_some, Option.map_some]
        exact congrArg some (finish_congr k size rfl rfl rfl)

theorem kern_place (hk : ∀ i, k.uheapTracker i ≤ 1) (q : StrategyAnswers) {size : Nat}
    (hsize : 0 < size) : Kern.place q k size = place q k size := by
  have hnext : Kern.placeNextFit k size = placeNextFit k size := kern_nextFitLoop hk hsize _ _
  simp only [Kern.place, place, hnext, Kern.placeFirstFit, placeFirstFit, Kern.placeBestFit,
    placeBestFit, Kern.placeWorstFit, placeWorstFit, kern_linearPlace hk]

/-! ## What a scan reads -/

theorem linearLoop_congr (ht : k.uheapTracker = h.uheapTracker) (take : Nat → Nat → Bool)
    (stopAtFirst : Bool) : ∀ (fuel : Nat) (ls : LinearScan),
      linearLoop k take stopAtFirst fuel ls = linearLoop h take stopAtFirst fuel ls := by
  intro fuel
  induction fuel with
  | zero =>
      intro ls
      rfl
  | succ fuel ih =>
      intro ls
      have hround : linearRound k take stopAtFirst ls = linearRound h take stopAtFirst ls := by
        simp only [linearRound, ht]
      rw [linearLoop, linearLoop, hround]
      cases linearRound h take stopAtFirst ls with
      | more ls' => simp only [ih ls']
      | exit ls' => rfl

theorem nextFitLoop_congr (ht : k.uheapTracker = h.uheapTracker) (size : Nat) :
    ∀ (fuel : Nat) (ns : NextFitScan),
      nextFitLoop k size fuel ns = nextFitLoop h size fuel ns := by
  intro fuel
  induction fuel with
  | zero =>
      intro ns
      rfl
  | succ fuel ih =>
      intro ns
      have hround : nextFitRound k size ns = nextFitRound h size ns := by
        simp only [nextFitRound, ht]
      rw [nextFitLoop, nextFitLoop, hround]
      cases nextFitRound h size ns with
      | more ns' => simp only [ih ns']
      | exit ns' => rfl

theorem place_congr (ht : k.uheapTracker = h.uheapTracker)
    (hg : k.generalAddress = h.generalAddress) (q : StrategyAnswers) (size : Nat) :
    place q k size = place q h size := by
  have hfinish : NextFitScan.finish k size = NextFitScan.finish h size := by
    funext ns
    simp only [NextFitScan.finish, hg]
  simp only [place, placeNextFit, placeFirstFit, placeBestFit, placeWorstFit, linearPlace,
    linearLoop_congr ht, nextFitLoop_congr ht, NextFitScan.start, hg, hfinish]

/-! ## A scan reports what the free pages determine -/

section Unique

variable (hfree : ∀ p, FreeCell bs' p ↔ FreeCell bs p)
include hfree

theorem freeRun_congr {p q : Nat} : FreeRun bs' p q ↔ FreeRun bs p q := by
  simp only [FreeRun, hfree]

theorem hole_congr {b : Lib.Block} : Hole n bs' b ↔ Hole n bs b := by
  constructor
  · rintro ⟨h1, h2, h3, h4, h5⟩
    exact ⟨h1, h2, (freeRun_congr hfree).1 h3, by rwa [hfree] at h4, by rwa [hfree] at h5⟩
  · rintro ⟨h1, h2, h3, h4, h5⟩
    exact ⟨h1, h2, (freeRun_congr hfree).2 h3, by rwa [hfree], by rwa [hfree]⟩

theorem Fits.unique {better : Lib.Block → Lib.Block → Prop} {pl pl' : Placement}
    (hasymm : ∀ x y, better x y → ¬ better y x) (hp : Fits m bs better pl)
    (hp' : Fits m bs' better pl') : pl' = pl := by
  have hhole := fun b => hole_congr (n := uheapPages) (b := b) hfree
  rcases pl with ⟨a, found⟩
  rcases pl' with ⟨a', found'⟩
  cases found with
  | true =>
      obtain ⟨b, ⟨hb, hle, hbest⟩, hab⟩ := hp.found rfl
      cases found' with
      | true =>
          obtain ⟨b', ⟨hb', hle', hbest'⟩, hab'⟩ := hp'.found rfl
          have heq : b' = b := by
            have hb₁ := (hhole b).2 hb
            have hb₂ := (hhole b').1 hb'
            rcases hbest with ⟨hin, hall⟩ | ⟨hend, hnone⟩
            · rcases hbest' with ⟨hin', hall'⟩ | ⟨-, hnone'⟩
              · rcases hall b' hb₂ hin' hle' with heq | hbb
                · exact heq
                · rcases hall' b hb₁ hin hle with heq | hbb'
                  · exact heq.symm
                  · exact absurd hbb' (hasymm _ _ hbb)
              · have := hnone' b hb₁ hin
                omega
            · rcases hbest' with ⟨hin', -⟩ | ⟨hend', -⟩
              · have := hnone b' hb₂ hin'
                omega
              · exact hb₂.eq_of_stop hb (hend'.trans hend.symm)
          simp only at hab hab'
          rw [hab, hab', heq]
      | false =>
          have := (hp'.not_found rfl).2 b ((hhole b).2 hb)
          omega
  | false =>
      cases found' with
      | true =>
          obtain ⟨b', ⟨hb', hle', -⟩, -⟩ := hp'.found rfl
          have := (hp.not_found rfl).2 b' ((hhole b').1 hb')
          omega
      | false =>
          have ha := (hp.not_found rfl).1
          have ha' := (hp'.not_found rfl).1
          simp only at ha ha'
          rw [ha, ha']

theorem circularPlace_congr {a : Nat} : CircularPlace bs' g m a ↔ CircularPlace bs g m a := by
  simp only [CircularPlace, freeRun_congr hfree]

theorem NextFits.unique (hgen : k.generalAddress = h.generalAddress) {pl pl' : Placement}
    (hp : NextFits bs g m h pl) (hp' : NextFits bs' g m k pl') : pl' = pl := by
  have hplace := fun a => circularPlace_congr (g := g) (m := m) (a := a) hfree
  rcases pl with ⟨x, found⟩
  rcases pl' with ⟨x', found'⟩
  cases found with
  | true =>
      obtain ⟨a, ⟨ha, hfirst⟩, hx⟩ := hp.found rfl
      cases found' with
      | true =>
          obtain ⟨a', ⟨ha', hfirst'⟩, hx'⟩ := hp'.found rfl
          have h1 := hfirst a' ((hplace a').1 ha')
          have h2 := hfirst' a ((hplace a).2 ha)
          have heq : a' = a := by omega
          simp only at hx hx'
          rw [hx, hx', heq]
      | false =>
          exact absurd ((hplace a).2 ha) ((hp'.not_found rfl).2 a)
  | false =>
      cases found' with
      | true =>
          obtain ⟨a', ⟨ha', -⟩, -⟩ := hp'.found rfl
          exact absurd ((hplace a').1 ha') ((hp.not_found rfl).2 a')
      | false =>
          have hx := (hp.not_found rfl).1
          have hx' := (hp'.not_found rfl).1
          simp only at hx hx'
          rw [hx, hx', hgen]

end Unique

/-- Two heaps with the same free pages and the same `generalAddress` answer alike. -/
theorem place_unique {live' : List LiveBlock} (hr : Rep h live) (hr' : Rep k live')
    (hfree : ∀ p, FreeCell (pageBlocks live') p ↔ FreeCell (pageBlocks live) p)
    (hgen : k.generalAddress = h.generalAddress) (hm : 0 < m) (st : Strategy) :
    ∃ pl, place st.answers h (4096 * m) = some pl ∧ place st.answers k (4096 * m) = some pl := by
  have hlinear : ∀ {take : Nat → Nat → Bool} {stopAtFirst : Bool} {viableSize : Nat}
      {better : Lib.Block → Lib.Block → Prop},
      Preference uheapPages m take stopAtFirst viableSize better →
      (∀ x y, better x y → ¬ better y x) →
      ∃ pl, linearPlace h (4096 * m) take stopAtFirst viableSize = some pl ∧
        linearPlace k (4096 * m) take stopAtFirst viableSize = some pl := by
    intro take stopAtFirst viableSize better hpref hasymm
    obtain ⟨pl, hpl, hfits⟩ := linearPlace_fits hr hm hpref
    obtain ⟨pl', hpl', hfits'⟩ := linearPlace_fits hr' hm hpref
    rw [hfits.unique hfree hasymm hfits'] at hpl'
    exact ⟨pl, hpl, hpl'⟩
  cases st with
  | nextFit =>
      obtain ⟨a, ha, hga, hba⟩ := hr.general
      obtain ⟨a', ha', hga', hba'⟩ := hr'.general
      have heq : a' = a := by omega
      rw [heq] at hga' hba'
      obtain ⟨pl, hpl, hfits⟩ := placeNextFit_first hr hm ha hga hba
      obtain ⟨pl', hpl', hfits'⟩ := placeNextFit_first hr' hm ha hga' hba'
      rw [hfits.unique hfree hgen hfits'] at hpl'
      exact ⟨pl, hpl, hpl'⟩
  | firstFit => exact hlinear (firstFit_preference hm) fun x y hxy => Nat.lt_asymm hxy
  | bestFit => exact hlinear (bestFit_preference hm) tighter_asymm
  | worstFit => exact hlinear (worstFit_preference hm) looser_asymm

/-! ## Every used page a block of its own -/

def pageUnits (k : UHeap) : List LiveBlock :=
  ((List.range uheapPages).filter fun p => decide (k.uheapTracker p ≠ 0)).map
    fun p => { addr := userHeapStart + 4096 * p, size := 4096 }

/-- The tracker of `k`, read as a tracker of `lib/uheap.c`. -/
def unitHeap (k : UHeap) : UHeap :=
  { k with
    sizeOfVAs := fun i =>
      if k.uheapTracker i ≠ 0 then { size := 4096, virtualAddress := userHeapStart + 4096 * i }
      else { size := 0, virtualAddress := 0 } }

theorem mem_pageUnits {b : LiveBlock} : b ∈ pageUnits k ↔
    ∃ p < uheapPages, k.uheapTracker p ≠ 0 ∧
      b = { addr := userHeapStart + 4096 * p, size := 4096 } := by
  rw [pageUnits, List.mem_map]
  constructor
  · rintro ⟨p, hp, rfl⟩
    rw [List.mem_filter, List.mem_range, decide_eq_true_eq] at hp
    exact ⟨p, hp.1, hp.2, rfl⟩
  · rintro ⟨p, hp, hne, rfl⟩
    refine ⟨p, ?_, rfl⟩
    rw [List.mem_filter, List.mem_range, decide_eq_true_eq]
    exact ⟨hp, hne⟩

theorem unit_pages (p : Nat) :
    LiveBlock.pages { addr := userHeapStart + 4096 * p, size := 4096 } = { start := p, len := 1 } :=
  LiveBlock.pages_of (m := 1) rfl

/-- A page is free exactly when it is not marked. -/
theorem unit_freeCell (p : Nat) :
    FreeCell (pageBlocks (pageUnits k)) p ↔ (p < uheapPages → k.uheapTracker p = 0) := by
  constructor
  · intro hfree hp
    by_contra hne
    refine hfree { start := p, len := 1 } ?_ ⟨le_rfl, Nat.lt_succ_self p⟩
    rw [List.mem_map]
    exact ⟨_, mem_pageUnits.2 ⟨p, hp, hne, rfl⟩, unit_pages p⟩
  · intro hzero b hb hmem
    obtain ⟨c, hc, rfl⟩ := List.mem_map.1 hb
    obtain ⟨q, hq, hne, rfl⟩ := mem_pageUnits.1 hc
    rw [unit_pages] at hmem
    have h1 : q ≤ p := hmem.1
    have h2 : p < q + 1 := hmem.2
    have hpq : p = q := by omega
    rw [hpq] at hzero
    exact hne (hzero hq)

theorem unitHeap_rep (hk : ∀ i, k.uheapTracker i ≤ 1) (hg : g < uheapPages)
    (hga : k.generalAddress = userHeapStart + 4096 * g) : Rep (unitHeap k) (pageUnits k) := by
  constructor
  case placed =>
    intro b hb
    obtain ⟨p, hp, -, rfl⟩ := mem_pageUnits.1 hb
    simp only [uheapPages] at hp
    constructor
    all_goals simp only [userHeapStart, userHeapMax]
    all_goals omega
  case layout =>
    refine ⟨?_, ?_, ?_⟩
    · intro c hc
      obtain ⟨b, hb, rfl⟩ := List.mem_map.1 hc
      obtain ⟨p, -, -, rfl⟩ := mem_pageUnits.1 hb
      rw [unit_pages]
      exact Nat.one_pos
    · intro c hc
      obtain ⟨b, hb, rfl⟩ := List.mem_map.1 hc
      obtain ⟨p, hp, -, rfl⟩ := mem_pageUnits.1 hb
      rw [unit_pages]
      exact hp
    · rw [pageBlocks, pageUnits, List.pairwise_map, List.pairwise_map]
      refine (List.pairwise_lt_range.filter _).imp ?_
      intro a b hab
      rw [unit_pages, unit_pages]
      exact .inl hab
  case tracker_live =>
    intro b hb
    obtain ⟨p, -, hne, rfl⟩ := mem_pageUnits.1 hb
    rw [unit_pages]
    have := hk p
    show k.uheapTracker p = 1
    omega
  case tracker_rest =>
    intro i hi hno
    by_contra hne
    refine hno _ (mem_pageUnits.2 ⟨i, hi, hne, rfl⟩) ?_
    rw [unit_pages]
  case record_live =>
    intro b hb
    obtain ⟨p, -, hne, rfl⟩ := mem_pageUnits.1 hb
    rw [unit_pages]
    exact if_pos hne
  case record_rest =>
    intro i hi hno
    refine if_neg fun hne => ?_
    refine hno _ (mem_pageUnits.2 ⟨i, hi, hne, rfl⟩) ?_
    rw [unit_pages]
  case general =>
    refine ⟨g, hg, hga, ?_⟩
    intro c hc hin
    obtain ⟨b, hb, rfl⟩ := List.mem_map.1 hc
    obtain ⟨p, -, -, rfl⟩ := mem_pageUnits.1 hb
    rw [unit_pages] at hin
    have h1 : p < g := hin.1
    have h2 : g < p + 1 := hin.2
    omega

/-! ## Two heaps side by side -/

/-- `h` is the heap of `lib/uheap.c` and `k` that of `kern/uheap.c`. -/
structure Agrees (h k : UHeap) (live : List LiveBlock) : Prop where
  rep : Rep h live
  records : k.sizeOfVAs = h.sizeOfVAs
  general : k.generalAddress = h.generalAddress
  mark : ∀ p, k.uheapTracker p ≤ 1
  tracker : ∀ p < uheapPages, k.uheapTracker p = 0 ↔ FreeCell (pageBlocks live) p

theorem setPages_apply (tracker : Nat → Nat) (i v n p : Nat) :
    Kern.setPages tracker i v n p = if i ≤ p ∧ p < i + n then v else tracker p := by
  induction n with
  | zero =>
      rw [Kern.setPages, if_neg (by omega)]
  | succ n ih =>
      rw [Kern.setPages, Function.update_apply, ih]
      by_cases hp : p = i + n
      · rw [if_pos hp, if_pos (by omega)]
      · rw [if_neg hp]
        by_cases hin : i ≤ p ∧ p < i + n
        · rw [if_pos hin, if_pos (by omega)]
        · rw [if_neg hin, if_neg (by omega)]

theorem Agrees.initial : Agrees UHeap.initial UHeap.initial [] := by
  refine ⟨Rep.initial, rfl, rfl, fun _ => Nat.zero_le _, fun p _ => ⟨fun _ b hb => ?_, fun _ => rfl⟩⟩
  cases hb

/-- Both versions place a block alike. -/
theorem Agrees.place_both (ha : Agrees h k live) (st : Strategy) (hm : 0 < m) :
    ∃ pl, place st.answers h (4096 * m) = some pl ∧
      Kern.place st.answers k (4096 * m) = some pl ∧
      PlacementSound h (pageBlocks live) m pl := by
  obtain ⟨g, hg, hga, -⟩ := ha.rep.general
  have hunit := unitHeap_rep ha.mark hg (ha.general.trans hga)
  have hfree : ∀ p, FreeCell (pageBlocks (pageUnits k)) p ↔ FreeCell (pageBlocks live) p := by
    intro p
    rw [unit_freeCell]
    by_cases hp : p < uheapPages
    · simp only [hp, true_implies]
      exact ha.tracker p hp
    · -- no block reaches beyond the end of the heap
      refine ⟨fun _ b hb hmem => ?_, fun _ hlt => absurd hlt hp⟩
      have hbound := ha.rep.layout.bounded b hb
      have := hmem.2
      omega
  obtain ⟨pl, hpl, hpl'⟩ := place_unique ha.rep hunit hfree ha.general hm st
  obtain ⟨pl', hsome, hsound⟩ := place_sound ha.rep st hm
  rw [hpl] at hsome
  cases hsome
  refine ⟨pl, hpl, ?_, hsound⟩
  rw [kern_place ha.mark _ (by omega), ← hpl']
  have hread : (unitHeap k).uheapTracker = k.uheapTracker := rfl
  exact (place_congr hread rfl st.answers (4096 * m)).symm

theorem Agrees.commit_both (ha : Agrees h k live) (hm : 0 < m) (hpl : Placed (pageBlocks live) m g) :
    Agrees (commit h (4096 * m) g) (Kern.commit k (4096 * m) g)
      ({ addr := g, size := 4096 * m } :: live) := by
  have hrep := ha.rep.commit hm hpl
  obtain ⟨q, hg, hq, hrun⟩ := hpl
  have hidx : heapIndex g = q := by
    rw [hg]
    exact heapIndex_page (by omega)
  have hdiv : 4096 * m / pageSize = m := by
    simp only [pageSize]
    omega
  have htracker : ∀ p, (Kern.commit k (4096 * m) g).uheapTracker p =
      if q ≤ p ∧ p < q + m then 1 else k.uheapTracker p := by
    intro p
    simp only [Kern.commit, hidx, hdiv]
    exact setPages_apply _ _ _ _ _
  refine ⟨hrep, ?_, rfl, ?_, ?_⟩
  · simp only [Kern.commit, UserHeap.commit, ha.records]
  · intro p
    rw [htracker]
    split
    · exact le_rfl
    · exact ha.mark p
  · intro p hp
    rw [htracker, pageBlocks, List.map_cons, LiveBlock.pages_of hg]
    have hcons : FreeCell ({ start := q, len := m } :: pageBlocks live) p ↔
        ¬ (q ≤ p ∧ p < q + m) ∧ FreeCell (pageBlocks live) p := by
      constructor
      · intro hfree
        exact ⟨hfree _ List.mem_cons_self, fun b hb => hfree b (List.mem_cons_of_mem _ hb)⟩
      · rintro ⟨hnot, hfree⟩ b hb
        rcases List.mem_cons.1 hb with rfl | hb
        · exact hnot
        · exact hfree b hb
    rw [hcons, ← ha.tracker p hp]
    by_cases hin : q ≤ p ∧ p < q + m
    · simp [hin]
    · simp [hin]

/-- `malloc` answers alike and keeps the heaps together. -/
theorem Agrees.malloc_both (ha : Agrees h k live) (st : Strategy) {size : Nat} (h1 : 1 ≤ size)
    (hmax : size ≤ maxRequest) :
    ∃ r r' live', malloc st h size = some r ∧ Kern.malloc st k size = some r' ∧
      r'.ret = r.ret ∧ r'.call = r.call ∧ Agrees r.heap r'.heap live' := by
  obtain ⟨m, hm, hround, -⟩ := roundUp_request h1 hmax
  obtain ⟨⟨g, found⟩, hpl, hpl', hsound⟩ := ha.place_both st hm
  cases found with
  | true =>
      refine ⟨⟨UserHeap.commit h (4096 * m) g, g, some (.allocateMem g (4096 * m))⟩,
        ⟨Kern.commit k (4096 * m) g, g, some (.allocateMem g (4096 * m))⟩, _, ?_, ?_, rfl, rfl,
        ha.commit_both hm (hsound.found rfl)⟩
      · simp only [UserHeap.malloc, mallocWith, hround, hpl]
      · simp only [Kern.malloc, hround, hpl']
  | false =>
      refine ⟨⟨{ h with generalAddress := g }, 0, none⟩, ⟨{ k with generalAddress := g }, 0, none⟩,
        live, ?_, ?_, rfl, rfl, ?_⟩
      · simp only [UserHeap.malloc, mallocWith, hround, hpl]
      · simp only [Kern.malloc, hround, hpl']
      · exact ⟨ha.rep.not_placed (hsound.not_found rfl), ha.records, rfl, ha.mark, ha.tracker⟩

/-- The free pages after the block at `p` is gone. -/
theorem Rep.freeCell_filter (hr : Rep h live) {b : LiveBlock} (hb : b ∈ live) (x : Nat) :
    FreeCell (pageBlocks (live.filter fun c => decide (c.addr ≠ b.addr))) x ↔
      FreeCell (pageBlocks live) x ∨ b.pages.Mem x := by
  have hmem : ∀ c, c ∈ live.filter (fun c => decide (c.addr ≠ b.addr)) ↔
      c ∈ live ∧ c.addr ≠ b.addr := by
    intro c
    rw [List.mem_filter, decide_eq_true_eq]
  have hbp : b.pages ∈ pageBlocks live := List.mem_map_of_mem hb
  constructor
  · intro hfree
    by_contra hcon
    rw [not_or] at hcon
    refine hcon.1 fun d hd hx => ?_
    obtain ⟨c, hc, rfl⟩ := List.mem_map.1 hd
    by_cases hcb : c.addr = b.addr
    · refine hcon.2 ?_
      have hstart : c.pages.start = b.pages.start := by
        simp only [LiveBlock.pages, hcb]
      rwa [hr.layout.eq_of_start hd hbp hstart] at hx
    · exact hfree c.pages (List.mem_map_of_mem ((hmem c).2 ⟨hc, hcb⟩)) hx
  · rintro (hfree | hx) d hd hdx
    · obtain ⟨c, hc, rfl⟩ := List.mem_map.1 hd
      exact hfree c.pages (List.mem_map_of_mem ((hmem c).1 hc).1) hdx
    · -- another block would share the page with `b`
      obtain ⟨c, hc, rfl⟩ := List.mem_map.1 hd
      obtain ⟨hcl, hne⟩ := (hmem c).1 hc
      have hstart : c.pages ≠ b.pages := fun heq =>
        hne (hr.addr_eq_of_start hb hcl (congrArg Lib.Block.start heq))
      have hdis := hr.layout.disjoint_of_ne (List.mem_map_of_mem hcl) hbp hstart
      have h1 := hx.1
      have h2 := hx.2
      have h3 := hdx.1
      have h4 := hdx.2
      simp only [Lib.Block.Disjoint] at hdis
      omega

/-- `free` makes the same request and keeps the heaps together. -/
theorem Agrees.free_both (ha : Agrees h k live) {p : Nat} (hp : p ≠ 0) :
    (Kern.free k p).2 = (free h p).2 ∧
      Agrees (free h p).1 (Kern.free k p).1 (live.filter fun b => decide (b.addr ≠ p)) := by
  have hrep := free_spec ha.rep hp
  have hfind : findRecord k p = findRecord h p := by simp only [findRecord, ha.records]
  rw [Kern.free, hfind]
  rw [UserHeap.free] at hrep ⊢
  cases hf : findRecord h p with
  | none =>
      have hlive : live.filter (fun b => decide (b.addr ≠ p)) = live := by
        refine List.filter_eq_self.2 ?_
        intro b hb
        simpa using ha.rep.find_none hf b hb
      rw [hlive]
      exact ⟨rfl, ha⟩
  | some i =>
      obtain ⟨b, hb, rfl, hbi⟩ := ha.rep.find_some hp hf
      have hrecord := ha.rep.record_live b hb
      rw [hbi] at hrecord
      have hdiv : b.size / pageSize = b.pages.len := by
        rw [pageSize, LiveBlock.pages]
      rw [hf] at hrep
      refine ⟨?_, hrep, ?_, ha.general, ?_, ?_⟩
      · simp only [Kern.freeFound, freeFound, ha.records]
      · simp only [Kern.freeFound, freeFound]
        simp only [Kern.clearRecord, UserHeap.clearRecord, ha.records]
      all_goals
        intro x
        simp only [Kern.freeFound, Kern.clearRecord, ha.records, hrecord, ha.rep.heapIndex_addr hb, hdiv]
        rw [setPages_apply]
      · split
        · exact Nat.zero_le 1
        · exact ha.mark x
      · intro hx
        rw [ha.rep.freeCell_filter hb, ← ha.tracker x hx]
        by_cases hin : b.pages.start ≤ x ∧ x < b.pages.start + b.pages.len
        · simp only [hin, and_self, if_true, true_iff]
          exact .inr hin
        · rw [if_neg hin]
          exact ⟨.inl, fun hor => hor.resolve_right hin⟩

/-! ## Whole runs -/

/-- A call of the library. -/
inductive HeapOp where
  | malloc (st : Strategy) (size : Nat)
  | free (p : Nat)
  deriving DecidableEq, Repr

/-- The calls programs make. -/
def HeapOp.Valid : HeapOp → Prop
  | .malloc _ size => 1 ≤ size ∧ size ≤ maxRequest
  | .free p => p ≠ 0

/-- What a call returns, the request it makes, and `generalAddress` after it. -/
structure HeapAnswer where
  ret : Nat
  call : Option HeapCall
  generalAddress : Nat
  deriving DecidableEq, Repr

/-- A run of one version of the library. -/
def runHeap (malloc : Strategy → UHeap → Nat → Option MallocResult)
    (free : UHeap → Nat → UHeap × Option HeapCall) :
    UHeap → List HeapOp → Option (UHeap × List HeapAnswer)
  | h, [] => some (h, [])
  | h, .malloc st size :: ops => do
      let r ← malloc st h size
      let (h', answers) ← runHeap malloc free r.heap ops
      some (h', ⟨r.ret, r.call, r.heap.generalAddress⟩ :: answers)
  | h, .free p :: ops => do
      let r := free h p
      let (h', answers) ← runHeap malloc free r.1 ops
      some (h', ⟨0, r.2, r.1.generalAddress⟩ :: answers)

theorem Agrees.run (ops : List HeapOp) (hops : ∀ op ∈ ops, op.Valid) :
    ∀ {h k : UHeap} {live : List LiveBlock}, Agrees h k live →
      ∃ h' k' answers, runHeap malloc free h ops = some (h', answers) ∧
        runHeap Kern.malloc Kern.free k ops = some (k', answers) ∧
        k'.generalAddress = h'.generalAddress := by
  induction ops with
  | nil =>
      intro h k live ha
      exact ⟨h, k, [], rfl, rfl, ha.general⟩
  | cons op ops ih =>
      intro h k live ha
      have hrest : ∀ op ∈ ops, op.Valid := fun o ho => hops o (List.mem_cons_of_mem _ ho)
      cases op with
      | malloc st size =>
          obtain ⟨h1, hmax⟩ := hops _ List.mem_cons_self
          obtain ⟨r, r', live', hr, hr', hret, hcall, ha'⟩ := ha.malloc_both st h1 hmax
          obtain ⟨h', k', answers, hrun, hrun', hgen⟩ := ih hrest ha'
          refine ⟨h', k', ⟨r.ret, r.call, r.heap.generalAddress⟩ :: answers, ?_, ?_, hgen⟩
          · simp [runHeap, hr, hrun]
          · simp [runHeap, hr', hrun', hret, hcall, ha'.general]
      | free p =>
          have hp := hops _ List.mem_cons_self
          obtain ⟨hcall, ha'⟩ := ha.free_both hp
          obtain ⟨h', k', answers, hrun, hrun', hgen⟩ := ih hrest ha'
          refine ⟨h', k', ⟨0, (free h p).2, (free h p).1.generalAddress⟩ :: answers, ?_, ?_, hgen⟩
          · simp [runHeap, hrun]
          · simp [runHeap, hrun', hcall, ha'.general]

end

end UserHeap
end FosMemory
