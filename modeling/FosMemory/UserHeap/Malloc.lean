import Mathlib.Logic.Function.Basic
import FosMemory.Layout
import FosMemory.Lib.FirstIndex

/-!
# Malloc — the user heap of `lib/uheap.c`

The user-side allocator keeps three globals: `UHeap_Tracker`, which holds the page count of a
block at the block's first page and `0` elsewhere, `sizeOfVAs`, which records address and size of
each block, and `generalAddress`, the address the last call placed a block at.

`malloc` scans the tracker under one of four placement strategies and commits the block; the
requests it sends to the kernel (`sys_allocateMem`, `sys_freeMem`) are returned next to the new
state.  The loops of the source run on a fuel argument; running out of fuel is the answer `none`.
-/

namespace FosMemory
namespace UserHeap

/-! ## State -/

/-- `struct Size_Address_UHeap`. -/
structure SizeAddressUHeap where
  size : Nat
  virtualAddress : Nat
  deriving DecidableEq, Repr

/-- The globals of `lib/uheap.c`.  `currentAddressForNextFitPlacement` is never read. -/
structure UHeap where
  uheapTracker : Nat → Nat
  sizeOfVAs : Nat → SizeAddressUHeap
  generalAddress : Nat

/-- The state a program starts with: zero tables, `generalAddress = USER_HEAP_START`. -/
def UHeap.initial : UHeap :=
  { uheapTracker := fun _ => 0
    sizeOfVAs := fun _ => { size := 0, virtualAddress := 0 }
    generalAddress := userHeapStart }

/-- `(USER_HEAP_MAX - USER_HEAP_START) / PAGE_SIZE`, the length of both tables. -/
@[simp] def uheapPages : Nat := 131072

/-- `(va - USER_HEAP_START) / PAGE_SIZE` in `uint32` arithmetic. -/
def heapIndex (va : Nat) : Nat :=
  (va + wordMod - userHeapStart) % wordMod / pageSize

/-! ## The scan shared by the four strategies -/

/-- The local variables of a scan.  `j` is not initialised in the source; it is read only after
`flag` has been set. -/
structure Scan where
  i : Nat
  j : Nat
  currentSize : Nat
  flag : Bool
  deriving DecidableEq, Repr

/-- A scan that stands on `i` with an empty run. -/
def Scan.at (i : Nat) : Scan :=
  { i := i, j := 0, currentSize := 0, flag := false }

/-- The two branches for `UHeap_Tracker[..] == 0`: extend the run, or open a new one. -/
def Scan.overFree (sc : Scan) : Scan :=
  { i := (sc.i + pageSize) % wordMod
    j := if sc.flag then sc.j else sc.i
    currentSize := (sc.currentSize + pageSize) % wordMod
    flag := true }

/-- The tail of the `else` branch: jump over a block of `t` pages and drop the run. -/
def Scan.overBlock (sc : Scan) (t : Nat) : Scan :=
  { i := (sc.i + pageSize * t) % wordMod
    j := sc.j
    currentSize := 0
    flag := false }

/-- One round of a loop: go on, or leave it by `break`. -/
inductive Round (α : Type) where
  | more (st : α)
  | exit (st : α)

/-! ## FIRSTFIT, BESTFIT, WORSTFIT -/

/-- Local variables of the scans that walk the heap once.  `viableSize` is `minViableSize` of
BESTFIT and `maxViableSize` of WORSTFIT. -/
structure LinearScan where
  scan : Scan
  generalAddress : Nat
  viableSize : Nat
  found : Bool
  deriving DecidableEq, Repr

/-- One round of the `for` loop.  `take currentSize viableSize` is the test made when a block ends
the current run; FIRSTFIT leaves the loop at the first hit. -/
def linearRound (h : UHeap) (take : Nat → Nat → Bool) (stopAtFirst : Bool) (ls : LinearScan) :
    Round LinearScan :=
  let t := h.uheapTracker (heapIndex ls.scan.i)
  if t = 0 then
    .more { ls with scan := ls.scan.overFree }
  else if take ls.scan.currentSize ls.viableSize then
    let hit : LinearScan :=
      { ls with generalAddress := ls.scan.j, viableSize := ls.scan.currentSize, found := true }
    if stopAtFirst then .exit hit else .more { hit with scan := ls.scan.overBlock t }
  else
    .more { ls with scan := ls.scan.overBlock t }

/-- `for(i = USER_HEAP_START; i < USER_HEAP_MAX; )`. -/
def linearLoop (h : UHeap) (take : Nat → Nat → Bool) (stopAtFirst : Bool) :
    Nat → LinearScan → Option LinearScan
  | 0, _ => none
  | fuel + 1, ls =>
      if ls.scan.i < userHeapMax then
        match linearRound h take stopAtFirst ls with
        | .more ls' => linearLoop h take stopAtFirst fuel ls'
        | .exit ls' => some ls'
      else
        some ls

/-- Where a placement ended: the value left in `generalAddress`, and whether a place was found
(otherwise `malloc` returns `NULL`). -/
structure Placement where
  generalAddress : Nat
  found : Bool
  deriving DecidableEq, Repr

/-- Rounds that suffice for every scan. -/
def scanFuel : Nat := 131073

/-- The values of the local variables when a linear scan starts. -/
def LinearScan.start (viableSize : Nat) : LinearScan :=
  { scan := Scan.at userHeapStart, generalAddress := userHeapStart,
    viableSize := viableSize, found := false }

/-- After the loop: the run that reaches the end of the heap is taken only if nothing was found
before. -/
def LinearScan.finish (size : Nat) (ls : LinearScan) : Placement :=
  if ls.found then
    { generalAddress := ls.generalAddress, found := true }
  else if size ≤ ls.scan.currentSize then
    { generalAddress := ls.scan.j, found := true }
  else
    { generalAddress := ls.generalAddress, found := false }

/-- The part common to the three scans. -/
def linearPlace (h : UHeap) (size : Nat) (take : Nat → Nat → Bool) (stopAtFirst : Bool)
    (viableSize : Nat) : Option Placement :=
  (linearLoop h take stopAtFirst scanFuel (LinearScan.start viableSize)).map
    (LinearScan.finish size)

def placeFirstFit (h : UHeap) (size : Nat) : Option Placement :=
  linearPlace h size (fun currentSize _ => decide (size ≤ currentSize)) true 0

def placeBestFit (h : UHeap) (size : Nat) : Option Placement :=
  linearPlace h size
    (fun currentSize minViableSize =>
      decide (size ≤ currentSize) && decide (currentSize < minViableSize))
    false (userHeapMax - userHeapStart)

def placeWorstFit (h : UHeap) (size : Nat) : Option Placement :=
  linearPlace h size
    (fun currentSize maxViableSize =>
      decide (size ≤ currentSize) && decide (maxViableSize < currentSize))
    false 0

/-! ## NEXTFIT -/

/-- Local variables of the circular scan: `k` counts the pages still to be looked at. -/
structure NextFitScan where
  scan : Scan
  k : Nat
  found : Bool
  deriving DecidableEq, Repr

/-- The two tests at the end of a round: leave with a sufficient run, or wrap around. -/
def nextFitTail (size : Nat) (ns : NextFitScan) : Round NextFitScan :=
  if size ≤ ns.scan.currentSize then
    .exit { ns with found := true }
  else if userHeapMax ≤ ns.scan.i then
    .more { ns with scan := { ns.scan with currentSize := 0, flag := false, i := userHeapStart } }
  else
    .more ns

/-- One round of `while(k != 0)`.  The subtractions from `k` are `uint32` subtractions. -/
def nextFitRound (h : UHeap) (size : Nat) (ns : NextFitScan) : Round NextFitScan :=
  let t := h.uheapTracker (heapIndex ns.scan.i)
  if t = 0 then
    nextFitTail size { ns with scan := ns.scan.overFree, k := (ns.k + wordMod - 1) % wordMod }
  else if size ≤ ns.scan.currentSize then
    .exit { ns with found := true }
  else
    nextFitTail size { ns with scan := ns.scan.overBlock t, k := (ns.k + wordMod - t) % wordMod }

/-- `while(k != 0)`. -/
def nextFitLoop (h : UHeap) (size : Nat) : Nat → NextFitScan → Option NextFitScan
  | 0, _ => none
  | fuel + 1, ns =>
      if ns.k ≠ 0 then
        match nextFitRound h size ns with
        | .more ns' => nextFitLoop h size fuel ns'
        | .exit ns' => some ns'
      else
        some ns

/-- The values of the local variables when the circular scan starts. -/
def NextFitScan.start (h : UHeap) : NextFitScan :=
  { scan := Scan.at h.generalAddress, k := uheapPages, found := false }

/-- After the loop: without a place, `generalAddress` keeps its value. -/
def NextFitScan.finish (h : UHeap) (size : Nat) (ns : NextFitScan) : Placement :=
  if ns.found then
    { generalAddress := ns.scan.j, found := true }
  else if size ≤ ns.scan.currentSize then
    { generalAddress := ns.scan.j, found := true }
  else
    { generalAddress := h.generalAddress, found := false }

def placeNextFit (h : UHeap) (size : Nat) : Option Placement :=
  (nextFitLoop h size scanFuel (NextFitScan.start h)).map (NextFitScan.finish h size)

/-! ## malloc and free -/

/-- The placement strategies of `inc/uheap.h`. -/
inductive Strategy where
  | firstFit
  | bestFit
  | nextFit
  | worstFit
  deriving DecidableEq, Repr

/-- The answers of the four `sys_isUHeapPlacementStrategy*` calls, each a system call of its own.
`malloc` asks in the order of the fields and stops at the first answer that is true. -/
structure StrategyAnswers where
  isNextFit : Bool
  isFirstFit : Bool
  isBestFit : Bool
  isWorstFit : Bool
  deriving DecidableEq, Repr

/-- The answers while the strategy variable does not change. -/
def Strategy.answers (st : Strategy) : StrategyAnswers :=
  { isNextFit := decide (st = .nextFit)
    isFirstFit := decide (st = .firstFit)
    isBestFit := decide (st = .bestFit)
    isWorstFit := decide (st = .worstFit) }

/-- The strategy part of `malloc`.  With four negative answers no scan is made and the block goes
to `generalAddress`. -/
def place (q : StrategyAnswers) (h : UHeap) (size : Nat) : Option Placement :=
  if q.isNextFit then placeNextFit h size
  else if q.isFirstFit then placeFirstFit h size
  else if q.isBestFit then placeBestFit h size
  else if q.isWorstFit then placeWorstFit h size
  else some { generalAddress := h.generalAddress, found := true }

/-- A request of the library to the kernel. -/
inductive HeapCall where
  | allocateMem (virtualAddress size : Nat)
  | freeMem (virtualAddress size : Nat)
  deriving DecidableEq, Repr

/-- What a call of `malloc` leaves: the globals, the pointer (`0` is `NULL`) and the system call
it made. -/
structure MallocResult where
  heap : UHeap
  ret : Nat
  call : Option HeapCall

/-- The part of `malloc` after the scans. -/
def commit (h : UHeap) (size generalAddress : Nat) : UHeap :=
  let i := heapIndex generalAddress
  { uheapTracker := Function.update h.uheapTracker i (size / pageSize)
    sizeOfVAs := Function.update h.sizeOfVAs i { size := size, virtualAddress := generalAddress }
    generalAddress :=
      if userHeapMax ≤ (generalAddress + size) % wordMod then userHeapStart else generalAddress }

/-- `malloc` with the answers its strategy queries got. -/
def mallocWith (q : StrategyAnswers) (h : UHeap) (size : Nat) : Option MallocResult :=
  let size := roundUp size pageSize
  match place q h size with
  | none => none
  | some { generalAddress := g, found := true } =>
      some { heap := commit h size g, ret := g, call := some (.allocateMem g size) }
  | some { generalAddress := g, found := false } =>
      some { heap := { h with generalAddress := g }, ret := 0, call := none }

/-- `malloc(size)` under a strategy that does not change during the call. -/
def malloc (st : Strategy) (h : UHeap) (size : Nat) : Option MallocResult :=
  mallocWith st.answers h size

/-- The first record that holds the address. -/
def findRecord (h : UHeap) (virtualAddress : Nat) : Option Nat :=
  Lib.firstIndex uheapPages
    fun i => decide ((h.sizeOfVAs i).virtualAddress = virtualAddress)

/-- The body of the loop of `free` for record `i`. -/
def clearRecord (h : UHeap) (i : Nat) : UHeap :=
  { h with
    uheapTracker := Function.update h.uheapTracker (heapIndex (h.sizeOfVAs i).virtualAddress) 0
    sizeOfVAs := Function.update h.sizeOfVAs i { size := 0, virtualAddress := 0 } }

/-- `free` after the search has found record `i`, or none. -/
def freeFound (h : UHeap) (virtualAddress : Nat) : Option Nat → UHeap × Option HeapCall
  | none => (h, none)
  | some i => (clearRecord h i, some (.freeMem virtualAddress (h.sizeOfVAs i).size))

/-- `free(virtual_address)`: the first record that holds the address is cleared. -/
def free (h : UHeap) (virtualAddress : Nat) : UHeap × Option HeapCall :=
  freeFound h virtualAddress (findRecord h virtualAddress)

end UserHeap
end FosMemory
