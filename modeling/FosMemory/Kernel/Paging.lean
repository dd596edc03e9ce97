import FosMemory.Kernel.PageFile

/-!
# Paging — working sets, page faults and the heap system calls

The working set of an environment is an array of `struct WorkingSetElement` in the kernel heap:
twelve bytes an element, the address, the byte `empty` and the time stamp.  This module models its
accessors and `allocateMem`, `freeMem` (`kern/memory_manager.c`), `page_fault_handler` and
`fault_handler` (`kern/trap.c`), `update_WS_time_stamps` (`kern/sched.c`) and
`__sys_allocate_page` (`kern/syscall.c`).  Fault counters are left out.
-/

namespace FosMemory

open Lib

/-! ## The page working set -/

/-- `&e->ptr_pageWorkingSet[i]`. -/
def wsAddress (s : Kernel) (e i : Nat) : Nat :=
  (s.envs e).ptrPageWorkingSet + 12 * i

/-- The assertion at the head of the accessors. -/
def assertIndex (s : Kernel) (e i : Nat) : Except Stop Unit :=
  if i < (s.envs e).pageWSMaxSize then .ok () else .error (.panic .assertion s)

/-- `e->ptr_pageWorkingSet[i].virtual_address`. -/
def wsVirtualAddress (s : Kernel) (e i : Nat) : Except Stop Nat := do
  let w ← s.load (wsAddress s e i)
  .ok w.toNat

/-- `e->ptr_pageWorkingSet[i].empty`, a byte. -/
def wsEmpty (s : Kernel) (e i : Nat) : Except Stop Nat := do
  let b ← s.loadByte (wsAddress s e i + 4)
  .ok b.toNat

/-- `e->ptr_pageWorkingSet[i].time_stamp`. -/
def wsTimeStamp (s : Kernel) (e i : Nat) : Except Stop Word :=
  s.load (wsAddress s e i + 8)

/-- Store the three fields of an element. -/
def wsStore (s : Kernel) (e i va : Nat) (empty : BitVec 8) (timeStamp : Word) :
    Except Stop Kernel := do
  let a := wsAddress s e i
  let s ← s.store a (BitVec.ofNat 32 va)
  let s ← s.storeByte (a + 4) empty
  s.store (a + 8) timeStamp

/-- `env_page_ws_get_size`. -/
def envPageWSGetSize (s : Kernel) (e : Nat) : Except Stop Nat :=
  forRange (fun i counter => do
    let empty ← wsEmpty s e i
    .ok (if empty = 0 then counter + 1 else counter)) 0 (s.envs e).pageWSMaxSize 0

/-- `env_page_ws_set_entry`. -/
def envPageWSSetEntry (s : Kernel) (e i va : Nat) : Except Stop Kernel := do
  let _ ← assertIndex s e i
  if va < userTop then wsStore s e i (roundDown va 4096) 0#8 0x80000000#32
  else .error (.panic .assertion s)

/-- `env_page_ws_clear_entry`. -/
def envPageWSClearEntry (s : Kernel) (e i : Nat) : Except Stop Kernel := do
  let _ ← assertIndex s e i
  wsStore s e i 0 1#8 0#32

/-- `env_page_ws_get_virtual_address`. -/
def envPageWSGetVirtualAddress (s : Kernel) (e i : Nat) : Except Stop Nat := do
  let _ ← assertIndex s e i
  let va ← wsVirtualAddress s e i
  .ok (roundDown va 4096)

/-- `env_page_ws_get_time_stamp`. -/
def envPageWSGetTimeStamp (s : Kernel) (e i : Nat) : Except Stop Nat := do
  let _ ← assertIndex s e i
  let w ← wsTimeStamp s e i
  .ok w.toNat

/-- `e->page_last_WS_index = i`. -/
def setLastIndex (s : Kernel) (e i : Nat) : Kernel :=
  s.setEnv e { s.envs e with pageLastWSIndex := i }

/-- The index after `i`, modulo `page_WS_max_size`. -/
def nextIndex (s : Kernel) (e i : Nat) : Nat :=
  (i + 1) % (s.envs e).pageWSMaxSize

/-! ## Replacement -/

/-- The LRU scan: the first index with the least time stamp below `1e9`, else `start`. -/
def lruVictim (s : Kernel) (e start : Nat) : Except Stop Nat := do
  let r ← forRange (fun i (r : Nat × Nat) => do
    let time ← envPageWSGetTimeStamp s e i
    .ok (if time < r.2 then (i, time) else r)) 0 (s.envs e).pageWSMaxSize (start, 1000000000)
  .ok r.1

/-- The CLOCK sweep.  Every round that does not end it clears one used bit, so a sweep of
`page_WS_max_size + 1` rounds has either ended or never will. -/
def clockVictim (e : Nat) : Nat → Kernel → Nat → Except Stop (Nat × Kernel)
  | 0, _, _ => .error .loops
  | rounds + 1, s, i => do
    let killVA ← envPageWSGetVirtualAddress s e i
    let (pageT, _) ← getPageTable s (s.envs e).envPageDirectory killVA
    let pte ← s.load (pageT + 4 * ptx killVA)
    if pte &&& permUsed = 0#32 then .ok (i, s)
    else
      let s ← s.store (pageT + 4 * ptx killVA) (pte &&& ~~~permUsed)
      clockVictim e rounds s (nextIndex s e i)

/-- The index `page_fault_handler` will replace when the working set is full. -/
def victim (s : Kernel) (e start : Nat) : Except Stop (Nat × Kernel) :=
  match s.pageRepAlgoType with
  | .lru => do
    let i ← lruVictim s e start
    .ok (i, s)
  | .clock => clockVictim e ((s.envs e).pageWSMaxSize + 1) s start
  | .fifo | .modifiedClock => .ok (start, s)

/-- Remove the page at index `i`: write it back if it was modified, unmap it, clear the entry. -/
def evict (s : Kernel) (e i : Nat) : Except Stop Kernel := do
  let va ← envPageWSGetVirtualAddress s e i
  let dir := (s.envs e).envPageDirectory
  let (found, pageTable) ← getFrameInfo s dir va
  let perm ← s.load (pageTable + 4 * ptx va)
  let s ←
    if perm &&& permModified = 0#32 then .ok s
    else
      match found with
      | none => .error (.wild 0)
      | some f => do
        let (_, s) ← pfUpdateEnvPage s e va f
        .ok s
  let s ← unmapFrame s dir va
  envPageWSClearEntry s e i

/-- The search for an empty entry, through the read-only window of the current directory.  It reads
the same bytes over and over, so `page_WS_max_size` rounds decide it. -/
def emptySlot (e : Nat) : Nat → Kernel → Nat → Except Stop (Nat × Kernel)
  | 0, _, _ => .error .loops
  | rounds + 1, s, i => do
    let a := (s.envs e).uptrPws + 12 * i + 4
    let (f, s) ← s.kernelTouch false a
    if (s.mem f (a % 4096 / 4)).byte (a % 4) ≠ 0#8 then .ok (i, s)
    else emptySlot e rounds s (nextIndex s e i)

/-! ## Faults -/

/-- The permissions `page_fault_handler` maps a page with. -/
def permFaultPage : Word := permUser ||| permWriteable ||| permPresent ||| permUsed

/-- The first part of `page_fault_handler`: make room and find the entry to use. -/
def makeRoom (s : Kernel) (e : Nat) : Except Stop (Nat × Kernel) := do
  let i := (s.envs e).pageLastWSIndex
  let size ← envPageWSGetSize s e
  let (i, s) ←
    if (s.envs e).pageWSMaxSize ≤ size then do
      let (i, s) ← victim s e i
      let s ← evict s e i
      .ok (i, s)
    else .ok (i, s)
  emptySlot e ((s.envs e).pageWSMaxSize + 1) s i

/-- The second part: bring the page in and enter it at index `i`. -/
def placePage (s : Kernel) (e faultVa i : Nat) : Except Stop Kernel := do
  let dir := (s.envs e).envPageDirectory
  let (f, s) ← allocateFrame s
  let s ← mapFrame s dir f faultVa permFaultPage
  let (r, s) ← pfReadEnvPage s e faultVa
  let s ←
    match r with
    | .ok => envPageWSSetEntry s e i faultVa
    | .pageNotExistInPf =>
      if faultVa < userStackTop ∧ userStackBottom ≤ faultVa then do
        let (_, s) ← pfAddEmptyEnvPage s e faultVa false
        envPageWSSetEntry s e i faultVa
      else do
        let s ← unmapFrame s dir faultVa
        .error (.panic .notStack s)
    | .noPageFileSpace => .ok s
  .ok (setLastIndex s e (nextIndex s e i))

/-- `page_fault_handler`. -/
def pageFaultHandler (s : Kernel) (e faultVa : Nat) : Except Stop Kernel := do
  let (i, s) ← makeRoom s e
  placePage s e faultVa i

/-- `fault_handler`, for the environment that is running: a table fault creates the table, a page
fault goes to `page_fault_handler`. -/
def faultHandler (s : Kernel) (e faultVa : Nat) : Except Stop Kernel := do
  let dir := (s.envs e).envPageDirectory
  let pde ← s.load (dir + 4 * pdx faultVa)
  if pde.has permPresent then pageFaultHandler s e faultVa
  else
    let (_, s) ← createPageTable s dir faultVa
    .ok s

/-! ## Ageing -/

/-- `pt_get_page_permissions`. -/
def ptGetPagePermissions (s : Kernel) (e va : Nat) : Except Stop Word := do
  let pde ← s.load ((s.envs e).envPageDirectory + 4 * pdx va)
  if pde.has permPresent then
    let table ← tablePointer s va pde
    let w ← s.load (table + 4 * ptx va)
    .ok (w &&& 0xFFF#32)
  else if pde ≠ 0#32 then .error .tableOnDisk
  else .ok 0#32

/-- The new time stamp of a page or a table. -/
def aged (used : Bool) (timeStamp : Word) : Word :=
  if used then (timeStamp >>> 2) ||| 0x80000000#32 else timeStamp >>> 2

/-- One round of the first loop of `update_WS_time_stamps`. -/
def agePage (e i : Nat) (s : Kernel) : Except Stop Kernel := do
  let empty ← wsEmpty s e i
  if empty ≠ 1 then
    let va ← wsVirtualAddress s e i
    let perm ← ptGetPagePermissions s e va
    let old ← wsTimeStamp s e i
    if perm &&& permUsed ≠ 0#32 then
      let s ← s.store (wsAddress s e i + 8) (aged true old)
      ptSetPagePermissions s e va 0#32 permUsed
    else s.store (wsAddress s e i + 8) (aged false old)
  else .ok s

/-- `__TWS_MAX_SIZE`. -/
@[simp] def twsMaxSize : Nat := 50

/-- One round of the second loop: the tables the loader has recorded. -/
def ageTable (e t : Nat) (s : Kernel) : Except Stop Kernel := do
  let elem := (s.envs e).tws t
  if elem.empty ≠ 1 then
    let a := (s.envs e).envPageDirectory + 4 * pdx elem.virtualAddress
    let pde ← s.load a
    let used := pde.has permUsed
    let elem' := { elem with timeStamp := (aged used (BitVec.ofNat 32 elem.timeStamp)).toNat }
    let s := s.setEnv e { s.envs e with tws := Function.update (s.envs e).tws t elem' }
    if used then s.store a (pde &&& ~~~permUsed) else .ok s
  else .ok s

/-- `update_WS_time_stamps`. -/
def updateWSTimeStamps (s : Kernel) : Except Stop Kernel :=
  match s.curenv with
  | none => .ok s
  | some e => do
    let s ← forRange (agePage e) 0 (s.envs e).pageWSMaxSize s
    forRange (ageTable e) 0 twsMaxSize s

/-! ## allocateMem and freeMem -/

/-- `allocateMem`.  The answer of `pf_add_empty_env_page` is not looked at. -/
def allocateMem (s : Kernel) (e va size : Nat) : Except Stop Kernel :=
  forRange (fun i s => do
    let (_, s) ← pfAddEmptyEnvPage s e ((va + 4096 * i) % wordMod) false
    .ok s) 0 ((size + 4095) % wordMod / 4096) s

/-- The inner loop of `freeMem`: drop the page at `va` from the working set and from memory. -/
def freeResident (e va : Nat) : Nat → Nat → Kernel → Except Stop Kernel
  | 0, _, s => .ok s
  | n + 1, i, s => do
    let w ← wsVirtualAddress s e i
    if w = va then
      let s ← envPageWSClearEntry s e i
      unmapFrame s (s.envs e).envPageDirectory va
    else freeResident e va n (i + 1) s

/-- The scan of `freeMem` over a page table: is every entry zero? -/
def tableEmpty (s : Kernel) (table : Nat) : Nat → Nat → Except Stop Bool
  | 0, _ => .ok true
  | n + 1, j => do
    let w ← s.load (table + 4 * j)
    if w ≠ 0#32 then .ok false else tableEmpty s table n (j + 1)

/-- One round of the last loop of `freeMem`: remove the table of address `i` if it is empty. -/
def freeTable (e i : Nat) (s : Kernel) : Except Stop Kernel := do
  let dir := (s.envs e).envPageDirectory
  let (table, _) ← getPageTable s dir i
  if table = 0 then .ok s
  else if ← tableEmpty s table 1024 0 then
    let s ← kfree s table
    s.store (dir + 4 * pdx i) 0#32
  else .ok s

/-- `freeMem`.  The last loop runs while `i <= virtual_address+size`; when that sum is in the last
four megabytes no `uint32` exceeds it and the loop never ends. -/
def freeMem (s : Kernel) (e va size : Nat) : Except Stop Kernel := do
  let va := roundDown va 4096
  let size := roundUp size 4096
  let s ← forRange (fun i s => pfRemoveEnvPage s e ((va + 4096 * i) % wordMod)) 0 (size / 4096) s
  let s ← forRange (fun j s =>
    freeResident e ((va + 4096 * j) % wordMod) (s.envs e).pageWSMaxSize 0 s) 0 (size / 4096) s
  let first := roundDown va ptSize
  let last := (va + size) % wordMod
  if first ≤ last then
    let s ← forRange (fun k s => freeTable e (first + ptSize * k) s) 0
      ((last - first) / ptSize + 1) s
    if wordMod - ptSize ≤ last then .error .loops else .ok s
  else .ok s

/-! ## SYS_allocate_page -/

/-- `PERM_AVAILABLE`. -/
def permAvailable : Word := 0xE00#32

/-- `__sys_allocate_page`: `none` is `E_INVAL`.  The frame is taken before the arguments are
checked. -/
def sysAllocatePage (s : Kernel) (e va : Nat) (perm : Word) : Except Stop (Option Unit × Kernel) := do
  let (f, s) ← allocateFrame s
  if userTop ≤ va ∨ va % 4096 ≠ 0 then .ok (none, s)
  else if perm &&& (~~~permAvailable &&& ~~~permWriteable) ≠ permUser then .ok (none, s)
  else
    let dir := (s.envs e).envPageDirectory
    let s ← mapFrame s dir f userLimit permWriteable
    let s ← s.zeroPage userLimit
    let s := incrementReferences s f
    let s ← unmapFrame s dir userLimit
    let s := { s with references := Function.update s.references f (predUint16 (s.references f)) }
    let s ← mapFrame s dir f va perm
    .ok (some (), s)

end FosMemory
