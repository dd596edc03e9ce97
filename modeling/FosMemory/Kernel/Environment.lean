import FosMemory.Kernel.Paging

/-!
# Environment — `env_create` and `env_free`

`kern/user_environment.c`.  The binary of a user program is part of the kernel image; a
`UserProgram` is its name and the segments the `PROGRAM_SEGMENT_FOREACH` macro visits, each with
the bytes found at `ptr_start`.  Registers, identifiers and the scheduler's queues are left out.
-/

namespace FosMemory

open Lib

/-! ## Programs -/

/-- `struct ProgramSegment`, with the bytes at `ptr_start`. -/
structure ProgramSegment where
  virtualAddress : Nat
  sizeInFile : Nat
  sizeInMemory : Nat
  data : Nat → BitVec 8

/-- `struct UserProgramInfo`. -/
structure UserProgram where
  name : String
  segments : List ProgramSegment

/-- The word at `ptr_start + k`. -/
def ProgramSegment.word (seg : ProgramSegment) (k : Nat) : Word :=
  seg.data (k + 3) ++ seg.data (k + 2) ++ seg.data (k + 1) ++ seg.data k

/-- The page at `ptr_start + k`. -/
def ProgramSegment.page (seg : ProgramSegment) (k : Nat) : Nat → Word :=
  fun j => seg.word (k + 4 * j)

/-! ## initialize_environment -/

/-- `create_user_page_WS`. -/
def createUserPageWS (s : Kernel) (numOfElements : Nat) : Except Stop (Nat × Kernel) :=
  kmalloc s (numOfElements * 12 % wordMod)

/-- Number of pages of a range of `nBytes` bytes that starts at a page boundary. -/
def pagesOf (nBytes : Nat) : Nat :=
  (nBytes + 4095) / 4096

/-- One round of the loop that maps the working set array at `USER_PAGES_WS_START`. -/
def mapWindowPage (e k : Nat) (s : Kernel) : Except Stop Kernel := do
  let env := s.envs e
  let pa ← kheapPhysicalAddress s (env.ptrPageWorkingSet + 4096 * k)
  let f ← toFrameInfo s pa
  mapFrame s env.envPageDirectory f (env.uptrPws + 4096 * k) permUser

/-- `complete_environment_initialization`. -/
def completeEnvironmentInitialization (s : Kernel) (e : Nat) : Except Stop Kernel := do
  let env := s.envs e
  let s ← s.store (env.envPageDirectory + 4 * 959)
    (constructEntry env.envCr3 (permPresent ||| permWriteable))
  let s ← s.store (env.envPageDirectory + 4 * 957)
    (constructEntry env.envCr3 (permPresent ||| permUser))
  let s := s.setEnv e { s.envs e with diskEnvPgdir := 0, diskEnvTabledir := 0 }
  .ok { s with envFreeList := s.envFreeList.erase e }

/-- `initialize_environment`. -/
def initializeEnvironment (s : Kernel) (e dir phys : Nat) : Except Stop Kernel := do
  let s := s.setEnv e { s.envs e with envPageDirectory := dir, envCr3 := phys }
  let s ← forRange (fun i s => s.store (dir + 4 * i) 0#32) 0 955 s
  let s ← forRange (fun i s => do
    let pde ← s.load (s.ptrPageDirectory + 4 * i)
    s.store (dir + 4 * i) pde) 955 69 s
  let s := s.setEnv e { s.envs e with uptrPws := userPagesWSStart }
  let (ws, s) ← createUserPageWS s (s.envs e).pageWSMaxSize
  let s := s.setEnv e { s.envs e with ptrPageWorkingSet := ws }
  let s ← forRange (mapWindowPage e) 0 (pagesOf ((s.envs e).pageWSMaxSize * 12 % wordMod)) s
  let s ← forRange (fun i s => wsStore s e i 0 1#8 0#32) 0 (s.envs e).pageWSMaxSize s
  let s := s.setEnv e { s.envs e with
    pageLastWSIndex := 0
    tws := fun _ => { virtualAddress := 0, empty := 1, timeStamp := 0 }
    tableLastWSIndex := 0 }
  completeEnvironmentInitialization s e

/-! ## Loading a segment into memory -/

/-- `addTableToTableWorkingSet`. -/
def addTableToTableWorkingSet (s : Kernel) (e va : Nat) : Kernel :=
  let env := s.envs e
  s.setEnv e { env with
    tws := Function.update env.tws env.tableLastWSIndex
      { virtualAddress := roundDown va ptSize, empty := 0, timeStamp := 0 }
    tableLastWSIndex := (env.tableLastWSIndex + 1) % twsMaxSize }

/-- Enter a page at `page_last_WS_index` and advance the index. -/
def pushWS (s : Kernel) (e va : Nat) (timeStamp : Word) : Except Stop Kernel := do
  let i := (s.envs e).pageLastWSIndex
  let s ← wsStore s e i va 0#8 timeStamp
  .ok (setLastIndex s e (nextIndex s e i))

/-- One round of the first loop of `program_segment_alloc_map_copy_workingset`; the second
component is `*lastTableNumber`. -/
def loadPageRound (e va : Nat) (r : Kernel × Nat) : Except Stop (Kernel × Nat) := do
  let (s, lastTable) := r
  let (f, s) ← allocateFrame s
  let s ← loadtimeMapFrame s (s.envs e).envPageDirectory f va (permUser ||| permWriteable)
  let s ← pushWS s e va 0#32
  if pdx va = lastTable then .ok (s, lastTable)
  else
    let s := addTableToTableWorkingSet s e va
    if (s.envs e).tableLastWSIndex = 0 then .error (.panic .tableWorkingSetFull s)
    else .ok (s, pdx va)

/-- The pages of a segment the loader brings into memory: at most `remaining`, and at most six for
a segment at `0x200000` of any program but `tpp`. -/
def segmentPages (s : Kernel) (e : Nat) (seg : ProgramSegment) (remaining : Nat) : Nat :=
  let first := roundDown seg.virtualAddress 4096
  let limit := roundUp ((seg.virtualAddress + seg.sizeInMemory) % wordMod) 4096
  let remaining :=
    if first = 0x200000 ∧ (s.envs e).progName ≠ "tpp" then min remaining 6 else remaining
  min remaining ((limit - first) / 4096)

/-- The copy loops: the bytes of the file, then zeros up to the end of the pages in memory. -/
def copySegment (s : Kernel) (seg : ProgramSegment) (pages : Nat) : Except Stop Kernel := do
  let va := seg.virtualAddress
  let limit := roundDown va 4096 + pages * 4096
  let copied := min (limit - va) seg.sizeInFile
  let s ← forRange (fun k s => s.kernelWriteByte (va + k) (seg.data k)) 0 copied s
  forRange (fun k s => s.kernelWriteByte (va + k) 0#8) copied (limit - va - copied) s

/-- `program_segment_alloc_map_copy_workingset`: the number of pages brought in, and
`*lastTableNumber`. -/
def programSegmentAllocMapCopyWorkingset (s : Kernel) (e : Nat) (seg : ProgramSegment)
    (remaining lastTable : Nat) : Except Stop (Nat × Nat × Kernel) := do
  let first := roundDown seg.virtualAddress 4096
  let pages := segmentPages s e seg remaining
  let (s, lastTable) ←
    forRange (fun i r => loadPageRound e (first + 4096 * i) r) 0 pages (s, lastTable)
  let s ← copySegment s seg pages
  .ok (pages, lastTable, s)

/-! ## Writing a segment to the page file -/

/-- `pf_add_env_page` in `env_create`: a full page file is fatal. -/
def mustAdd (r : PfStatus × Kernel) : Except Stop Kernel :=
  if r.1 = .noPageFileSpace then .error (.panic .pageFileFull r.2) else .ok r.2

/-- Fill the temporary page with `n` bytes of the segment, from byte `src` on, at offset
`offset`. -/
def fillTempPage (s : Kernel) (seg : ProgramSegment) (offset src n : Nat) : Except Stop Kernel := do
  let s ← s.zeroPage ptrTempPage
  forRange (fun k s => s.storeByte (ptrTempPage + offset + k) (seg.data (src + k))) 0 n s

/-- The page file part of the segment loop of `env_create`. -/
def writeSegment (s : Kernel) (e : Nat) (seg : ProgramSegment) : Except Stop Kernel := do
  let va := seg.virtualAddress
  let startFirst := roundDown va 4096
  let endFirst := roundUp va 4096
  let s ← fillTempPage s seg (va - startFirst) 0 (endFirst - va)
  let s ← pfAddEnvPage s e startFirst (.pointer ptrTempPage) >>= mustAdd
  let endLast := (va + seg.sizeInFile) % wordMod
  let startLast := roundDown endLast 4096
  let full := (startLast - endFirst) / 4096
  let s ← forRange (fun i s =>
    pfAddEnvPage s e (endFirst + 4096 * i) (.image (seg.page (endFirst - va + 4096 * i))) >>= mustAdd)
    0 full s
  let s ← fillTempPage s seg 0 (endFirst - va + 4096 * full) (endLast - startLast)
  let s ← pfAddEnvPage s e startLast (.pointer ptrTempPage) >>= mustAdd
  let startRemaining := roundUp endLast 4096
  let remainingLength := (va + seg.sizeInMemory + wordMod - startRemaining) % wordMod
  forRange (fun i s =>
    pfAddEmptyEnvPage s e ((startRemaining + 4096 * i) % wordMod) true >>= mustAdd)
    0 (roundUp remainingLength 4096 / 4096) s

/-- One round of the segment loop; the state carries `remaining_ws_pages` and
`lastTableNumber`. -/
def loadSegment (e : Nat) (seg : ProgramSegment) (r : Nat × Nat × Kernel) :
    Except Stop (Nat × Nat × Kernel) := do
  let (remaining, lastTable, s) := r
  let (pages, lastTable, s) ← programSegmentAllocMapCopyWorkingset s e seg remaining lastTable
  let s ← writeSegment s e seg
  .ok (remaining - pages, lastTable, s)

def loadSegments (e : Nat) : List ProgramSegment → Nat × Nat × Kernel →
    Except Stop (Nat × Nat × Kernel)
  | [], r => .ok r
  | seg :: segs, r => loadSegment e seg r >>= loadSegments e segs

/-! ## env_create -/

/-- One round of the loop that clears the modified bits. -/
def clearModified (e i : Nat) (s : Kernel) : Except Stop Kernel := do
  let empty ← wsEmpty s e i
  if empty = 0 then
    let va ← wsVirtualAddress s e i
    let (table, _) ← getPageTable s (s.envs e).envPageDirectory va
    let w ← s.load (table + 4 * ptx va)
    s.store (table + 4 * ptx va) (w &&& ~~~permModified)
  else .ok s

/-- The initial stack page, `USTACKTOP - PAGE_SIZE`. -/
@[simp] def stackPage : Nat := 0xEEBFD000

/-- Step 9 of `env_create`. -/
def createStack (s : Kernel) (e : Nat) : Except Stop Kernel := do
  let (f, s) ← allocateFrame s
  let s ← loadtimeMapFrame s (s.envs e).envPageDirectory f stackPage (permUser ||| permWriteable)
  -- `memset((void*)stackVa, 0, PAGE_SIZE)`
  let (g, s) ← s.kernelTouch true stackPage
  let s := s.setPage g fun _ => 0#32
  let i := (s.envs e).pageLastWSIndex
  let s ← envPageWSSetEntry s e i stackPage
  let s := setLastIndex s e (nextIndex s e i)
  let (_, s) ← pfAddEmptyEnvPage s e stackPage true
  .ok s

/-- `env_create`, once the program has been found: the index of the new environment. -/
def envCreate (s : Kernel) (prog : UserProgram) (pageWSSize : Nat) :
    Except Stop (Option Nat × Kernel) := do
  match s.envFreeList with
  | [] => .ok (none, s)
  | e :: _ =>
    let s := s.setEnv e { s.envs e with progName := prog.name }
    let (dir, s) ← createUserDirectory s
    let phys ← kheapPhysicalAddress s dir
    let s := s.setEnv e { s.envs e with pageWSMaxSize := pageWSSize }
    let s ← initializeEnvironment s e dir phys
    let oldCr3 := s.cr3
    let s := { s with cr3 := (s.envs e).envCr3 }
    let (_, _, s) ← loadSegments e prog.segments ((s.envs e).pageWSMaxSize - 1, 0xFFFFFFFF, s)
    let s ← forRange (clearModified e) 0 (s.envs e).pageWSMaxSize s
    let s ← createStack s e
    .ok (some e, { s with cr3 := oldCr3 })

/-- `env_run`. -/
def envRun (s : Kernel) (e : Nat) : Kernel :=
  if s.curenv = some e then s else { s with curenv := some e, cr3 := (s.envs e).envCr3 }

/-! ## env_free -/

/-- `__remove_pws_user_pages`. -/
def removePwsUserPages (s : Kernel) (e : Nat) : Except Stop Kernel := do
  let nBytes := (s.envs e).pageWSMaxSize * 12 % wordMod
  let start := (s.envs e).uptrPws
  let s ← forRange (fun k s => unmapFrame s (s.envs e).envPageDirectory (start + 4096 * k)) 0
    (pagesOf nBytes) s
  forRange (fun k s => do
    let dir := (s.envs e).envPageDirectory
    let (table, _) ← getPageTable s dir (start + ptSize * k)
    let s ← kfree s table
    s.store (dir + 4 * pdx (start + ptSize * k)) 0#32) 0 ((nBytes + (ptSize - 1)) / ptSize) s

/-- One round of the loop over the working set in `env_free`. -/
def freePage (e i : Nat) (s : Kernel) : Except Stop Kernel := do
  let va ← envPageWSGetVirtualAddress s e i
  let empty ← wsEmpty s e i
  if empty = 0 then unmapFrame s (s.envs e).envPageDirectory va else .ok s

/-- One round of the loop over the page directory in `env_free`. -/
def freeUserTable (e i : Nat) (s : Kernel) : Except Stop Kernel := do
  let pde ← s.load ((s.envs e).envPageDirectory + 4 * i)
  if pde = 0#32 then .ok s else kfree s (kheapVirtualAddress s pde.toNat)

/-- `free_environment`. -/
def freeEnvironment (s : Kernel) (e : Nat) : Kernel :=
  { s.setEnv e Env.zero with envFreeList := e :: s.envFreeList }

/-- `env_free`. -/
def envFree (s : Kernel) (e : Nat) : Except Stop Kernel := do
  let s ← removePwsUserPages s e
  let s ← forRange (freePage e) 0 (s.envs e).pageWSMaxSize s
  let s ← kfree s (s.envs e).ptrPageWorkingSet
  let s ← forRange (freeUserTable e) 0 955 s
  let s ← kfree s (s.envs e).envPageDirectory
  let s ← pfFreeEnv s e
  .ok (freeEnvironment s e)

end FosMemory
