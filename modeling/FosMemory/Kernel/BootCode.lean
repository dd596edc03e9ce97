import FosMemory.Kernel.Boot

/-!
# BootCode — `FOS_initialize` as the kernel runs it

`kern/memory_manager.c` from `initialize_kernel_VM` to `initialize_paging`, `detect_memory`,
`check_boot_pgdir` and `turn_on_paging` of `kern/helpers.c`, and the loops that fill the lists of
free disk frames and free environments.

Until `turn_on_paging` returns, kernel address `KERNEL_BASE + x` is physical address `x` by
segmentation.  `boot_allocate_space` hands out memory in order and does not clear it.
-/

namespace FosMemory

/-! ## The machine -/

/-- What `FOS_initialize` finds: the CMOS, the kernel image the linker laid out, memory and disk.
`contents` is memory once the BSS section has been cleared. -/
structure Hardware where
  /-- the CMOS bytes by register -/
  nvram : Nat → BitVec 8
  endOfKernel : Nat
  ptrStackBottom : Nat
  contents : Nat → Nat → Word
  diskContents : Nat → Nat → Word

/-- `nvram_read`. -/
def Hardware.nvramRead (m : Hardware) (r : Nat) : Nat :=
  (m.nvram r).toNat + 256 * (m.nvram (r + 1)).toNat

/-- `maxpa` of `detect_memory`. -/
def Hardware.maxpa (m : Hardware) : Nat :=
  let sizeOfExtendedMem := roundDown (m.nvramRead 0x17 * 1024) pageSize
  let sizeOfOtherMem := roundDown (m.nvramRead 0x34 * 1024 * 64 % wordMod) pageSize
  if 0 < sizeOfOtherMem then (sizeOfOtherMem + 16 * 1024 * 1024) % wordMod
  else if sizeOfExtendedMem ≠ 0 then 0x100000 + sizeOfExtendedMem
  else sizeOfExtendedMem

/-- `detect_memory`: the value it leaves in `number_of_frames`. -/
def Hardware.detectMemory (m : Hardware) : Nat :=
  m.maxpa / pageSize

/-- The kernel while it boots: `ptr_free_mem` beside the rest. -/
structure BootState where
  k : Kernel
  ptrFreeMem : Nat

/-- The globals when `initialize_kernel_VM` is called. -/
def Hardware.start (m : Hardware) : BootState :=
  { k :=
      { numberOfFrames := m.detectMemory
        physPageDirectory := 0
        mem := m.contents
        references := fun _ => 0
        freeFrameList := []
        virtualAddresses := fun _ => 0
        allocatedHAddresses := fun _ => { size := 0, virtualAddress := 0, empty := 0 }
        idx := 0
        firstFreeVAInKHeap := kernelHeapStart
        disk := m.diskContents
        diskFreeFrameList := []
        envs := fun _ => Env.zero
        envFreeList := []
        curenv := none
        cr3 := 0
        pageRepAlgoType := .lru }
    ptrFreeMem := 0 }

/-- How the boot can fail to return. -/
inductive BootStop where
  /-- "K_PHYSICAL_ADDRESS called with invalid kva" -/
  | invalidKva (kva : Nat)
  /-- any other way to stop -/
  | stop (x : Stop)

/-- A kernel function called during the boot. -/
def liftStop {α : Type} : Except Stop α → Except BootStop α
  | .ok a => .ok a
  | .error x => .error (.stop x)

@[simp] theorem liftStop_ok {α : Type} (a : α) : liftStop (.ok a) = .ok a :=
  rfl

/-- `STATIC_KERNEL_PHYSICAL_ADDRESS`. -/
def staticKernelPhysicalAddress (kva : Nat) : Except BootStop Nat :=
  if kva < kernelBase then .error (.invalidKva kva) else .ok (kva - kernelBase)

/-- `assert`. -/
def BootState.check (b : BootState) (p : Bool) : Except BootStop Unit :=
  if p then .ok () else .error (.stop (.panic .assertion b.k))

/-! ## Memory before paging -/

/-- The word at a kernel address. -/
def BootState.load (b : BootState) (va : Nat) : Except BootStop Word :=
  let f := (va - kernelBase) / 4096
  if va < kernelBase ∨ b.k.numberOfFrames ≤ f then .error (.stop (.wild va))
  else .ok (b.k.mem f (va % 4096 / 4))

/-- Write the word at a kernel address. -/
def BootState.store (b : BootState) (va : Nat) (w : Word) : Except BootStop BootState :=
  let f := (va - kernelBase) / 4096
  if va < kernelBase ∨ b.k.numberOfFrames ≤ f then .error (.stop (.wild va))
  else .ok { b with k := b.k.setWord f (va % 4096 / 4) w }

/-- `memset(p, 0, size)`; every size it is called with is a multiple of four. -/
def BootState.memsetZero (b : BootState) (p size : Nat) : Except BootStop BootState :=
  Lib.forRange (fun i t => t.store (p + 4 * i) 0#32) 0 (size / 4) b

/-- `boot_allocate_space`: the address and the new `ptr_free_mem`.  The alignment asked for is not
looked at. -/
def bootAllocateSpace (m : Hardware) (b : BootState) (size _align : Nat) : Nat × BootState :=
  let ptrFreeMem := if b.ptrFreeMem = 0 then m.endOfKernel else b.ptrFreeMem
  let ptrAllocatedMem := roundUp ptrFreeMem pageSize
  (ptrAllocatedMem, { b with ptrFreeMem := (ptrAllocatedMem + size) % wordMod })

/-! ## Page tables -/

/-- `boot_get_page_table`. -/
def bootGetPageTable (m : Hardware) (b : BootState) (dir va : Nat) (create : Bool) :
    Except BootStop (Nat × BootState) := do
  let pageDirectoryEntry ← b.load (dir + 4 * pdx va)
  let physPageTable := extractAddress pageDirectoryEntry
  let ptrPageTable ← liftStop (staticKernelVirtualAddress b.k physPageTable)
  if physPageTable = 0 then
    if create then
      let alloc := bootAllocateSpace m b pageSize pageSize
      let physPageTable ← staticKernelPhysicalAddress alloc.1
      -- the table itself is left as memory was
      let b ← alloc.2.store (dir + 4 * pdx va)
        (constructEntry physPageTable (permPresent ||| permWriteable))
      .ok (alloc.1, b)
    else .ok (0, b)
  else .ok (ptrPageTable, b)

/-- One round of the loop of `boot_map_range`. -/
def bootMapPage (m : Hardware) (dir va pa : Nat) (perm : Word) (b : BootState) :
    Except BootStop BootState := do
  let r ← bootGetPageTable m b dir va true
  r.2.store (r.1 + 4 * ptx va) (constructEntry pa (perm ||| permPresent))

/-- `boot_map_range`. -/
def bootMapRange (m : Hardware) (dir va size pa : Nat) (perm : Word) (b : BootState) :
    Except BootStop BootState :=
  Lib.forRange (fun i t => bootMapPage m dir (va + 4096 * i) (pa + 4096 * i) perm t) 0
    ((size + 4095) / 4096) b

/-- `setup_listing_to_all_page_tables_entries`. -/
def setupListingToAllPageTablesEntries (b : BootState) (dir : Nat) :
    Except BootStop BootState := do
  let physFrameAddress ← staticKernelPhysicalAddress dir
  let b ← b.store (dir + 4 * pdx 0xEFC00000)
    (constructEntry physFrameAddress (permPresent ||| permWriteable))
  let physFrameAddress ← staticKernelPhysicalAddress dir
  b.store (dir + 4 * pdx 0xEF400000)
    (BitVec.ofNat 32 physFrameAddress ||| permUser ||| permPresent)

/-! ## `initialize_kernel_VM` -/

/-- `sizeof(struct Frame_Info)`. -/
@[simp] def frameInfoSize : Nat := 24

/-- `NENV * sizeof(struct Env)`, with 760 bytes for each environment. -/
@[simp] def envsSize : Nat := 1048040

/-- The page directory. -/
def bootDirectory (m : Hardware) (b : BootState) : Except BootStop BootState := do
  let alloc := bootAllocateSpace m b pageSize pageSize
  let b ← alloc.2.memsetZero alloc.1 pageSize
  let phys ← staticKernelPhysicalAddress alloc.1
  .ok { b with k := { b.k with physPageDirectory := phys } }

/-- The kernel stack, at `KERNEL_STACK_TOP - KERNEL_STACK_SIZE`. -/
def bootStack (m : Hardware) (b : BootState) : Except BootStop BootState := do
  let phys ← staticKernelPhysicalAddress m.ptrStackBottom
  bootMapRange m b.k.ptrPageDirectory (0xEFC00000 - 8 * pageSize) (8 * pageSize) phys
    permWriteable b

/-- One round of the loop that makes the tables from `KERNEL_BASE` on. -/
def bootTable (m : Hardware) (i : Nat) (b : BootState) : Except BootStop BootState := do
  let r ← bootGetPageTable m b b.k.ptrPageDirectory (kernelBase + ptSize * i) true
  .ok r.2

/-- `for (;sva < 0xFFFFFFFF; sva += PTSIZE)`; `sva` has 64 bits. -/
def bootTables (m : Hardware) (b : BootState) : Except BootStop BootState :=
  Lib.forRange (bootTable m) 0 64 b

/-- Space for an array, and the `memset` that follows. -/
def bootArray (m : Hardware) (size : Nat) (b : BootState) : Except BootStop (Nat × BootState) := do
  let alloc := bootAllocateSpace m b size pageSize
  let b ← alloc.2.memsetZero alloc.1 size
  .ok (alloc.1, b)

/-- `frames_info` is clear. -/
def BootState.clearFramesInfo (b : BootState) : BootState :=
  { b with k := { b.k with references := fun _ => 0 } }

/-- `envs` is clear. -/
def BootState.clearEnvs (b : BootState) : BootState :=
  { b with k := { b.k with envs := fun _ => Env.zero } }

/-- `frames_info` and `disk_frames_info`. -/
def bootFrameInfo (m : Hardware) (b : BootState) : Except BootStop BootState := do
  let framesInfo ← bootArray m (b.k.numberOfFrames * frameInfoSize % wordMod) b
  let diskFramesInfo ← bootArray m (pagesPerFile * frameInfoSize) framesInfo.2.clearFramesInfo
  .ok diskFramesInfo.2

/-- `envs` and its image at `UENVS`. -/
def bootEnvs (m : Hardware) (b : BootState) : Except BootStop BootState := do
  let dir := b.k.ptrPageDirectory
  let envs ← bootArray m envsSize b
  let phys ← staticKernelPhysicalAddress envs.1
  let b ← bootMapRange m dir userTop envsSize phys permUser envs.2.clearEnvs
  let pde ← b.load (dir + 4 * pdx userTop)
  b.store (dir + 4 * pdx userTop) (pde ||| (permUser ||| (permPresent &&& ~~~permWriteable)))

/-- The last `boot_map_range`: everything below `ptr_free_mem`. -/
def bootStatic (m : Hardware) (b : BootState) : Except BootStop BootState :=
  bootMapRange m b.k.ptrPageDirectory kernelBase (b.ptrFreeMem - kernelBase) 0 permWriteable b

/-! ## Checks and the switch to paging -/

/-- `check_va2pa`. -/
def checkVa2pa (b : BootState) (dir va : Nat) : Except BootStop Nat := do
  let dirEntry ← b.load (dir + 4 * pdx va)
  if dirEntry.has permPresent then
    let p ← liftStop (staticKernelVirtualAddress b.k (extractAddress dirEntry))
    let entry ← b.load (p + 4 * ptx va)
    if entry.has permPresent then .ok (extractAddress entry) else .ok 0xFFFFFFFF
  else .ok 0xFFFFFFFF

/-- Directory entries that `check_boot_pgdir` wants set. -/
def wantedEntry (i : Nat) : Bool :=
  i == pdx 0xEFC00000 || i == pdx 0xEF400000 || i == pdx (0xEFC00000 - 1) || i == pdx userTop ||
    decide (pdx kernelBase ≤ i)

/-- `check_boot_pgdir`. -/
def checkBootPgdir (m : Hardware) (b : BootState) : Except BootStop Unit := do
  let dir := b.k.ptrPageDirectory
  Lib.forRange (fun i _ => do
    let pa ← checkVa2pa b dir (kernelBase + 4096 * i)
    b.check (pa == 4096 * i)) 0 ((b.ptrFreeMem - kernelBase + 4095) / 4096) ()
  Lib.forRange (fun i _ => do
    let pa ← checkVa2pa b dir (0xEFC00000 - 8 * pageSize + 4096 * i)
    let phys ← staticKernelPhysicalAddress m.ptrStackBottom
    b.check (pa == phys + 4096 * i)) 0 8 ()
  Lib.forRange (fun i _ => do
    let entry ← b.load (dir + 4 * i)
    b.check ((entry != 0#32) == wantedEntry i)) 0 nptEntries ()

/-- `turn_on_paging`.  Between the two loops the low addresses lead to the same tables as those
from `KERNEL_BASE` on. -/
def turnOnPaging (b : BootState) : Except BootStop BootState := do
  let dir := b.k.ptrPageDirectory
  let n := pdx b.ptrFreeMem - pdx kernelBase
  let b ← Lib.forRange (fun j t => do
    let entry ← t.load (dir + 4 * (pdx kernelBase + j))
    t.store (dir + 4 * j) entry) 0 n b
  let b : BootState := { b with k := { b.k with cr3 := b.k.physPageDirectory } }
  Lib.forRange (fun j t => t.store (dir + 4 * j) 0#32) 0 n b

/-- `initialize_kernel_VM`. -/
def initializeKernelVM (m : Hardware) (b : BootState) : Except BootStop BootState := do
  let b ← bootDirectory m b
  let b ← bootStack m b
  let b ← bootTables m b
  let b ← bootFrameInfo m b
  let b ← setupListingToAllPageTablesEntries b b.k.ptrPageDirectory
  let b ← bootEnvs m b
  let b ← bootStatic m b
  checkBootPgdir m b
  turnOnPaging b

/-! ## Lists -/

/-- `frames_info[i].references = 1`. -/
def reserveFrame (s : Kernel) (i : Nat) : Kernel :=
  { s with references := Function.update s.references i 1 }

/-- `initialize_frame_info` and `LIST_INSERT_HEAD(&free_frame_list, ..)`. -/
def insertFreeFrame (s : Kernel) (i : Nat) : Kernel :=
  { s with
    references := Function.update s.references i 0
    freeFrameList := i :: s.freeFrameList }

/-- `initialize_disk_page_file`. -/
def initializeDiskPageFile (s : Kernel) : Kernel :=
  (List.range' 1 (pagesPerFile - 1)).foldl
    (fun t i => { t with diskFreeFrameList := i :: t.diskFreeFrameList })
    { s with diskFreeFrameList := [] }

/-- The loop of `initialize_paging` over the zero page and the temporary page. -/
def clearSpecialPages (s : Kernel) : Except Stop Kernel :=
  Lib.forRange (fun i t => do
    let t ← t.storeByte (kernelBase + pageSize + i) 0#8
    t.storeByte (kernelBase + 2 * pageSize + i) 0#8) 0 1024 s

/-- `initialize_paging`. -/
def initializePaging (b : BootState) : Except BootStop BootState := do
  let s := [0, 1, 2].foldl reserveFrame { b.k with freeFrameList := [] }
  let s ← liftStop (clearSpecialPages s)
  let s := (List.range' 3 (roundUp 0xA0000 pageSize / pageSize - 3)).foldl insertFreeFrame s
  let s := (List.range' (0xA0000 / pageSize) (0x100000 / pageSize - 0xA0000 / pageSize)).foldl
    reserveFrame s
  let phys ← staticKernelPhysicalAddress b.ptrFreeMem
  let rangeEnd := roundUp phys pageSize
  let s := (List.range' (0x100000 / pageSize) (rangeEnd / pageSize - 0x100000 / pageSize)).foldl
    reserveFrame s
  let s := (List.range' (rangeEnd / pageSize) (s.numberOfFrames - rangeEnd / pageSize)).foldl
    insertFreeFrame s
  .ok { b with k := initializeDiskPageFile s }

/-- `env_init`, from the last environment to the first. -/
def Kernel.envInit (s : Kernel) : Kernel :=
  (List.range nenv).reverse.foldl (fun t i => { t with envFreeList := i :: t.envFreeList }) s

/-- The part of `FOS_initialize` that sets up memory and environments. -/
def fosInitialize (m : Hardware) : Except BootStop BootState := do
  let b ← initializeKernelVM m m.start
  let b ← initializePaging b
  .ok { b with k := { b.k.envInit with pageRepAlgoType := .lru } }

end FosMemory
