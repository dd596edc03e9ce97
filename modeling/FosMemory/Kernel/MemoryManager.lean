import FosMemory.Kernel.State
import FosMemory.Lib.FirstIndex

/-!
# MemoryManager — frames, mappings and the kernel heap

`kern/memory_manager.c` from `allocate_frame` to `loadtime_map_frame`, and `kern/kheap.c` with the
allocator the kernel is built with (`kmalloc`, `kfree` and the two translations).  The page
buffering code is left out: no function of the repository ever sets `isBuffered`.

`map_frame` creates page tables through `kmalloc`, which maps its own pages through `map_frame`.
The recursion is opened by a parameter: `mapFrameWith create` is `map_frame` with `create` in the
place of `create_page_table`.
-/

namespace FosMemory

/-! ## Physical frames -/

/-- `to_physical_address`. -/
def toPhysicalAddress (f : Nat) : Nat :=
  f * 4096 % wordMod

/-- `to_frame_info`. -/
def toFrameInfo (s : Kernel) (pa : Nat) : Except Stop Nat :=
  if s.numberOfFrames ≤ pa / 4096 then .error (.panic .invalidPa s) else .ok (pa / 4096)

/-- `STATIC_KERNEL_VIRTUAL_ADDRESS`. -/
def staticKernelVirtualAddress (s : Kernel) (pa : Nat) : Except Stop Nat :=
  if s.numberOfFrames ≤ pa / 4096 then .error (.panic .invalidStaticPa s)
  else .ok ((pa + kernelBase) % wordMod)

/-- `allocate_frame`; `initialize_frame_info` clears the reference count. -/
def allocateFrame (s : Kernel) : Except Stop (Nat × Kernel) :=
  match s.freeFrameList with
  | [] => .error (.panic .outOfMemory s)
  | f :: rest =>
    .ok (f, { s with freeFrameList := rest, references := Function.update s.references f 0 })

/-- `free_frame`. -/
def freeFrame (s : Kernel) (f : Nat) : Kernel :=
  { s with references := Function.update s.references f 0, freeFrameList := f :: s.freeFrameList }

/-- `++(ptr_frame_info->references)`. -/
def incrementReferences (s : Kernel) (f : Nat) : Kernel :=
  { s with references := Function.update s.references f ((s.references f + 1) % 65536) }

/-- `--r` for a `uint16`. -/
def predUint16 (r : Nat) : Nat :=
  if r = 0 then 65535 else r - 1

/-- `decrement_references`. -/
def decrementReferences (s : Kernel) (f : Nat) : Kernel :=
  let r := predUint16 (s.references f)
  if r = 0 then freeFrame s f else { s with references := Function.update s.references f r }

/-! ## Page tables -/

/-- `kheap_virtual_address`. -/
def kheapVirtualAddress (s : Kernel) (pa : Nat) : Nat :=
  s.virtualAddresses (pa / 4096)

/-- The two answers of `get_page_table`. -/
inductive TableStatus where
  | inMemory
  | notExist
  deriving DecidableEq, Repr

/-- The pointer to the page table behind a directory entry: the reverse map of the kernel heap for
user addresses, the static kernel mapping for kernel addresses. -/
def tablePointer (s : Kernel) (va : Nat) (pde : Word) : Except Stop Nat :=
  if isKernelAddress va then staticKernelVirtualAddress s (extractAddress pde)
  else .ok (kheapVirtualAddress s (extractAddress pde))

/-- `get_page_table`.  An entry that is neither zero nor present stands for a table on disk, which
the source fetches through `fault_handler`; no function writes such an entry. -/
def getPageTable (s : Kernel) (dir va : Nat) : Except Stop (Nat × TableStatus) := do
  let pde ← s.load (dir + 4 * pdx va)
  let ptrPageTable ← tablePointer s va pde
  if pde.has permPresent then .ok (ptrPageTable, .inMemory)
  else if pde ≠ 0#32 then .error .tableOnDisk
  else .ok (0, .notExist)

/-- `get_frame_info`: the frame mapped at `va`, and the page table pointer. -/
def getFrameInfo (s : Kernel) (dir va : Nat) : Except Stop (Option Nat × Nat) := do
  let (ptrPageTable, _) ← getPageTable s dir va
  if ptrPageTable ≠ 0 then
    let pte ← s.load (ptrPageTable + 4 * ptx va)
    if pte ≠ 0#32 then
      let f ← toFrameInfo s (extractAddress pte)
      .ok (some f, ptrPageTable)
    else .ok (none, ptrPageTable)
  else .ok (none, ptrPageTable)

/-- `unmap_frame`. -/
def unmapFrame (s : Kernel) (dir va : Nat) : Except Stop Kernel := do
  match ← getFrameInfo s dir va with
  | (none, _) => .ok s
  | (some f, ptrPageTable) => (decrementReferences s f).store (ptrPageTable + 4 * ptx va) 0#32

/-- The last two statements of `map_frame` and `loadtime_map_frame`. -/
def enterFrame (s : Kernel) (ptrPageTable f va : Nat) (perm : Word) : Except Stop Kernel :=
  (incrementReferences s f).store (ptrPageTable + 4 * ptx va)
    (constructEntry (toPhysicalAddress f) (perm ||| permPresent))

/-- `map_frame`, with `create` for `create_page_table`. -/
def mapFrameWith (create : Kernel → Nat → Nat → Except Stop (Nat × Kernel)) (s : Kernel)
    (dir f va : Nat) (perm : Word) : Except Stop Kernel := do
  let (found, status) ← getPageTable s dir va
  let (ptrPageTable, s) ← if status = .notExist then create s dir va else .ok (found, s)
  let pte ← s.load (ptrPageTable + 4 * ptx va)
  if pte.has permPresent then
    if extractAddress pte = toPhysicalAddress f then .ok s
    else
      let s ← unmapFrame s dir va
      enterFrame s ptrPageTable f va perm
  else enterFrame s ptrPageTable f va perm

/-! ## Kernel heap -/

/-- `(KERNEL_HEAP_MAX-KERNEL_HEAP_START+1)/PAGE_SIZE`, the length of `allocatedHAddresses`. -/
@[simp] def heapRecords : Nat := 40959

/-- `kheap_physical_address`. -/
def kheapPhysicalAddress (s : Kernel) (va : Nat) : Except Stop Nat := do
  let (pageTable, _) ← getPageTable s s.ptrPageDirectory va
  let pte ← s.load (pageTable + 4 * ptx va)
  .ok (pte.frame * 4096)

/-- `create_page_table` as `kmalloc` reaches it: `kmalloc` would need a page of the very table it
is about to create. -/
def createHeapTable (_ : Kernel) (_ _ : Nat) : Except Stop (Nat × Kernel) :=
  .error .loops

/-- One round of the loop of `kmalloc`. -/
def kmallocPage (s : Kernel) : Except Stop Kernel := do
  let (f, s) ← allocateFrame s
  let va := s.firstFreeVAInKHeap
  let s ← mapFrameWith createHeapTable s s.ptrPageDirectory f va (permPresent ||| permWriteable)
  .ok { s with
    virtualAddresses := Function.update s.virtualAddresses (toPhysicalAddress f / 4096) va
    firstFreeVAInKHeap := (va + 4096) % wordMod }

/-- Pages of a request: `(size+PAGE_SIZE-1)/PAGE_SIZE`. -/
def heapPages (size : Nat) : Nat :=
  (size + 4095) % wordMod / 4096

/-- The test of `kmalloc` that refuses a request of `n` pages. -/
def heapFull (s : Kernel) (n : Nat) : Bool :=
  decide ((kernelHeapMax + wordMod - n * 4096 % wordMod) % wordMod ≤ s.firstFreeVAInKHeap)

/-- `kmalloc`: the address (`0` for `NULL`) and the new state. -/
def kmalloc (s : Kernel) (size : Nat) : Except Stop (Nat × Kernel) := do
  let n := heapPages size
  if heapFull s n then .ok (0, s)
  else
    let retVal := s.firstFreeVAInKHeap
    let s ← Lib.forRange (fun _ t => kmallocPage t) 0 n s
    .ok (retVal, { s with
      allocatedHAddresses := Function.update s.allocatedHAddresses s.idx
        { size := n, virtualAddress := retVal, empty := 0 }
      idx := s.idx + 1 })

/-- One round of the second loop of `kfree`. -/
def kfreePage (s : Kernel) (va : Nat) : Except Stop Kernel := do
  let pa ← kheapPhysicalAddress s va
  let s := { s with virtualAddresses := Function.update s.virtualAddresses (pa / 4096) 0 }
  unmapFrame s s.ptrPageDirectory va

/-- The search of `kfree` for the record of an address. -/
def findRecord (s : Kernel) (va : Nat) : Option Nat :=
  Lib.firstIndex heapRecords fun i => (s.allocatedHAddresses i).virtualAddress == va

/-- `kfree` once the search has ended.  Without a record `index` keeps no value and the store
through it goes anywhere. -/
def kfreeFound (s : Kernel) (va : Nat) : Option Nat → Except Stop Kernel
  | none => .error .uninitialised
  | some index => do
    let s ← Lib.forRange (fun i t => kfreePage t (va + 4096 * i)) 0
      (s.allocatedHAddresses index).size s
    .ok { s with
      allocatedHAddresses := Function.update s.allocatedHAddresses index
        { s.allocatedHAddresses index with empty := 1 } }

/-- `kfree`. -/
def kfree (s : Kernel) (va : Nat) : Except Stop Kernel :=
  kfreeFound s va (findRecord s va)

/-! ## User page tables -/

/-- `create_page_table`. -/
def createPageTable (s : Kernel) (dir va : Nat) : Except Stop (Nat × Kernel) := do
  let (pageTableAddr, s) ← kmalloc s 4096
  if pageTableAddr = 0 then .ok (0, s)
  else
    let pa ← kheapPhysicalAddress s pageTableAddr
    let s ← s.zeroPage pageTableAddr
    let s ← s.store (dir + 4 * pdx va) (constructEntry pa permUserPage)
    .ok (pageTableAddr, s)

/-- `map_frame`. -/
def mapFrame (s : Kernel) (dir f va : Nat) (perm : Word) : Except Stop Kernel :=
  mapFrameWith createPageTable s dir f va perm

/-- `loadtime_map_frame`, which never looks at the old entry. -/
def loadtimeMapFrame (s : Kernel) (dir f va : Nat) (perm : Word) : Except Stop Kernel := do
  let pde ← s.load (dir + 4 * pdx va)
  let found ← tablePointer s va pde
  let (ptrPageTable, s) ← if pde = 0#32 then createPageTable s dir va else .ok (found, s)
  enterFrame s ptrPageTable f va perm

/-- `create_user_directory`. -/
def createUserDirectory (s : Kernel) : Except Stop (Nat × Kernel) := do
  let (allocatedAddress, s) ← kmalloc s 4096
  let s ← s.zeroPage allocatedAddress
  .ok (allocatedAddress, s)

end FosMemory
