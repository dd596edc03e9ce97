import FosMemory.Kernel.MemoryManager

/-!
# PageFile — the processor's view of memory and `kern/file_manager.c`

An access below `USER_TOP` walks the directory in `cr3` and leaves its mark in the entries it
went through: `PERM_USED`, and `PERM_MODIFIED` for a write.  The page file keeps, for every
environment, a two-level table of disk frame numbers in the kernel heap and the frames nobody uses
on `disk_free_frame_list`.  `ide_read` and `ide_write` are taken to succeed.
-/

namespace FosMemory

/-! ## Accesses through the current directory -/

/-- The permissions an access needs, in the directory entry as in the table entry.  The kernel runs
with `CR0_WP` set, so its own writes need `PERM_WRITEABLE` too. -/
def accessPerm (user write : Bool) : Word :=
  permPresent ||| (if write then permWriteable else 0#32) ||| (if user then permUser else 0#32)

/-- The bits an access sets in the table entry. -/
def accessMark (write : Bool) : Word :=
  if write then permUsed ||| permModified else permUsed

/-- An access to the page of `va`: the frame behind it and the state with the entries marked.
`none` is a page fault. -/
def Kernel.touch (s : Kernel) (user write : Bool) (va : Nat) : Option (Nat × Kernel) :=
  let fd := s.cr3 / 4096
  let pde := s.mem fd (pdx va)
  let pte := s.mem pde.frame (ptx va)
  if pde.has (accessPerm user write) ∧ pte.has (accessPerm user write) then
    -- the kernel's half is left alone: its marks are not recorded
    if isKernelAddress va then some (pte.frame, s)
    else
      some (pte.frame, (s.setWord fd (pdx va) (pde ||| permUsed)).setWord pde.frame (ptx va)
        (pte ||| accessMark write))
  else none

/-- An access by the kernel itself; a fault there is not handled. -/
def Kernel.kernelTouch (s : Kernel) (write : Bool) (va : Nat) : Except Stop (Nat × Kernel) :=
  match s.touch false write va with
  | none => .error (.wild va)
  | some r => .ok r

/-- Read the byte at `va`. -/
def Kernel.readByte (s : Kernel) (user : Bool) (va : Nat) : Option (BitVec 8 × Kernel) :=
  (s.touch user false va).map fun (f, t) => ((t.mem f (va % 4096 / 4)).byte (va % 4), t)

/-- Write the byte at `va`. -/
def Kernel.writeByte (s : Kernel) (user : Bool) (va : Nat) (v : BitVec 8) : Option Kernel :=
  (s.touch user true va).map fun (f, t) =>
    t.setWord f (va % 4096 / 4) ((t.mem f (va % 4096 / 4)).setByte (va % 4) v)

/-- The kernel writes the byte at a user address. -/
def Kernel.kernelWriteByte (s : Kernel) (va : Nat) (v : BitVec 8) : Except Stop Kernel :=
  match s.writeByte false va v with
  | none => .error (.wild va)
  | some t => .ok t

/-- Replace the contents of a frame. -/
def Kernel.setPage (s : Kernel) (f : Nat) (page : Nat → Word) : Kernel :=
  { s with mem := Function.update s.mem f page }

/-- The page at a page-aligned kernel address. -/
def Kernel.loadPage (s : Kernel) (a : Nat) : Except Stop (Nat → Word) :=
  let pte := s.kernelEntry a
  if pte.has permPresent then .ok (s.mem pte.frame) else .error (.wild a)

/-! ## The disk -/

/-- What the page file functions answer. -/
inductive PfStatus where
  | ok
  /-- `E_NO_PAGE_FILE_SPACE` -/
  | noPageFileSpace
  /-- `E_PAGE_NOT_EXIST_IN_PF` -/
  | pageNotExistInPf
  deriving DecidableEq, Repr

/-- `write_disk_page`. -/
def writeDiskPage (s : Kernel) (dfn : Nat) (page : Nat → Word) : Kernel :=
  { s with disk := Function.update s.disk dfn page }

/-- `read_disk_page`: the page at `va` in the current directory is overwritten. -/
def readDiskPage (s : Kernel) (dfn va : Nat) : Except Stop Kernel := do
  let (f, s) ← s.kernelTouch true va
  .ok (s.setPage f (s.disk dfn))

/-- `allocate_disk_frame`; `none` is `E_NO_PAGE_FILE_SPACE`. -/
def allocateDiskFrame (s : Kernel) : Option (Nat × Kernel) :=
  match s.diskFreeFrameList with
  | [] => none
  | dfn :: rest => some (dfn, { s with diskFreeFrameList := rest })

/-- `free_disk_frame`. -/
def freeDiskFrame (s : Kernel) (dfn : Nat) : Kernel :=
  if dfn = 0 then s else { s with diskFreeFrameList := dfn :: s.diskFreeFrameList }

/-! ## Disk tables -/

/-- Store a changed environment record. -/
def Kernel.setEnv (s : Kernel) (e : Nat) (env : Env) : Kernel :=
  { s with envs := Function.update s.envs e env }

/-- `get_disk_page_directory(ptr_env, &(ptr_env->disk_env_pgdir))`. -/
def getDiskPageDirectory (s : Kernel) (e : Nat) : Except Stop Kernel := do
  if (s.envs e).diskEnvPgdir = 0 then
    let (dir, s) ← kmalloc s 4096
    let s := s.setEnv e { s.envs e with diskEnvPgdir := dir }
    if dir = 0 then .ok s
    else
      let _ ← kheapPhysicalAddress s dir
      s.zeroPage dir
  else .ok s

/-- `get_disk_page_table`: the pointer to the table, `0` where there is none. -/
def getDiskPageTable (s : Kernel) (dir va : Nat) (create : Bool) :
    Except Stop (Nat × Kernel) := do
  let pde ← s.load (dir + 4 * pdx va)
  let found ← tablePointer s va pde
  if pde = 0#32 then
    if create then
      let (table, s) ← kmalloc s 4096
      if table = 0 then .ok (0, s)
      else
        let pa ← kheapPhysicalAddress s table
        let s ← s.store (dir + 4 * pdx va) (constructEntry pa permPresent)
        let s ← s.zeroPage table
        .ok (table, s)
    else .ok (0, s)
  else .ok (found, s)

/-- The first half of `pf_add_env_page` and `pf_add_empty_env_page`: the disk frame of the page,
allocated if there was none. -/
def pfSlot (s : Kernel) (e va : Nat) : Except Stop (Option Nat × Kernel) := do
  if kernelBase ≤ va then .error (.panic .assertion s)
  else
    let s ← getDiskPageDirectory s e
    let (table, s) ← getDiskPageTable s (s.envs e).diskEnvPgdir va true
    let w ← s.load (table + 4 * ptx va)
    if w = 0#32 then
      match allocateDiskFrame s with
      | none => .ok (none, s)
      | some (dfn, s) =>
        let s ← s.store (table + 4 * ptx va) (BitVec.ofNat 32 dfn)
        .ok (some dfn, s)
    else .ok (some w.toNat, s)

/-- Where `pf_add_env_page` takes the page from: a page of the kernel, or the image of a
program. -/
inductive DataSrc where
  | pointer (a : Nat)
  | image (page : Nat → Word)

def DataSrc.read (s : Kernel) : DataSrc → Except Stop (Nat → Word)
  | .pointer a => s.loadPage a
  | .image page => .ok page

/-- `pf_add_env_page`. -/
def pfAddEnvPage (s : Kernel) (e va : Nat) (dataSrc : DataSrc) : Except Stop (PfStatus × Kernel) := do
  match ← pfSlot s e va with
  | (none, s) => .ok (.noPageFileSpace, s)
  | (some dfn, s) =>
    let page ← dataSrc.read s
    .ok (.ok, writeDiskPage s dfn page)

/-- `ptr_zero_page`. -/
@[simp] def ptrZeroPage : Nat := 0xF0001000

/-- `ptr_temp_page`. -/
@[simp] def ptrTempPage : Nat := 0xF0002000

/-- `pf_add_empty_env_page`. -/
def pfAddEmptyEnvPage (s : Kernel) (e va : Nat) (initializeByZero : Bool) :
    Except Stop (PfStatus × Kernel) := do
  if initializeByZero then pfAddEnvPage s e va (.pointer ptrZeroPage)
  else
    match ← pfSlot s e va with
    | (none, s) => .ok (.noPageFileSpace, s)
    | (some _, s) => .ok (.ok, s)

/-- The disk frame of a page without creating anything, `0` where there is none. -/
def pfLookup (s : Kernel) (e va : Nat) : Except Stop Nat := do
  let (table, s) ← getDiskPageTable s (s.envs e).diskEnvPgdir va false
  if table = 0 then .ok 0
  else
    let w ← s.load (table + 4 * ptx va)
    .ok w.toNat

/-- The frame is mapped at `USER_LIMIT` while the disk is written; the reference `map_frame` adds is
taken back by hand. -/
def pfUpdateEnvPage (s : Kernel) (e va f : Nat) : Except Stop (PfStatus × Kernel) := do
  if kernelBase ≤ va then .error (.panic .assertion s)
  else
    let s ← getDiskPageDirectory s e
    let dfn ← pfLookup s e va
    if dfn = 0 then .ok (.pageNotExistInPf, s)
    else
      let dir := (s.envs e).envPageDirectory
      let s ← mapFrame s dir f userLimit 0#32
      let page ← s.loadPage userLimit
      let s := writeDiskPage s dfn page
      let s := incrementReferences s f
      let s ← unmapFrame s dir userLimit
      .ok (.ok, { s with
        references := Function.update s.references f (predUint16 (s.references f)) })

/-- `pt_set_page_permissions`.  The branch for a table on disk is left out as in `get_page_table`. -/
def ptSetPagePermissions (s : Kernel) (e va : Nat) (toSet toClear : Word) : Except Stop Kernel := do
  let dir := (s.envs e).envPageDirectory
  let pde ← s.load (dir + 4 * pdx va)
  if pde.has permPresent then
    let table ← tablePointer s va pde
    let w ← s.load (table + 4 * ptx va)
    let s ← s.store (table + 4 * ptx va) (w ||| toSet)
    let w ← s.load (table + 4 * ptx va)
    s.store (table + 4 * ptx va) (w &&& ~~~toClear)
  else if pde ≠ 0#32 then .error .tableOnDisk
  else .error (.panic .noPageTable s)

/-- `pf_read_env_page`.  The modified bit is cleared in the table of `curenv`, whoever `ptr_env`
is. -/
def pfReadEnvPage (s : Kernel) (e va : Nat) : Except Stop (PfStatus × Kernel) := do
  let va := roundDown va 4096
  if (s.envs e).diskEnvPgdir = 0 then .ok (.pageNotExistInPf, s)
  else
    let dfn ← pfLookup s e va
    if dfn = 0 then .ok (.pageNotExistInPf, s)
    else
      let s ← readDiskPage s dfn va
      match s.curenv with
      | none => .error (.wild 0)
      | some cur =>
        let s ← ptSetPagePermissions s cur va 0#32 permModified
        .ok (.ok, s)

/-- `pf_remove_env_page`. -/
def pfRemoveEnvPage (s : Kernel) (e va : Nat) : Except Stop Kernel := do
  if (s.envs e).diskEnvPgdir = 0 then .ok s
  else
    let (table, s) ← getDiskPageTable s (s.envs e).diskEnvPgdir va false
    if table = 0 then .ok s
    else
      let w ← s.load (table + 4 * ptx va)
      let s ← s.store (table + 4 * ptx va) 0#32
      .ok (freeDiskFrame s w.toNat)

/-- One round of the inner loop of `pf_free_env`. -/
def pfFreeEntry (pt pteno : Nat) (s : Kernel) : Except Stop Kernel := do
  let w ← s.load (pt + 4 * pteno)
  let s ← s.store (pt + 4 * pteno) 0#32
  .ok (freeDiskFrame s w.toNat)

/-- One round of the outer loop of `pf_free_env`. -/
def pfFreeTable (e pdeno : Nat) (s : Kernel) : Except Stop Kernel := do
  let dir := (s.envs e).diskEnvPgdir
  let pde ← s.load (dir + 4 * pdeno)
  if pde.has permPresent then
    let pt := kheapVirtualAddress s (extractAddress pde)
    let s ← Lib.forRange (pfFreeEntry pt) 0 1024 s
    let s ← s.store (dir + 4 * pdeno) 0#32
    kfree s pt
  else .ok s

/-- `pf_free_env`.  `disk_env_tabledir` is never set by the modelled code, so the tables-on-disk
part returns at once. -/
def pfFreeEnv (s : Kernel) (e : Nat) : Except Stop Kernel := do
  let s ← Lib.forRange (pfFreeTable e) 0 955 s
  let s ← kfree s (s.envs e).diskEnvPgdir
  .ok (s.setEnv e { s.envs e with diskEnvPgdir := 0 })

/-- One round of the outer loop of `pf_calculate_allocated_pages`. -/
def pfCountTable (s : Kernel) (e pdIndex counter : Nat) : Except Stop Nat := do
  let pde ← s.load ((s.envs e).diskEnvPgdir + 4 * pdIndex)
  if pde.has permPresent then
    let pt := kheapVirtualAddress s (extractAddress pde)
    Lib.forRange (fun ptIndex counter => do
      let w ← s.load (pt + 4 * ptIndex)
      .ok (if w ≠ 0#32 then counter + 1 else counter)) 0 1024 counter
  else .ok counter

/-- `pf_calculate_allocated_pages`. -/
def pfCalculateAllocatedPages (s : Kernel) (e : Nat) : Except Stop Nat :=
  Lib.forRange (pfCountTable s e) 0 955 0

/-- `pf_calculate_free_frames`. -/
def pfCalculateFreeFrames (s : Kernel) : Nat :=
  s.diskFreeFrameList.length

end FosMemory
