import Mathlib.Logic.Function.Basic
import FosMemory.Kernel.Entry
import FosMemory.Lib.Outcome

/-!
# State — physical memory, frames, heap records and environments

Everything the kernel keeps in page-sized objects (page directories, page tables, disk tables,
working sets, user pages) lives in `mem`, frame by frame and word by word.  A kernel pointer is a
virtual address; `load` and `store` translate it through the kernel half of the page directory,
which every environment's directory shares.  The globals of `kern/kheap.c`,
`kern/memory_manager.c`, `kern/file_manager.c` and `struct Env` are fields of one record.

The accessed and dirty bits the processor sets for the kernel's own half are not recorded; for the
user half they are (`Kernel.touch`).
-/

namespace FosMemory

/-! ## Records -/

/-- `struct Size_Address_KHeap`; `size` counts pages. -/
structure SizeAddressKHeap where
  size : Nat
  virtualAddress : Nat
  empty : Nat
  deriving DecidableEq, Repr

/-- `struct WorkingSetElement`. -/
structure WorkingSetElement where
  virtualAddress : Nat
  empty : Nat
  timeStamp : Nat
  deriving DecidableEq, Repr

/-- `_PageRepAlgoType`. -/
inductive PageRepAlgo where
  | lru
  | fifo
  | clock
  | modifiedClock
  deriving DecidableEq, Repr

/-- The fields of `struct Env` that memory management reads.  Pointers are kernel virtual
addresses; the page working set itself is in memory at `ptrPageWorkingSet`. -/
structure Env where
  progName : String
  envPageDirectory : Nat
  envCr3 : Nat
  diskEnvPgdir : Nat
  diskEnvTabledir : Nat
  pageWSMaxSize : Nat
  ptrPageWorkingSet : Nat
  uptrPws : Nat
  tws : Nat → WorkingSetElement
  pageLastWSIndex : Nat
  tableLastWSIndex : Nat

/-- `memset(e, 0, sizeof(*e))`. -/
def Env.zero : Env :=
  { progName := "", envPageDirectory := 0, envCr3 := 0, diskEnvPgdir := 0, diskEnvTabledir := 0,
    pageWSMaxSize := 0, ptrPageWorkingSet := 0, uptrPws := 0,
    tws := fun _ => { virtualAddress := 0, empty := 0, timeStamp := 0 },
    pageLastWSIndex := 0, tableLastWSIndex := 0 }

/-- The kernel state.  Frames and disk frames are numbered; a page is a function from word
index to word. -/
structure Kernel where
  /-- `number_of_frames` -/
  numberOfFrames : Nat
  /-- `phys_page_directory`; `ptr_page_directory` is its static kernel virtual address -/
  physPageDirectory : Nat
  /-- physical memory -/
  mem : Nat → Nat → Word
  /-- `frames_info[..].references`, a `uint16` -/
  references : Nat → Nat
  freeFrameList : List Nat
  virtualAddresses : Nat → Nat
  allocatedHAddresses : Nat → SizeAddressKHeap
  idx : Nat
  firstFreeVAInKHeap : Nat
  /-- contents of the page file, disk frame by disk frame -/
  disk : Nat → Nat → Word
  diskFreeFrameList : List Nat
  envs : Nat → Env
  envFreeList : List Nat
  /-- index of `curenv` in `envs` -/
  curenv : Option Nat
  /-- register CR3 -/
  cr3 : Nat
  pageRepAlgoType : PageRepAlgo

/-- `ptr_page_directory`. -/
def Kernel.ptrPageDirectory (s : Kernel) : Nat :=
  s.physPageDirectory + kernelBase

/-! ## Ways to stop -/

/-- Messages of the `panic` and `assert` calls that the modelled code can reach. -/
inductive PanicMsg where
  /-- "ERROR: Kernel run out of memory... allocate_frame cannot find a free frame." -/
  | outOfMemory
  /-- "to_frame_info called with invalid pa" -/
  | invalidPa
  /-- "K_VIRTUAL_ADDRESS called with invalid pa" -/
  | invalidStaticPa
  /-- "NOT STACK" -/
  | notStack
  /-- "function pt_set_page_permissions() called with invalid virtual address. ..." -/
  | noPageTable
  /-- "ERROR: Page File OUT OF SPACE. can't load the program in Page file!!" -/
  | pageFileFull
  /-- "env_create: Table working set become FULL during the application loading. ..." -/
  | tableWorkingSetFull
  /-- a failed `assert` -/
  | assertion
  deriving DecidableEq, Repr

/-- How a kernel function can fail to return. -/
inductive Stop where
  /-- `panic`, with the state at that moment -/
  | panic (msg : PanicMsg) (s : Kernel)
  /-- an access through a pointer that is not mapped, as by the `NULL` of a failed `kmalloc` -/
  | wild (address : Nat)
  /-- a loop or a recursion that does not end -/
  | loops
  /-- a directory entry that is not zero and not present: the table would be on disk -/
  | tableOnDisk
  /-- a local variable is used that no path has set -/
  | uninitialised

/-! ## Words of a page -/

/-- Store one word of a frame. -/
def Kernel.setWord (s : Kernel) (f j : Nat) (w : Word) : Kernel :=
  { s with mem := Function.update s.mem f (Function.update (s.mem f) j w) }

theorem Kernel.setWord_mem (s : Kernel) (f j : Nat) (w : Word) (f' j' : Nat) :
    (s.setWord f j w).mem f' j' = if f' = f ∧ j' = j then w else s.mem f' j' := by
  by_cases hf : f' = f
  · subst hf
    by_cases hj : j' = j <;> simp [Kernel.setWord, hj]
  · simp [Kernel.setWord, hf]

@[simp] theorem Kernel.setWord_mem_self (s : Kernel) (f j : Nat) (w : Word) :
    (s.setWord f j w).mem f j = w := by
  simp [Kernel.setWord]

@[simp] theorem Kernel.setWord_mem_frame {s : Kernel} {f j : Nat} {w : Word} {f' : Nat}
    (h : f' ≠ f) : (s.setWord f j w).mem f' = s.mem f' := by
  simp [Kernel.setWord, h]

/-- Byte `b` of a word, `b < 4`; bytes are stored little-endian. -/
def Word.byte (w : Word) (b : Nat) : BitVec 8 :=
  w.extractLsb' (8 * b) 8

/-- Replace byte `b` of a word. -/
def Word.setByte (w : Word) (b : Nat) (v : BitVec 8) : Word :=
  (w &&& ~~~(0xFF#32 <<< (8 * b))) ||| (v.setWidth 32 <<< (8 * b))

theorem Word.getLsbD_mask {k : Nat} : (0xFF#32).getLsbD k = decide (k < 8) := by
  by_cases h : k < 32
  · interval_cases k <;> rfl
  · rw [BitVec.getLsbD_of_ge _ _ (by omega)]
    simp only [Bool.false_eq, decide_eq_false_iff_not]
    omega

@[simp] theorem Word.byte_setByte_self {w : Word} {b : Nat} {v : BitVec 8} (h : b < 4) :
    (w.setByte b v).byte b = v := by
  apply BitVec.eq_of_getLsbD_eq
  intro i hi
  have hlt : 8 * b + i < 32 := by omega
  have hnot : ¬ 8 * b + i < 8 * b := by omega
  have hsub : 8 * b + i - 8 * b = i := by omega
  have hi32 : i < 32 := by omega
  simp only [Word.byte, Word.setByte, BitVec.getLsbD_extractLsb', BitVec.getLsbD_or,
    BitVec.getLsbD_and, BitVec.getLsbD_not, BitVec.getLsbD_shiftLeft, BitVec.getLsbD_setWidth,
    Word.getLsbD_mask, hsub, hlt, hnot, hi, hi32]
  simp

theorem Word.byte_setByte_of_ne {w : Word} {b c : Nat} {v : BitVec 8} (hc : c < 4)
    (hne : c ≠ b) : (w.setByte b v).byte c = w.byte c := by
  apply BitVec.eq_of_getLsbD_eq
  intro i hi
  have hlt : 8 * c + i < 32 := by omega
  simp only [Word.byte, Word.setByte, BitVec.getLsbD_extractLsb', BitVec.getLsbD_or,
    BitVec.getLsbD_and, BitVec.getLsbD_not, BitVec.getLsbD_shiftLeft, BitVec.getLsbD_setWidth,
    Word.getLsbD_mask, hlt, hi]
  by_cases hord : 8 * c + i < 8 * b
  · simp [hord]
  · have hbig : ¬ 8 * c + i - 8 * b < 8 := by omega
    have hv : v.getLsbD (8 * c + i - 8 * b) = false := BitVec.getLsbD_of_ge v _ (by omega)
    simp [hord, hbig, hv]

/-! ## Kernel pointers -/

/-- The page table entry for a kernel address, `0` where the directory has no table. -/
def Kernel.kernelEntry (s : Kernel) (a : Nat) : Word :=
  let pde := s.mem (s.physPageDirectory / 4096) (pdx a)
  if pde.has permPresent then s.mem pde.frame (ptx a) else 0#32

/-- The word at a kernel address. -/
def Kernel.load (s : Kernel) (a : Nat) : Except Stop Word :=
  let pte := s.kernelEntry a
  if pte.has permPresent then .ok (s.mem pte.frame (a % 4096 / 4)) else .error (.wild a)

/-- Write the word at a kernel address. -/
def Kernel.store (s : Kernel) (a : Nat) (w : Word) : Except Stop Kernel :=
  let pte := s.kernelEntry a
  if pte.has (permWriteable ||| permPresent) then .ok (s.setWord pte.frame (a % 4096 / 4) w)
  else .error (.wild a)

/-- Write the byte at a kernel address. -/
def Kernel.storeByte (s : Kernel) (a : Nat) (v : BitVec 8) : Except Stop Kernel := do
  let w ← s.load (a - a % 4)
  s.store (a - a % 4) (w.setByte (a % 4) v)

/-- The byte at a kernel address. -/
def Kernel.loadByte (s : Kernel) (a : Nat) : Except Stop (BitVec 8) := do
  let w ← s.load (a - a % 4)
  .ok (w.byte (a % 4))

/-- `memset(p, 0, PAGE_SIZE)` and the loops `for(i = 0; i < 1024; i++) p[i] = 0`. -/
def Kernel.zeroPage (s : Kernel) (p : Nat) : Except Stop Kernel :=
  Lib.forRange (fun i t => t.store (p + 4 * i) 0#32) 0 1024 s

/-- Kernel address `a` is mapped, writeable, to frame `f`. -/
def Kernel.Backed (s : Kernel) (a f : Nat) : Prop :=
  Names (s.kernelEntry a) f (permWriteable ||| permPresent)

theorem Kernel.Backed.load {s : Kernel} {a f : Nat} (h : s.Backed a f) :
    s.load a = .ok (s.mem f (a % 4096 / 4)) := by
  simp [Kernel.load, h.present, h.frame_eq]

theorem Kernel.Backed.store {s : Kernel} {a f : Nat} (h : s.Backed a f) (w : Word) :
    s.store a w = .ok (s.setWord f (a % 4096 / 4) w) := by
  simp [Kernel.store, h.has_perm, h.frame_eq]

/-- The entry depends on the page of an address only. -/
theorem Kernel.kernelEntry_page (s : Kernel) {p : Nat} (hp : p % 4096 = 0) {j : Nat}
    (hj : j < 1024) : s.kernelEntry (p + 4 * j) = s.kernelEntry p := by
  have hpdx : pdx (p + 4 * j) = pdx p := by
    simp only [pdx]
    omega
  have hptx : ptx (p + 4 * j) = ptx p := by
    simp only [ptx]
    omega
  simp only [Kernel.kernelEntry, hpdx, hptx]

theorem Kernel.load_index {s : Kernel} {p f j : Nat} (h : s.Backed p f) (hp : p % 4096 = 0)
    (hj : j < 1024) : s.load (p + 4 * j) = .ok (s.mem f j) := by
  have hb : s.Backed (p + 4 * j) f := by
    simpa only [Kernel.Backed, s.kernelEntry_page hp hj] using h
  have hidx : (p + 4 * j) % 4096 / 4 = j := by omega
  rw [hb.load, hidx]

theorem Kernel.store_index {s : Kernel} {p f j : Nat} (h : s.Backed p f) (hp : p % 4096 = 0)
    (hj : j < 1024) (w : Word) : s.store (p + 4 * j) w = .ok (s.setWord f j w) := by
  have hb : s.Backed (p + 4 * j) f := by
    simpa only [Kernel.Backed, s.kernelEntry_page hp hj] using h
  have hidx : (p + 4 * j) % 4096 / 4 = j := by omega
  rw [hb.store, hidx]

end FosMemory
