import FosMemory.Kernel.MemoryManager

/-!
# Boot — the state `FOS_initialize` leaves

`initialize_kernel_VM` builds the kernel half of the page directory: one page table for the
read-only image of `envs`, one for the kernel stack (and the page at `USER_LIMIT`), sixty-four for
the addresses from `KERNEL_BASE` on, and the two self-maps.  It maps the kernel stack, the image
of `envs` and physical memory up to `ptr_free_mem`; every other entry is zero.
`initialize_paging` then marks frames as reserved or puts them on `free_frame_list`.

Where the boot allocator puts the directory and the tables depends on the size of the kernel
image and of the machine; a `Boot` is any such choice for which the structures fit.
-/

namespace FosMemory

/-! ## Kernel page tables -/

/-- Directory indices that have a page table of their own after boot: `PDX(UENVS)`,
`PDX(USER_LIMIT)` and the tables from `KERNEL_BASE` on. -/
def kernelTables : List Nat :=
  955 :: 958 :: List.range' 960 64

theorem mem_kernelTables {i : Nat} :
    i ∈ kernelTables ↔ i = 955 ∨ i = 958 ∨ 960 ≤ i ∧ i < 1024 := by
  have hrange : i ∈ List.range' 960 64 ↔ 960 ≤ i ∧ i < 1024 := by
    rw [List.mem_range'_1]
  simp only [kernelTables, List.mem_cons, hrange]

/-- The address a table entry is for. -/
def entryAddress (i j : Nat) : Nat :=
  i * 4194304 + j * 4096

/-- `va` is the address of a kernel heap page. -/
def isHeapPage (va : Nat) : Bool :=
  decide (kernelHeapStart ≤ va ∧ va < kernelHeapMax ∧ va % 4096 = 0)

/-- `NENV`: `(PTSIZE/4) / sizeof(struct Env)`, the size being 760 bytes. -/
@[simp] def nenv : Nat := 1379

/-- `PAGES_PER_FILE`. -/
@[simp] def pagesPerFile : Nat := 133120

/-- The machine and the places the boot allocator chose. -/
structure Boot where
  numberOfFrames : Nat
  /-- `ROUNDUP(STATIC_KERNEL_PHYSICAL_ADDRESS(ptr_free_mem), PAGE_SIZE) / PAGE_SIZE` -/
  kernelEnd : Nat
  /-- the frame of `ptr_page_directory` -/
  dirFrame : Nat
  /-- the frame of the kernel page table with the given directory index -/
  tableFrame : Nat → Nat
  /-- the first of the eight frames at `ptr_stack_bottom` -/
  stackFrame : Nat
  /-- the first of the frames of `envs` -/
  envsFrame : Nat
  /-- what memory holds where the boot code has written nothing -/
  contents : Nat → Nat → Word
  /-- what the disk holds -/
  diskContents : Nat → Nat → Word
  numberOfFrames_le : numberOfFrames ≤ 1048576
  kernelEnd_le : kernelEnd ≤ numberOfFrames
  kernelEnd_le_heap : kernelEnd ≤ 24576
  le_dirFrame : 256 ≤ dirFrame
  dirFrame_lt : dirFrame < kernelEnd
  le_tableFrame : ∀ i ∈ kernelTables, 256 ≤ tableFrame i
  tableFrame_lt : ∀ i ∈ kernelTables, tableFrame i < kernelEnd
  tableFrame_ne_dir : ∀ i ∈ kernelTables, tableFrame i ≠ dirFrame
  tableFrame_inj : ∀ i ∈ kernelTables, ∀ j ∈ kernelTables, tableFrame i = tableFrame j → i = j
  le_stackFrame : 256 ≤ stackFrame
  stackFrame_le : stackFrame + 8 ≤ kernelEnd
  le_envsFrame : 256 ≤ envsFrame
  envsFrame_le : envsFrame + 256 ≤ kernelEnd

namespace Boot

/-- Frames `initialize_paging` keeps: frames 0 to 2, the I/O hole, the kernel up to
`ptr_free_mem`. -/
def Reserved (c : Boot) (f : Nat) : Prop :=
  f < 3 ∨ (160 ≤ f ∧ f < c.kernelEnd)

instance (c : Boot) (f : Nat) : Decidable (c.Reserved f) :=
  inferInstanceAs (Decidable (_ ∨ _))

/-- The directory entry at index `i`. -/
def dirEntry (c : Boot) (i : Nat) : Word :=
  if i = 957 then constructEntry (c.dirFrame * 4096) (permUser ||| permPresent)
  else if i = 959 then constructEntry (c.dirFrame * 4096) (permWriteable ||| permPresent)
  else if i = 955 then constructEntry (c.tableFrame i * 4096) permUserPage
  else if i ∈ kernelTables then
    constructEntry (c.tableFrame i * 4096) (permWriteable ||| permPresent)
  else 0#32

/-- The entry for a kernel address. -/
def tableEntry (c : Boot) (va : Nat) : Word :=
  if kernelBase ≤ va ∧ va < kernelBase + c.kernelEnd * 4096 then
    constructEntry ((va - kernelBase) / 4096 * 4096) (permWriteable ||| permPresent)
  else if 0xEFBF8000 ≤ va ∧ va < 0xEFC00000 then
    constructEntry ((c.stackFrame + (va - 0xEFBF8000) / 4096) * 4096)
      (permWriteable ||| permPresent)
  else if userTop ≤ va ∧ va < userTop + 256 * 4096 then
    constructEntry ((c.envsFrame + (va - userTop) / 4096) * 4096) (permUser ||| permPresent)
  else 0#32

/-- Physical memory.  `initialize_paging` clears the first 1024 bytes of the zero page and of the
temporary page. -/
def memory (c : Boot) (f j : Nat) : Word :=
  if f = c.dirFrame then c.dirEntry j
  else
    match kernelTables.find? (fun i => c.tableFrame i == f) with
    | some i => c.tableEntry (entryAddress i j)
    | none => if (f = 1 ∨ f = 2) ∧ j < 256 then 0#32 else c.contents f j

/-- `free_frame_list` after `initialize_paging`: each frame was inserted at the head. -/
def freeFrameList (c : Boot) : List Nat :=
  (List.range' c.kernelEnd (c.numberOfFrames - c.kernelEnd)).reverse ++ (List.range' 3 157).reverse

/-- The state after `initialize_kernel_VM`, `initialize_paging` and `env_init`. -/
def state (c : Boot) : Kernel :=
  { numberOfFrames := c.numberOfFrames
    physPageDirectory := c.dirFrame * 4096
    mem := c.memory
    references := fun f => if c.Reserved f then 1 else 0
    freeFrameList := c.freeFrameList
    virtualAddresses := fun _ => 0
    allocatedHAddresses := fun _ => { size := 0, virtualAddress := 0, empty := 0 }
    idx := 0
    firstFreeVAInKHeap := kernelHeapStart
    disk := c.diskContents
    diskFreeFrameList := (List.range' 1 (pagesPerFile - 1)).reverse
    envs := fun _ => Env.zero
    envFreeList := List.range nenv
    curenv := none
    cr3 := c.dirFrame * 4096
    pageRepAlgoType := .lru }

/-! ## Entries of the boot state -/

theorem frame_lt {c : Boot} {f : Nat} (h : f < c.kernelEnd) : f < 1048576 :=
  Nat.lt_of_lt_of_le h (Nat.le_trans c.kernelEnd_le c.numberOfFrames_le)

theorem reserved_of_le {c : Boot} {f : Nat} (hle : 256 ≤ f) (hlt : f < c.kernelEnd) :
    c.Reserved f :=
  .inr ⟨by omega, hlt⟩

theorem reserved_lt {c : Boot} {f : Nat} (h : c.Reserved f) : f < c.kernelEnd := by
  have hdir := c.le_dirFrame
  have hlt := c.dirFrame_lt
  rcases h with h | h <;> omega

theorem memory_dir (c : Boot) (i : Nat) : c.memory c.dirFrame i = c.dirEntry i := by
  simp [memory]

theorem memory_table (c : Boot) {i : Nat} (hi : i ∈ kernelTables) (j : Nat) :
    c.memory (c.tableFrame i) j = c.tableEntry (entryAddress i j) := by
  have hfind : kernelTables.find? (fun k => c.tableFrame k == c.tableFrame i) = some i := by
    cases hk : kernelTables.find? (fun k => c.tableFrame k == c.tableFrame i) with
    | none =>
      have := List.find?_eq_none.1 hk i hi
      simp at this
    | some k =>
      have hframe := List.find?_some hk
      have hmem := List.mem_of_find?_eq_some hk
      rw [c.tableFrame_inj k hmem i hi (by simpa using hframe)]
  simp [memory, c.tableFrame_ne_dir i hi, hfind]

/-- The entry that leads to a kernel page table names its frame. -/
theorem dirEntry_names (c : Boot) {i : Nat} (hi : i ∈ kernelTables) :
    Names (c.dirEntry i) (c.tableFrame i) (permWriteable ||| permPresent) := by
  have hf := c.frame_lt (c.tableFrame_lt i hi)
  have h957 : i ≠ 957 := by
    rintro rfl
    simp [mem_kernelTables] at hi
  have h959 : i ≠ 959 := by
    rintro rfl
    simp [mem_kernelTables] at hi
  by_cases h955 : i = 955
  · have hnames : Names (constructEntry (c.tableFrame i * 4096) permUserPage) (c.tableFrame i)
        permUserPage := names_constructEntry hf (by decide)
    have hsub : (constructEntry (c.tableFrame i * 4096) permUserPage).has
        (permWriteable ||| permPresent) = true := by
      have hor := hnames.has_perm
      rw [permUserPage, BitVec.or_assoc] at hor
      exact (has_of_has_or hor).2
    rw [dirEntry, if_neg h957, if_neg h959, if_pos h955]
    exact ⟨hnames.frame_eq, hsub⟩
  · rw [dirEntry, if_neg h957, if_neg h959, if_neg h955, if_pos hi]
    exact names_constructEntry hf (by decide)

/-- The remapped physical memory. -/
theorem tableEntry_static (c : Boot) {f : Nat} (hf : f < c.kernelEnd) :
    Names (c.tableEntry (kernelBase + f * 4096)) f (permWriteable ||| permPresent) := by
  have hlt := c.frame_lt hf
  have hdiv : (kernelBase + f * 4096 - kernelBase) / 4096 = f := by
    rw [Nat.add_sub_cancel_left, Nat.mul_div_cancel _ (by decide)]
  have hrange : kernelBase ≤ kernelBase + f * 4096 ∧
      kernelBase + f * 4096 < kernelBase + c.kernelEnd * 4096 := by
    constructor
    · exact Nat.le_add_right _ _
    · exact Nat.add_lt_add_left (Nat.mul_lt_mul_of_pos_right hf (by decide)) _
  rw [tableEntry, if_pos hrange, hdiv]
  exact names_constructEntry hlt (by decide)

end Boot

end FosMemory
