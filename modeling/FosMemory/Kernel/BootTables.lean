import FosMemory.Kernel.BootCode
import FosMemory.Kernel.HeapInvariant

/-!
# BootTables — page tables in memory that nobody cleared

`boot_get_page_table` takes a table from the bump allocator when the directory has none.  The frames
it takes follow from the order of the calls, so the places of a `Boot` are known before the boot
starts: `Hardware.layout`.  `Drawn` relates a state of the boot to it: which directory entries are
set, which table entries are written, and that every other word is what memory held.
-/

namespace FosMemory

/-! ## Where everything goes -/

/-- The frame at `ROUNDUP(end_of_kernel, PAGE_SIZE)`. -/
def Hardware.firstFrame (m : Hardware) : Nat :=
  (roundUp m.endOfKernel 4096 - kernelBase) / 4096

/-- Pages of `frames_info`. -/
def Hardware.infoPages (m : Hardware) : Nat :=
  (m.detectMemory * 24 + 4095) / 4096

/-- The first frame of `frames_info`. -/
def Hardware.infoFrame (m : Hardware) : Nat :=
  m.firstFrame + 66

/-- The first of the 780 frames of `disk_frames_info`. -/
def Hardware.diskInfoFrame (m : Hardware) : Nat :=
  m.infoFrame + m.infoPages

/-- The first of the 256 frames of `envs`. -/
def Hardware.envsFrame (m : Hardware) : Nat :=
  m.diskInfoFrame + 780

/-- The frame behind everything; the table for `UENVS` is the last. -/
def Hardware.kernelEnd (m : Hardware) : Nat :=
  m.envsFrame + 257

/-- The kernel page tables: the stack's first, those from `KERNEL_BASE` on, that of `UENVS`. -/
def Hardware.tableFrame (m : Hardware) (i : Nat) : Nat :=
  if i = 955 then m.envsFrame + 256 else if i = 958 then m.firstFrame + 1
  else m.firstFrame + 2 + (i - 960)

/-- The linker put the kernel and its stack where `kern/kernel.ld` says, and the boot structures fit
into memory and below the kernel heap. -/
structure Hardware.Fits (m : Hardware) : Prop where
  stack_low : kernelBase + 0x100000 ≤ m.ptrStackBottom
  stack_page : m.ptrStackBottom % 4096 = 0
  stack_high : m.ptrStackBottom + 8 * 4096 ≤ m.endOfKernel
  image : m.endOfKernel ≤ kernelHeapStart
  room : m.kernelEnd ≤ m.detectMemory
  heap : m.kernelEnd ≤ 24576

/-- Words `a` to `a + n - 1` of memory are cleared. -/
def clearWords (mem : Nat → Nat → Word) (a n f j : Nat) : Word :=
  if j < 1024 ∧ a ≤ 1024 * f + j ∧ 1024 * f + j < a + n then 0#32 else mem f j

/-- Memory with the three arrays cleared. -/
def Hardware.cleared (m : Hardware) : Nat → Nat → Word :=
  clearWords (clearWords (clearWords m.contents (1024 * m.infoFrame) (m.detectMemory * 6))
    (1024 * m.diskInfoFrame) 798720) (1024 * m.envsFrame) 262010

theorem Hardware.detectMemory_le (m : Hardware) : m.detectMemory ≤ 1048576 := by
  have hmax : m.maxpa ≤ 4294967296 := by
    have hext : roundDown (m.nvramRead 0x17 * 1024) pageSize ≤ 67107840 := by
      have hlow := (m.nvram 0x17).isLt
      have hhigh := (m.nvram (0x17 + 1)).isLt
      simp only [nvramRead, roundDown, pageSize]
      omega
    -- a `uint32` if there is other memory, and little more than 64 MB if not
    simp only [maxpa]
    generalize roundDown (m.nvramRead 0x17 * 1024) pageSize = ext at hext ⊢
    generalize roundDown (m.nvramRead 0x34 * 1024 * 64 % wordMod) pageSize = other
    split_ifs with hother hsome
    · exact Nat.le_of_lt (Nat.mod_lt _ (by decide))
    · omega
    · omega
  simp only [detectMemory, pageSize]
  omega

section Layout

variable {m : Hardware}

theorem Hardware.Fits.first (h : m.Fits) :
    roundUp m.endOfKernel 4096 = kernelBase + 4096 * m.firstFrame := by
  have hlow := h.stack_low
  have hhigh := h.stack_high
  have himage := h.image
  simp only [kernelBase, kernelHeapStart] at hlow himage
  simp only [Hardware.firstFrame, roundUp, roundDown, wordMod, kernelBase]
  omega

theorem Hardware.Fits.le_first (h : m.Fits) : 256 + 8 ≤ m.firstFrame ∧
    m.endOfKernel ≤ kernelBase + 4096 * m.firstFrame := by
  have hlow := h.stack_low
  have hhigh := h.stack_high
  have himage := h.image
  simp only [kernelBase, kernelHeapStart] at hlow himage
  simp only [Hardware.firstFrame, roundUp, roundDown, wordMod, kernelBase]
  omega

theorem Hardware.tableFrame_bounds {i : Nat} (hi : i ∈ kernelTables) :
    m.firstFrame < m.tableFrame i ∧ m.tableFrame i < m.kernelEnd ∧
      (m.tableFrame i < m.infoFrame ∨ m.envsFrame + 256 ≤ m.tableFrame i) := by
  rw [mem_kernelTables] at hi
  simp only [Hardware.tableFrame, Hardware.kernelEnd, Hardware.envsFrame, Hardware.diskInfoFrame,
    Hardware.infoFrame]
  split
  · omega
  · split <;> omega

theorem Hardware.tableFrame_inj {i j : Nat} (hi : i ∈ kernelTables) (hj : j ∈ kernelTables)
    (h : m.tableFrame i = m.tableFrame j) : i = j := by
  rw [mem_kernelTables] at hi hj
  simp only [Hardware.tableFrame, Hardware.envsFrame, Hardware.diskInfoFrame,
    Hardware.infoFrame] at h
  split at h <;> split at h <;> try split at h
  all_goals first | omega | (split at h <;> omega)

/-- The `Boot` the boot code leaves. -/
def Hardware.layout (m : Hardware) (h : m.Fits) : Boot where
  numberOfFrames := m.detectMemory
  kernelEnd := m.kernelEnd
  dirFrame := m.firstFrame
  tableFrame := m.tableFrame
  stackFrame := (m.ptrStackBottom - kernelBase) / 4096
  envsFrame := m.envsFrame
  contents := m.cleared
  diskContents := m.diskContents
  numberOfFrames_le := m.detectMemory_le
  kernelEnd_le := h.room
  kernelEnd_le_heap := h.heap
  le_dirFrame := by
    have := h.le_first
    omega
  dirFrame_lt := by
    simp only [Hardware.kernelEnd, Hardware.envsFrame, Hardware.diskInfoFrame, Hardware.infoFrame]
    omega
  le_tableFrame := fun i hi => by
    have hfirst := h.le_first
    have hb := Hardware.tableFrame_bounds (m := m) hi
    omega
  tableFrame_lt := fun _ hi => (Hardware.tableFrame_bounds hi).2.1
  tableFrame_ne_dir := fun _ hi => Nat.ne_of_gt (Hardware.tableFrame_bounds hi).1
  tableFrame_inj := fun _ hi _ hj => Hardware.tableFrame_inj hi hj
  le_stackFrame := by
    have hlow := h.stack_low
    simp only [kernelBase] at hlow ⊢
    omega
  stackFrame_le := by
    have hlow := h.stack_low
    have hhigh := h.stack_high
    have hfirst := h.le_first.2
    simp only [kernelBase] at hlow hfirst ⊢
    simp only [Hardware.kernelEnd, Hardware.envsFrame, Hardware.diskInfoFrame, Hardware.infoFrame]
    omega
  le_envsFrame := by
    have := h.le_first
    simp only [Hardware.envsFrame, Hardware.diskInfoFrame, Hardware.infoFrame]
    omega
  envsFrame_le := by
    simp only [Hardware.kernelEnd]
    omega

end Layout

/-! ## Words by frame -/

/-- Write one word of a frame. -/
def BootState.setWord (b : BootState) (f j : Nat) (w : Word) : BootState :=
  { b with k := b.k.setWord f j w }

/-- The same state with other contents of memory. -/
def BootState.withMem (b : BootState) (mem : Nat → Nat → Word) : BootState :=
  { b with k := { b.k with mem := mem } }

/-- The globals of the boot, but for memory, the directory and CR3. -/
def Hardware.kernel (m : Hardware) (mem : Nat → Nat → Word) (phys x : Nat) : Kernel :=
  { m.start.k with mem := mem, physPageDirectory := phys, cr3 := x }

section Words

variable {b : BootState} {f j : Nat}

theorem frame_address (hj : j < 1024) : (kernelBase + 4096 * f + 4 * j - kernelBase) / 4096 = f ∧
    (kernelBase + 4096 * f + 4 * j) % 4096 / 4 = j := by
  simp only [kernelBase]
  omega

theorem BootState.load_frame (hf : f < b.k.numberOfFrames) (hj : j < 1024) :
    b.load (kernelBase + 4096 * f + 4 * j) = .ok (b.k.mem f j) := by
  obtain ⟨hframe, hindex⟩ := frame_address (f := f) hj
  have hin : ¬ (kernelBase + 4096 * f + 4 * j < kernelBase ∨ b.k.numberOfFrames ≤ f) := by
    omega
  simp only [BootState.load, hframe, hindex]
  rw [if_neg hin]

theorem BootState.store_frame (hf : f < b.k.numberOfFrames) (hj : j < 1024) (w : Word) :
    b.store (kernelBase + 4096 * f + 4 * j) w = .ok (b.setWord f j w) := by
  obtain ⟨hframe, hindex⟩ := frame_address (f := f) hj
  have hin : ¬ (kernelBase + 4096 * f + 4 * j < kernelBase ∨ b.k.numberOfFrames ≤ f) := by
    omega
  simp only [BootState.store, hframe, hindex]
  rw [if_neg hin]
  rfl

theorem clearWords_zero (mem : Nat → Nat → Word) (a : Nat) : clearWords mem a 0 = mem := by
  funext f j
  rw [clearWords, if_neg]
  omega

theorem clearWords_succ (mem : Nat → Nat → Word) (f i : Nat) :
    Function.update (clearWords mem (1024 * f) i) (f + i / 1024)
      (Function.update (clearWords mem (1024 * f) i (f + i / 1024)) (i % 1024) 0#32) =
      clearWords mem (1024 * f) (i + 1) := by
  funext g j
  by_cases hg : g = f + i / 1024
  · subst hg
    rw [Function.update_self]
    by_cases hj : j = i % 1024
    · subst hj
      rw [Function.update_self, clearWords, if_pos]
      omega
    · rw [Function.update_of_ne hj]
      refine if_congr ?_ rfl rfl
      omega
  · rw [Function.update_of_ne hg]
    refine if_congr ?_ rfl rfl
    omega

/-- `memset` from the start of a frame on. -/
theorem BootState.memsetZero_frame {n : Nat}
    (hroom : 1024 * f + n ≤ 1024 * b.k.numberOfFrames) :
    b.memsetZero (kernelBase + 4096 * f) (4 * n) =
      .ok (b.withMem (clearWords b.k.mem (1024 * f) n)) := by
  -- after round `i` the first `i` words are clear
  have hstep : ∀ i t, 0 ≤ i → i < 0 + 4 * n / 4 →
      t = b.withMem (clearWords b.k.mem (1024 * f) i) →
      Lib.Ensures (fun _ => False) (fun u => u = b.withMem (clearWords b.k.mem (1024 * f) (i + 1)))
        (t.store (kernelBase + 4096 * f + 4 * i) 0#32) := by
    rintro i t - hi rfl
    have haddr : kernelBase + 4096 * f + 4 * i =
        kernelBase + 4096 * (f + i / 1024) + 4 * (i % 1024) := by
      omega
    have hlt : f + i / 1024 < (b.withMem (clearWords b.k.mem (1024 * f) i)).k.numberOfFrames := by
      show f + i / 1024 < b.k.numberOfFrames
      omega
    rw [haddr, BootState.store_frame hlt (Nat.mod_lt _ (by decide)), Lib.ensures_ok]
    exact congrArg b.withMem (clearWords_succ b.k.mem f i)
  have hstart : b = b.withMem (clearWords b.k.mem (1024 * f) 0) := by
    rw [clearWords_zero]
    rfl
  obtain ⟨t, ht, heq⟩ := (Lib.forRange_ensures hstep hstart).exists_ok
  have hn : 0 + 4 * n / 4 = n := by
    omega
  rw [hn] at heq
  rw [BootState.memsetZero, ht, heq]

end Words

/-! ## Tables under construction -/

/-- `next` is the first free frame, `D` the directory and `V` the set of addresses whose table
entries are written; `bg` is memory outside the directory and the tables, and `x` is
CR3. -/
structure Drawn (m : Hardware) (h : m.Fits) (x next : Nat) (D : Nat → Word) (V : Nat → Prop)
    (bg : Nat → Nat → Word) (b : BootState) : Prop where
  rest : b.k = m.kernel b.k.mem (m.firstFrame * 4096) x
  started : b.ptrFreeMem ≠ 0
  free : roundUp b.ptrFreeMem 4096 = kernelBase + 4096 * next
  le : next ≤ m.kernelEnd
  dir : ∀ j < 1024, b.k.mem m.firstFrame j = D j
  drawn : ∀ i ∈ kernelTables, ∀ j < 1024, V (entryAddress i j) →
    b.k.mem (m.tableFrame i) j = (m.layout h).tableEntry (entryAddress i j)
  kept : ∀ i ∈ kernelTables, ∀ j < 1024, ¬ V (entryAddress i j) →
    b.k.mem (m.tableFrame i) j = m.contents (m.tableFrame i) j
  others : ∀ f, f ≠ m.firstFrame → (∀ i ∈ kernelTables, f ≠ m.tableFrame i) → b.k.mem f = bg f

section Drawn

variable {m : Hardware} {h : m.Fits} {x next : Nat} {D : Nat → Word} {V : Nat → Prop}
  {bg : Nat → Nat → Word} {b : BootState}

theorem Drawn.frames (hd : Drawn m h x next D V bg b) : b.k.numberOfFrames = m.detectMemory := by
  rw [hd.rest]
  rfl

theorem Drawn.inside (hd : Drawn m h x next D V bg b) {f : Nat} (hf : f < m.kernelEnd) :
    f < b.k.numberOfFrames := by
  rw [hd.frames]
  exact Nat.lt_of_lt_of_le hf h.room

theorem Drawn.pageDirectory (hd : Drawn m h x next D V bg b) :
    b.k.ptrPageDirectory = kernelBase + 4096 * m.firstFrame := by
  rw [Kernel.ptrPageDirectory, hd.rest]
  exact (Nat.add_comm _ _).trans (congrArg _ (Nat.mul_comm _ _))

theorem Hardware.first_lt (m : Hardware) : m.firstFrame < m.kernelEnd := by
  simp only [Hardware.kernelEnd, Hardware.envsFrame, Hardware.diskInfoFrame, Hardware.infoFrame]
  omega

theorem Drawn.load_dir (hd : Drawn m h x next D V bg b) {i : Nat} (hi : i < 1024) :
    b.load (kernelBase + 4096 * m.firstFrame + 4 * i) = .ok (D i) := by
  rw [BootState.load_frame (hd.inside m.first_lt) hi, hd.dir i hi]

/-- Write a directory entry. -/
theorem Drawn.store_dir (hd : Drawn m h x next D V bg b) {i : Nat} (hi : i < 1024) (w : Word) :
    ∃ t, b.store (kernelBase + 4096 * m.firstFrame + 4 * i) w = .ok t ∧
      t.ptrFreeMem = b.ptrFreeMem ∧ Drawn m h x next (Function.update D i w) V bg t := by
  refine ⟨_, BootState.store_frame (hd.inside m.first_lt) hi w, rfl, ?_⟩
  have hne : ∀ k ∈ kernelTables, m.tableFrame k ≠ m.firstFrame := fun k hk =>
    Nat.ne_of_gt (Hardware.tableFrame_bounds hk).1
  refine ⟨?_, hd.started, hd.free, hd.le, fun j hj => ?_, fun k hk j hj hV => ?_,
    fun k hk j hj hV => ?_, fun f hf hno => ?_⟩
  · show b.k.setWord _ _ _ = m.kernel (b.k.setWord _ _ _).mem _ _
    rw [hd.rest]
    rfl
  · show (b.k.setWord _ _ _).mem _ _ = _
    rw [Kernel.setWord_mem]
    by_cases hij : j = i
    · rw [if_pos ⟨rfl, hij⟩, hij, Function.update_self]
    · rw [if_neg (fun hx => hij hx.2), Function.update_of_ne hij, hd.dir j hj]
  · show (b.k.setWord _ _ _).mem _ _ = _
    rw [Kernel.setWord_mem_frame (hne k hk)]
    exact hd.drawn k hk j hj hV
  · show (b.k.setWord _ _ _).mem _ _ = _
    rw [Kernel.setWord_mem_frame (hne k hk)]
    exact hd.kept k hk j hj hV
  · show (b.k.setWord _ _ _).mem _ = _
    rw [Kernel.setWord_mem_frame hf]
    exact hd.others f hf hno

/-- Write a table entry. -/
theorem Drawn.store_table (hd : Drawn m h x next D V bg b) {va : Nat} (hal : va % 4096 = 0)
    (hlt : va < 4294967296) (hi : pdx va ∈ kernelTables) :
    ∃ t, b.store (kernelBase + 4096 * m.tableFrame (pdx va) + 4 * ptx va)
        ((m.layout h).tableEntry va) = .ok t ∧
      t.ptrFreeMem = b.ptrFreeMem ∧ Drawn m h x next D (fun a => V a ∨ a = va) bg t := by
  have hj : ptx va < 1024 := Nat.mod_lt _ (by decide)
  have hva := entryAddress_eq hal hlt
  refine ⟨_, BootState.store_frame (hd.inside (Hardware.tableFrame_bounds hi).2.1) hj _, rfl, ?_⟩
  refine ⟨?_, hd.started, hd.free, hd.le, fun j hj => ?_, fun k hk j hj hV => ?_,
    fun k hk j hj hV => ?_, fun f hf hno => ?_⟩
  · show b.k.setWord _ _ _ = m.kernel (b.k.setWord _ _ _).mem _ _
    rw [hd.rest]
    rfl
  · show (b.k.setWord _ _ _).mem _ _ = _
    rw [Kernel.setWord_mem_frame (Nat.ne_of_lt (Hardware.tableFrame_bounds hi).1)]
    exact hd.dir j hj
  · show (b.k.setWord _ _ _).mem _ _ = _
    rw [Kernel.setWord_mem]
    by_cases hx : m.tableFrame k = m.tableFrame (pdx va) ∧ j = ptx va
    · have hk' := Hardware.tableFrame_inj hk hi hx.1
      rw [if_pos hx, hk', hx.2, hva]
    · rw [if_neg hx]
      refine hd.drawn k hk j hj (hV.resolve_right fun heq => hx ?_)
      have hk1024 : k < 1024 := by
        rw [mem_kernelTables] at hk
        omega
      rw [← heq, pdx_entryAddress hk1024 hj, ptx_entryAddress hj]
      exact ⟨rfl, rfl⟩
  · show (b.k.setWord _ _ _).mem _ _ = _
    obtain ⟨hold, hnew⟩ := not_or.1 hV
    rw [Kernel.setWord_mem, if_neg]
    · exact hd.kept k hk j hj hold
    · rintro ⟨hf, rfl⟩
      rw [Hardware.tableFrame_inj hk hi hf] at hnew
      exact hnew hva
  · show (b.k.setWord _ _ _).mem _ = _
    rw [Kernel.setWord_mem_frame (hno _ hi)]
    exact hd.others f hf hno

theorem roundUp_pages_above {f n size : Nat} (hsize : (size + 4095) / 4096 = n)
    (hroom : f + n ≤ 24576) :
    roundUp (kernelBase + 4096 * f + size) 4096 = kernelBase + 4096 * (f + n) := by
  simp only [roundUp, roundDown, kernelBase, wordMod]
  omega

/-- `boot_allocate_space` once `ptr_free_mem` is set. -/
theorem Drawn.alloc (hd : Drawn m h x next D V bg b) {size n : Nat} (align : Nat)
    (hsize : (size + 4095) / 4096 = n) (hroom : next + n ≤ m.kernelEnd) :
    ∃ t, bootAllocateSpace m b size align = (kernelBase + 4096 * next, t) ∧ t.k = b.k ∧
      t.ptrFreeMem = kernelBase + 4096 * next + size ∧ Drawn m h x (next + n) D V bg t := by
  have hheap := h.heap
  have hmod : (kernelBase + 4096 * next + size) % wordMod = kernelBase + 4096 * next + size := by
    simp only [kernelBase, wordMod]
    omega
  refine ⟨{ b with ptrFreeMem := kernelBase + 4096 * next + size }, ?_, rfl, rfl, ?_⟩
  · rw [bootAllocateSpace, if_neg hd.started]
    simp only [hd.free, pageSize, hmod]
  · refine ⟨hd.rest, ?_, roundUp_pages_above hsize (Nat.le_trans hroom hheap), hroom, hd.dir,
      hd.drawn, hd.kept, hd.others⟩
    simp only [kernelBase]
    omega

/-- Clear an array between the tables. -/
theorem Drawn.memset (hd : Drawn m h x next D V bg b) {f n : Nat} (hlow : m.infoFrame ≤ f)
    (hhigh : 1024 * f + n ≤ 1024 * (m.envsFrame + 256)) :
    ∃ t, b.memsetZero (kernelBase + 4096 * f) (4 * n) = .ok t ∧ t.ptrFreeMem = b.ptrFreeMem ∧
      Drawn m h x next D V (clearWords bg (1024 * f) n) t := by
  have hroom : 1024 * f + n ≤ 1024 * b.k.numberOfFrames := by
    have hend := h.room
    rw [hd.frames]
    simp only [Hardware.kernelEnd] at hend
    omega
  refine ⟨_, BootState.memsetZero_frame hroom, rfl, ?_⟩
  -- neither the directory nor a table is in the range
  have hout : ∀ g, g < m.infoFrame ∨ m.envsFrame + 256 ≤ g →
      clearWords b.k.mem (1024 * f) n g = b.k.mem g := by
    intro g hg
    funext j
    rw [clearWords, if_neg]
    omega
  have hfirst : m.firstFrame < m.infoFrame := by
    simp only [Hardware.infoFrame]
    omega
  refine ⟨?_, hd.started, hd.free, hd.le, fun j hj => ?_, fun i hi j hj hV => ?_,
    fun i hi j hj hV => ?_, fun g hg hno => ?_⟩
  · rw [BootState.withMem, hd.rest]
    rfl
  · show clearWords b.k.mem _ _ _ _ = _
    rw [hout _ (.inl hfirst)]
    exact hd.dir j hj
  · show clearWords b.k.mem _ _ _ _ = _
    rw [hout _ (Hardware.tableFrame_bounds hi).2.2]
    exact hd.drawn i hi j hj hV
  · show clearWords b.k.mem _ _ _ _ = _
    rw [hout _ (Hardware.tableFrame_bounds hi).2.2]
    exact hd.kept i hi j hj hV
  · show clearWords b.k.mem _ _ _ = _
    funext j
    rw [clearWords, clearWords, hd.others g hg hno]

/-! ## `boot_get_page_table` and `boot_map_range` -/

/-- The directory leads to the table with index `i`. -/
def Ready (m : Hardware) (D : Nat → Word) (i : Nat) : Prop :=
  extractAddress (D i) = m.tableFrame i * 4096

theorem Drawn.staticVirtual (hd : Drawn m h x next D V bg b) {f : Nat} (hf : f < m.kernelEnd) :
    staticKernelVirtualAddress b.k (f * 4096) = .ok (kernelBase + 4096 * f) := by
  have hheap := h.heap
  have hin := hd.inside hf
  have hdiv : f * 4096 / 4096 = f := Nat.mul_div_cancel _ (by decide)
  have hmod : (f * 4096 + kernelBase) % wordMod = kernelBase + 4096 * f := by
    simp only [kernelBase, wordMod]
    omega
  rw [staticKernelVirtualAddress, hdiv, if_neg (Nat.not_le.2 hin), hmod]

theorem staticPhysical (f : Nat) :
    staticKernelPhysicalAddress (kernelBase + 4096 * f) = .ok (f * 4096) := by
  rw [staticKernelPhysicalAddress, if_neg (by omega), Nat.add_sub_cancel_left, Nat.mul_comm]

/-- A table that exists is found. -/
theorem Drawn.getPageTable (hd : Drawn m h x next D V bg b) {va : Nat} (hi : pdx va ∈ kernelTables)
    (hready : Ready m D (pdx va)) (create : Bool) :
    bootGetPageTable m b (kernelBase + 4096 * m.firstFrame) va create =
      .ok (kernelBase + 4096 * m.tableFrame (pdx va), b) := by
  have hb := Hardware.tableFrame_bounds (m := m) hi
  have hne : m.tableFrame (pdx va) * 4096 ≠ 0 := by
    omega
  rw [bootGetPageTable, hd.load_dir (pdx_lt va), Lib.ok_bind]
  simp only [Ready] at hready
  simp only [hready, hd.staticVirtual hb.2.1, liftStop_ok, Lib.ok_bind]
  rw [if_neg hne]

theorem bootGetPageTable_create {dir va z a phys : Nat} {t u : BootState}
    (hload : b.load (dir + 4 * pdx va) = .ok 0#32)
    (hzero : staticKernelVirtualAddress b.k 0 = .ok z)
    (halloc : bootAllocateSpace m b pageSize pageSize = (a, t))
    (hphys : staticKernelPhysicalAddress a = .ok phys)
    (hstore : t.store (dir + 4 * pdx va) (constructEntry phys (permPresent ||| permWriteable)) =
      .ok u) : bootGetPageTable m b dir va true = .ok (a, u) := by
  rw [bootGetPageTable, hload, Lib.ok_bind]
  simp only [extractAddress_zero, hzero, liftStop_ok, Lib.ok_bind, halloc, hphys, hstore, if_true]

/-- A table that does not exist is the next frame, as memory was. -/
theorem Drawn.newPageTable (hd : Drawn m h x next D V bg b) (va : Nat) (hi : pdx va ∈ kernelTables)
    (hnone : D (pdx va) = 0#32) (hnext : next = m.tableFrame (pdx va)) :
    ∃ t, bootGetPageTable m b (kernelBase + 4096 * m.firstFrame) va true =
        .ok (kernelBase + 4096 * m.tableFrame (pdx va), t) ∧
      t.ptrFreeMem = kernelBase + 4096 * (next + 1) ∧
      Drawn m h x (next + 1) (Function.update D (pdx va)
        (constructEntry (m.tableFrame (pdx va) * 4096)
          (permWriteable ||| permPresent))) V bg t := by
  have hlt := (Hardware.tableFrame_bounds (m := m) hi).2.1
  obtain ⟨t, halloc, hk, hfree, ht⟩ := hd.alloc 4096 (show (4096 + 4095) / 4096 = 1 by decide)
    (by omega)
  obtain ⟨u, hstore, hfree', hu⟩ := ht.store_dir (pdx_lt va)
    (constructEntry (next * 4096) (permPresent ||| permWriteable))
  have hzero := hd.staticVirtual (show 0 < m.kernelEnd by omega)
  rw [Nat.zero_mul] at hzero
  have hperm : permPresent ||| permWriteable = permWriteable ||| permPresent := by
    decide
  refine ⟨u, ?_, ?_, ?_⟩
  · have hload := hd.load_dir (pdx_lt va)
    rw [hnone] at hload
    rw [← hnext]
    exact bootGetPageTable_create hload hzero halloc (staticPhysical next) hstore
  · rw [hfree', hfree]
    omega
  · rw [← hnext, ← hperm]
    exact hu

/-- One page in a table that exists. -/
theorem Drawn.mapPage (hd : Drawn m h x next D V bg b) {va pa : Nat} {perm : Word}
    (hal : va % 4096 = 0) (hlt : va < 4294967296) (hi : pdx va ∈ kernelTables)
    (hready : Ready m D (pdx va))
    (hentry : (m.layout h).tableEntry va = constructEntry pa (perm ||| permPresent)) :
    ∃ t, bootMapPage m (kernelBase + 4096 * m.firstFrame) va pa perm b = .ok t ∧
      t.ptrFreeMem = b.ptrFreeMem ∧ Drawn m h x next D (fun a => V a ∨ a = va) bg t := by
  obtain ⟨t, hstore, hfree, ht⟩ := hd.store_table hal hlt hi
  refine ⟨t, ?_, hfree, ht⟩
  rw [bootMapPage, hd.getPageTable hi hready, Lib.ok_bind, ← hentry, hstore]

/-- One page, the first in its table. -/
theorem Drawn.mapPage_new (hd : Drawn m h x next D V bg b) (va pa : Nat) {perm : Word}
    (hal : va % 4096 = 0) (hlt : va < 4294967296) (hi : pdx va ∈ kernelTables)
    (hnone : D (pdx va) = 0#32) (hnext : next = m.tableFrame (pdx va))
    (hentry : (m.layout h).tableEntry va = constructEntry pa (perm ||| permPresent)) :
    ∃ t, bootMapPage m (kernelBase + 4096 * m.firstFrame) va pa perm b = .ok t ∧
      t.ptrFreeMem = kernelBase + 4096 * (next + 1) ∧
      Drawn m h x (next + 1) (Function.update D (pdx va)
        (constructEntry (m.tableFrame (pdx va) * 4096) (permWriteable ||| permPresent)))
        (fun a => V a ∨ a = va) bg t := by
  obtain ⟨t, hget, hfree, ht⟩ := hd.newPageTable va hi hnone hnext
  obtain ⟨u, hstore, hfree', hu⟩ := ht.store_table hal hlt hi
  refine ⟨u, ?_, hfree'.trans hfree, hu⟩
  rw [bootMapPage, hget, Lib.ok_bind, ← hentry, hstore]

theorem Drawn.congr {V' : Nat → Prop} (hd : Drawn m h x next D V bg b)
    (hV : ∀ a, V a ↔ V' a) : Drawn m h x next D V' bg b :=
  (funext fun a => propext (hV a) : V = V') ▸ hd

/-- Pages `a` to `a + n - 1` of a range whose tables exist. -/
theorem Drawn.mapPages (hd : Drawn m h x next D V bg b) (va pa a n : Nat) {perm : Word}
    (hal : va % 4096 = 0)
    (hpage : ∀ i, a ≤ i → i < a + n → va + 4096 * i < 4294967296 ∧
      pdx (va + 4096 * i) ∈ kernelTables ∧ Ready m D (pdx (va + 4096 * i)) ∧
      (m.layout h).tableEntry (va + 4096 * i) =
        constructEntry (pa + 4096 * i) (perm ||| permPresent)) :
    ∃ t, Lib.forRange (fun i t => bootMapPage m (kernelBase + 4096 * m.firstFrame) (va + 4096 * i)
        (pa + 4096 * i) perm t) a n b = .ok t ∧ t.ptrFreeMem = b.ptrFreeMem ∧
      Drawn m h x next D (fun x => V x ∨ ∃ i, a ≤ i ∧ i < a + n ∧ x = va + 4096 * i) bg t := by
  have hstep : ∀ i t, a ≤ i → i < a + n → (t.ptrFreeMem = b.ptrFreeMem ∧
      Drawn m h x next D (fun x => V x ∨ ∃ k, a ≤ k ∧ k < i ∧ x = va + 4096 * k) bg t) →
      Lib.Ensures (fun _ => False) (fun u => u.ptrFreeMem = b.ptrFreeMem ∧
        Drawn m h x next D (fun x => V x ∨ ∃ k, a ≤ k ∧ k < i + 1 ∧ x = va + 4096 * k) bg u)
        (bootMapPage m (kernelBase + 4096 * m.firstFrame) (va + 4096 * i) (pa + 4096 * i)
          perm t) := by
    rintro i t hai hilt ⟨hfree, ht⟩
    obtain ⟨hlt, hi, hready, hentry⟩ := hpage i hai hilt
    obtain ⟨u, hu, hfree', hdu⟩ := ht.mapPage (by omega) hlt hi hready hentry
    rw [hu, Lib.ensures_ok]
    refine ⟨hfree'.trans hfree, hdu.congr fun x => ?_⟩
    constructor
    · rintro ((hx | ⟨k, hak, hki, rfl⟩) | rfl)
      · exact .inl hx
      · exact .inr ⟨k, hak, by omega, rfl⟩
      · exact .inr ⟨i, hai, Nat.lt_succ_self i, rfl⟩
    · rintro (hx | ⟨k, hak, hki, rfl⟩)
      · exact .inl (.inl hx)
      · by_cases hik : k = i
        · exact .inr (by rw [hik])
        · exact .inl (.inr ⟨k, hak, by omega, rfl⟩)
  have hstart : b.ptrFreeMem = b.ptrFreeMem ∧
      Drawn m h x next D (fun x => V x ∨ ∃ k, a ≤ k ∧ k < a ∧ x = va + 4096 * k) bg b :=
    ⟨rfl, hd.congr fun x => ⟨.inl, fun hx => hx.elim id fun ⟨k, hak, hka, _⟩ => by omega⟩⟩
  exact (Lib.forRange_ensures hstep hstart).exists_ok

end Drawn

end FosMemory
