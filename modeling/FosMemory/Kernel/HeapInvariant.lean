import FosMemory.Kernel.Boot

/-!
# HeapInvariant — what every kernel-heap operation relies on

`KernelMap` ties together the four structures behind the kernel heap: the fixed half of the page
directory, the heap entries of the kernel page tables, the reverse map `virtualAddresses` and the
allocation records.  `HeapLive` says which records still own their pages and `FrameList` what is
on `free_frame_list`.  The lemmas of this module
resolve kernel pointers under `KernelMap`: static pointers through the remapped physical memory,
heap pointers through the reverse map.
-/

namespace FosMemory

/-! ## The invariant -/

/-- The kernel page table entry for `va`. -/
def Boot.pte (c : Boot) (s : Kernel) (va : Nat) : Word :=
  s.mem (c.tableFrame (pdx va)) (ptx va)

/-- Frames whose contents the kernel half depends on. -/
def Boot.KernelFrame (c : Boot) (f : Nat) : Prop :=
  f = c.dirFrame ∨ ∃ i ∈ kernelTables, f = c.tableFrame i

/-- The part of the kernel half that never changes. -/
structure StaticMap (c : Boot) (s : Kernel) : Prop where
  numberOfFrames_eq : s.numberOfFrames = c.numberOfFrames
  physPageDirectory_eq : s.physPageDirectory = c.dirFrame * 4096
  dir_entry : ∀ i < 1024, s.mem c.dirFrame i = c.dirEntry i
  table_entry : ∀ i ∈ kernelTables, ∀ j < 1024, isHeapPage (entryAddress i j) = false →
    s.mem (c.tableFrame i) j = c.tableEntry (entryAddress i j)

/-- The kernel half, the heap entries, the reverse map and the records agree. -/
structure KernelMap (c : Boot) (s : Kernel) : Prop extends StaticMap c s where
  /-- every frame in the reverse map backs the heap page the map says -/
  heapPage : ∀ f, s.virtualAddresses f ≠ 0 → isHeapPage (s.virtualAddresses f) = true
  below_top : ∀ f, s.virtualAddresses f ≠ 0 → s.virtualAddresses f < s.firstFreeVAInKHeap
  in_ram : ∀ f, s.virtualAddresses f ≠ 0 → f < c.numberOfFrames
  not_reserved : ∀ f, s.virtualAddresses f ≠ 0 → ¬ c.Reserved f
  names : ∀ f, s.virtualAddresses f ≠ 0 →
    Names (c.pte s (s.virtualAddresses f)) f (permWriteable ||| permPresent)
  /-- every heap entry is in the reverse map -/
  mapped : ∀ va, isHeapPage va = true → c.pte s va ≠ 0#32 →
    s.virtualAddresses (c.pte s va).frame = va
  top_aligned : s.firstFreeVAInKHeap % 4096 = 0
  le_top : kernelHeapStart + 4096 * s.idx ≤ s.firstFreeVAInKHeap
  top_lt : s.firstFreeVAInKHeap < kernelHeapMax
  unused : ∀ i, s.idx ≤ i → (s.allocatedHAddresses i).virtualAddress = 0 ∧
    (s.allocatedHAddresses i).size = 0
  start : ∀ i < s.idx, kernelHeapStart ≤ (s.allocatedHAddresses i).virtualAddress
  aligned : ∀ i < s.idx, (s.allocatedHAddresses i).virtualAddress % 4096 = 0
  size_pos : ∀ i < s.idx, 1 ≤ (s.allocatedHAddresses i).size
  order : ∀ i j, i < j → j < s.idx → (s.allocatedHAddresses i).virtualAddress +
    4096 * (s.allocatedHAddresses i).size ≤ (s.allocatedHAddresses j).virtualAddress
  block_le_top : ∀ i < s.idx, (s.allocatedHAddresses i).virtualAddress +
    4096 * (s.allocatedHAddresses i).size ≤ s.firstFreeVAInKHeap

/-- A record that is not `empty` has all its pages mapped, an `empty` one has none. -/
structure HeapLive (s : Kernel) : Prop where
  live : ∀ i < s.idx, (s.allocatedHAddresses i).empty = 0 →
    ∀ k < (s.allocatedHAddresses i).size,
      ∃ f, s.virtualAddresses f = (s.allocatedHAddresses i).virtualAddress + 4096 * k
  dead : ∀ i < s.idx, (s.allocatedHAddresses i).empty ≠ 0 →
    (s.allocatedHAddresses i).empty = 1 ∧ ∀ k < (s.allocatedHAddresses i).size,
      ∀ f, s.virtualAddresses f ≠ (s.allocatedHAddresses i).virtualAddress + 4096 * k

/-- What is on `free_frame_list`, and the counts of the frames of the heap. -/
structure FrameList (c : Boot) (s : Kernel) : Prop where
  nodup : s.freeFrameList.Nodup
  lt : ∀ f ∈ s.freeFrameList, f < c.numberOfFrames
  not_reserved : ∀ f ∈ s.freeFrameList, ¬ c.Reserved f
  not_heap : ∀ f ∈ s.freeFrameList, s.virtualAddresses f = 0
  references_eq_zero : ∀ f ∈ s.freeFrameList, s.references f = 0
  references_lt : ∀ f, s.references f < 65536
  heap_referenced : ∀ f, s.virtualAddresses f ≠ 0 → 1 ≤ s.references f

/-! ## Addresses of the kernel half -/

theorem isHeapPage_iff {va : Nat} :
    isHeapPage va = true ↔ 0xF6000000 ≤ va ∧ va < 0xFFFFF000 ∧ va % 4096 = 0 := by
  rw [isHeapPage, decide_eq_true_iff]
  exact Iff.rfl

theorem isKernelAddress_iff {va : Nat} : isKernelAddress va = true ↔ 0xEEC00000 ≤ va := by
  rw [isKernelAddress, decide_eq_true_iff]
  exact Iff.rfl

theorem pdx_mem_kernelTables {va : Nat} (hle : 0xF0000000 ≤ va) (hlt : va < 4294967296) :
    pdx va ∈ kernelTables := by
  rw [mem_kernelTables]
  simp only [pdx]
  omega

theorem pdx_mem_of_isHeapPage {va : Nat} (h : isHeapPage va = true) : pdx va ∈ kernelTables := by
  rw [isHeapPage_iff] at h
  exact pdx_mem_kernelTables (by omega) (by omega)

theorem ptx_lt (va : Nat) : ptx va < 1024 := by
  simp only [ptx]
  omega

theorem pdx_lt (va : Nat) : pdx va < 1024 := by
  simp only [pdx]
  omega

theorem entryAddress_eq {va : Nat} (hal : va % 4096 = 0) (hlt : va < 4294967296) :
    entryAddress (pdx va) (ptx va) = va := by
  simp only [entryAddress, pdx, ptx]
  omega

theorem ptx_entryAddress {i j : Nat} (hj : j < 1024) : ptx (entryAddress i j) = j := by
  simp only [entryAddress, ptx]
  omega

theorem pdx_entryAddress {i j : Nat} (hi : i < 1024) (hj : j < 1024) :
    pdx (entryAddress i j) = i := by
  simp only [entryAddress, pdx]
  omega

/-- Two heap pages have different entries. -/
theorem heapPage_inj {va vb : Nat} (ha : isHeapPage va = true) (hb : isHeapPage vb = true)
    (hpdx : pdx va = pdx vb) (hptx : ptx va = ptx vb) : va = vb := by
  rw [isHeapPage_iff] at ha hb
  rw [← entryAddress_eq ha.2.2 (by omega), ← entryAddress_eq hb.2.2 (by omega), hpdx, hptx]

namespace Boot

theorem kernelFrame_reserved {c : Boot} {f : Nat} (h : c.KernelFrame f) : c.Reserved f := by
  rcases h with rfl | ⟨i, hi, rfl⟩
  · exact reserved_of_le c.le_dirFrame c.dirFrame_lt
  · exact reserved_of_le (c.le_tableFrame i hi) (c.tableFrame_lt i hi)

/-- The zero page and the temporary page are reserved, but not part of the kernel's tables. -/
theorem low_not_kernelFrame (c : Boot) {f : Nat} (hf : f < 3) : ¬ c.KernelFrame f := by
  rintro (h | ⟨i, hi, h⟩)
  · have := c.le_dirFrame
    omega
  · have := c.le_tableFrame i hi
    omega

theorem kernelFrame_table {c : Boot} {i : Nat} (hi : i ∈ kernelTables) :
    c.KernelFrame (c.tableFrame i) :=
  .inr ⟨i, hi, rfl⟩

end Boot

/-- A change of one heap entry, seen from the heap pages. -/
theorem Boot.pte_setHeapEntry (c : Boot) (s : Kernel) {va vb : Nat} (ha : isHeapPage va = true)
    (hb : isHeapPage vb = true) (w : Word) :
    c.pte (s.setWord (c.tableFrame (pdx va)) (ptx va) w) vb = if vb = va then w else c.pte s vb := by
  have hiff : (c.tableFrame (pdx vb) = c.tableFrame (pdx va) ∧ ptx vb = ptx va) ↔ vb = va := by
    constructor
    · rintro ⟨hframe, hptx⟩
      have hpdx := c.tableFrame_inj _ (pdx_mem_of_isHeapPage hb) _ (pdx_mem_of_isHeapPage ha) hframe
      exact heapPage_inj hb ha hpdx hptx
    · rintro rfl
      exact ⟨rfl, rfl⟩
  rw [Boot.pte, s.setWord_mem]
  simp only [hiff, Boot.pte]

namespace StaticMap

variable {c : Boot} {s t : Kernel}

/-- `StaticMap` reads memory at kernel frames only. -/
theorem congr (h : StaticMap c s) (hmem : ∀ f, c.KernelFrame f → t.mem f = s.mem f)
    (hn : t.numberOfFrames = s.numberOfFrames)
    (hphys : t.physPageDirectory = s.physPageDirectory) : StaticMap c t := by
  constructor
  case numberOfFrames_eq => rw [hn, h.numberOfFrames_eq]
  case physPageDirectory_eq => rw [hphys, h.physPageDirectory_eq]
  case dir_entry =>
    intro i hi
    rw [hmem _ (.inl rfl), h.dir_entry i hi]
  case table_entry =>
    intro i hi j hj hheap
    rw [hmem _ (Boot.kernelFrame_table hi), h.table_entry i hi j hj hheap]

/-- Entries of the heap may change. -/
theorem setHeapEntry (h : StaticMap c s) {va : Nat} (hva : isHeapPage va = true) (w : Word) :
    StaticMap c (s.setWord (c.tableFrame (pdx va)) (ptx va) w) := by
  have hpdx := pdx_mem_of_isHeapPage hva
  have hmem : ∀ g j, (g = c.tableFrame (pdx va) → j ≠ ptx va) →
      (s.setWord (c.tableFrame (pdx va)) (ptx va) w).mem g j = s.mem g j := by
    intro g j hne
    refine (s.setWord_mem _ _ _ g j).trans (if_neg ?_)
    rintro ⟨rfl, rfl⟩
    exact hne rfl rfl
  refine ⟨h.numberOfFrames_eq, h.physPageDirectory_eq, ?_, ?_⟩
  · intro i hi
    rw [hmem _ _ (fun heq => absurd heq.symm (c.tableFrame_ne_dir _ hpdx)), h.dir_entry i hi]
  · intro i hi j hj hheap
    rw [hmem _ _ ?_, h.table_entry i hi j hj hheap]
    rintro heq rfl
    have hii := c.tableFrame_inj i hi _ hpdx heq
    rw [isHeapPage_iff] at hva
    rw [hii, entryAddress_eq hva.2.2 (by omega), ← Bool.not_eq_true, isHeapPage_iff] at hheap
    exact hheap hva

/-! ## Kernel pointers -/

/-- The walk of the kernel half ends at the kernel page table entry. -/
theorem kernelEntry_eq (h : StaticMap c s) {a : Nat} (ha : pdx a ∈ kernelTables) :
    s.kernelEntry a = c.pte s a := by
  have hnames := c.dirEntry_names ha
  have hdiv : s.physPageDirectory / 4096 = c.dirFrame := by
    rw [h.physPageDirectory_eq, Nat.mul_div_cancel _ (by decide)]
  simp only [Kernel.kernelEntry, hdiv, h.dir_entry _ (pdx_lt a), hnames.present, if_true,
    hnames.frame_eq, Boot.pte]

/-- A static kernel pointer leads to the frame it was computed from. -/
theorem backed_static (h : StaticMap c s) {f : Nat} (hf : f < c.kernelEnd) :
    s.Backed (kernelBase + f * 4096) f := by
  have hfit := c.kernelEnd_le_heap
  simp only [kernelBase]
  have hmem : pdx (0xF0000000 + f * 4096) ∈ kernelTables :=
    pdx_mem_kernelTables (by omega) (by omega)
  have hal : entryAddress (pdx (0xF0000000 + f * 4096)) (ptx (0xF0000000 + f * 4096)) =
      0xF0000000 + f * 4096 := entryAddress_eq (by omega) (by omega)
  have hheap : isHeapPage (0xF0000000 + f * 4096) = false := by
    rw [← Bool.not_eq_true, isHeapPage_iff]
    omega
  rw [Kernel.Backed, h.kernelEntry_eq hmem, Boot.pte,
    h.table_entry _ hmem _ (ptx_lt _) (by rw [hal]; exact hheap), hal]
  exact c.tableEntry_static hf

/-! ## Page tables of the kernel half -/

/-- A directory whose entry for `va` is the boot entry finds the kernel page table. -/
theorem getPageTable_kernel (h : StaticMap c s) {dir fd va : Nat} (hdir : s.Backed dir fd)
    (hal : dir % 4096 = 0) (hva : pdx va ∈ kernelTables) (hlt : va < 4294967296)
    (hentry : s.mem fd (pdx va) = c.dirEntry (pdx va)) :
    getPageTable s dir va = .ok (kernelBase + c.tableFrame (pdx va) * 4096, .inMemory) := by
  have hnames := c.dirEntry_names hva
  have htf := c.tableFrame_lt _ hva
  have hfit := c.kernelEnd_le_heap
  have hfn := c.kernelEnd_le
  have haddr : extractAddress (c.dirEntry (pdx va)) = c.tableFrame (pdx va) * 4096 := by
    rw [extractAddress_eq, hnames.frame_eq]
  have hkernel : isKernelAddress va = true := by
    have := mem_kernelTables.1 hva
    simp only [pdx] at this
    rw [isKernelAddress_iff]
    omega
  have hstatic : staticKernelVirtualAddress s (c.tableFrame (pdx va) * 4096) =
      .ok (kernelBase + c.tableFrame (pdx va) * 4096) := by
    have hdiv : c.tableFrame (pdx va) * 4096 / 4096 = c.tableFrame (pdx va) :=
      Nat.mul_div_cancel _ (by decide)
    have hin : ¬ c.numberOfFrames ≤ c.tableFrame (pdx va) := by omega
    simp only [staticKernelVirtualAddress, hdiv, h.numberOfFrames_eq, if_neg hin, kernelBase,
      wordMod, Except.ok.injEq]
    omega
  simp only [getPageTable, s.load_index hdir hal (pdx_lt va), hentry, Lib.ok_bind, tablePointer,
    hkernel, if_true, haddr, hstatic, hnames.present]

/-- `ptr_page_directory` is a static pointer. -/
theorem backed_dir (h : StaticMap c s) : s.Backed s.ptrPageDirectory c.dirFrame := by
  rw [Kernel.ptrPageDirectory, h.physPageDirectory_eq, Nat.add_comm]
  exact h.backed_static c.dirFrame_lt

theorem dir_aligned (h : StaticMap c s) : s.ptrPageDirectory % 4096 = 0 := by
  rw [Kernel.ptrPageDirectory, h.physPageDirectory_eq, kernelBase]
  omega

theorem getPageTable_dir (h : StaticMap c s) {va : Nat} (hva : pdx va ∈ kernelTables)
    (hlt : va < 4294967296) :
    getPageTable s s.ptrPageDirectory va =
      .ok (kernelBase + c.tableFrame (pdx va) * 4096, .inMemory) :=
  h.getPageTable_kernel h.backed_dir h.dir_aligned hva hlt (h.dir_entry _ (pdx_lt va))

/-- Loads and stores of kernel page table entries. -/
theorem backed_table (h : StaticMap c s) {i : Nat} (hi : i ∈ kernelTables) :
    s.Backed (kernelBase + c.tableFrame i * 4096) (c.tableFrame i) :=
  h.backed_static (c.tableFrame_lt i hi)

theorem table_aligned (f : Nat) : (kernelBase + f * 4096) % 4096 = 0 := by
  simp only [kernelBase]
  omega

theorem load_table (h : StaticMap c s) {va : Nat} (hva : pdx va ∈ kernelTables) :
    s.load (kernelBase + c.tableFrame (pdx va) * 4096 + 4 * ptx va) = .ok (c.pte s va) :=
  s.load_index (h.backed_table hva) (table_aligned _) (ptx_lt va)

/-- The kernel's directory has no table for the first page: `NULL` leads nowhere. -/
theorem kernelEntry_null (h : StaticMap c s) {a : Nat} (ha : a < 4096) :
    s.kernelEntry a = 0#32 := by
  have hdiv : s.physPageDirectory / 4096 = c.dirFrame := by
    rw [h.physPageDirectory_eq, Nat.mul_div_cancel _ (by decide)]
  have hpdx : pdx a = 0 := by
    simp only [pdx]
    omega
  have hentry : s.mem c.dirFrame 0 = 0#32 := by
    rw [h.dir_entry 0 (by decide)]
    simp [Boot.dirEntry, mem_kernelTables]
  simp [Kernel.kernelEntry, hdiv, hpdx, hentry]

theorem load_null (h : StaticMap c s) {a : Nat} (ha : a < 4096) :
    s.load a = .error (.wild a) := by
  simp [Kernel.load, h.kernelEntry_null ha]

theorem store_null (h : StaticMap c s) {a : Nat} (ha : a < 4096) (w : Word) :
    s.store a w = .error (.wild a) := by
  have hhas : Word.has 0#32 (permWriteable ||| permPresent) = false := by decide
  simp [Kernel.store, h.kernelEntry_null ha, hhas]

end StaticMap

namespace KernelMap

variable {c : Boot} {s t : Kernel}

/-! ## Transfer -/

/-- `KernelMap` reads memory at kernel frames only. -/
theorem congr (h : KernelMap c s) (hmem : ∀ f, c.KernelFrame f → t.mem f = s.mem f)
    (hn : t.numberOfFrames = s.numberOfFrames) (hphys : t.physPageDirectory = s.physPageDirectory)
    (hva : t.virtualAddresses = s.virtualAddresses)
    (hrec : t.allocatedHAddresses = s.allocatedHAddresses) (hidx : t.idx = s.idx)
    (htop : t.firstFreeVAInKHeap = s.firstFreeVAInKHeap) : KernelMap c t := by
  have hpte : ∀ va, pdx va ∈ kernelTables → c.pte t va = c.pte s va := by
    intro va hpdx
    simp only [Boot.pte, hmem _ (Boot.kernelFrame_table hpdx)]
  constructor
  case toStaticMap => exact h.toStaticMap.congr hmem hn hphys
  case heapPage => rw [hva]; exact h.heapPage
  case below_top => rw [hva, htop]; exact h.below_top
  case in_ram => rw [hva]; exact h.in_ram
  case not_reserved => rw [hva]; exact h.not_reserved
  case names =>
    rw [hva]
    intro f hf
    rw [hpte _ (pdx_mem_of_isHeapPage (h.heapPage f hf))]
    exact h.names f hf
  case mapped =>
    rw [hva]
    intro va hheap hne
    rw [hpte _ (pdx_mem_of_isHeapPage hheap)] at hne ⊢
    exact h.mapped va hheap hne
  case top_aligned => rw [htop]; exact h.top_aligned
  case le_top => rw [htop, hidx]; exact h.le_top
  case top_lt => rw [htop]; exact h.top_lt
  case unused => rw [hidx, hrec]; exact h.unused
  case start => rw [hidx, hrec]; exact h.start
  case aligned => rw [hidx, hrec]; exact h.aligned
  case size_pos => rw [hidx, hrec]; exact h.size_pos
  case order => rw [hidx, hrec]; exact h.order
  case block_le_top => rw [hidx, hrec, htop]; exact h.block_le_top

/-- A store outside the kernel's own tables. -/
theorem setWord (h : KernelMap c s) {f : Nat} (hf : ¬ c.KernelFrame f) (j : Nat) (w : Word) :
    KernelMap c (s.setWord f j w) := by
  refine h.congr ?_ rfl rfl rfl rfl rfl rfl
  intro g hg
  exact Kernel.setWord_mem_frame (by rintro rfl; exact hf hg)

/-! ## The reverse map -/

/-- A heap pointer leads to the frame the reverse map has for it. -/
theorem backed_heap (h : KernelMap c s) {f : Nat} (hf : s.virtualAddresses f ≠ 0) :
    s.Backed (s.virtualAddresses f) f := by
  rw [Kernel.Backed, h.kernelEntry_eq (pdx_mem_of_isHeapPage (h.heapPage f hf))]
  exact h.names f hf

theorem heap_aligned (h : KernelMap c s) {f : Nat} (hf : s.virtualAddresses f ≠ 0) :
    s.virtualAddresses f % 4096 = 0 :=
  (isHeapPage_iff.1 (h.heapPage f hf)).2.2

/-- The reverse map is injective. -/
theorem virtualAddresses_inj (h : KernelMap c s) {f g : Nat} (hf : s.virtualAddresses f ≠ 0)
    (hfg : s.virtualAddresses f = s.virtualAddresses g) : f = g := by
  have hg : s.virtualAddresses g ≠ 0 := hfg ▸ hf
  rw [← (h.names f hf).frame_eq, ← (h.names g hg).frame_eq, hfg]

/-- An entry of the heap is zero exactly where the reverse map has no frame. -/
theorem pte_eq_zero_iff (h : KernelMap c s) {va : Nat} (hva : isHeapPage va = true) :
    c.pte s va = 0#32 ↔ ∀ f, s.virtualAddresses f ≠ va := by
  have hpos : va ≠ 0 := by
    rw [isHeapPage_iff] at hva
    omega
  constructor
  · rintro hzero f rfl
    exact (h.names f hpos).ne_zero hzero
  · intro hall
    by_contra hne
    exact hall _ (h.mapped va hva hne)

/-- Above `firstFreeVAInKHeap` nothing is mapped. -/
theorem pte_above_top (h : KernelMap c s) {va : Nat} (hva : isHeapPage va = true)
    (htop : s.firstFreeVAInKHeap ≤ va) : c.pte s va = 0#32 := by
  rw [h.pte_eq_zero_iff hva]
  rintro f rfl
  have hpos : s.virtualAddresses f ≠ 0 := by
    rw [isHeapPage_iff] at hva
    omega
  have := h.below_top f hpos
  omega

theorem virtualAddresses_reserved (h : KernelMap c s) {f : Nat} (hf : c.Reserved f) :
    s.virtualAddresses f = 0 := by
  by_contra hne
  exact h.not_reserved f hne hf

/-- The number of records stays below the length of `allocatedHAddresses`. -/
theorem idx_lt (h : KernelMap c s) : s.idx < heapRecords := by
  have hle := h.le_top
  have hlt := h.top_lt
  simp only [kernelHeapStart, kernelHeapMax, heapRecords] at *
  omega

end KernelMap

end FosMemory
