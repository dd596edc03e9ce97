import FosMemory.Kernel.HeapInvariant

/-!
# HeapOps — what `kmalloc` and `kfree` do

One round of the loop of `kmalloc` takes the first free frame and maps it at
`firstFreeVAInKHeap`; one round of `kfree` unmaps a page and drops its frame from the reverse map.
Both keep `KernelMap` and `FrameList`.  The specifications of the two functions follow by the loop
rule.
-/

namespace FosMemory

open Lib

/-! ## Errors that mean exhaustion -/

/-- The ways a function stops when memory has run out: `allocate_frame` panics, or the `NULL` of
`kmalloc` is dereferenced. -/
def Stop.Exhausted : Stop → Prop
  | .panic .outOfMemory _ => True
  | .wild a => a < 4096
  | _ => False

/-! ## Fields the memory manager leaves alone -/

/-- The two states differ in memory, frames and the kernel heap only. -/
structure SameRest (s t : Kernel) : Prop where
  disk : t.disk = s.disk
  diskFreeFrameList : t.diskFreeFrameList = s.diskFreeFrameList
  envs : t.envs = s.envs
  envFreeList : t.envFreeList = s.envFreeList
  curenv : t.curenv = s.curenv
  cr3 : t.cr3 = s.cr3
  pageRepAlgoType : t.pageRepAlgoType = s.pageRepAlgoType

theorem SameRest.refl (s : Kernel) : SameRest s s :=
  ⟨rfl, rfl, rfl, rfl, rfl, rfl, rfl⟩

theorem SameRest.trans {s t u : Kernel} (h : SameRest s t) (h' : SameRest t u) : SameRest s u :=
  ⟨h'.disk.trans h.disk, h'.diskFreeFrameList.trans h.diskFreeFrameList, h'.envs.trans h.envs,
    h'.envFreeList.trans h.envFreeList, h'.curenv.trans h.curenv, h'.cr3.trans h.cr3,
    h'.pageRepAlgoType.trans h.pageRepAlgoType⟩

/-! ## Reference counts -/

section References

variable {s : Kernel} {f : Nat}

@[simp] theorem decrementReferences_mem : (decrementReferences s f).mem = s.mem := by
  unfold decrementReferences
  dsimp only
  split <;> rfl

@[simp] theorem decrementReferences_virtualAddresses :
    (decrementReferences s f).virtualAddresses = s.virtualAddresses := by
  unfold decrementReferences
  dsimp only
  split <;> rfl

theorem decrementReferences_sameRest : SameRest s (decrementReferences s f) := by
  unfold decrementReferences
  dsimp only
  split <;> exact ⟨rfl, rfl, rfl, rfl, rfl, rfl, rfl⟩

theorem decrementReferences_kernel :
    (decrementReferences s f).numberOfFrames = s.numberOfFrames ∧
      (decrementReferences s f).physPageDirectory = s.physPageDirectory ∧
      (decrementReferences s f).allocatedHAddresses = s.allocatedHAddresses ∧
      (decrementReferences s f).idx = s.idx ∧
      (decrementReferences s f).firstFreeVAInKHeap = s.firstFreeVAInKHeap := by
  unfold decrementReferences
  dsimp only
  split <;> exact ⟨rfl, rfl, rfl, rfl, rfl⟩

theorem predUint16_of_pos {r : Nat} (h : 1 ≤ r) : predUint16 r = r - 1 := by
  rw [predUint16, if_neg (by omega)]

theorem decrementReferences_references (hpos : 1 ≤ s.references f) :
    (decrementReferences s f).references =
      Function.update s.references f (s.references f - 1) := by
  unfold decrementReferences
  rw [predUint16_of_pos hpos]
  dsimp only
  split
  · rename_i hzero
    rw [hzero]
    rfl
  · rfl

theorem decrementReferences_freeFrameList (hpos : 1 ≤ s.references f) :
    (decrementReferences s f).freeFrameList =
      if s.references f = 1 then f :: s.freeFrameList else s.freeFrameList := by
  unfold decrementReferences
  rw [predUint16_of_pos hpos]
  dsimp only
  by_cases hone : s.references f = 1
  · simp [hone, freeFrame]
  · have hne : s.references f - 1 ≠ 0 := by omega
    simp [hone, hne]

end References

/-! ## One page of the heap -/

theorem toPhysicalAddress_eq {f : Nat} (h : f < 1048576) : toPhysicalAddress f = f * 4096 := by
  simp only [toPhysicalAddress, wordMod]
  omega

section Page

variable {c : Boot} {s : Kernel}

/-- The state after one round of `kmalloc` that took frame `f`. -/
def growPage (c : Boot) (s : Kernel) (f : Nat) (rest : List Nat) : Kernel :=
  { s.setWord (c.tableFrame (pdx s.firstFreeVAInKHeap)) (ptx s.firstFreeVAInKHeap)
      (constructEntry (f * 4096) (permPresent ||| permWriteable ||| permPresent)) with
    freeFrameList := rest
    references := Function.update s.references f 1
    virtualAddresses := Function.update s.virtualAddresses f s.firstFreeVAInKHeap
    firstFreeVAInKHeap := s.firstFreeVAInKHeap + 4096 }

theorem kmallocPage_eq (h : KernelMap c s) (hl : FrameList c s)
    (hroom : s.firstFreeVAInKHeap + 4096 < kernelHeapMax) {f : Nat} {rest : List Nat}
    (hfree : s.freeFrameList = f :: rest) : kmallocPage s = .ok (growPage c s f rest) := by
  have hf : f < 1048576 :=
    Nat.lt_of_lt_of_le (hl.lt f (by simp [hfree])) c.numberOfFrames_le
  have hstart := h.le_top
  have hal := h.top_aligned
  simp only [kernelHeapMax, kernelHeapStart] at hroom hstart
  have htop : isHeapPage s.firstFreeVAInKHeap = true := by
    rw [isHeapPage_iff]
    omega
  have hpdx := pdx_mem_of_isHeapPage htop
  have hzero := h.pte_above_top htop (Nat.le_refl _)
  -- the state after `allocate_frame`
  obtain ⟨t, ht⟩ : ∃ t : Kernel, t = { s with
      freeFrameList := rest, references := Function.update s.references f 0 } := ⟨_, rfl⟩
  have hmap : KernelMap c t := by
    subst ht
    exact h.congr (fun _ _ => rfl) rfl rfl rfl rfl rfl rfl
  have hpte : c.pte t s.firstFreeVAInKHeap = 0#32 := by
    subst ht
    exact hzero
  have halloc : allocateFrame s = .ok (f, t) := by
    rw [allocateFrame, hfree, ht]
  have htfree : t.firstFreeVAInKHeap = s.firstFreeVAInKHeap := by
    subst ht
    rfl
  have htable := hmap.getPageTable_dir hpdx (by omega)
  have hload := hmap.load_table hpdx
  have hbacked : (incrementReferences t f).Backed
      (kernelBase + c.tableFrame (pdx s.firstFreeVAInKHeap) * 4096)
      (c.tableFrame (pdx s.firstFreeVAInKHeap)) := hmap.backed_table hpdx
  have hstore := Kernel.store_index hbacked (StaticMap.table_aligned _)
    (ptx_lt s.firstFreeVAInKHeap)
    (constructEntry (f * 4096) (permPresent ||| permWriteable ||| permPresent))
  have hdiv : f * 4096 / 4096 = f := Nat.mul_div_cancel _ (by decide)
  have hsum : (s.firstFreeVAInKHeap + 4096) % wordMod = s.firstFreeVAInKHeap + 4096 := by
    simp only [wordMod]
    omega
  rw [kmallocPage, halloc]
  simp only [ok_bind, mapFrameWith, htfree, htable, hload, hpte, zero_has_present, enterFrame,
    toPhysicalAddress_eq hf, hstore, hdiv, hsum, reduceCtorEq, if_false, Bool.false_eq_true]
  subst ht
  simp [growPage, Kernel.setWord, incrementReferences]

/-- Heap pages of `growPage`: the new page names the frame that was taken. -/
theorem growPage_pte (h : KernelMap c s) (hroom : s.firstFreeVAInKHeap + 4096 < kernelHeapMax)
    {f : Nat} {rest : List Nat} {va : Nat} (hva : isHeapPage va = true) :
    c.pte (growPage c s f rest) va =
      if va = s.firstFreeVAInKHeap then
        constructEntry (f * 4096) (permPresent ||| permWriteable ||| permPresent)
      else c.pte s va := by
  have hstart := h.le_top
  have hal := h.top_aligned
  simp only [kernelHeapMax, kernelHeapStart] at hroom hstart
  have htop : isHeapPage s.firstFreeVAInKHeap = true := by
    rw [isHeapPage_iff]
    omega
  exact c.pte_setHeapEntry s htop hva _

theorem growPage_map (h : KernelMap c s) (hl : FrameList c s)
    (hroom : s.firstFreeVAInKHeap + 4096 < kernelHeapMax) {f : Nat} {rest : List Nat}
    (hfree : s.freeFrameList = f :: rest) : KernelMap c (growPage c s f rest) := by
  have hfn := hl.lt f (by simp [hfree])
  have hf : f < 1048576 := Nat.lt_of_lt_of_le hfn c.numberOfFrames_le
  have hstart := h.le_top
  have hal := h.top_aligned
  have hmax := hroom
  simp only [kernelHeapMax, kernelHeapStart] at hmax hstart
  have htop : isHeapPage s.firstFreeVAInKHeap = true := by
    rw [isHeapPage_iff]
    omega
  have hva0 := hl.not_heap f (by simp [hfree])
  have hnew : ∀ g, (growPage c s f rest).virtualAddresses g =
      if g = f then s.firstFreeVAInKHeap else s.virtualAddresses g := by
    intro g
    simp only [growPage, Function.update_apply]
  have hkeep : ∀ g, s.virtualAddresses g ≠ 0 → g ≠ f := by
    rintro g hg rfl
    exact hg hva0
  constructor
  case toStaticMap =>
    exact (h.setHeapEntry htop _).congr (fun _ _ => rfl) rfl rfl
  case heapPage =>
    intro g hg
    rw [hnew] at hg ⊢
    split at hg
    · rename_i heq
      rw [if_pos heq]
      exact htop
    · rename_i hne
      rw [if_neg hne]
      exact h.heapPage g hg
  case below_top =>
    intro g hg
    rw [hnew] at hg ⊢
    show _ < s.firstFreeVAInKHeap + 4096
    split at hg
    · rename_i heq
      rw [if_pos heq]
      omega
    · rename_i hne
      rw [if_neg hne]
      exact Nat.lt_add_right _ (h.below_top g hg)
  case in_ram =>
    intro g hg
    rw [hnew] at hg
    split at hg
    · rename_i heq
      exact heq ▸ hfn
    · exact h.in_ram g hg
  case not_reserved =>
    intro g hg
    rw [hnew] at hg
    split at hg
    · rename_i heq
      exact heq ▸ hl.not_reserved f (by simp [hfree])
    · exact h.not_reserved g hg
  case names =>
    intro g hg
    rw [hnew] at hg ⊢
    split at hg
    · rename_i heq
      have hperm : permPresent ||| permWriteable ||| permPresent =
          permWriteable ||| permPresent := by decide
      rw [if_pos heq, growPage_pte h hroom htop, if_pos rfl, heq, hperm]
      exact names_constructEntry hf (by decide)
    · rename_i hne
      have hlt := h.below_top g hg
      rw [if_neg hne, growPage_pte h hroom (h.heapPage g hg), if_neg (by omega)]
      exact h.names g hg
  case mapped =>
    intro va hva hne
    rw [growPage_pte h hroom hva] at hne ⊢
    rw [hnew]
    split
    · rename_i heq
      rw [frame_constructEntry hf (by decide), if_pos rfl, heq]
    · rename_i hneq
      rw [if_neg hneq] at hne
      have hback := h.mapped va hva hne
      have hpos : s.virtualAddresses (c.pte s va).frame ≠ 0 := by
        rw [isHeapPage_iff] at hva
        omega
      rw [if_neg (hkeep _ hpos), hback]
  case top_aligned =>
    show (s.firstFreeVAInKHeap + 4096) % 4096 = 0
    omega
  case le_top =>
    show 0xF6000000 + 4096 * s.idx ≤ s.firstFreeVAInKHeap + 4096
    omega
  case top_lt => exact hroom
  case unused => exact h.unused
  case start => exact h.start
  case aligned => exact h.aligned
  case size_pos => exact h.size_pos
  case order => exact h.order
  case block_le_top =>
    intro i hi
    exact Nat.le_trans (h.block_le_top i hi) (Nat.le_add_right _ _)

theorem growPage_list (hl : FrameList c s) {f : Nat} {rest : List Nat}
    (hfree : s.freeFrameList = f :: rest) : FrameList c (growPage c s f rest) := by
  have hnodup := hl.nodup
  rw [hfree, List.nodup_cons] at hnodup
  have hmem : ∀ g ∈ rest, g ∈ s.freeFrameList := by
    intro g hg
    rw [hfree]
    exact List.mem_cons_of_mem _ hg
  have hne : ∀ g ∈ rest, g ≠ f := by
    rintro g hg rfl
    exact hnodup.1 hg
  constructor
  case nodup => exact hnodup.2
  case lt => exact fun g hg => hl.lt g (hmem g hg)
  case not_reserved => exact fun g hg => hl.not_reserved g (hmem g hg)
  case not_heap =>
    intro g hg
    simp only [growPage, Function.update_of_ne (hne g hg)]
    exact hl.not_heap g (hmem g hg)
  case references_eq_zero =>
    intro g hg
    simp only [growPage, Function.update_of_ne (hne g hg)]
    exact hl.references_eq_zero g (hmem g hg)
  case references_lt =>
    intro g
    simp only [growPage, Function.update_apply]
    split
    · decide
    · exact hl.references_lt g
  case heap_referenced =>
    intro g hg
    simp only [growPage, Function.update_apply] at hg ⊢
    split
    · exact Nat.le_refl 1
    · rename_i hgf
      rw [if_neg hgf] at hg
      exact hl.heap_referenced g hg

/-- The state after one round of `kfree` on the page that frame `f` backs. -/
def dropPage (c : Boot) (s : Kernel) (f : Nat) : Kernel :=
  (decrementReferences { s with virtualAddresses := Function.update s.virtualAddresses f 0 }
    f).setWord (c.tableFrame (pdx (s.virtualAddresses f))) (ptx (s.virtualAddresses f)) 0#32

theorem kheapPhysicalAddress_eq (h : StaticMap c s) {va : Nat} (hva : isHeapPage va = true) :
    kheapPhysicalAddress s va = .ok ((c.pte s va).frame * 4096) := by
  have hpdx := pdx_mem_of_isHeapPage hva
  have hlt : va < 4294967296 := by
    rw [isHeapPage_iff] at hva
    omega
  simp only [kheapPhysicalAddress, h.getPageTable_dir hpdx hlt, ok_bind, h.load_table hpdx]

/-- `unmap_frame` at an address of the kernel half, seen through the static mapping. -/
theorem unmapFrame_kernel (h : StaticMap c s) {dir fd va : Nat} (hdir : s.Backed dir fd)
    (hal : dir % 4096 = 0) (hva : pdx va ∈ kernelTables) (hlt : va < 4294967296)
    (hentry : s.mem fd (pdx va) = c.dirEntry (pdx va))
    (hne : c.pte s va ≠ 0#32) (hf : (c.pte s va).frame < c.numberOfFrames) :
    unmapFrame s dir va = .ok ((decrementReferences s (c.pte s va).frame).setWord
      (c.tableFrame (pdx va)) (ptx va) 0#32) := by
  have hframe : extractAddress (c.pte s va) / 4096 = (c.pte s va).frame := by
    rw [extractAddress_eq, Nat.mul_div_cancel _ (by decide)]
  have hinfo : toFrameInfo s (extractAddress (c.pte s va)) = .ok (c.pte s va).frame := by
    rw [toFrameInfo, hframe, h.numberOfFrames_eq, if_neg (by omega)]
  have hptr : kernelBase + c.tableFrame (pdx va) * 4096 ≠ 0 := by
    simp only [kernelBase]
    omega
  have hmap : StaticMap c (decrementReferences s (c.pte s va).frame) :=
    h.congr (fun _ _ => by rw [decrementReferences_mem]) decrementReferences_kernel.1
      decrementReferences_kernel.2.1
  have hstore := Kernel.store_index (hmap.backed_table hva) (StaticMap.table_aligned _)
    (ptx_lt va) 0#32
  simp only [unmapFrame, getFrameInfo, h.getPageTable_kernel hdir hal hva hlt hentry, ok_bind,
    h.load_table hva, hinfo, hstore, if_pos hptr, if_pos hne, ne_eq]

/-- `unmap_frame` where nothing is mapped. -/
theorem unmapFrame_kernel_none (h : StaticMap c s) {dir fd va : Nat} (hdir : s.Backed dir fd)
    (hal : dir % 4096 = 0) (hva : pdx va ∈ kernelTables) (hlt : va < 4294967296)
    (hentry : s.mem fd (pdx va) = c.dirEntry (pdx va)) (hzero : c.pte s va = 0#32) :
    unmapFrame s dir va = .ok s := by
  have hptr : kernelBase + c.tableFrame (pdx va) * 4096 ≠ 0 := by
    simp only [kernelBase]
    omega
  simp only [unmapFrame, getFrameInfo, h.getPageTable_kernel hdir hal hva hlt hentry, ok_bind,
    h.load_table hva, hzero, if_pos hptr, ne_eq, not_true_eq_false, if_false]

theorem kfreePage_eq (h : KernelMap c s) {f : Nat} (hf : s.virtualAddresses f ≠ 0) :
    kfreePage s (s.virtualAddresses f) = .ok (dropPage c s f) := by
  have hheap := h.heapPage f hf
  have hpdx := pdx_mem_of_isHeapPage hheap
  have hnames := h.names f hf
  have hlt : s.virtualAddresses f < 4294967296 := by
    rw [isHeapPage_iff] at hheap
    omega
  have hdiv : f * 4096 / 4096 = f := Nat.mul_div_cancel _ (by decide)
  obtain ⟨t, ht⟩ : ∃ t : Kernel, t = { s with
      virtualAddresses := Function.update s.virtualAddresses f 0 } := ⟨_, rfl⟩
  have hmap : StaticMap c t := by
    subst ht
    exact h.toStaticMap.congr (fun _ _ => rfl) rfl rfl
  have hpte : c.pte t (s.virtualAddresses f) = c.pte s (s.virtualAddresses f) := by
    subst ht
    rfl
  have hunmap := unmapFrame_kernel hmap hmap.backed_dir hmap.dir_aligned hpdx hlt
    (hmap.dir_entry _ (pdx_lt _)) (by rw [hpte]; exact hnames.ne_zero)
    (by rw [hpte, hnames.frame_eq]; exact h.in_ram f hf)
  rw [hpte, hnames.frame_eq] at hunmap
  simp only [kfreePage, kheapPhysicalAddress_eq h.toStaticMap hheap, ok_bind, hnames.frame_eq, hdiv]
  rw [← ht, hunmap, dropPage, ht]

/-- A page that is not mapped is passed over. -/
theorem kfreePage_none (h : KernelMap c s) {va : Nat} (hva : isHeapPage va = true)
    (hzero : c.pte s va = 0#32) : kfreePage s va = .ok s := by
  have hlt : va < 4294967296 := by
    rw [isHeapPage_iff] at hva
    omega
  have hframe0 : s.virtualAddresses 0 = 0 := h.virtualAddresses_reserved (.inl (by decide))
  have hsame : ({ s with virtualAddresses := Function.update s.virtualAddresses 0 0 } : Kernel) =
      s := by
    rw [Function.update_eq_self_iff.2 hframe0.symm]
  have hunmap := unmapFrame_kernel_none h.toStaticMap h.backed_dir h.dir_aligned
    (pdx_mem_of_isHeapPage hva) hlt (h.dir_entry _ (pdx_lt _)) hzero
  have hdiv : 0 * 4096 / 4096 = 0 := by decide
  simp only [kfreePage, kheapPhysicalAddress_eq h.toStaticMap hva, ok_bind, hzero, frame_zero,
    hdiv, hsame, hunmap]

theorem dropPage_virtualAddresses (f g : Nat) :
    (dropPage c s f).virtualAddresses g = if g = f then 0 else s.virtualAddresses g := by
  simp only [dropPage, Kernel.setWord, decrementReferences_virtualAddresses, Function.update_apply]

theorem dropPage_references {f : Nat} (hpos : 1 ≤ s.references f) (g : Nat) :
    (dropPage c s f).references g = if g = f then s.references f - 1 else s.references g := by
  have href := decrementReferences_references (f := f)
    (s := { s with virtualAddresses := Function.update s.virtualAddresses f 0 }) hpos
  simp only [dropPage, Kernel.setWord, href, Function.update_apply]

theorem dropPage_freeFrameList {f : Nat} (hpos : 1 ≤ s.references f) :
    (dropPage c s f).freeFrameList =
      if s.references f = 1 then f :: s.freeFrameList else s.freeFrameList :=
  decrementReferences_freeFrameList (f := f)
    (s := { s with virtualAddresses := Function.update s.virtualAddresses f 0 }) hpos

theorem dropPage_mem (hf : pdx (s.virtualAddresses f) ∈ kernelTables) {g : Nat}
    (hg : ¬ c.KernelFrame g) : (dropPage c s f).mem g = s.mem g := by
  rw [dropPage, Kernel.setWord_mem_frame ?_, decrementReferences_mem]
  rintro rfl
  exact hg (Boot.kernelFrame_table hf)

theorem dropPage_sameRest (f : Nat) : SameRest s (dropPage c s f) := by
  have h := decrementReferences_sameRest (f := f)
    (s := { s with virtualAddresses := Function.update s.virtualAddresses f 0 })
  exact ⟨h.disk, h.diskFreeFrameList, h.envs, h.envFreeList, h.curenv, h.cr3, h.pageRepAlgoType⟩

theorem dropPage_heap (f : Nat) :
    (dropPage c s f).allocatedHAddresses = s.allocatedHAddresses ∧
      (dropPage c s f).idx = s.idx ∧
      (dropPage c s f).firstFreeVAInKHeap = s.firstFreeVAInKHeap := by
  have h := decrementReferences_kernel (f := f)
    (s := { s with virtualAddresses := Function.update s.virtualAddresses f 0 })
  exact h.2.2

theorem dropPage_pte {f : Nat} (hf : isHeapPage (s.virtualAddresses f) = true) {va : Nat}
    (hva : isHeapPage va = true) :
    c.pte (dropPage c s f) va = if va = s.virtualAddresses f then 0#32 else c.pte s va := by
  rw [dropPage, c.pte_setHeapEntry _ hf hva]
  simp only [Boot.pte, decrementReferences_mem]

theorem dropPage_map (h : KernelMap c s) {f : Nat} (hf : s.virtualAddresses f ≠ 0) :
    KernelMap c (dropPage c s f) := by
  have hheap := h.heapPage f hf
  obtain ⟨hrec, hidx, htop⟩ := dropPage_heap (c := c) (s := s) f
  have hkern := decrementReferences_kernel (f := f)
    (s := { s with virtualAddresses := Function.update s.virtualAddresses f 0 })
  have hold : ∀ g, (dropPage c s f).virtualAddresses g ≠ 0 →
      g ≠ f ∧ (dropPage c s f).virtualAddresses g = s.virtualAddresses g := by
    intro g hg
    rw [dropPage_virtualAddresses] at hg ⊢
    by_cases hgf : g = f
    · exact absurd (if_pos hgf) hg
    · exact ⟨hgf, if_neg hgf⟩
  constructor
  case toStaticMap =>
    have hbase : StaticMap c (decrementReferences
        { s with virtualAddresses := Function.update s.virtualAddresses f 0 } f) :=
      h.toStaticMap.congr (fun _ _ => by rw [decrementReferences_mem]) hkern.1 hkern.2.1
    exact hbase.setHeapEntry hheap _
  case heapPage =>
    intro g hg
    obtain ⟨-, heq⟩ := hold g hg
    rw [heq] at hg ⊢
    exact h.heapPage g hg
  case below_top =>
    intro g hg
    obtain ⟨-, heq⟩ := hold g hg
    rw [heq] at hg ⊢
    rw [htop]
    exact h.below_top g hg
  case in_ram =>
    intro g hg
    rw [(hold g hg).2] at hg
    exact h.in_ram g hg
  case not_reserved =>
    intro g hg
    rw [(hold g hg).2] at hg
    exact h.not_reserved g hg
  case names =>
    intro g hg
    obtain ⟨hgf, heq⟩ := hold g hg
    rw [heq] at hg ⊢
    have hne : s.virtualAddresses g ≠ s.virtualAddresses f := by
      intro heq'
      exact hgf (h.virtualAddresses_inj hg heq')
    rw [dropPage_pte hheap (h.heapPage g hg), if_neg hne]
    exact h.names g hg
  case mapped =>
    intro va hva hne
    rw [dropPage_pte hheap hva] at hne ⊢
    by_cases hvf : va = s.virtualAddresses f
    · rw [if_pos hvf] at hne
      exact absurd rfl hne
    · rw [if_neg hvf] at hne ⊢
      have hback := h.mapped va hva hne
      rw [dropPage_virtualAddresses, if_neg ?_, hback]
      rintro heq
      exact hvf (heq ▸ hback).symm
  case top_aligned => rw [htop]; exact h.top_aligned
  case le_top => rw [htop, hidx]; exact h.le_top
  case top_lt => rw [htop]; exact h.top_lt
  case unused => rw [hidx, hrec]; exact h.unused
  case start => rw [hidx, hrec]; exact h.start
  case aligned => rw [hidx, hrec]; exact h.aligned
  case size_pos => rw [hidx, hrec]; exact h.size_pos
  case order => rw [hidx, hrec]; exact h.order
  case block_le_top => rw [hidx, hrec, htop]; exact h.block_le_top

theorem dropPage_list (h : KernelMap c s) (hl : FrameList c s) {f : Nat}
    (hf : s.virtualAddresses f ≠ 0) : FrameList c (dropPage c s f) := by
  have hpos := hl.heap_referenced f hf
  have hnot : f ∉ s.freeFrameList := fun hmem => hf (hl.not_heap f hmem)
  have hmem : ∀ g, g ∈ (dropPage c s f).freeFrameList →
      g ∈ s.freeFrameList ∨ (g = f ∧ s.references f = 1) := by
    intro g hg
    rw [dropPage_freeFrameList hpos] at hg
    split at hg
    · rename_i hone
      rcases List.mem_cons.1 hg with rfl | hg
      · exact .inr ⟨rfl, hone⟩
      · exact .inl hg
    · exact .inl hg
  constructor
  case nodup =>
    rw [dropPage_freeFrameList hpos]
    split
    · exact List.nodup_cons.2 ⟨hnot, hl.nodup⟩
    · exact hl.nodup
  case lt =>
    intro g hg
    rcases hmem g hg with hg | ⟨rfl, -⟩
    · exact hl.lt g hg
    · exact h.in_ram _ hf
  case not_reserved =>
    intro g hg
    rcases hmem g hg with hg | ⟨rfl, -⟩
    · exact hl.not_reserved g hg
    · exact h.not_reserved _ hf
  case not_heap =>
    intro g hg
    rw [dropPage_virtualAddresses]
    rcases hmem g hg with hg | ⟨rfl, -⟩
    · rw [hl.not_heap g hg, ite_self]
    · exact if_pos rfl
  case references_eq_zero =>
    intro g hg
    rw [dropPage_references hpos]
    rcases hmem g hg with hold | ⟨rfl, hone⟩
    · have hgf : g ≠ f := by
        rintro rfl
        exact hnot hold
      rw [if_neg hgf, hl.references_eq_zero g hold]
    · rw [if_pos rfl, hone]
  case references_lt =>
    intro g
    have := hl.references_lt g
    have := hl.references_lt f
    rw [dropPage_references hpos]
    split <;> omega
  case heap_referenced =>
    intro g hg
    rw [dropPage_virtualAddresses] at hg
    rw [dropPage_references hpos]
    by_cases hgf : g = f
    · exact absurd (if_pos hgf) hg
    · rw [if_neg hgf] at hg ⊢
      exact hl.heap_referenced g hg

end Page

end FosMemory
