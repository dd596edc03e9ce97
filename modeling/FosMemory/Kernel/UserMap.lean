import FosMemory.Kernel.HeapSpec

/-!
# UserMap — page tables below `USER_TOP`

A user page directory and its page tables are kernel heap pages, reached through the reverse map.
This module computes `get_page_table`, `map_frame`, `unmap_frame` and `create_page_table` on such a
directory: each is an explicit update of one entry, a reference count and the free list.
-/

namespace FosMemory

open Lib

variable {c : Boot} {s t : Kernel}

/-! ## Memory outside the kernel's own tables -/

theorem KernelMap.not_kernelFrame (h : KernelMap c s) {f : Nat} (hf : s.virtualAddresses f ≠ 0) :
    ¬ c.KernelFrame f :=
  fun hk => h.not_reserved f hf (Boot.kernelFrame_reserved hk)

/-- The invariant of the kernel heap does not look at the contents of other frames. -/
theorem KernelInv.congr_mem (h : KernelInv c s) (hmem : ∀ f, c.KernelFrame f → t.mem f = s.mem f)
    (heq : t = { s with mem := t.mem }) : KernelInv c t := by
  obtain ⟨m, hm⟩ : ∃ m, t.mem = m := ⟨_, rfl⟩
  rw [hm] at heq hmem
  subst heq
  refine ⟨h.map.congr hmem rfl rfl rfl rfl rfl rfl, ?_, ⟨h.live.live, h.live.dead⟩⟩
  exact ⟨h.list.nodup, h.list.lt, h.list.not_reserved, h.list.not_heap, h.list.references_eq_zero,
    h.list.references_lt, h.list.heap_referenced⟩

theorem KernelInv.setWord (h : KernelInv c s) {f : Nat} (hf : ¬ c.KernelFrame f) (j : Nat)
    (w : Word) : KernelInv c (s.setWord f j w) := by
  refine h.congr_mem (fun g hg => ?_) rfl
  exact Kernel.setWord_mem_frame (by rintro rfl; exact hf hg)

/-- A page full of zeros. -/
def Kernel.zeroFrame (s : Kernel) (f : Nat) : Kernel :=
  { s with mem := Function.update s.mem f fun j => if j < 1024 then 0#32 else s.mem f j }

theorem Kernel.zeroFrame_mem_self (s : Kernel) (f : Nat) {j : Nat} (hj : j < 1024) :
    (s.zeroFrame f).mem f j = 0#32 := by
  simp [Kernel.zeroFrame, hj]

theorem Kernel.zeroFrame_mem_frame (s : Kernel) {f g : Nat} (h : g ≠ f) :
    (s.zeroFrame f).mem g = s.mem g := by
  simp [Kernel.zeroFrame, h]

theorem KernelInv.zeroFrame (h : KernelInv c s) {f : Nat} (hf : ¬ c.KernelFrame f) :
    KernelInv c (s.zeroFrame f) := by
  refine h.congr_mem (fun g hg => ?_) rfl
  exact s.zeroFrame_mem_frame (by rintro rfl; exact hf hg)

/-! ## Reference counts -/

/-- The state `allocate_frame` leaves when frame `f` was first on the list. -/
def takeFrame (s : Kernel) (f : Nat) (rest : List Nat) : Kernel :=
  { s with freeFrameList := rest, references := Function.update s.references f 0 }

theorem allocateFrame_spec (s : Kernel) :
    Ensures (fun e => s.freeFrameList = [] ∧ ∃ u, e = .panic .outOfMemory u)
      (fun r => ∃ rest, s.freeFrameList = r.1 :: rest ∧ r.2 = takeFrame s r.1 rest)
      (allocateFrame s) := by
  unfold allocateFrame
  split
  · rename_i hnil
    exact ⟨hnil, s, rfl⟩
  · rename_i f rest hcons
    exact ⟨rest, hcons, rfl⟩

theorem takeFrame_references (h : KernelInv c s) {f : Nat} {rest : List Nat}
    (hfree : s.freeFrameList = f :: rest) : (takeFrame s f rest).references = s.references := by
  have hzero := h.list.references_eq_zero f (by rw [hfree]; exact List.mem_cons_self)
  exact Function.update_eq_self_iff.2 hzero.symm

theorem KernelInv.takeFrame (h : KernelInv c s) {f : Nat} {rest : List Nat}
    (hfree : s.freeFrameList = f :: rest) : KernelInv c (takeFrame s f rest) := by
  have href := takeFrame_references h hfree
  have hmem : ∀ g ∈ rest, g ∈ s.freeFrameList := by
    intro g hg
    rw [hfree]
    exact List.mem_cons_of_mem _ hg
  have hnodup := h.list.nodup
  rw [hfree, List.nodup_cons] at hnodup
  refine ⟨h.map.congr (fun _ _ => rfl) rfl rfl rfl rfl rfl rfl, ?_, ⟨h.live.live, h.live.dead⟩⟩
  constructor
  case nodup => exact hnodup.2
  case lt => exact fun g hg => h.list.lt g (hmem g hg)
  case not_reserved => exact fun g hg => h.list.not_reserved g (hmem g hg)
  case not_heap => exact fun g hg => h.list.not_heap g (hmem g hg)
  case references_eq_zero =>
    rw [href]
    exact fun g hg => h.list.references_eq_zero g (hmem g hg)
  case references_lt => rw [href]; exact h.list.references_lt
  case heap_referenced => rw [href]; exact h.list.heap_referenced

theorem incrementReferences_references {f : Nat} (h : s.references f < 65535) (g : Nat) :
    (incrementReferences s f).references g =
      if g = f then s.references f + 1 else s.references g := by
  have hmod : (s.references f + 1) % 65536 = s.references f + 1 := Nat.mod_eq_of_lt (by omega)
  simp only [incrementReferences, Function.update_apply, hmod]

theorem KernelInv.increment (h : KernelInv c s) {f : Nat} (hf : f ∉ s.freeFrameList)
    (hlt : s.references f < 65535) : KernelInv c (incrementReferences s f) := by
  have href := incrementReferences_references hlt
  refine ⟨h.map.congr (fun _ _ => rfl) rfl rfl rfl rfl rfl rfl, ?_, ⟨h.live.live, h.live.dead⟩⟩
  constructor
  case nodup => exact h.list.nodup
  case lt => exact h.list.lt
  case not_reserved => exact h.list.not_reserved
  case not_heap => exact h.list.not_heap
  case references_eq_zero =>
    intro g hg
    rw [href, if_neg (by rintro rfl; exact hf hg)]
    exact h.list.references_eq_zero g hg
  case references_lt =>
    intro g
    have := h.list.references_lt g
    rw [href]
    split <;> omega
  case heap_referenced =>
    intro g hg
    have := h.list.heap_referenced g hg
    rw [href]
    split <;> omega

/-- Dropping one reference.  A frame that loses its last reference is no heap page. -/
theorem KernelInv.decrement (h : KernelInv c s) {f : Nat} (hf : f < c.numberOfFrames)
    (hpos : 1 ≤ s.references f) (hres : ¬ c.Reserved f ∨ 2 ≤ s.references f)
    (hheap : s.virtualAddresses f ≠ 0 → 2 ≤ s.references f) :
    KernelInv c (decrementReferences s f) := by
  have hnot : f ∉ s.freeFrameList := by
    intro hmem
    have := h.list.references_eq_zero f hmem
    omega
  have href := decrementReferences_references hpos
  have hfree := decrementReferences_freeFrameList hpos
  have hva : (decrementReferences s f).virtualAddresses = s.virtualAddresses :=
    decrementReferences_virtualAddresses
  obtain ⟨-, -, hrec, hidx, -⟩ := decrementReferences_kernel (s := s) (f := f)
  have hmem : ∀ g, g ∈ (decrementReferences s f).freeFrameList →
      g ∈ s.freeFrameList ∨ (g = f ∧ s.references f = 1) := by
    intro g hg
    rw [hfree] at hg
    split at hg
    · rename_i hone
      rcases List.mem_cons.1 hg with rfl | hg
      · exact .inr ⟨rfl, hone⟩
      · exact .inl hg
    · exact .inl hg
  refine ⟨?_, ?_, ?_⟩
  · obtain ⟨hn, hphys, hrec, hidx, htop⟩ := decrementReferences_kernel (s := s) (f := f)
    exact h.map.congr (fun _ _ => by rw [decrementReferences_mem]) hn hphys hva hrec hidx htop
  · constructor
    case nodup =>
      rw [hfree]
      split
      · exact List.nodup_cons.2 ⟨hnot, h.list.nodup⟩
      · exact h.list.nodup
    case lt =>
      intro g hg
      rcases hmem g hg with hg | ⟨rfl, -⟩
      · exact h.list.lt g hg
      · exact hf
    case not_reserved =>
      intro g hg
      rcases hmem g hg with hg | ⟨rfl, hone⟩
      · exact h.list.not_reserved g hg
      · exact hres.resolve_right (by omega)
    case not_heap =>
      intro g hg
      rw [hva]
      rcases hmem g hg with hg | ⟨rfl, hone⟩
      · exact h.list.not_heap g hg
      · by_contra hne
        have := hheap hne
        omega
    case references_eq_zero =>
      intro g hg
      rw [href, Function.update_apply]
      rcases hmem g hg with hold | ⟨rfl, hone⟩
      · have hgf : g ≠ f := by
          rintro rfl
          exact hnot hold
        rw [if_neg hgf]
        exact h.list.references_eq_zero g hold
      · rw [if_pos rfl, hone]
    case references_lt =>
      intro g
      have := h.list.references_lt g
      have := h.list.references_lt f
      rw [href, Function.update_apply]
      split <;> omega
    case heap_referenced =>
      intro g hg
      rw [hva] at hg
      rw [href, Function.update_apply]
      split
      · rename_i hgf
        subst hgf
        have := hheap hg
        omega
      · exact h.list.heap_referenced g hg
  · constructor
    · rw [hidx, hrec, hva]
      exact h.live.live
    · rw [hidx, hrec, hva]
      exact h.live.dead

/-! ## Pages full of zeros -/

/-- `memset` of a heap page. -/
theorem zeroPage_eq (h : KernelMap c s) {f : Nat} (hf : s.virtualAddresses f ≠ 0) :
    s.zeroPage (s.virtualAddresses f) = .ok (s.zeroFrame f) := by
  have hnot := h.not_kernelFrame hf
  -- before round `k` the first `k` words are zero and nothing else has changed
  have hloop := forRange_ensures (a := 0) (n := 1024) (s := s) (E := fun _ => False)
    (b := fun i t => t.store (s.virtualAddresses f + 4 * i) 0#32)
    (I := fun k t => t = { s with
      mem := Function.update s.mem f fun j => if j < k then 0#32 else s.mem f j })
    (by
      rintro k t - hk rfl
      have hmap : KernelMap c { s with
          mem := Function.update s.mem f fun j => if j < k then 0#32 else s.mem f j } := by
        refine h.congr (fun g hg => ?_) rfl rfl rfl rfl rfl rfl
        exact Function.update_of_ne (by rintro rfl; exact hnot hg) _ _
      rw [Kernel.store_index (hmap.backed_heap hf) (h.heap_aligned hf) (by omega), ensures_ok,
        Kernel.setWord]
      simp only [Function.update_idem, Function.update_self, Kernel.mk.injEq, true_and, and_true]
      congr 1
      funext j
      rw [Function.update_apply]
      by_cases hj : j = k
      · simp [hj]
      · by_cases hlt : j < k
        · simp [hj, hlt, Nat.lt_succ_of_lt hlt]
        · have hlt' : ¬ j < k + 1 := by omega
          simp [hj, hlt, hlt'])
    (by simp)
  obtain ⟨t, hrun, rfl⟩ := hloop.exists_ok
  exact hrun

/-! ## A directory and its tables -/

/-- `fd` is the frame of the directory at `dir`. -/
structure DirAt (s : Kernel) (dir fd : Nat) : Prop where
  va_eq : s.virtualAddresses fd = dir
  ne_zero : dir ≠ 0

theorem DirAt.ne {dir fd : Nat} (h : DirAt s dir fd) : s.virtualAddresses fd ≠ 0 :=
  h.va_eq ▸ h.ne_zero

theorem not_kernelAddress {va : Nat} (h : va < 0xEEC00000) : isKernelAddress va = false := by
  rw [← Bool.not_eq_true, isKernelAddress_iff]
  omega

theorem pdx_user {va : Nat} (h : va < 0xEEC00000) : pdx va < 955 := by
  simp only [pdx]
  omega

section Lookup

variable {dir fd tb va : Nat}

theorem load_pde (h : KernelMap c s) (hd : DirAt s dir fd) (va : Nat) :
    s.load (dir + 4 * pdx va) = .ok (s.mem fd (pdx va)) := by
  have hb := h.backed_heap hd.ne
  have hal := h.heap_aligned hd.ne
  rw [hd.va_eq] at hb hal
  exact s.load_index hb hal (pdx_lt va)

theorem store_pde (h : KernelMap c s) (hd : DirAt s dir fd) (va : Nat) (w : Word) :
    s.store (dir + 4 * pdx va) w = .ok (s.setWord fd (pdx va) w) := by
  have hb := h.backed_heap hd.ne
  have hal := h.heap_aligned hd.ne
  rw [hd.va_eq] at hb hal
  exact s.store_index hb hal (pdx_lt va) w

theorem load_pte (h : KernelMap c s) (ht : s.virtualAddresses tb ≠ 0) (va : Nat) :
    s.load (s.virtualAddresses tb + 4 * ptx va) = .ok (s.mem tb (ptx va)) :=
  s.load_index (h.backed_heap ht) (h.heap_aligned ht) (ptx_lt va)

theorem store_pte (h : KernelMap c s) (ht : s.virtualAddresses tb ≠ 0) (va : Nat) (w : Word) :
    s.store (s.virtualAddresses tb + 4 * ptx va) w = .ok (s.setWord tb (ptx va) w) :=
  s.store_index (h.backed_heap ht) (h.heap_aligned ht) (ptx_lt va) w

theorem tablePointer_user (hva : va < 0xEEC00000) (pde : Word) :
    tablePointer s va pde = .ok (s.virtualAddresses pde.frame) := by
  have hdiv : pde.frame * 4096 / 4096 = pde.frame := Nat.mul_div_cancel _ (by decide)
  simp [tablePointer, not_kernelAddress hva, kheapVirtualAddress, extractAddress_eq, hdiv]

theorem getPageTable_user (h : KernelMap c s) (hd : DirAt s dir fd) (hva : va < 0xEEC00000)
    (hpde : Names (s.mem fd (pdx va)) tb permUserPage) :
    getPageTable s dir va = .ok (s.virtualAddresses tb, .inMemory) := by
  have hpresent := hpde.present
  simp only [getPageTable, load_pde h hd va, ok_bind, tablePointer_user hva, hpde.frame_eq, hpresent,
    if_true]

theorem getPageTable_user_none (h : KernelMap c s) (hd : DirAt s dir fd) (hva : va < 0xEEC00000)
    (hpde : s.mem fd (pdx va) = 0#32) : getPageTable s dir va = .ok (0, .notExist) := by
  simp [getPageTable, load_pde h hd va, ok_bind, tablePointer_user hva, hpde]

/-! ## unmap_frame -/

theorem toFrameInfo_eq (h : KernelMap c s) {w : Word} (hf : w.frame < c.numberOfFrames) :
    toFrameInfo s (extractAddress w) = .ok w.frame := by
  have hdiv : w.frame * 4096 / 4096 = w.frame := Nat.mul_div_cancel _ (by decide)
  rw [toFrameInfo, extractAddress_eq, hdiv, h.numberOfFrames_eq, if_neg (by omega)]

theorem getFrameInfo_user (h : KernelMap c s) (hd : DirAt s dir fd) (hva : va < 0xEEC00000)
    (hpde : Names (s.mem fd (pdx va)) tb permUserPage) (ht : s.virtualAddresses tb ≠ 0)
    (hne : s.mem tb (ptx va) ≠ 0#32) (hf : (s.mem tb (ptx va)).frame < c.numberOfFrames) :
    getFrameInfo s dir va = .ok (some (s.mem tb (ptx va)).frame, s.virtualAddresses tb) := by
  simp only [getFrameInfo, getPageTable_user h hd hva hpde, ok_bind, ne_eq, ht, not_false_eq_true,
    if_true, load_pte h ht va, hne, toFrameInfo_eq h hf]

theorem decrementReferences_map (h : KernelMap c s) (f : Nat) :
    KernelMap c (decrementReferences s f) := by
  obtain ⟨hn, hphys, hrec, hidx, htop⟩ := decrementReferences_kernel (s := s) (f := f)
  exact h.congr (fun _ _ => by rw [decrementReferences_mem]) hn hphys
    decrementReferences_virtualAddresses hrec hidx htop

theorem unmapFrame_user (h : KernelMap c s) (hd : DirAt s dir fd) (hva : va < 0xEEC00000)
    (hpde : Names (s.mem fd (pdx va)) tb permUserPage) (ht : s.virtualAddresses tb ≠ 0)
    (hne : s.mem tb (ptx va) ≠ 0#32) (hf : (s.mem tb (ptx va)).frame < c.numberOfFrames) :
    unmapFrame s dir va =
      .ok ((decrementReferences s (s.mem tb (ptx va)).frame).setWord tb (ptx va) 0#32) := by
  have hmap := decrementReferences_map h (s.mem tb (ptx va)).frame
  have hva' : (decrementReferences s (s.mem tb (ptx va)).frame).virtualAddresses tb =
      s.virtualAddresses tb := by rw [decrementReferences_virtualAddresses]
  have hstore := store_pte hmap (hva'.symm ▸ ht) va 0#32
  rw [hva'] at hstore
  simp only [unmapFrame, getFrameInfo_user h hd hva hpde ht hne hf, ok_bind, hstore]

theorem unmapFrame_user_zero (h : KernelMap c s) (hd : DirAt s dir fd) (hva : va < 0xEEC00000)
    (hpde : Names (s.mem fd (pdx va)) tb permUserPage) (ht : s.virtualAddresses tb ≠ 0)
    (hzero : s.mem tb (ptx va) = 0#32) : unmapFrame s dir va = .ok s := by
  simp only [unmapFrame, getFrameInfo, getPageTable_user h hd hva hpde, ok_bind, ne_eq, ht,
    not_false_eq_true, if_true, load_pte h ht va, hzero, not_true_eq_false, if_false]

theorem unmapFrame_user_none (h : KernelMap c s) (hd : DirAt s dir fd) (hva : va < 0xEEC00000)
    (hpde : s.mem fd (pdx va) = 0#32) : unmapFrame s dir va = .ok s := by
  simp only [unmapFrame, getFrameInfo, getPageTable_user_none h hd hva hpde, ok_bind, ne_eq,
    not_true_eq_false, if_false]

/-! ## map_frame on an existing table -/

/-- The entry `map_frame` writes. -/
def frameEntry (f : Nat) (perm : Word) : Word :=
  constructEntry (f * 4096) (perm ||| permPresent)

theorem enterFrame_eq (h : KernelMap c s) (ht : s.virtualAddresses tb ≠ 0) (va : Nat) {f : Nat}
    (hf : f < 1048576) (perm : Word) :
    enterFrame s (s.virtualAddresses tb) f va perm =
      .ok ((incrementReferences s f).setWord tb (ptx va) (frameEntry f perm)) := by
  have hmap : KernelMap c (incrementReferences s f) :=
    h.congr (fun _ _ => rfl) rfl rfl rfl rfl rfl rfl
  rw [enterFrame, toPhysicalAddress_eq hf]
  exact store_pte hmap ht va _

variable {create : Kernel → Nat → Nat → Except Stop (Nat × Kernel)} {f : Nat} {perm : Word}

/-- An empty entry is filled. -/
theorem mapFrameWith_user_zero (h : KernelMap c s) (hd : DirAt s dir fd) (hva : va < 0xEEC00000)
    (hpde : Names (s.mem fd (pdx va)) tb permUserPage) (ht : s.virtualAddresses tb ≠ 0)
    (hzero : s.mem tb (ptx va) = 0#32) (hf : f < 1048576) :
    mapFrameWith create s dir f va perm =
      .ok ((incrementReferences s f).setWord tb (ptx va) (frameEntry f perm)) := by
  simp only [mapFrameWith, getPageTable_user h hd hva hpde, ok_bind, reduceCtorEq, if_false,
    load_pte h ht va, hzero, zero_has_present, Bool.false_eq_true, enterFrame_eq h ht va hf]

/-- The frame is mapped there already. -/
theorem mapFrameWith_user_same (h : KernelMap c s) (hd : DirAt s dir fd) (hva : va < 0xEEC00000)
    (hpde : Names (s.mem fd (pdx va)) tb permUserPage) (ht : s.virtualAddresses tb ≠ 0)
    (hpresent : (s.mem tb (ptx va)).has permPresent = true) (hsame : (s.mem tb (ptx va)).frame = f)
    (hf : f < 1048576) : mapFrameWith create s dir f va perm = .ok s := by
  have haddr : extractAddress (s.mem tb (ptx va)) = toPhysicalAddress f := by
    rw [extractAddress_eq, hsame, toPhysicalAddress_eq hf]
  simp only [mapFrameWith, getPageTable_user h hd hva hpde, ok_bind, reduceCtorEq, if_false,
    load_pte h ht va, hpresent, if_true, haddr]

/-- Another frame is mapped there: it is unmapped first. -/
theorem mapFrameWith_user_other (h : KernelMap c s) (hd : DirAt s dir fd) (hva : va < 0xEEC00000)
    (hpde : Names (s.mem fd (pdx va)) tb permUserPage) (ht : s.virtualAddresses tb ≠ 0)
    (hpresent : (s.mem tb (ptx va)).has permPresent = true)
    (hother : (s.mem tb (ptx va)).frame ≠ f)
    (hg : (s.mem tb (ptx va)).frame < c.numberOfFrames) (hf : f < 1048576) :
    mapFrameWith create s dir f va perm =
      .ok ((incrementReferences ((decrementReferences s (s.mem tb (ptx va)).frame).setWord tb
        (ptx va) 0#32) f).setWord tb (ptx va) (frameEntry f perm)) := by
  have haddr : ¬ extractAddress (s.mem tb (ptx va)) = toPhysicalAddress f := by
    rw [extractAddress_eq, toPhysicalAddress_eq hf]
    omega
  have hne : s.mem tb (ptx va) ≠ 0#32 := by
    intro hzero
    rw [hzero, zero_has_present] at hpresent
    cases hpresent
  have hmap : KernelMap c
      ((decrementReferences s (s.mem tb (ptx va)).frame).setWord tb (ptx va) 0#32) :=
    (decrementReferences_map h _).setWord (h.not_kernelFrame ht) _ _
  have hva' : ((decrementReferences s (s.mem tb (ptx va)).frame).setWord tb (ptx va)
      0#32).virtualAddresses tb = s.virtualAddresses tb := by
    rw [Kernel.setWord, decrementReferences_virtualAddresses]
  have henter := enterFrame_eq hmap (hva'.symm ▸ ht) va hf perm
  rw [hva'] at henter
  simp only [mapFrameWith, getPageTable_user h hd hva hpde, ok_bind, reduceCtorEq, if_false,
    load_pte h ht va, hpresent, if_true, haddr, unmapFrame_user h hd hva hpde ht hne hg, henter]

end Lookup

/-! ## One new heap page -/

/-- `kmalloc(PAGE_SIZE)` has returned `p`, backed by frame `g`. -/
structure NewPage (c : Boot) (s t : Kernel) (g p : Nat) : Prop where
  kmalloced : Kmalloced c s t 1 p
  free_eq : s.freeFrameList = g :: t.freeFrameList
  p_eq : p = s.firstFreeVAInKHeap
  p_ne : p ≠ 0
  top_eq : t.firstFreeVAInKHeap = s.firstFreeVAInKHeap + 4096
  va_eq : t.virtualAddresses = Function.update s.virtualAddresses g p
  ref_eq : t.references = Function.update s.references g 1
  mem_eq : ∀ f, ¬ c.KernelFrame f → t.mem f = s.mem f
  records : t.allocatedHAddresses = Function.update s.allocatedHAddresses s.idx
    { size := 1, virtualAddress := p, empty := 0 }
  idx_eq : t.idx = s.idx + 1
  same : SameRest s t

theorem Kmalloced.newPage {p : Nat} (hs : KernelInv c s) (h : Kmalloced c s t 1 p) :
    ∃ g, NewPage c s t g p := by
  have hle := h.taken.le_length
  obtain ⟨g, rest, hfree⟩ : ∃ g rest, s.freeFrameList = g :: rest :=
    List.exists_cons_of_length_pos hle
  have htake : s.freeFrameList.take 1 = [g] := by
    rw [hfree]
    rfl
  have hpos := hs.map.le_top
  simp only [kernelHeapStart] at hpos
  refine ⟨g, h, ?_, h.p_eq, ?_, h.taken.top_eq, ?_, ?_, h.taken.mem_eq, h.records, h.idx_eq,
    h.taken.same⟩
  · rw [h.taken.free_eq, hfree]
    rfl
  · rw [h.p_eq]
    omega
  · funext f
    rw [Function.update_apply]
    split
    · rename_i hfg
      rw [hfg, h.taken.va_new 0 g (by omega) (by rw [hfree]; rfl), h.p_eq]
      omega
    · rename_i hfg
      exact h.taken.va_old f (by rw [htake]; simpa using hfg)
  · funext f
    rw [Function.update_apply]
    split
    · rename_i hfg
      exact h.taken.ref_new f (by rw [htake]; simpa using hfg)
    · rename_i hfg
      exact h.taken.ref_old f (by rw [htake]; simpa using hfg)

/-- `kmalloc(PAGE_SIZE)`. -/
theorem kmalloc_page (hs : KernelInv c s) :
    Ensures (fun e => s.freeFrameList = [] ∧ ∃ u, e = .panic .outOfMemory u)
      (fun r => (r.1 = 0 ∧ r.2 = s ∧ kernelHeapMax ≤ s.firstFreeVAInKHeap + 4096) ∨
        ∃ g, NewPage c s r.2 g r.1)
      (kmalloc s 4096) := by
  have hpages : heapPages 4096 = 1 := by decide
  refine (@kmalloc_spec c s hs 4096 (by decide) (by decide)).mono ?_ ?_
  · rintro e ⟨hlen, he⟩
    rw [hpages] at hlen
    exact ⟨List.eq_nil_of_length_eq_zero (by omega), he⟩
  · rintro r (⟨hnull, hsame, hfull⟩ | hr)
    · rw [hpages] at hfull
      exact .inl ⟨hnull, hsame, hfull⟩
    · rw [hpages] at hr
      exact .inr (hr.newPage hs)

theorem NewPage.inv {g p : Nat} (h : NewPage c s t g p) : KernelInv c t :=
  h.kmalloced.inv

theorem NewPage.va_self {g p : Nat} (h : NewPage c s t g p) : t.virtualAddresses g = p := by
  rw [h.va_eq, Function.update_self]

theorem NewPage.va_of_ne {g p f : Nat} (h : NewPage c s t g p) (hf : f ≠ g) :
    t.virtualAddresses f = s.virtualAddresses f := by
  rw [h.va_eq, Function.update_of_ne hf]

theorem NewPage.mem_free {g p : Nat} (h : NewPage c s t g p) : g ∈ s.freeFrameList := by
  rw [h.free_eq]
  exact List.mem_cons_self

/-- Frames that were not free are not the new one. -/
theorem NewPage.ne_of_not_mem {g p f : Nat} (h : NewPage c s t g p) (hf : f ∉ s.freeFrameList) :
    f ≠ g := by
  rintro rfl
  exact hf h.mem_free

theorem NewPage.physical {g p : Nat} (h : NewPage c s t g p) :
    kheapPhysicalAddress t p = .ok (g * 4096) := by
  have hne : t.virtualAddresses g ≠ 0 := by
    rw [h.va_self]
    exact h.p_ne
  have hpa := kheapPhysicalAddress_eq h.inv.map.toStaticMap (h.inv.map.heapPage g hne)
  rw [(h.inv.map.names g hne).frame_eq, h.va_self] at hpa
  exact hpa

/-! ## create_page_table and create_user_directory -/

/-- Neither a frame nor a heap page is left for a page of the kernel heap. -/
def NoPage (s : Kernel) : Prop :=
  s.freeFrameList = [] ∨ kernelHeapMax ≤ s.firstFreeVAInKHeap + 4096

/-- A new page table in frame `g`, entered at index `i` of the directory in frame `fd`. -/
structure NewTable (c : Boot) (s t : Kernel) (fd i g p : Nat) : Prop where
  page : ∃ u, NewPage c s u g p ∧
    t = (u.zeroFrame g).setWord fd i (constructEntry (g * 4096) permUserPage)
  ne : fd ≠ g

theorem createPageTable_spec (hs : KernelInv c s) {dir fd : Nat} (hd : DirAt s dir fd) (va : Nat) :
    Ensures (fun e => s.freeFrameList = [] ∧ ∃ u, e = .panic .outOfMemory u)
      (fun r => (r.1 = 0 ∧ r.2 = s ∧ kernelHeapMax ≤ s.firstFreeVAInKHeap + 4096) ∨
        ∃ g, NewTable c s r.2 fd (pdx va) g r.1 ∧ r.1 ≠ 0)
      (createPageTable s dir va) := by
  rw [createPageTable]
  refine (kmalloc_page hs).bind ?_
  rintro ⟨p, u⟩ (⟨rfl, rfl, hfull⟩ | ⟨g, hnew⟩)
  · exact .inl ⟨rfl, rfl, hfull⟩
  · have hfd : fd ∉ s.freeFrameList := fun hmem => hd.ne (hs.list.not_heap fd hmem)
    have hne := hnew.ne_of_not_mem hfd
    have hg : u.virtualAddresses g ≠ 0 := by
      rw [hnew.va_self]
      exact hnew.p_ne
    have hnot := hnew.inv.map.not_kernelFrame hg
    have hzero := zeroPage_eq hnew.inv.map hg
    rw [hnew.va_self] at hzero
    have hdu : DirAt (u.zeroFrame g) dir fd := by
      refine ⟨?_, hd.ne_zero⟩
      rw [← hd.va_eq]
      exact hnew.va_of_ne hne
    have hstore := store_pde (hnew.inv.zeroFrame hnot).map hdu va
      (constructEntry (g * 4096) permUserPage)
    have hp := hnew.p_ne
    simp only at hp
    simp only [if_neg hp, hnew.physical, ok_bind, hzero, hstore, ensures_ok]
    exact .inr ⟨g, ⟨⟨u, hnew, rfl⟩, hne⟩, hp⟩

section NewTable

variable {fd i g p : Nat}

theorem NewTable.inv (h : NewTable c s t fd i g p) (hs : KernelInv c s)
    (hfd : s.virtualAddresses fd ≠ 0) : KernelInv c t := by
  obtain ⟨⟨u, hnew, rfl⟩, hne⟩ := h
  have hg : u.virtualAddresses g ≠ 0 := by
    rw [hnew.va_self]
    exact hnew.p_ne
  exact (hnew.inv.zeroFrame (hnew.inv.map.not_kernelFrame hg)).setWord
    (hs.map.not_kernelFrame hfd) _ _

theorem NewTable.mem_of_ne (h : NewTable c s t fd i g p) {f : Nat} (hk : ¬ c.KernelFrame f)
    (hg : f ≠ g) (hfd : f ≠ fd) : t.mem f = s.mem f := by
  obtain ⟨⟨u, hnew, rfl⟩, -⟩ := h
  rw [Kernel.setWord_mem_frame hfd, u.zeroFrame_mem_frame hg, hnew.mem_eq f hk]

theorem NewTable.mem_table (h : NewTable c s t fd i g p) {j : Nat} (hj : j < 1024) :
    t.mem g j = 0#32 := by
  obtain ⟨⟨u, hnew, rfl⟩, hne⟩ := h
  rw [Kernel.setWord_mem_frame (Ne.symm hne), u.zeroFrame_mem_self g hj]

theorem NewTable.mem_dir (h : NewTable c s t fd i g p) (hk : ¬ c.KernelFrame fd) (k : Nat) :
    t.mem fd k = if k = i then constructEntry (g * 4096) permUserPage else s.mem fd k := by
  obtain ⟨⟨u, hnew, rfl⟩, hne⟩ := h
  rw [Kernel.setWord_mem, u.zeroFrame_mem_frame hne, hnew.mem_eq fd hk]
  simp

theorem NewTable.names (h : NewTable c s t fd i g p) (hs : KernelInv c s)
    (hk : ¬ c.KernelFrame fd) : Names (t.mem fd i) g permUserPage := by
  have hg : g < 1048576 := by
    obtain ⟨⟨u, hnew, -⟩, -⟩ := h
    exact Nat.lt_of_lt_of_le (hs.list.lt g hnew.mem_free) c.numberOfFrames_le
  rw [h.mem_dir hk, if_pos rfl]
  exact names_constructEntry hg (by decide)

theorem NewTable.va_eq (h : NewTable c s t fd i g p) :
    t.virtualAddresses = Function.update s.virtualAddresses g p := by
  obtain ⟨⟨u, hnew, rfl⟩, -⟩ := h
  exact hnew.va_eq

theorem NewTable.ref_eq (h : NewTable c s t fd i g p) :
    t.references = Function.update s.references g 1 := by
  obtain ⟨⟨u, hnew, rfl⟩, -⟩ := h
  exact hnew.ref_eq

theorem NewTable.free_eq (h : NewTable c s t fd i g p) :
    s.freeFrameList = g :: t.freeFrameList := by
  obtain ⟨⟨u, hnew, rfl⟩, -⟩ := h
  exact hnew.free_eq

theorem NewTable.records (h : NewTable c s t fd i g p) :
    t.allocatedHAddresses = Function.update s.allocatedHAddresses s.idx
      { size := 1, virtualAddress := p, empty := 0 } := by
  obtain ⟨⟨u, hnew, rfl⟩, -⟩ := h
  exact hnew.records

theorem NewTable.idx_eq (h : NewTable c s t fd i g p) : t.idx = s.idx + 1 := by
  obtain ⟨⟨u, hnew, rfl⟩, -⟩ := h
  exact hnew.idx_eq

theorem NewTable.p_eq (h : NewTable c s t fd i g p) : p = s.firstFreeVAInKHeap := by
  obtain ⟨⟨u, hnew, rfl⟩, -⟩ := h
  exact hnew.p_eq

theorem NewTable.p_ne (h : NewTable c s t fd i g p) : p ≠ 0 := by
  obtain ⟨⟨u, hnew, rfl⟩, -⟩ := h
  exact hnew.p_ne

theorem NewTable.top_eq (h : NewTable c s t fd i g p) :
    t.firstFreeVAInKHeap = s.firstFreeVAInKHeap + 4096 := by
  obtain ⟨⟨u, hnew, rfl⟩, -⟩ := h
  exact hnew.top_eq

theorem NewTable.same (h : NewTable c s t fd i g p) : SameRest s t := by
  obtain ⟨⟨u, hnew, rfl⟩, -⟩ := h
  exact hnew.same.trans ⟨rfl, rfl, rfl, rfl, rfl, rfl, rfl⟩

end NewTable

/-- `create_user_directory`. -/
theorem createUserDirectory_spec (hs : KernelInv c s) :
    Ensures (fun x => x.Exhausted ∧ NoPage s)
      (fun r => ∃ g u, NewPage c s u g r.1 ∧ r.2 = u.zeroFrame g)
      (createUserDirectory s) := by
  rw [createUserDirectory]
  refine ((kmalloc_page hs).mono (F := fun x => x.Exhausted ∧ NoPage s) ?_ (fun _ h => h)).bind ?_
  · rintro e ⟨hfree, u, rfl⟩
    exact ⟨trivial, .inl hfree⟩
  · rintro ⟨p, u⟩ (⟨rfl, rfl, htop⟩ | ⟨g, hnew⟩)
    · -- the first store goes through `NULL`
      have hstore := hs.map.store_null (a := 0) (by decide) 0#32
      have hzero : u.zeroPage 0 = .error (.wild 0) := forRange_error (by decide) hstore
      simp only [hzero, error_bind, ensures_error]
      exact ⟨(by decide : 0 < 4096), .inr htop⟩
    · have hg : u.virtualAddresses g ≠ 0 := by
        rw [hnew.va_self]
        exact hnew.p_ne
      have hzero := zeroPage_eq hnew.inv.map hg
      rw [hnew.va_self] at hzero
      simp only at hzero
      simp only [hzero, ok_bind, ensures_ok]
      exact ⟨g, u, hnew, rfl⟩

/-- `map_frame` where the directory has no table yet. -/
theorem mapFrame_newTable (hs : KernelInv c s) {dir fd f va : Nat} {perm : Word}
    (hd : DirAt s dir fd) (hva : va < 0xEEC00000) (hpde : s.mem fd (pdx va) = 0#32)
    (hf : f < 1048576) :
    Ensures (fun x => x.Exhausted ∧ NoPage s)
      (fun k => ∃ t g p, NewTable c s t fd (pdx va) g p ∧
        k = (incrementReferences t f).setWord g (ptx va) (frameEntry f perm))
      (mapFrame s dir f va perm) := by
  have hcreate := (createPageTable_spec hs hd va).mono (F := fun x => x.Exhausted ∧ NoPage s)
    (by rintro e ⟨hfree, u, rfl⟩; exact ⟨trivial, .inl hfree⟩) (fun _ h => h)
  simp only [mapFrame, mapFrameWith, getPageTable_user_none hs.map hd hva hpde, ok_bind, if_true]
  refine hcreate.bind ?_
  rintro ⟨p, t⟩ (⟨rfl, rfl, htop⟩ | ⟨g, hnew, hp⟩)
  · have hlt := ptx_lt va
    have hload := hs.map.load_null (a := 0 + 4 * ptx va) (by omega)
    simp only [hload, error_bind, ensures_error]
    refine ⟨?_, .inr htop⟩
    show 0 + 4 * ptx va < 4096
    omega
  · simp only at hnew hp
    have hinv := hnew.inv hs hd.ne
    have hg : t.virtualAddresses g = p := by
      rw [hnew.va_eq, Function.update_self]
    have hne : t.virtualAddresses g ≠ 0 := hg ▸ hp
    have hload := load_pte hinv.map hne va
    have henter := enterFrame_eq hinv.map hne va hf perm
    rw [hg] at hload henter
    simp only [hload, ok_bind, hnew.mem_table (ptx_lt va), zero_has_present, Bool.false_eq_true,
      if_false, henter, ensures_ok]
    exact ⟨t, g, p, hnew, rfl⟩

end FosMemory
