import FosMemory.Kernel.HeapOps

/-!
# HeapSpec — specifications of `kmalloc` and `kfree`

`KernelInv` is the invariant of the kernel heap.  `Kmalloced` and `Kfreed` say what a call has
done to frames, reverse map, free list and records; nothing outside the kernel's own page tables
changes in memory.
-/

namespace FosMemory

open Lib

/-- The invariant every kernel function starts from. -/
structure KernelInv (c : Boot) (s : Kernel) : Prop where
  map : KernelMap c s
  list : FrameList c s
  live : HeapLive s

/-! ## kmalloc -/

/-- What `k` rounds of `kmalloc` have done. -/
structure Taken (c : Boot) (s t : Kernel) (k : Nat) : Prop where
  le_length : k ≤ s.freeFrameList.length
  free_eq : t.freeFrameList = s.freeFrameList.drop k
  top_eq : t.firstFreeVAInKHeap = s.firstFreeVAInKHeap + 4096 * k
  va_new : ∀ i f, i < k → s.freeFrameList[i]? = some f →
    t.virtualAddresses f = s.firstFreeVAInKHeap + 4096 * i
  va_old : ∀ f, f ∉ s.freeFrameList.take k → t.virtualAddresses f = s.virtualAddresses f
  ref_new : ∀ f ∈ s.freeFrameList.take k, t.references f = 1
  ref_old : ∀ f, f ∉ s.freeFrameList.take k → t.references f = s.references f
  mem_eq : ∀ f, ¬ c.KernelFrame f → t.mem f = s.mem f
  same : SameRest s t

/-- `kmalloc` has returned `p`, the start of a block of `n` pages. -/
structure Kmalloced (c : Boot) (s t : Kernel) (n p : Nat) : Prop where
  inv : KernelInv c t
  p_eq : p = s.firstFreeVAInKHeap
  fits : p + 4096 * n < kernelHeapMax
  pos : 1 ≤ n
  taken : Taken c s t n
  records : t.allocatedHAddresses = Function.update s.allocatedHAddresses s.idx
    { size := n, virtualAddress := p, empty := 0 }
  idx_eq : t.idx = s.idx + 1

section Kmalloc

variable {c : Boot} {s t : Kernel}

theorem Taken.zero (c : Boot) (s : Kernel) : Taken c s s 0 := by
  constructor
  case le_length => exact Nat.zero_le _
  case free_eq => rfl
  case top_eq => rfl
  case va_new =>
    intro i f hi
    omega
  case va_old => exact fun _ _ => rfl
  case ref_new =>
    intro f hf
    simp at hf
  case ref_old => exact fun _ _ => rfl
  case mem_eq => exact fun _ _ => rfl
  case same => exact SameRest.refl s

/-- One more round. -/
theorem Taken.succ {k f : Nat} {rest : List Nat} (h : Taken c s t k) (hl : FrameList c s)
    (hpdx : pdx t.firstFreeVAInKHeap ∈ kernelTables) (hfree : t.freeFrameList = f :: rest) :
    Taken c s (growPage c t f rest) (k + 1) := by
  have hdrop : s.freeFrameList.drop k = f :: rest := h.free_eq ▸ hfree
  have hk : k < s.freeFrameList.length := by
    by_contra hge
    rw [List.drop_eq_nil_of_le (by omega)] at hdrop
    cases hdrop
  have hget : s.freeFrameList[k] = f := by
    have := List.drop_eq_getElem_cons hk
    rw [hdrop] at this
    exact (List.cons.inj this).1.symm
  have htake : s.freeFrameList.take (k + 1) = s.freeFrameList.take k ++ [f] := by
    rw [← List.take_append_getElem hk, hget]
  have hfresh : f ∉ s.freeFrameList.take k := by
    have hnodup := hl.nodup
    rw [← List.take_append_drop k s.freeFrameList, hdrop] at hnodup
    intro hmem
    exact (List.nodup_append.1 hnodup).2.2 f hmem f (by simp) rfl
  have hnotmem : ∀ g, g ∉ s.freeFrameList.take (k + 1) → g ∉ s.freeFrameList.take k ∧ g ≠ f := by
    intro g hg
    rw [htake] at hg
    simpa using hg
  constructor
  case le_length => exact hk
  case free_eq =>
    show rest = s.freeFrameList.drop (k + 1)
    rw [← List.tail_drop, hdrop, List.tail_cons]
  case top_eq =>
    show t.firstFreeVAInKHeap + 4096 = _
    rw [h.top_eq]
    omega
  case va_new =>
    intro i g hi hget'
    simp only [growPage, Function.update_apply]
    by_cases hik : i < k
    · have hmem : g ∈ s.freeFrameList.take k :=
        List.mem_take_iff_getElem.2 ⟨i, by omega, by simpa [List.getElem?_eq_some_iff] using
          (List.getElem?_eq_some_iff.1 hget').2⟩
      rw [if_neg (by rintro rfl; exact hfresh hmem)]
      exact h.va_new i g hik hget'
    · have hik' : i = k := by omega
      subst hik'
      have hgf : g = f := by
        rw [List.getElem?_eq_getElem hk, hget] at hget'
        exact (Option.some.inj hget').symm
      rw [if_pos hgf, h.top_eq]
  case va_old =>
    intro g hg
    obtain ⟨hgk, hgf⟩ := hnotmem g hg
    simp only [growPage, Function.update_of_ne hgf]
    exact h.va_old g hgk
  case ref_new =>
    intro g hg
    rw [htake, List.mem_append, List.mem_singleton] at hg
    simp only [growPage, Function.update_apply]
    split
    · rfl
    · rename_i hgf
      exact h.ref_new g (hg.resolve_right hgf)
  case ref_old =>
    intro g hg
    obtain ⟨hgk, hgf⟩ := hnotmem g hg
    simp only [growPage, Function.update_of_ne hgf]
    exact h.ref_old g hgk
  case mem_eq =>
    intro g hg
    have hne : g ≠ c.tableFrame (pdx t.firstFreeVAInKHeap) := by
      rintro rfl
      exact hg (Boot.kernelFrame_table hpdx)
    exact (Kernel.setWord_mem_frame hne).trans (h.mem_eq g hg)
  case same =>
    exact h.same.trans ⟨rfl, rfl, rfl, rfl, rfl, rfl, rfl⟩

/-- The state between the rounds of `kmalloc`. -/
structure Growing (c : Boot) (s : Kernel) (k : Nat) (t : Kernel) : Prop where
  map : KernelMap c t
  list : FrameList c t
  taken : Taken c s t k
  records : t.allocatedHAddresses = s.allocatedHAddresses
  idx_eq : t.idx = s.idx

theorem Growing.step {k : Nat} (h : Growing c s k t) (hl : FrameList c s)
    (hroom : s.firstFreeVAInKHeap + 4096 * (k + 1) < kernelHeapMax) :
    Ensures (fun e => s.freeFrameList.length = k ∧ ∃ u, e = .panic .outOfMemory u)
      (Growing c s (k + 1)) (kmallocPage t) := by
  have htop := h.taken.top_eq
  have hroom' : t.firstFreeVAInKHeap + 4096 < kernelHeapMax := by
    rw [htop, Nat.add_assoc]
    exact hroom
  cases hfree : t.freeFrameList with
  | nil =>
    have hlen := h.taken.le_length
    have hdrop := h.taken.free_eq
    rw [hfree, eq_comm, List.drop_eq_nil_iff] at hdrop
    rw [kmallocPage, allocateFrame, hfree]
    exact ⟨by omega, _, rfl⟩
  | cons f rest =>
    have hstart := h.map.le_top
    have hlt := hroom'
    simp only [kernelHeapStart, kernelHeapMax] at hstart hlt
    have hpdx : pdx t.firstFreeVAInKHeap ∈ kernelTables :=
      pdx_mem_kernelTables (by omega) (by omega)
    rw [kmallocPage_eq h.map h.list hroom' hfree, ensures_ok]
    exact ⟨growPage_map h.map h.list hroom' hfree, growPage_list h.list hfree,
      h.taken.succ hl hpdx hfree, h.records, h.idx_eq⟩

/-- Requests whose rounding does not wrap. -/
theorem heapPages_eq {size : Nat} (hle : size ≤ 0xFFFFF000) :
    heapPages size = (size + 4095) / 4096 := by
  simp only [heapPages, wordMod]
  omega

theorem heapFull_iff {n : Nat} (hn : n * 4096 ≤ 0xFFFFF000) :
    heapFull s n = true ↔ kernelHeapMax ≤ s.firstFreeVAInKHeap + 4096 * n := by
  rw [heapFull, decide_eq_true_iff]
  simp only [kernelHeapMax, wordMod]
  omega

/-- The record of the new block completes the invariant. -/
theorem Growing.finish {n : Nat} (h : Growing c s n t) (hs : KernelInv c s) (hn : 1 ≤ n)
    (hfits : s.firstFreeVAInKHeap + 4096 * n < kernelHeapMax) :
    Kmalloced c s { t with
      allocatedHAddresses := Function.update t.allocatedHAddresses t.idx
        { size := n, virtualAddress := s.firstFreeVAInKHeap, empty := 0 }
      idx := t.idx + 1 } n s.firstFreeVAInKHeap := by
  obtain ⟨u, hu⟩ : ∃ u : Kernel, u = { t with
      allocatedHAddresses := Function.update t.allocatedHAddresses t.idx
        { size := n, virtualAddress := s.firstFreeVAInKHeap, empty := 0 }
      idx := t.idx + 1 } := ⟨_, rfl⟩
  rw [← hu]
  have hva : u.virtualAddresses = t.virtualAddresses := by rw [hu]
  have hidx : u.idx = s.idx + 1 := by rw [hu]; exact congrArg (· + 1) h.idx_eq
  have htop : u.firstFreeVAInKHeap = s.firstFreeVAInKHeap + 4096 * n := by
    rw [hu]
    exact h.taken.top_eq
  have hrec : u.allocatedHAddresses = Function.update s.allocatedHAddresses s.idx
      { size := n, virtualAddress := s.firstFreeVAInKHeap, empty := 0 } := by
    rw [hu]
    simp only [h.records, h.idx_eq]
  have hnew : u.allocatedHAddresses s.idx =
      { size := n, virtualAddress := s.firstFreeVAInKHeap, empty := 0 } := by
    rw [hrec, Function.update_self]
  have hold : ∀ i, i ≠ s.idx → u.allocatedHAddresses i = s.allocatedHAddresses i := by
    intro i hi
    rw [hrec, Function.update_of_ne hi]
  have hlast : ∀ i < u.idx, i < s.idx ∨ i = s.idx := by
    intro i hi
    omega
  have hstart := hs.map.le_top
  have hal := hs.map.top_aligned
  simp only [kernelHeapStart] at hstart
  have hframe : ∀ i < n, ∃ f, s.freeFrameList[i]? = some f := by
    intro i hi
    have := h.taken.le_length
    exact ⟨s.freeFrameList[i], List.getElem?_eq_getElem (by omega)⟩
  have hmap : KernelMap c u := by
    constructor
    case toStaticMap =>
      refine h.map.toStaticMap.congr (fun f _ => ?_) ?_ ?_ <;> rw [hu]
    case heapPage => rw [hva]; exact h.map.heapPage
    case below_top => rw [hva, htop, ← h.taken.top_eq]; exact h.map.below_top
    case in_ram => rw [hva]; exact h.map.in_ram
    case not_reserved => rw [hva]; exact h.map.not_reserved
    case names => rw [hva, hu]; exact h.map.names
    case mapped => rw [hva, hu]; exact h.map.mapped
    case top_aligned =>
      rw [htop]
      omega
    case le_top =>
      rw [htop, hidx]
      simp only [kernelHeapStart]
      omega
    case top_lt => rw [htop]; exact hfits
    case unused =>
      intro i hi
      rw [hold i (by omega)]
      exact hs.map.unused i (by omega)
    case start =>
      intro i hi
      rcases hlast i hi with hlt | rfl
      · rw [hold i (by omega)]
        exact hs.map.start i hlt
      · rw [hnew]
        simp only [kernelHeapStart]
        omega
    case aligned =>
      intro i hi
      rcases hlast i hi with hlt | rfl
      · rw [hold i (by omega)]
        exact hs.map.aligned i hlt
      · rw [hnew]
        exact hal
    case size_pos =>
      intro i hi
      rcases hlast i hi with hlt | rfl
      · rw [hold i (by omega)]
        exact hs.map.size_pos i hlt
      · rw [hnew]
        exact hn
    case order =>
      intro i j hij hj
      rcases hlast j hj with hlt | rfl
      · rw [hold i (by omega), hold j (by omega)]
        exact hs.map.order i j hij hlt
      · rw [hold i (by omega), hnew]
        exact hs.map.block_le_top i hij
    case block_le_top =>
      intro i hi
      rw [htop]
      rcases hlast i hi with hlt | rfl
      · rw [hold i (by omega)]
        exact Nat.le_trans (hs.map.block_le_top i hlt) (Nat.le_add_right _ _)
      · rw [hnew]
  have hkeep : ∀ f, s.virtualAddresses f ≠ 0 → t.virtualAddresses f = s.virtualAddresses f := by
    intro f hf
    refine h.taken.va_old f ?_
    intro hmem
    exact hf (hs.list.not_heap f (List.mem_of_mem_take hmem))
  have hlive : HeapLive u := by
    constructor
    · intro i hi hempty k hk
      rw [hva]
      rcases hlast i hi with hlt | rfl
      · rw [hold i (by omega)] at hempty hk ⊢
        obtain ⟨f, hf⟩ := hs.live.live i hlt hempty k hk
        have hstart := hs.map.start i hlt
        simp only [kernelHeapStart] at hstart
        exact ⟨f, (hkeep f (by omega)).trans hf⟩
      · rw [hnew] at hk ⊢
        obtain ⟨f, hf⟩ := hframe k hk
        exact ⟨f, h.taken.va_new k f hk hf⟩
    · intro i hi hempty
      rw [hva]
      rcases hlast i hi with hlt | rfl
      · rw [hold i (by omega)] at hempty ⊢
        refine ⟨(hs.live.dead i hlt hempty).1, ?_⟩
        intro k hk f hf
        by_cases hmem : f ∈ s.freeFrameList.take n
        · -- a page taken now lies above every old block
          obtain ⟨j, hj, hget⟩ := List.mem_take_iff_getElem.1 hmem
          have hnewva := h.taken.va_new j f (by omega)
            (by rw [List.getElem?_eq_getElem (by omega), hget])
          have hblock := hs.map.block_le_top i hlt
          omega
        · rw [h.taken.va_old f hmem] at hf
          exact (hs.live.dead i hlt hempty).2 k hk f hf
      · rw [hnew] at hempty
        exact absurd rfl hempty
  have hlist : FrameList c u := by
    have hl := h.list
    constructor
    case nodup => rw [hu]; exact hl.nodup
    case lt => rw [hu]; exact hl.lt
    case not_reserved => rw [hu]; exact hl.not_reserved
    case not_heap => rw [hu]; exact hl.not_heap
    case references_eq_zero => rw [hu]; exact hl.references_eq_zero
    case references_lt => rw [hu]; exact hl.references_lt
    case heap_referenced => rw [hu]; exact hl.heap_referenced
  have htaken : Taken c s u n := by
    have ht := h.taken
    constructor
    case le_length => exact ht.le_length
    case free_eq => rw [hu]; exact ht.free_eq
    case top_eq => rw [hu]; exact ht.top_eq
    case va_new => rw [hu]; exact ht.va_new
    case va_old => rw [hu]; exact ht.va_old
    case ref_new => rw [hu]; exact ht.ref_new
    case ref_old => rw [hu]; exact ht.ref_old
    case mem_eq => rw [hu]; exact ht.mem_eq
    case same =>
      refine ht.same.trans ?_
      rw [hu]
      exact ⟨rfl, rfl, rfl, rfl, rfl, rfl, rfl⟩
  exact ⟨⟨hmap, hlist, hlive⟩, rfl, hfits, hn, htaken, hrec, hidx⟩

/-- `kmalloc` refuses a request that does not fit, and else returns a block, unless it runs out of
frames on the way. -/
theorem kmalloc_spec (hs : KernelInv c s) {size : Nat} (hpos : 1 ≤ size)
    (hle : size ≤ 0xFFFFF000) :
    Ensures (fun e => s.freeFrameList.length < heapPages size ∧ ∃ u, e = .panic .outOfMemory u)
      (fun r => (r.1 = 0 ∧ r.2 = s ∧ kernelHeapMax ≤ s.firstFreeVAInKHeap + 4096 * heapPages size) ∨
        Kmalloced c s r.2 (heapPages size) r.1)
      (kmalloc s size) := by
  have hpages := heapPages_eq hle
  have hfull := heapFull_iff (s := s) (n := heapPages size) (by omega)
  rw [kmalloc]
  by_cases hcase : heapFull s (heapPages size) = true
  · simp only [hcase, if_true]
    exact .inl ⟨rfl, rfl, hfull.1 hcase⟩
  · have hfits : s.firstFreeVAInKHeap + 4096 * heapPages size < kernelHeapMax := by
      by_contra hge
      exact hcase (hfull.2 (by omega))
    rw [if_neg hcase]
    have hloop := forRange_ensures (I := Growing c s) (a := 0) (n := heapPages size) (s := s)
      (b := fun _ t => kmallocPage t)
      (E := fun e => s.freeFrameList.length < heapPages size ∧ ∃ u, e = .panic .outOfMemory u)
      (fun k t _ hk ht => (ht.step hs.list (by omega)).mono
        (fun e he => ⟨by omega, he.2⟩) (fun _ hu => hu))
      ⟨hs.map, hs.list, Taken.zero c s, rfl, rfl⟩
    rw [Nat.zero_add] at hloop
    exact hloop.bind fun t ht => .inr (ht.finish hs (by omega) hfits)

end Kmalloc

/-! ## kfree -/

/-- Frame `f` backs one of the first `k` pages from `va` on. -/
def InBlock (s : Kernel) (va k f : Nat) : Prop :=
  va ≤ s.virtualAddresses f ∧ s.virtualAddresses f < va + 4096 * k

instance (s : Kernel) (va k f : Nat) : Decidable (InBlock s va k f) :=
  inferInstanceAs (Decidable (_ ∧ _))

/-- What `k` rounds of `kfree` from `va` on have done. -/
structure Released (c : Boot) (s t : Kernel) (va k : Nat) : Prop where
  va_eq : ∀ f, t.virtualAddresses f = if InBlock s va k f then 0 else s.virtualAddresses f
  ref_eq : ∀ f, t.references f = if InBlock s va k f then s.references f - 1 else s.references f
  free_iff : ∀ f, f ∈ t.freeFrameList ↔
    f ∈ s.freeFrameList ∨ (InBlock s va k f ∧ s.references f = 1)
  mem_eq : ∀ f, ¬ c.KernelFrame f → t.mem f = s.mem f
  top_eq : t.firstFreeVAInKHeap = s.firstFreeVAInKHeap
  same : SameRest s t

/-- `kfree` has released the block of record `i`. -/
structure Kfreed (c : Boot) (s t : Kernel) (i : Nat) : Prop where
  inv : KernelInv c t
  released : Released c s t (s.allocatedHAddresses i).virtualAddress (s.allocatedHAddresses i).size
  records : t.allocatedHAddresses = Function.update s.allocatedHAddresses i
    { s.allocatedHAddresses i with empty := 1 }
  idx_eq : t.idx = s.idx

section Kfree

variable {c : Boot} {s t : Kernel}

/-- The state between the rounds of `kfree`. -/
structure Shrinking (c : Boot) (s : Kernel) (va k : Nat) (t : Kernel) : Prop where
  map : KernelMap c t
  list : FrameList c t
  released : Released c s t va k
  records : t.allocatedHAddresses = s.allocatedHAddresses
  idx_eq : t.idx = s.idx

theorem Released.zero (c : Boot) (s : Kernel) (va : Nat) : Released c s s va 0 := by
  have hnot : ∀ f, ¬ InBlock s va 0 f := by
    intro f hf
    have := hf.1
    have := hf.2
    omega
  constructor
  case va_eq => exact fun f => (if_neg (hnot f)).symm
  case ref_eq => exact fun f => (if_neg (hnot f)).symm
  case free_iff =>
    intro f
    constructor
    · exact .inl
    · rintro (h | h)
      · exact h
      · exact absurd h.1 (hnot f)
  case mem_eq => exact fun _ _ => rfl
  case top_eq => rfl
  case same => exact SameRest.refl s

/-- One more page joins the block exactly for the frame that backs it. -/
theorem inBlock_succ (hs : KernelMap c s) {va k f g : Nat} (hva : va % 4096 = 0)
    (hg : s.virtualAddresses g = va + 4096 * k) (hpos : s.virtualAddresses g ≠ 0) :
    InBlock s va (k + 1) f ↔ InBlock s va k f ∨ f = g := by
  constructor
  · rintro ⟨hle, hlt⟩
    by_cases hk : s.virtualAddresses f < va + 4096 * k
    · exact .inl ⟨hle, hk⟩
    · right
      have hf : s.virtualAddresses f ≠ 0 := by omega
      have hal := hs.heap_aligned hf
      exact hs.virtualAddresses_inj hf (by omega)
  · rintro (⟨hle, hlt⟩ | rfl)
    · exact ⟨hle, by omega⟩
    · exact ⟨by omega, by omega⟩

theorem Shrinking.step {va k g : Nat} (h : Shrinking c s va k t) (hs : KernelMap c s)
    (hva : va % 4096 = 0) (hg : s.virtualAddresses g = va + 4096 * k)
    (hpos : s.virtualAddresses g ≠ 0) :
    Ensures (fun _ => False) (Shrinking c s va (k + 1)) (kfreePage t (va + 4096 * k)) := by
  have hnot : ¬ InBlock s va k g := by
    rintro ⟨-, hlt⟩
    omega
  have htg : t.virtualAddresses g = s.virtualAddresses g := by
    rw [h.released.va_eq, if_neg hnot]
  have hne : t.virtualAddresses g ≠ 0 := by rwa [htg]
  have hrg : t.references g = s.references g := by
    rw [h.released.ref_eq, if_neg hnot]
  have href := h.list.heap_referenced g hne
  have hiff : ∀ f, InBlock s va (k + 1) f ↔ InBlock s va k f ∨ f = g :=
    fun f => inBlock_succ hs hva hg hpos
  obtain ⟨hrec, hidx, htop⟩ := dropPage_heap (c := c) (s := t) g
  have hpdx := pdx_mem_of_isHeapPage (h.map.heapPage g hne)
  rw [← hg, ← htg, kfreePage_eq h.map hne, ensures_ok]
  refine ⟨dropPage_map h.map hne, dropPage_list h.map h.list hne, ?_, hrec.trans h.records,
    hidx.trans h.idx_eq⟩
  constructor
  case va_eq =>
    intro f
    rw [dropPage_virtualAddresses, h.released.va_eq]
    simp only [hiff]
    by_cases hfg : f = g
    · simp [hfg]
    · simp [hfg]
  case ref_eq =>
    intro f
    rw [dropPage_references href, hrg, h.released.ref_eq]
    simp only [hiff]
    by_cases hfg : f = g
    · simp [hfg]
    · simp [hfg]
  case free_iff =>
    intro f
    rw [dropPage_freeFrameList href, hrg]
    by_cases hone : s.references g = 1
    · rw [if_pos hone, List.mem_cons, h.released.free_iff, hiff]
      constructor
      · rintro (rfl | hf | ⟨hf, hr⟩)
        · exact .inr ⟨.inr rfl, hone⟩
        · exact .inl hf
        · exact .inr ⟨.inl hf, hr⟩
      · rintro (hf | ⟨hf | rfl, hr⟩)
        · exact .inr (.inl hf)
        · exact .inr (.inr ⟨hf, hr⟩)
        · exact .inl rfl
    · rw [if_neg hone, h.released.free_iff, hiff]
      constructor
      · rintro (hf | ⟨hf, hr⟩)
        · exact .inl hf
        · exact .inr ⟨.inl hf, hr⟩
      · rintro (hf | ⟨hf | rfl, hr⟩)
        · exact .inl hf
        · exact .inr ⟨hf, hr⟩
        · exact absurd hr hone
  case mem_eq =>
    intro f hf
    rw [dropPage_mem hpdx hf, h.released.mem_eq f hf]
  case top_eq => rw [htop, h.released.top_eq]
  case same => exact h.released.same.trans (dropPage_sameRest g)

/-- The search of `kfree` finds the record of a block that was handed out. -/
theorem findRecord_eq (h : KernelMap c s) {i : Nat} (hi : i < s.idx) :
    findRecord s (s.allocatedHAddresses i).virtualAddress = some i := by
  have hidx := h.idx_lt
  refine firstIndex_of_unique (Nat.lt_trans hi hidx) (by simp) ?_
  intro j _ hj
  have hj : (s.allocatedHAddresses j).virtualAddress = (s.allocatedHAddresses i).virtualAddress := by
    simpa using hj
  have hstart := h.start i hi
  simp only [kernelHeapStart] at hstart
  by_contra hne
  by_cases hji : j < s.idx
  · rcases Nat.lt_or_gt_of_ne hne with hlt | hgt
    · have horder := h.order j i hlt hi
      have hsize := h.size_pos j hji
      omega
    · have horder := h.order i j hgt hji
      have hsize := h.size_pos i hi
      omega
  · have hunused := (h.unused j (by omega)).1
    omega

theorem Shrinking.finish {i : Nat} (hs : KernelInv c s) (hi : i < s.idx)
    (h : Shrinking c s (s.allocatedHAddresses i).virtualAddress (s.allocatedHAddresses i).size t) :
    Kfreed c s { t with
      allocatedHAddresses := Function.update t.allocatedHAddresses i
        { t.allocatedHAddresses i with empty := 1 } } i := by
  obtain ⟨u, hu⟩ : ∃ u : Kernel, u = { t with
      allocatedHAddresses := Function.update t.allocatedHAddresses i
        { t.allocatedHAddresses i with empty := 1 } } := ⟨_, rfl⟩
  rw [← hu]
  have hrec : u.allocatedHAddresses = Function.update s.allocatedHAddresses i
      { s.allocatedHAddresses i with empty := 1 } := by
    rw [hu]
    simp only [h.records]
  have hidx : u.idx = s.idx := by rw [hu]; exact h.idx_eq
  have hva : u.virtualAddresses = t.virtualAddresses := by rw [hu]
  have htop : u.firstFreeVAInKHeap = t.firstFreeVAInKHeap := by rw [hu]
  -- address and size of a record do not change
  have hfield : ∀ j, (u.allocatedHAddresses j).virtualAddress =
      (s.allocatedHAddresses j).virtualAddress ∧
      (u.allocatedHAddresses j).size = (s.allocatedHAddresses j).size := by
    intro j
    rw [hrec]
    by_cases hj : j = i
    · subst hj
      simp
    · simp [Function.update_of_ne hj]
  have hm := h.map
  have hmap : KernelMap c u := by
    constructor
    case toStaticMap =>
      refine hm.toStaticMap.congr (fun f _ => ?_) ?_ ?_ <;> rw [hu]
    case heapPage => rw [hva]; exact hm.heapPage
    case below_top => rw [hva, htop]; exact hm.below_top
    case in_ram => rw [hva]; exact hm.in_ram
    case not_reserved => rw [hva]; exact hm.not_reserved
    case names => rw [hva, hu]; exact hm.names
    case mapped => rw [hva, hu]; exact hm.mapped
    case top_aligned => rw [htop]; exact hm.top_aligned
    case le_top => rw [htop, hidx, ← h.idx_eq]; exact hm.le_top
    case top_lt => rw [htop]; exact hm.top_lt
    case unused =>
      intro j hj
      rw [(hfield j).1, (hfield j).2]
      exact hs.map.unused j (by omega)
    case start =>
      intro j hj
      rw [(hfield j).1]
      exact hs.map.start j (by omega)
    case aligned =>
      intro j hj
      rw [(hfield j).1]
      exact hs.map.aligned j (by omega)
    case size_pos =>
      intro j hj
      rw [(hfield j).2]
      exact hs.map.size_pos j (by omega)
    case order =>
      intro j k hjk hk
      rw [(hfield j).1, (hfield j).2, (hfield k).1]
      exact hs.map.order j k hjk (by omega)
    case block_le_top =>
      intro j hj
      rw [(hfield j).1, (hfield j).2, htop, h.released.top_eq]
      exact hs.map.block_le_top j (by omega)
  have hlist : FrameList c u := by
    have hl := h.list
    constructor
    case nodup => rw [hu]; exact hl.nodup
    case lt => rw [hu]; exact hl.lt
    case not_reserved => rw [hu]; exact hl.not_reserved
    case not_heap => rw [hu]; exact hl.not_heap
    case references_eq_zero => rw [hu]; exact hl.references_eq_zero
    case references_lt => rw [hu]; exact hl.references_lt
    case heap_referenced => rw [hu]; exact hl.heap_referenced
  have hlive : HeapLive u := by
    constructor
    · intro j hj hempty k hk
      rw [(hfield j).2] at hk
      rw [(hfield j).1, hva]
      have hji : j ≠ i := by
        rintro rfl
        rw [hrec, Function.update_self] at hempty
        cases hempty
      rw [hrec, Function.update_of_ne hji] at hempty
      obtain ⟨f, hf⟩ := hs.live.live j (by omega) hempty k hk
      refine ⟨f, ?_⟩
      rw [h.released.va_eq, if_neg ?_, hf]
      -- another block does not meet block `i`
      rintro ⟨hle, hlt⟩
      rcases Nat.lt_or_gt_of_ne hji with hlt' | hgt
      · have := hs.map.order j i hlt' hi
        omega
      · have := hs.map.order i j hgt (by omega)
        omega
    · intro j hj hempty
      by_cases hji : j = i
      · subst hji
        refine ⟨by rw [hrec, Function.update_self], ?_⟩
        intro k hk f hf
        rw [(hfield j).2] at hk
        rw [(hfield j).1, hva, h.released.va_eq] at hf
        have hstart := hs.map.start j hi
        simp only [kernelHeapStart] at hstart
        split at hf
        · omega
        · rename_i hout
          exact hout ⟨by omega, by omega⟩
      · have hold : u.allocatedHAddresses j = s.allocatedHAddresses j := by
          rw [hrec, Function.update_of_ne hji]
        rw [hold] at hempty ⊢
        obtain ⟨hone, hdead⟩ := hs.live.dead j (by omega) hempty
        refine ⟨hone, ?_⟩
        intro k hk f hf
        have hstart := hs.map.start j (by omega)
        simp only [kernelHeapStart] at hstart
        rw [hva, h.released.va_eq] at hf
        split at hf
        · omega
        · exact hdead k hk f hf
  have hreleased : Released c s u (s.allocatedHAddresses i).virtualAddress
      (s.allocatedHAddresses i).size := by
    have hr := h.released
    constructor
    case va_eq => rw [hu]; exact hr.va_eq
    case ref_eq => rw [hu]; exact hr.ref_eq
    case free_iff => rw [hu]; exact hr.free_iff
    case mem_eq => rw [hu]; exact hr.mem_eq
    case top_eq => rw [hu]; exact hr.top_eq
    case same =>
      refine hr.same.trans ?_
      rw [hu]
      exact ⟨rfl, rfl, rfl, rfl, rfl, rfl, rfl⟩
  exact ⟨⟨hmap, hlist, hlive⟩, hreleased, hrec, hidx⟩

/-- `kfree` of a live block releases it. -/
theorem kfree_spec (hs : KernelInv c s) {i : Nat} (hi : i < s.idx)
    (hempty : (s.allocatedHAddresses i).empty = 0) :
    Ensures (fun _ => False) (fun t => Kfreed c s t i)
      (kfree s (s.allocatedHAddresses i).virtualAddress) := by
  have hstart := hs.map.start i hi
  simp only [kernelHeapStart] at hstart
  rw [kfree, findRecord_eq hs.map hi]
  have hloop := forRange_ensures (a := 0) (n := (s.allocatedHAddresses i).size) (s := s)
    (I := Shrinking c s (s.allocatedHAddresses i).virtualAddress)
    (b := fun k t => kfreePage t ((s.allocatedHAddresses i).virtualAddress + 4096 * k))
    (E := fun _ => False)
    (by
      intro k t _ hk ht
      obtain ⟨g, hg⟩ := hs.live.live i hi hempty k (by omega)
      exact ht.step hs.map (hs.map.aligned i hi) hg (by omega))
    ⟨hs.map, hs.list, Released.zero c s _, rfl, rfl⟩
  rw [Nat.zero_add] at hloop
  exact hloop.bind fun t ht => ht.finish hs hi

/-- `kfree` of a block that has been released already changes nothing. -/
theorem kfree_dead (hs : KernelInv c s) {i : Nat} (hi : i < s.idx)
    (hempty : (s.allocatedHAddresses i).empty ≠ 0) :
    kfree s (s.allocatedHAddresses i).virtualAddress = .ok s := by
  have hstart := hs.map.start i hi
  have hal := hs.map.aligned i hi
  have hblock := hs.map.block_le_top i hi
  have hmax := hs.map.top_lt
  simp only [kernelHeapStart, kernelHeapMax] at hstart hmax
  obtain ⟨hone, hdead⟩ := hs.live.dead i hi hempty
  have hloop := forRange_ensures (a := 0) (n := (s.allocatedHAddresses i).size) (s := s)
    (I := fun _ t => t = s) (E := fun _ => False)
    (b := fun k t => kfreePage t ((s.allocatedHAddresses i).virtualAddress + 4096 * k))
    (by
      rintro k t - hk rfl
      have hheap : isHeapPage ((t.allocatedHAddresses i).virtualAddress + 4096 * k) = true := by
        rw [isHeapPage_iff]
        omega
      rw [kfreePage_none hs.map hheap
        ((hs.map.pte_eq_zero_iff hheap).2 (hdead k (by omega)))]
      rfl)
    rfl
  obtain ⟨t, hrun, rfl⟩ := hloop.exists_ok
  have hsame : Function.update t.allocatedHAddresses i
      { t.allocatedHAddresses i with empty := 1 } = t.allocatedHAddresses := by
    refine Function.update_eq_self_iff.2 ?_
    rw [← hone]
  rw [kfree, findRecord_eq hs.map hi]
  simp only [kfreeFound, hrun, ok_bind, hsame]

end Kfree

end FosMemory
