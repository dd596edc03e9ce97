import FosMemory.Kernel.Loader

/-!
# Segments — copying a segment and writing it to the page file

Once the pages of a segment are mapped the loader copies the bytes of the file into them and writes
the whole segment to the page file, page by page: the page in which the segment starts, the pages
the file fills, the page in which the file ends, and the pages of zeros.  `ProgramSegment.memory`
and `ProgramSegment.file` are the bytes this leaves in memory and in the page file.
-/

namespace FosMemory

open Lib

variable {c : Boot} {s t u : Kernel} {G H I : Ghost} {e : Nat}

/-! ## Copying -/

/-- The kernel writes a byte of a page of `e`. -/
theorem Space.kernelWriteByte_spec (hs : Space c s G e) (hcr3 : s.cr3 = (s.envs e).envCr3)
    {va f : Nat} (hva : va < userTop) (hf : G.own f = some ⟨e, .page (roundDown va 4096)⟩)
    (b : BitVec 8) : ∃ t, s.kernelWriteByte va b = .ok t ∧
      PageSet c e (roundDown va 4096) f (setPageByte (s.mem f) va b)
        (s.pteWord e (roundDown va 4096) ||| accessMark true) s G t := by
  obtain ⟨t', htouch, hset⟩ := hs.touch_some (b := false) hcr3 hva false true hf (Or.inl rfl)
  have hpage := hset.space.setPage hf (setPageByte (t'.mem f) va b)
  have hall := hset.thenPage hpage
  rw [hset.pte_self, hset.mem_page hf] at hall
  refine ⟨t'.setPage f (setPageByte (s.mem f) va b), ?_, hall⟩
  rw [← hset.mem_page hf, Kernel.kernelWriteByte, Kernel.writeByte, htouch]
  rfl

/-- The bytes `b lo`, …, `b (hi - 1)` at `va + lo`, … -/
def run (va lo hi : Nat) (b : Nat → BitVec 8) : Nat → Option (BitVec 8) :=
  fun a => if va + lo ≤ a ∧ a < va + hi then some (b (a - va)) else none

theorem run_empty (va lo : Nat) (b : Nat → BitVec 8) : run va lo lo b = fun _ => none := by
  funext a
  rw [run, if_neg (by omega)]

theorem run_next {va lo hi : Nat} (b : Nat → BitVec 8) (h : lo ≤ hi) :
    overlay (single (va + hi) (b hi)) (run va lo hi b) = run va lo (hi + 1) b := by
  funext a
  by_cases ha : a = va + hi
  · have hsub : va + hi - va = hi := by omega
    rw [ha, overlay_of_some (single_self _ _), run, if_pos (by omega), hsub]
  · rw [overlay_of_none (single_of_ne _ ha)]
    by_cases hin : va + lo ≤ a ∧ a < va + hi
    · rw [run, run, if_pos hin, if_pos (by omega)]
    · rw [run, run, if_neg hin, if_neg (by omega)]

/-- The bytes of a segment in its first `pages` pages in memory. -/
def ProgramSegment.memory (seg : ProgramSegment) (pages : Nat) : Nat → Option (BitVec 8) :=
  fun a =>
    if seg.virtualAddress ≤ a ∧ a < seg.first + 4096 * pages then
      some (if a < seg.virtualAddress + seg.sizeInFile then seg.data (a - seg.virtualAddress) else 0#8)
    else none

section Copy

variable (ho : Owned c s G) (hb : Base c s G e) (hd : DiskFrames s G)
  (hcr3 : s.cr3 = (s.envs e).envCr3)
include ho hb hd hcr3

/-- A loop of the copy, over bytes of pages in memory. -/
theorem Base.writeBytes_spec {va a n : Nat} {b : Nat → BitVec 8} (hlt : va + a + n ≤ userTop)
    (hres : ∀ k, a ≤ k → k < a + n → ∃ f, G.own f = some ⟨e, .page (roundDown (va + k) 4096)⟩) :
    Ensures (fun _ => False)
      (fun t => Settles c e (fun _ => none) (run va a (a + n) b) 0 s G t G)
      (forRange (fun k s => s.kernelWriteByte (va + k) (b k)) a n s) := by
  refine forRange_ensures (I := fun i t => Settles c e (fun _ => none) (run va a i b) 0 s G t G)
    ?_ ?_
  · rintro k t hle hk h
    obtain ⟨f, hf⟩ := hres k hle hk
    obtain ⟨u, hwrite, hpage⟩ := h.step.base.space.kernelWriteByte_spec (h.cr3 hcr3)
      (show va + k < userTop by omega) hf (b k)
    rw [hwrite]
    have hone := hpage.settles hf rfl h.step.owned h.step.base h.step.frames
    exact (h.trans hone).of_eq (fun _ => rfl) fun x => by rw [run_next b hle]
  · rw [run_empty]
    exact Settles.refl ho hb hd

/-- The copy loops of `program_segment_alloc_map_copy_workingset`. -/
theorem Base.copySegment_spec {seg : ProgramSegment} {pages : Nat}
    (hlt : seg.first + 4096 * pages ≤ userTop)
    (hres : ∀ i < pages, ∃ f, G.own f = some ⟨e, .page (seg.first + 4096 * i)⟩) :
    Ensures (fun _ => False)
      (fun t => Settles c e (fun _ => none) (seg.memory pages) 0 s G t G)
      (copySegment s seg pages) := by
  obtain ⟨va, hva⟩ : ∃ va, va = seg.virtualAddress := ⟨_, rfl⟩
  have hfirst : seg.first = roundDown va 4096 := by rw [hva, ProgramSegment.first]
  have hdown : roundDown va 4096 = va - va % 4096 := rfl
  have hmod := Nat.mod_le va 4096
  obtain ⟨limit, hlimit⟩ : ∃ limit, limit = seg.first + 4096 * pages := ⟨_, rfl⟩
  have hres' : ∀ k, va + k < limit → ∃ f, G.own f = some ⟨e, .page (roundDown (va + k) 4096)⟩ := by
    intro k hk
    have hpage : roundDown (va + k) 4096 =
        seg.first + 4096 * ((va + k - seg.first) / 4096) := by
      rw [hfirst, hdown] at *
      simp only [roundDown]
      omega
    rw [hpage]
    refine hres _ ?_
    rw [hfirst, hdown] at *
    omega
  simp only [copySegment, ← hva, Nat.mul_comm pages 4096, ← hfirst]
  rw [← hlimit] at hlt ⊢
  obtain ⟨copied, hcopied⟩ : ∃ copied, copied = min (limit - va) seg.sizeInFile := ⟨_, rfl⟩
  rw [← hcopied]
  by_cases hbelow : va < limit
  · refine (hb.writeBytes_spec (a := 0) (n := copied) (b := seg.data) ho hd hcr3 (by omega)
      fun k _ hk => hres' k (by omega)).bind ?_
    intro t h
    refine (h.step.base.writeBytes_spec (b := fun _ => 0#8) h.step.owned h.step.frames
      (h.cr3 hcr3) (by omega) fun k _ hk => hres' k (by omega)).imp ?_
    intro u h'
    refine (h.trans h').of_eq (fun _ => rfl) fun a => ?_
    have hend : copied + (limit - va - copied) = limit - va := by omega
    rw [hend, Nat.zero_add, ProgramSegment.memory, ← hva, ← hlimit]
    by_cases hin : va ≤ a ∧ a < limit
    · rw [if_pos hin]
      by_cases hfile : a < va + seg.sizeInFile
      · -- a byte of the file
        have hzero : run va copied (limit - va) (fun _ => 0#8) a = none := by
          rw [run, if_neg (by omega)]
        rw [overlay_of_none hzero, run, if_pos (by omega), if_pos hfile]
      · have hzero : run va copied (limit - va) (fun _ => 0#8) a = some 0#8 := by
          rw [run, if_pos (by omega)]
        rw [overlay_of_some hzero, if_neg hfile]
    · rw [if_neg hin]
      refine overlay_eq_none.2 ⟨?_, ?_⟩
      · rw [run, if_neg (by omega)]
      · rw [run, if_neg (by omega)]
  · -- no page of the segment is in memory
    have hzero : limit - va = 0 := by omega
    have hcopied0 : copied = 0 := by
      rw [hcopied, hzero, Nat.zero_min]
    rw [hzero, hcopied0]
    refine (Settles.refl ho hb hd).of_eq (fun _ => rfl) fun a => ?_
    rw [ProgramSegment.memory, ← hva, ← hlimit, if_neg (by omega)]

end Copy

/-! ## The temporary page -/

theorem temp_not_kernelFrame (c : Boot) : ¬ c.KernelFrame 2 :=
  c.low_not_kernelFrame (by decide)

theorem Owned.temp_unowned (ho : Owned c s G) : G.own 2 = none := by
  by_contra hne
  exact (ho.in_ram 2 hne).2.1 (.inl (by decide))

theorem temp_backed (hs : KernelInv c s) : s.Backed ptrTempPage 2 :=
  hs.map.toStaticMap.backed_static (f := 2) (c.low_lt_kernelEnd (by decide))

/-- Clearing the temporary page. -/
theorem zeroTempPage_spec (hs : KernelInv c s) :
    Ensures (fun _ => False) (fun t => OnlyFrame 2 s t ∧ ∀ j < 1024, t.mem 2 j = 0#32)
      (s.zeroPage ptrTempPage) := by
  have hloop := forRange_ensures (E := fun _ : Stop => False) (a := 0) (n := 1024) (s := s)
    (I := fun i t => OnlyFrame 2 s t ∧ ∀ j < i, t.mem 2 j = 0#32)
    (b := fun i t => t.store (ptrTempPage + 4 * i) 0#32) ?_
    ⟨OnlyFrame.refl 2 s, fun j hj => absurd hj (by omega)⟩
  · exact hloop
  · rintro i t - hi ⟨h, hz⟩
    rw [Kernel.store_index (temp_backed (h.inv hs (temp_not_kernelFrame c))) (by decide) (by omega)]
    refine ⟨h.trans (OnlyFrame.setWord t 2 i _), fun j hj => ?_⟩
    rw [Kernel.setWord_mem]
    by_cases hji : j = i
    · rw [if_pos ⟨rfl, hji⟩]
    · rw [if_neg fun hx => hji hx.2]
      exact hz j (by omega)

/-- Writing a byte of the temporary page. -/
theorem storeTempByte_spec (hs : KernelInv c s) {k : Nat} (hk : k < 4096) (b : BitVec 8) :
    Ensures (fun _ => False)
      (fun t => OnlyFrame 2 s t ∧ t.mem 2 = setPageByte (s.mem 2) k b)
      (s.storeByte (ptrTempPage + k) b) := by
  have hback := temp_backed hs
  have hword : ptrTempPage + k - (ptrTempPage + k) % 4 = ptrTempPage + 4 * (k / 4) := by
    simp only [ptrTempPage]
    omega
  have hbyte : (ptrTempPage + k) % 4 = k % 4 := by
    simp only [ptrTempPage]
    omega
  have hidx : k % 4096 / 4 = k / 4 := by omega
  rw [Kernel.storeByte, hword, Kernel.load_index hback (by decide) (by omega), ok_bind,
    Kernel.store_index hback (by decide) (by omega), hbyte]
  refine ⟨OnlyFrame.setWord s 2 _ _, ?_⟩
  rw [setPageByte, hidx]
  exact Function.update_self (2 : Nat) _ s.mem

/-- `n` bytes of the segment from byte `src` on, at offset `offset`, in a page of zeros. -/
def ProgramSegment.filled (seg : ProgramSegment) (offset src n : Nat) : Nat → BitVec 8 :=
  fun o => if offset ≤ o ∧ o < offset + n then seg.data (src + (o - offset)) else 0#8

/-- Filling the temporary page with bytes of a segment. -/
theorem fillTempPage_spec (hs : KernelInv c s) (seg : ProgramSegment) {offset src n : Nat}
    (hn : offset + n ≤ 4096) :
    Ensures (fun _ => False)
      (fun t => OnlyFrame 2 s t ∧ PageIs (t.mem 2) (seg.filled offset src n))
      (fillTempPage s seg offset src n) := by
  refine (zeroTempPage_spec hs).bind ?_
  rintro t ⟨ht, hzero⟩
  have hloop := forRange_ensures (E := fun _ : Stop => False) (a := 0) (n := n) (s := t)
    (I := fun k u => OnlyFrame 2 s u ∧ PageIs (u.mem 2) (seg.filled offset src k))
    (b := fun k u => u.storeByte (ptrTempPage + offset + k) (seg.data (src + k))) ?_ ⟨ht, ?_⟩
  · rw [Nat.zero_add] at hloop
    exact hloop
  · rintro k u - hk ⟨h, hpage⟩
    have hinv := h.inv hs (temp_not_kernelFrame c)
    rw [Nat.zero_add] at hk
    have hbyte := storeTempByte_spec hinv (k := offset + k) (by omega) (seg.data (src + k))
    rw [← Nat.add_assoc] at hbyte
    refine hbyte.imp ?_
    rintro w ⟨hw, hmem⟩
    refine ⟨h.trans hw, fun o ho => ?_⟩
    rw [hmem]
    by_cases hok : o = offset + k
    · have hsub : offset + k - offset = k := by omega
      rw [hok, pageByte_set_self, ProgramSegment.filled, if_pos (by omega), hsub]
    · rw [pageByte_set_of_ne _ _ (show o % 4096 ≠ (offset + k) % 4096 by omega), hpage o ho]
      by_cases hin : offset ≤ o ∧ o < offset + k
      · rw [ProgramSegment.filled, ProgramSegment.filled, if_pos hin, if_pos (by omega)]
      · rw [ProgramSegment.filled, ProgramSegment.filled, if_neg hin, if_neg (by omega)]
  · intro o ho
    have hword : o % 4096 / 4 < 1024 := by omega
    rw [pageByte, hzero _ hword, ProgramSegment.filled, if_neg (by omega)]
    rw [Word.byte]
    exact BitVec.extractLsb'_zero ..

theorem Base.fillTempPage_settles (ho : Owned c s G) (hb : Base c s G e) (hd : DiskFrames s G)
    (seg : ProgramSegment) {offset src n : Nat} (hn : offset + n ≤ 4096) :
    Ensures (fun _ => False)
      (fun t => Settles c e (fun _ => none) (fun _ => none) 0 s G t G ∧
        PageIs (t.mem 2) (seg.filled offset src n))
      (fillTempPage s seg offset src n) :=
  (fillTempPage_spec ho.inv seg hn).imp fun _ ht =>
    ⟨ht.1.settles ho hb hd ho.temp_unowned (temp_not_kernelFrame c) (by decide), ht.2⟩

/-! ## Pages of the page file -/

/-- Frames, heap pages or disk frames may be missing for `m` pages. -/
def Scarce (s : Kernel) (m : Nat) : Prop :=
  ¬ Enough s (2 * m) ∨ s.diskFreeFrameList.length < m

theorem Scarce.mono {k m : Nat} (h : Scarce s k) (hkm : k ≤ m) : Scarce s m := by
  rcases h with h | h
  · exact .inl fun hen => h (hen.mono (by omega))
  · exact .inr (by omega)

/-- What is missing after a step would have been missing before it. -/
theorem Settles.scarce {W : Nat → Option (Nat → BitVec 8)} {M : Nat → Option (BitVec 8)} {m k : Nat}
    (h : Settles c e W M m s G t H) (hsc : Scarce t k) : Scarce s (m + k) := by
  have hlist := h.diskList
  rcases hsc with hsc | hsc
  · exact .inl fun hen => hsc (h.enough hen)
  · exact .inr (by omega)

section Add

variable (ho : Owned c s G) (hb : Base c s G e) (hd : DiskFrames s G) {v : Nat} (hv : v < userTop)
  (hal : v % 4096 = 0)
include ho hb hd hv hal

/-- A page with data. -/
theorem Base.mustAdd_spec {src : DataSrc} {b : Nat → BitVec 8}
    (hsrc : ∀ t H, Filed c e 2 s G t H → ∃ page, src.read t = .ok page ∧ PageIs page b) :
    Ensures (fun _ => Scarce s 1)
      (fun t => ∃ H, Settles c e (single v b) (fun _ => none) 1 s G t H)
      (pfAddEnvPage s e v src >>= mustAdd) := by
  have hadd := SlotTable.pfAddEnvPage_spec ho hb.slots hd hv (E := fun _ => Scarce s 1)
    (fun _ hx => .inl hx) fun t H hf => by
      obtain ⟨page, hread, -⟩ := hsrc t H hf
      rw [hread]
      trivial
  refine hadd.bind ?_
  rintro ⟨r, t⟩ ⟨H, ⟨hr, hfull, -⟩ | ⟨hr, d, page, hsl, hread, hdisk⟩⟩
  · simp only at hr
    rw [mustAdd, if_pos hr]
    refine .inr ?_
    rw [hfull.empty]
    decide
  · simp only at hr hsl hread hdisk
    rw [roundDown_eq hal] at hsl
    obtain ⟨page', hread', hpage⟩ := hsrc t H hsl.filed
    obtain rfl : page = page' := Except.ok.inj (hread.symm.trans hread')
    have hne : ¬ r = PfStatus.noPageFileSpace := by
      rw [hr]
      decide
    rw [mustAdd, if_neg hne]
    exact ⟨H, hsl.settles ho hb hdisk hpage⟩

/-- The temporary page. -/
theorem Base.addTemp_spec {b : Nat → BitVec 8} (hb2 : PageIs (s.mem 2) b) :
    Ensures (fun _ => Scarce s 1)
      (fun t => ∃ H, Settles c e (single v b) (fun _ => none) 1 s G t H)
      (pfAddEnvPage s e v (.pointer ptrTempPage) >>= mustAdd) := by
  refine hb.mustAdd_spec ho hd hv hal fun t H hf => ⟨t.mem 2, ?_, ?_⟩
  · exact read_tempPage hf.owned.inv.map.toStaticMap
  · rw [hf.low 2 (by decide)]
    exact hb2

/-- A page of the image. -/
theorem Base.addImage_spec (seg : ProgramSegment) (k : Nat) :
    Ensures (fun _ => Scarce s 1)
      (fun t => ∃ H, Settles c e (single v fun o => seg.data (k + o)) (fun _ => none) 1 s G t H)
      (pfAddEnvPage s e v (.image (seg.page k)) >>= mustAdd) :=
  hb.mustAdd_spec ho hd hv hal fun _ _ _ => ⟨seg.page k, rfl, seg.pageIs k⟩

/-- A page of zeros, or what is taken for zeros. -/
theorem Base.mustAddEmpty_spec :
    Ensures (fun _ => Scarce s 1)
      (fun t => ∃ H, Settles c e (single v (pageByte (s.mem 1))) (fun _ => none) 1 s G t H)
      (pfAddEmptyEnvPage s e v true >>= mustAdd) := by
  refine ((SlotTable.pfAddEmptyEnvPage_spec ho hb.slots hd hv true).mono (F := fun _ => Scarce s 1)
    (fun _ hx => .inl hx) fun _ hr => hr).bind ?_
  rintro ⟨r, t⟩ ⟨H, ⟨hr, hfull, -⟩ | ⟨hr, d, hsl, hdisk⟩⟩
  · simp only at hr
    rw [mustAdd, if_pos hr]
    refine .inr ?_
    rw [hfull.empty]
    decide
  · simp only at hr hsl hdisk
    rw [roundDown_eq hal] at hsl
    have hne : ¬ r = PfStatus.noPageFileSpace := by
      rw [hr]
      decide
    rw [if_true, hsl.filed.low 1 (by decide)] at hdisk
    rw [mustAdd, if_neg hne]
    exact ⟨H, hsl.settles ho hb hdisk fun _ _ => rfl⟩

end Add

/-- A loop that adds the pages `a 0`, `a 1`, … to the page file. -/
theorem Base.addPages_spec (ho : Owned c s G) (hb : Base c s G e) (hd : DiskFrames s G)
    {n : Nat} {a : Nat → Nat} {b : Nat → Nat → BitVec 8} {body : Nat → Kernel → Except Stop Kernel}
    (hbody : ∀ i < n, ∀ t H, Owned c t H → Base c t H e → DiskFrames t H → t.mem 1 = s.mem 1 →
      Ensures (fun _ => Scarce t 1)
        (fun u => ∃ I, Settles c e (single (a i) (b i)) (fun _ => none) 1 t H u I) (body i t)) :
    Ensures (fun _ => Scarce s n)
      (fun t => ∃ H, Settles c e (spread a b n) (fun _ => none) n s G t H)
      (forRange body 0 n s) := by
  have hloop := forRange_ensures (E := fun _ : Stop => Scarce s n) (a := 0) (n := n) (s := s)
    (I := fun i t => ∃ H, Settles c e (spread a b i) (fun _ => none) i s G t H)
    (b := body) ?_ ⟨G, Settles.refl ho hb hd⟩
  · rw [Nat.zero_add] at hloop
    exact hloop
  · rintro i t - hi ⟨H, h⟩
    rw [Nat.zero_add] at hi
    refine (hbody i hi t H h.step.owned h.step.base h.step.frames h.step.others.zeroPage).mono
      (fun _ hx => (h.scarce hx).mono hi) ?_
    rintro u ⟨I, h'⟩
    exact ⟨I, (h.trans h').of_eq (fun _ => rfl) fun _ => rfl⟩

/-! ## The pages of a segment -/

section Bounds

variable (seg : ProgramSegment)

/-- `end_first_page`. -/
def ProgramSegment.endFirst : Nat :=
  roundUp seg.virtualAddress 4096

/-- `end_vaddr`: the end of the part in the file. -/
def ProgramSegment.endLast : Nat :=
  seg.virtualAddress + seg.sizeInFile

/-- `start_last_page`. -/
def ProgramSegment.startLast : Nat :=
  roundDown seg.endLast 4096

/-- `start_remaining_area`. -/
def ProgramSegment.startRemaining : Nat :=
  roundUp seg.endLast 4096

/-- The pages that are written straight from the image. -/
def ProgramSegment.full : Nat :=
  (seg.startLast - seg.endFirst) / 4096

/-- The pages that are written from the zero page. -/
def ProgramSegment.zeros : Nat :=
  (seg.virtualAddress + seg.sizeInMemory - seg.startRemaining + 4095) / 4096

/-- What the page file holds of a segment; `zero` are the bytes of the zero page. -/
def ProgramSegment.file (zero : Nat → BitVec 8) : Nat → Option (Nat → BitVec 8) :=
  overlay (spread (fun i => seg.startRemaining + 4096 * i) (fun _ => zero) seg.zeros)
    (overlay
      (single seg.startLast (seg.filled 0 (seg.endFirst - seg.virtualAddress + 4096 * seg.full)
        (seg.endLast - seg.startLast)))
      (overlay
        (spread (fun i => seg.endFirst + 4096 * i)
          (fun i o => seg.data (seg.endFirst - seg.virtualAddress + 4096 * i + o)) seg.full)
        (single seg.first (seg.filled (seg.virtualAddress - seg.first) 0
          (seg.endFirst - seg.virtualAddress)))))

/-- The number of pages written for a segment. -/
def ProgramSegment.cost : Nat :=
  2 + seg.full + seg.zeros

end Bounds

/-- The addresses of a segment as plain numbers, free of wrap-around. -/
structure Bounds (seg : ProgramSegment) : Prop where
  first_eq : seg.first = seg.virtualAddress - seg.virtualAddress % 4096
  limit_eq : seg.limit = (seg.virtualAddress + seg.sizeInMemory + 4095) / 4096 * 4096
  endFirst_eq : seg.endFirst = (seg.virtualAddress + 4095) / 4096 * 4096
  endLast_eq : seg.endLast = seg.virtualAddress + seg.sizeInFile
  startLast_eq : seg.startLast = seg.endLast - seg.endLast % 4096
  startRemaining_eq : seg.startRemaining = (seg.endLast + 4095) / 4096 * 4096
  full_eq : seg.full = (seg.startLast - seg.endFirst) / 4096
  zeros_eq : seg.zeros = (seg.virtualAddress + seg.sizeInMemory - seg.startRemaining + 4095) / 4096
  file_le : seg.sizeInFile ≤ seg.sizeInMemory
  end_lt : seg.virtualAddress + seg.sizeInMemory < userTop

theorem SegmentOk.bounds {n : Nat} {seg : ProgramSegment} (h : SegmentOk n seg) : Bounds seg := by
  have hend := h.end_lt
  have hfile := h.file_le
  exact ⟨rfl, roundUp_eq hend, roundUp_eq (by omega), rfl, rfl,
    roundUp_eq (by rw [ProgramSegment.endLast]; omega), rfl, rfl, hfile, hend⟩

section Write

variable {seg : ProgramSegment} (h : Bounds seg)
include h

theorem Bounds.endLast_mod :
    (seg.virtualAddress + seg.sizeInFile) % wordMod = seg.endLast := by
  have h₁ := h.end_lt
  have h₂ := h.file_le
  rw [h.endLast_eq]
  simp only [userTop] at h₁
  simp only [wordMod]
  omega

/-- The loop over the remaining area makes a round for every page of it: its length is negative, as
a `uint32`, only where the area is less than a page. -/
theorem Bounds.zeros_code :
    roundUp ((seg.virtualAddress + seg.sizeInMemory + wordMod - seg.startRemaining) % wordMod) 4096
      / 4096 = seg.zeros := by
  have h₁ := h.end_lt
  have h₂ := h.file_le
  have h₃ := h.startRemaining_eq
  have h₄ := h.endLast_eq
  rw [h.zeros_eq]
  simp only [userTop] at h₁
  simp only [roundUp, roundDown, wordMod]
  omega

/-- The temporary page is large enough. -/
theorem Bounds.head_le :
    seg.virtualAddress - seg.first + (seg.endFirst - seg.virtualAddress) ≤ 4096 := by
  have h₁ := h.first_eq
  have h₂ := h.endFirst_eq
  omega

theorem Bounds.tail_le : 0 + (seg.endLast - seg.startLast) ≤ 4096 := by
  have h₁ := h.startLast_eq
  omega

theorem Bounds.first_lt : seg.first < userTop := by
  have h₁ := h.first_eq
  have h₂ := h.end_lt
  omega

theorem Bounds.last_lt : seg.startLast < userTop ∧ seg.startLast % 4096 = 0 := by
  have h₁ := h.startLast_eq
  have h₂ := h.endLast_eq
  have h₃ := h.end_lt
  have h₄ := h.file_le
  omega

theorem Bounds.full_lt {i : Nat} (hi : i < seg.full) :
    seg.endFirst + 4096 * i < userTop ∧ (seg.endFirst + 4096 * i) % 4096 = 0 := by
  have h₁ := h.startLast_eq
  have h₂ := h.endLast_eq
  have h₃ := h.end_lt
  have h₄ := h.file_le
  have h₅ := h.full_eq
  have h₆ := h.endFirst_eq
  omega

theorem Bounds.zeros_lt {i : Nat} (hi : i < seg.zeros) :
    seg.startRemaining + 4096 * i < userTop ∧ (seg.startRemaining + 4096 * i) % 4096 = 0 ∧
      (seg.startRemaining + 4096 * i) % wordMod = seg.startRemaining + 4096 * i := by
  have h₁ := h.startRemaining_eq
  have h₂ := h.zeros_eq
  have h₃ := h.end_lt
  have hlt : seg.startRemaining + 4096 * i < userTop := by omega
  refine ⟨hlt, by omega, Nat.mod_eq_of_lt ?_⟩
  simp only [userTop] at hlt
  simp only [wordMod]
  omega

/-- The page file part of the segment loop. -/
theorem Base.writeSegment_spec (ho : Owned c s G) (hb : Base c s G e) (hd : DiskFrames s G) :
    Ensures (fun _ => Scarce s seg.cost)
      (fun t => ∃ H, Settles c e (seg.file (pageByte (s.mem 1))) (fun _ => none) seg.cost s G t H)
      (writeSegment s e seg) := by
  obtain ⟨zero, hzero⟩ : ∃ zero, zero = pageByte (s.mem 1) := ⟨_, rfl⟩
  rw [← hzero]
  have hfull : (seg.startLast - seg.endFirst) / 4096 = seg.full := rfl
  rw [writeSegment]
  dsimp only
  rw [show roundDown seg.virtualAddress 4096 = seg.first from rfl,
    show roundUp seg.virtualAddress 4096 = seg.endFirst from rfl, h.endLast_mod,
    show roundDown seg.endLast 4096 = seg.startLast from rfl,
    show roundUp seg.endLast 4096 = seg.startRemaining from rfl, h.zeros_code, hfull]
  -- the first page
  refine ((hb.fillTempPage_settles ho hd seg h.head_le).mono (F := fun _ => Scarce s seg.cost)
    (fun _ hx => hx.elim) fun _ hr => hr).bind ?_
  rintro s₁ ⟨h₁, hpage₁⟩
  refine ((h₁.step.base.addTemp_spec h₁.step.owned h₁.step.frames h.first_lt (first_aligned seg)
    hpage₁).mono (F := fun _ => Scarce s seg.cost)
    (fun _ hx => (h₁.scarce hx).mono (by rw [ProgramSegment.cost]; omega)) fun _ hr => hr).bind ?_
  rintro s₂ ⟨G₂, h₂⟩
  have h₁₂ := h₁.trans h₂
  -- the pages that are filled by the file
  refine ((h₂.step.base.addPages_spec (a := fun i => seg.endFirst + 4096 * i) (n := seg.full)
    (b := fun i o => seg.data (seg.endFirst - seg.virtualAddress + 4096 * i + o)) h₂.step.owned
    h₂.step.frames ?_).mono (F := fun _ => Scarce s seg.cost)
    (fun _ hx => (h₁₂.scarce hx).mono (by rw [ProgramSegment.cost]; omega)) fun _ hr => hr).bind ?_
  · intro i hi t H ho' hb' hd' _
    obtain ⟨hlt, hal⟩ := h.full_lt hi
    exact hb'.addImage_spec ho' hd' hlt hal seg _
  rintro s₃ ⟨G₃, h₃⟩
  have h₁₃ := h₁₂.trans h₃
  -- the page in which the file ends
  refine ((h₃.step.base.fillTempPage_settles h₃.step.owned h₃.step.frames seg h.tail_le).mono
    (F := fun _ => Scarce s seg.cost) (fun _ hx => hx.elim) fun _ hr => hr).bind ?_
  rintro s₄ ⟨h₄, hpage₄⟩
  have h₁₄ := h₁₃.trans h₄
  refine ((h₄.step.base.addTemp_spec h₄.step.owned h₄.step.frames h.last_lt.1 h.last_lt.2
    hpage₄).mono (F := fun _ => Scarce s seg.cost)
    (fun _ hx => (h₁₄.scarce hx).mono (by rw [ProgramSegment.cost]; omega)) fun _ hr => hr).bind ?_
  rintro s₅ ⟨G₅, h₅⟩
  have h₁₅ := h₁₄.trans h₅
  -- the pages of zeros
  refine (h₅.step.base.addPages_spec (a := fun i => seg.startRemaining + 4096 * i) (n := seg.zeros)
    (b := fun _ => zero) h₅.step.owned h₅.step.frames ?_).mono
    (fun _ hx => (h₁₅.scarce hx).mono (by rw [ProgramSegment.cost]; omega)) ?_
  · intro i hi t H ho' hb' hd' hmem
    obtain ⟨hlt, hal, hmod⟩ := h.zeros_lt hi
    rw [hmod, hzero, ← h₁₅.step.others.zeroPage, ← hmem]
    exact hb'.mustAddEmpty_spec ho' hd' hlt hal
  rintro t ⟨H, h₆⟩
  refine ⟨H, ((h₁₅.trans h₆).of_eq (fun v => ?_) fun a => ?_).mono ?_⟩
  · simp only [ProgramSegment.file, overlay_none_left, overlay_none_right]
  · simp only [overlay_none_left]
  · rw [ProgramSegment.cost]
    omega

end Write

end FosMemory
