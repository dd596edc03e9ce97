import FosMemory.Kernel.PageFileOps

/-!
# Borrow — the temporary mapping at `USER_LIMIT`

`pf_update_env_page` maps the frame it writes out at `USER_LIMIT`, a page of the kernel half, and
unmaps it again; the reference `map_frame` counts is taken back by hand.  While the page is
borrowed the kernel half is not the one `StaticMap` describes, so the walks are computed here by
comparison with the state before.
-/

namespace FosMemory

open Lib

variable {c : Boot} {s t u : Kernel} {G H I : Ghost} {e : Nat}

theorem pdx_userLimit : pdx userLimit = 958 := by
  decide

theorem ptx_userLimit : ptx userLimit = 0 := by
  decide

theorem userLimit_table : pdx userLimit ∈ kernelTables := by
  rw [pdx_userLimit, mem_kernelTables]
  exact .inr (.inl rfl)

/-- `u` is `s` up to the entry of the borrowed page. -/
structure Borrowed (c : Boot) (s u : Kernel) : Prop where
  mem : ∀ g j, ¬ (g = c.tableFrame 958 ∧ j = 0) → u.mem g j = s.mem g j
  numberOfFrames : u.numberOfFrames = s.numberOfFrames
  physPageDirectory : u.physPageDirectory = s.physPageDirectory

/-- The page is free to be borrowed. -/
theorem StaticMap.userLimit_free (h : StaticMap c s) : s.mem (c.tableFrame 958) 0 = 0#32 := by
  have hmem : 958 ∈ kernelTables := mem_kernelTables.2 (.inr (.inl rfl))
  have haddr : entryAddress 958 0 = userLimit := by decide
  have hentry := h.table_entry 958 hmem 0 (by decide) (by decide)
  have hbase : ¬ (kernelBase ≤ userLimit ∧ userLimit < kernelBase + c.kernelEnd * 4096) := by
    simp only [kernelBase, userLimit]
    omega
  rw [hentry, haddr, Boot.tableEntry, if_neg hbase, if_neg (by decide), if_neg (by decide)]

theorem Borrowed.frame (h : Borrowed c s u) {g : Nat} (hg : g ≠ c.tableFrame 958) :
    u.mem g = s.mem g := by
  funext j
  exact h.mem g j fun hx => hg hx.1

/-- Other kernel pointers do not see the borrowed page. -/
theorem Borrowed.kernelEntry (h : Borrowed c s u) (hs : StaticMap c s) {a : Nat}
    (ha : pdx a ∈ kernelTables) (hne : pdx a ≠ 958) : u.kernelEntry a = s.kernelEntry a := by
  have hmem : 958 ∈ kernelTables := mem_kernelTables.2 (.inr (.inl rfl))
  have hdiv : s.physPageDirectory / 4096 = c.dirFrame := by
    rw [hs.physPageDirectory_eq, Nat.mul_div_cancel _ (by decide)]
  have hdir : u.mem c.dirFrame = s.mem c.dirFrame :=
    h.frame (Ne.symm (c.tableFrame_ne_dir 958 hmem))
  have htab : u.mem (c.tableFrame (pdx a)) = s.mem (c.tableFrame (pdx a)) :=
    h.frame fun hx => hne (c.tableFrame_inj _ ha _ hmem hx)
  have hnames := c.dirEntry_names ha
  simp only [Kernel.kernelEntry, h.physPageDirectory, hdiv, hdir, hs.dir_entry _ (pdx_lt a),
    hnames.present, if_true, hnames.frame_eq, htab]

theorem Borrowed.backed (h : Borrowed c s u) (hs : StaticMap c s) {a f : Nat}
    (ha : pdx a ∈ kernelTables) (hne : pdx a ≠ 958) (hb : s.Backed a f) : u.Backed a f := by
  rw [Kernel.Backed, h.kernelEntry hs ha hne]
  exact hb

theorem pdx_static_ne {f : Nat} (hf : f < c.kernelEnd) :
    pdx (kernelBase + f * 4096) ∈ kernelTables ∧ pdx (kernelBase + f * 4096) ≠ 958 := by
  have hfit := c.kernelEnd_le_heap
  constructor
  · simp only [kernelBase]
    exact pdx_mem_kernelTables (by omega) (by omega)
  · simp only [kernelBase, pdx]
    omega

/-- The kernel page table of the borrowed page, from the directory of an environment. -/
theorem Borrowed.getPageTable (h : Borrowed c s u) (hs : KernelMap c s) {dir fd : Nat}
    (hd : DirAt s dir fd) (hentry : s.mem fd 958 = c.dirEntry 958) :
    getPageTable u dir userLimit =
      .ok (kernelBase + c.tableFrame 958 * 4096, .inMemory) := by
  have hmem : 958 ∈ kernelTables := mem_kernelTables.2 (.inr (.inl rfl))
  have hheap := hs.heapPage fd hd.ne
  rw [hd.va_eq, isHeapPage_iff] at hheap
  have hdir : u.Backed dir fd := by
    refine h.backed hs.toStaticMap (pdx_mem_kernelTables (by omega) (by omega)) ?_ ?_
    · simp only [pdx]
      omega
    · rw [← hd.va_eq]
      exact hs.backed_heap hd.ne
  have hfd : fd ≠ c.tableFrame 958 := by
    rintro rfl
    exact hs.not_kernelFrame hd.ne (Boot.kernelFrame_table hmem)
  have hnames := c.dirEntry_names hmem
  have hload := Kernel.load_index hdir hheap.2.2 (pdx_lt userLimit)
  have htf := c.tableFrame_lt 958 hmem
  have hfn := c.kernelEnd_le
  have hfit := c.kernelEnd_le_heap
  have haddr : extractAddress (c.dirEntry 958) = c.tableFrame 958 * 4096 := by
    rw [extractAddress_eq, hnames.frame_eq]
  have hkernel : isKernelAddress userLimit = true := by decide
  have hstatic : staticKernelVirtualAddress u (c.tableFrame 958 * 4096) =
      .ok (kernelBase + c.tableFrame 958 * 4096) := by
    have hdiv : c.tableFrame 958 * 4096 / 4096 = c.tableFrame 958 :=
      Nat.mul_div_cancel _ (by decide)
    have hin : ¬ c.numberOfFrames ≤ c.tableFrame 958 := by omega
    simp only [staticKernelVirtualAddress, hdiv, h.numberOfFrames, hs.numberOfFrames_eq,
      if_neg hin, kernelBase, wordMod, Except.ok.injEq]
    omega
  rw [pdx_userLimit, h.frame hfd, hentry] at hload
  simp only [FosMemory.getPageTable, pdx_userLimit, hload, ok_bind, tablePointer, hkernel, if_true,
    haddr, hstatic, hnames.present]

theorem Borrowed.backed_table (h : Borrowed c s u) (hs : StaticMap c s) :
    u.Backed (kernelBase + c.tableFrame 958 * 4096) (c.tableFrame 958) := by
  have hlt := c.tableFrame_lt 958 (mem_kernelTables.2 (.inr (.inl rfl)))
  exact h.backed hs (pdx_static_ne hlt).1 (pdx_static_ne hlt).2 (hs.backed_static hlt)

/-- The entry of the borrowed page. -/
theorem Borrowed.load_table (h : Borrowed c s u) (hs : StaticMap c s) :
    u.load (kernelBase + c.tableFrame 958 * 4096 + 4 * ptx userLimit) =
      .ok (u.mem (c.tableFrame 958) 0) := by
  rw [Kernel.load_index (h.backed_table hs) (StaticMap.table_aligned _) (ptx_lt userLimit),
    ptx_userLimit]

theorem Borrowed.store_table (h : Borrowed c s u) (hs : StaticMap c s) (w : Word) :
    u.store (kernelBase + c.tableFrame 958 * 4096 + 4 * ptx userLimit) w =
      .ok (u.setWord (c.tableFrame 958) 0 w) := by
  rw [Kernel.store_index (h.backed_table hs) (StaticMap.table_aligned _) (ptx_lt userLimit),
    ptx_userLimit]

/-- `map_frame` at `USER_LIMIT`. -/
theorem mapFrame_userLimit (hs : KernelMap c s) {dir fd f : Nat} (hd : DirAt s dir fd)
    (hentry : s.mem fd 958 = c.dirEntry 958) (hf : f < 1048576) (perm : Word) :
    mapFrame s dir f userLimit perm =
      .ok ((incrementReferences s f).setWord (c.tableFrame 958) 0 (frameEntry f perm)) := by
  have hb : Borrowed c s s := ⟨fun _ _ _ => rfl, rfl, rfl⟩
  have hb' : Borrowed c s (incrementReferences s f) := ⟨fun _ _ _ => rfl, rfl, rfl⟩
  have hget := hb.getPageTable hs hd hentry
  have hload := hb.load_table hs.toStaticMap
  have hstore := hb'.store_table hs.toStaticMap (frameEntry f perm)
  rw [hs.userLimit_free] at hload
  simp only [frameEntry] at hstore
  simp only [mapFrame, mapFrameWith, hget, ok_bind, reduceCtorEq, if_false, hload,
    zero_has_present, Bool.false_eq_true, enterFrame, toPhysicalAddress_eq hf, hstore, frameEntry]

/-- `unmap_frame` at `USER_LIMIT`. -/
theorem Borrowed.unmapFrame (h : Borrowed c s u) (hs : KernelMap c s) {dir fd f : Nat}
    (hd : DirAt s dir fd) (hentry : s.mem fd 958 = c.dirEntry 958) (hf : f < c.numberOfFrames)
    {perm : Word} (hperm : perm.toNat < 4096) (hu : u.mem (c.tableFrame 958) 0 = frameEntry f perm) :
    unmapFrame u dir userLimit =
      .ok ((decrementReferences u f).setWord (c.tableFrame 958) 0 0#32) := by
  have hflt : f < 1048576 := Nat.lt_of_lt_of_le hf c.numberOfFrames_le
  have hplt : (perm ||| permPresent).toNat < 4096 := by
    rw [BitVec.toNat_or]
    exact Nat.or_lt_two_pow (n := 12) hperm (by decide)
  have hframe : (frameEntry f perm).frame = f := frame_constructEntry hflt hplt
  have hne : frameEntry f perm ≠ 0#32 := by
    have hhas : (frameEntry f perm).has (perm ||| permPresent) = true := has_constructEntry _ _
    exact has_ne_zero (has_of_has_or hhas).2 (by decide)
  have hget := h.getPageTable hs hd hentry
  have hload := h.load_table hs.toStaticMap
  have hb : Borrowed c s (decrementReferences u f) := by
    refine ⟨fun g j hg => ?_, ?_, ?_⟩
    · rw [decrementReferences_mem]
      exact h.mem g j hg
    · rw [decrementReferences_kernel.1]
      exact h.numberOfFrames
    · rw [decrementReferences_kernel.2.1]
      exact h.physPageDirectory
  have hstore := hb.store_table hs.toStaticMap 0#32
  have hinfo : toFrameInfo u (extractAddress (frameEntry f perm)) = .ok f := by
    rw [toFrameInfo, extractAddress_eq, hframe, Nat.mul_div_cancel _ (by decide),
      h.numberOfFrames, hs.numberOfFrames_eq, if_neg (by omega)]
  have hptr : kernelBase + c.tableFrame 958 * 4096 ≠ 0 := by
    simp only [kernelBase]
    omega
  rw [hu] at hload
  simp only [FosMemory.unmapFrame, getFrameInfo, hget, ok_bind, hload, hinfo, hstore, if_pos hptr,
    if_pos hne, ne_eq]

/-- The page behind the borrowed entry. -/
theorem Borrowed.loadPage (h : Borrowed c s u) (hs : StaticMap c s) {f : Nat} (hf : f < 1048576)
    {perm : Word} (hperm : perm.toNat < 4096) (hu : u.mem (c.tableFrame 958) 0 = frameEntry f perm) :
    u.loadPage userLimit = .ok (u.mem f) := by
  have hmem : 958 ∈ kernelTables := mem_kernelTables.2 (.inr (.inl rfl))
  have hdiv : s.physPageDirectory / 4096 = c.dirFrame := by
    rw [hs.physPageDirectory_eq, Nat.mul_div_cancel _ (by decide)]
  have hdir : u.mem c.dirFrame = s.mem c.dirFrame :=
    h.frame (Ne.symm (c.tableFrame_ne_dir 958 hmem))
  have hnames := c.dirEntry_names hmem
  have hplt : (perm ||| permPresent).toNat < 4096 := by
    rw [BitVec.toNat_or]
    exact Nat.or_lt_two_pow (n := 12) hperm (by decide)
  have hentry : u.kernelEntry userLimit = frameEntry f perm := by
    simp only [Kernel.kernelEntry, pdx_userLimit, ptx_userLimit, h.physPageDirectory, hdiv, hdir,
      hs.dir_entry 958 (by decide), hnames.present, if_true, hnames.frame_eq, hu]
  have hhas : (frameEntry f perm).has (perm ||| permPresent) = true := has_constructEntry _ _
  rw [Kernel.loadPage, hentry, if_pos (has_of_has_or hhas).2, frameEntry,
    frame_constructEntry hf hplt]

/-! ## pf_update_env_page -/

/-- Frames of environments have few references. -/
theorem Owned.references_le (ho : Owned c s G) {f : Nat} (hf : G.own f ≠ none) :
    s.references f ≤ 2 := by
  obtain ⟨⟨e', r⟩, hr⟩ := Option.ne_none_iff_exists'.1 hf
  have huse := ho.use f _ hr
  cases r with
  | held | page =>
    simp only [FrameUse] at huse
    omega
  | ws k =>
    simp only [FrameUse] at huse
    split at huse <;> omega
  | dir | table | ddir | dtable =>
    simp only [FrameUse] at huse
    omega

/-- Mapping the frame, writing it out and unmapping it leaves nothing but the disk page. -/
theorem pfUpdateEnvPage_eq (ho : Owned c s G) (hsp : Space c s G e) (h : SlotTable s G e)
    (hd : DiskFrames s G) {v f d : Nat} (hv : v < userTop) (hf : G.own f ≠ none)
    (hslot : G.slots e (roundDown v 4096) = some d) :
    pfUpdateEnvPage s e v f = .ok (.ok, writeDiskPage s d (s.mem f)) := by
  have hbase : ¬ kernelBase ≤ v := by
    simp only [userTop, kernelBase] at hv ⊢
    omega
  have hdir : (s.envs e).diskEnvPgdir ≠ 0 := by
    intro hx
    rw [h.no_slots ho hx] at hslot
    cases hslot
  have hget : getDiskPageDirectory s e = .ok s := by
    rw [getDiskPageDirectory, if_neg hdir]
  have hlook := h.pfLookup_eq ho hd hdir hv
  rw [hslot, Option.getD_some] at hlook
  have hd0 : d ≠ 0 := by
    have := (hd.range e _ d hslot).1
    omega
  have hmap := ho.inv.map
  have hfram := (ho.in_ram f hf).1
  have hflt := ho.lt hf
  have href := ho.references_le hf
  have hat := hsp.dirAt ho
  have hentry := hsp.kernel_pde 958 (by omega) (by omega) (by omega) (by omega)
  have htab : 958 ∈ kernelTables := mem_kernelTables.2 (.inr (.inl rfl))
  have hftab : f ≠ c.tableFrame 958 := by
    rintro rfl
    exact ho.not_kernelFrame hf (Boot.kernelFrame_table htab)
  -- the state while the page is borrowed
  obtain ⟨u, hu⟩ : ∃ u, u = (incrementReferences s f).setWord (c.tableFrame 958) 0
      (frameEntry f 0#32) := ⟨_, rfl⟩
  have hbor : ∀ w : Kernel, w.mem = u.mem → w.numberOfFrames = u.numberOfFrames →
      w.physPageDirectory = u.physPageDirectory → Borrowed c s w := by
    intro w hw hn hp
    refine ⟨fun g j hg => ?_, by rw [hn, hu]; rfl, by rw [hp, hu]; rfl⟩
    rw [hw, hu, Kernel.setWord_mem, if_neg hg]
    rfl
  have huentry : u.mem (c.tableFrame 958) 0 = frameEntry f 0#32 := by
    rw [hu]
    exact Kernel.setWord_mem_self _ _ _ _
  have humem : u.mem f = s.mem f := by
    rw [hu]
    exact Kernel.setWord_mem_frame hftab
  have hpage := (hbor u rfl rfl rfl).loadPage hmap.toStaticMap hflt (show (0#32 : Word).toNat < 4096 by decide)
    huentry
  -- the references of the frame: two more, one less, and one taken back by hand
  obtain ⟨w, hw⟩ : ∃ w, w = incrementReferences (writeDiskPage u d (s.mem f)) f := ⟨_, rfl⟩
  have hwref : w.references = Function.update s.references f (s.references f + 2) := by
    rw [hw, hu]
    simp only [incrementReferences, writeDiskPage, Kernel.setWord, Function.update_idem,
      Function.update_self]
    congr 1
    omega
  have hunmap := (hbor w (by rw [hw]; rfl) (by rw [hw]; rfl) (by rw [hw]; rfl)).unmapFrame hmap hat
    hentry hfram (show (0#32 : Word).toNat < 4096 by decide) (by rw [hw]; exact huentry)
  have hdec : decrementReferences w f =
      { w with references := Function.update s.references f (s.references f + 1) } := by
    have hpred : predUint16 (w.references f) = s.references f + 1 := by
      rw [hwref, Function.update_self, predUint16, if_neg (by omega)]
      omega
    simp only [decrementReferences, hpred]
    rw [if_neg (by omega), hwref, Function.update_idem]
  have hdone : pfUpdateEnvPage s e v f = .ok (.ok,
      { (decrementReferences w f).setWord (c.tableFrame 958) 0 0#32 with
        references := Function.update s.references f (s.references f) }) := by
    have hpred : predUint16 (s.references f + 1) = s.references f := by
      rw [predUint16, if_neg (by omega)]
      omega
    have hrefs : ((decrementReferences w f).setWord (c.tableFrame 958) 0 0#32).references =
        Function.update s.references f (s.references f + 1) := by
      rw [hdec]
      rfl
    simp only [pfUpdateEnvPage, if_neg hbase, hget, ok_bind, hlook, if_neg hd0,
      mapFrame_userLimit hmap hat hentry hflt, ← hu, hpage, humem, ← hw, hunmap, hrefs,
      Function.update_self, Function.update_idem, hpred]
  rw [hdone, hdec, hw, hu]
  have hfree := hmap.userLimit_free
  simp only [Function.update_eq_self, Kernel.setWord, incrementReferences, writeDiskPage,
    Function.update_idem, Function.update_self]
  rw [← hfree, Function.update_eq_self, Function.update_eq_self]

/-- A page without a slot: nothing is written. -/
theorem SlotTable.pfUpdateEnvPage_none (ho : Owned c s G) (h : SlotTable s G e)
    (hd : DiskFrames s G) {v : Nat} (hv : v < userTop) (f : Nat)
    (hslot : G.slots e (roundDown v 4096) = none) :
    Ensures (fun _ => ¬ Enough s 1)
      (fun r => r.1 = .pageNotExistInPf ∧ ∃ H, Filed c e 1 s G r.2 H ∧ H.slots = G.slots ∧
        r.2.disk = s.disk ∧ r.2.diskFreeFrameList = s.diskFreeFrameList ∧
        (r.2.envs e).diskEnvPgdir ≠ 0)
      (pfUpdateEnvPage s e v f) := by
  have hbase : ¬ kernelBase ≤ v := by
    simp only [userTop, kernelBase] at hv ⊢
    omega
  rw [pfUpdateEnvPage, if_neg hbase]
  refine (SlotTable.getDiskPageDirectory_spec ho h hd).bind ?_
  rintro t (⟨hno, hdir, hinv⟩ | ⟨H, hf, hslots, hdisk, hlist, hdir⟩)
  · have hlt := pdx_user hv
    have hload := hinv.map.load_null (a := 0 + 4 * pdx v) (by omega)
    simp only [pfLookup, hdir, getDiskPageTable, hload, error_bind, ensures_error]
    exact hno
  · have hlook := hf.table.pfLookup_eq hf.owned hf.frames hdir hv
    rw [hslots, hslot, Option.getD_none] at hlook
    simp only [hlook, ok_bind, if_true]
    exact ⟨rfl, H, hf, hslots, hdisk, hlist, hdir⟩

end FosMemory
