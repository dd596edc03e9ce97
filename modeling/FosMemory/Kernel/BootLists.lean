import FosMemory.Kernel.BootResult

/-!
# BootLists — `initialize_paging` and the end of the boot

With paging on, `initialize_paging` clears the first 1024 bytes of the zero page and of the
temporary page and sorts the frames.  `fosInitialize_exact` compares what the boot leaves with the
`Boot` of the same layout: they differ exactly in the table entries nobody wrote.
-/

namespace FosMemory

/-! ## Bytes of the two special pages -/

theorem Word.ext_byte {v w : Word} (h : ∀ k < 4, v.byte k = w.byte k) : v = w := by
  apply BitVec.eq_of_getLsbD_eq
  intro i hi
  have hbit := congrArg (fun u : BitVec 8 => u.getLsbD (i % 8)) (h (i / 8) (by omega))
  have hmod : i % 8 < 8 := Nat.mod_lt _ (by decide)
  have hsum : 8 * (i / 8) + i % 8 = i := Nat.div_add_mod i 8
  simpa only [Word.byte, BitVec.getLsbD_extractLsb', hmod, decide_true, Bool.true_and, hsum]
    using hbit

/-- The first `i` bytes of a page are clear, the others as in `old`. -/
def ClearedTo (old page : Nat → Word) (i : Nat) : Prop :=
  ∀ j k, k < 4 → (page j).byte k = if 4 * j + k < i then 0#8 else (old j).byte k

theorem clearedTo_zero (page : Nat → Word) : ClearedTo page page 0 :=
  fun _ _ _ => (if_neg (Nat.not_lt_zero _)).symm

theorem ClearedTo.step {old page : Nat → Word} {i : Nat} (h : ClearedTo old page i) :
    ClearedTo old (Function.update page (i / 4) ((page (i / 4)).setByte (i % 4) 0#8)) (i + 1) := by
  intro j k hk
  by_cases hj : j = i / 4
  · subst hj
    rw [Function.update_self]
    by_cases hki : k = i % 4
    · subst hki
      rw [Word.byte_setByte_self (Nat.mod_lt _ (by decide)), if_pos (by omega)]
    · rw [Word.byte_setByte_of_ne hk hki, h _ k hk]
      refine if_congr ?_ rfl rfl
      omega
  · rw [Function.update_of_ne hj, h j k hk]
    refine if_congr ?_ rfl rfl
    omega

theorem ClearedTo.word {old page : Nat → Word} (h : ClearedTo old page 1024) (j : Nat) :
    page j = if j < 256 then 0#32 else old j := by
  refine Word.ext_byte fun k hk => ?_
  rw [h j k hk]
  by_cases hj : j < 256
  · have hzero : Word.byte 0#32 k = 0#8 := by
      simp [Word.byte]
    rw [if_pos (by omega), if_pos hj, hzero]
  · rw [if_neg (by omega), if_neg hj]

theorem Kernel.setWord_mem_page (s : Kernel) (f j : Nat) (w : Word) :
    (s.setWord f j w).mem f = Function.update (s.mem f) j w :=
  Function.update_self _ _ _

theorem Kernel.storeByte_page {s : Kernel} {f i : Nat} (hi : i < 4096) (v : BitVec 8)
    (hb : s.Backed (kernelBase + 4096 * f + (i - i % 4)) f) :
    s.storeByte (kernelBase + 4096 * f + i) v =
      .ok (s.setWord f (i / 4) ((s.mem f (i / 4)).setByte (i % 4) v)) := by
  have hmod : (kernelBase + 4096 * f + i) % 4 = i % 4 := by
    simp only [kernelBase]
    omega
  have hsub : kernelBase + 4096 * f + i - i % 4 = kernelBase + 4096 * f + (i - i % 4) := by
    omega
  have hindex : (kernelBase + 4096 * f + (i - i % 4)) % 4096 / 4 = i / 4 := by
    simp only [kernelBase]
    omega
  rw [Kernel.storeByte, hmod, hsub, hb.load, Lib.ok_bind, hb.store, hindex]

section Special

variable {m : Hardware} {h : m.Fits} {x : Nat} {bg : Nat → Nat → Word} {b : BootState}

/-- Everything below `ptr_free_mem` is mapped where it was before paging. -/
theorem Drawn.backed (hd : Drawn m h x m.kernelEnd m.directory m.Mapped bg b) {s : Kernel}
    (hphys : s.physPageDirectory = m.firstFrame * 4096)
    (hmem : ∀ f, f ≠ 1 → f ≠ 2 → s.mem f = b.k.mem f) {f r : Nat} (hf : f < m.kernelEnd)
    (hr : r < 4096) : s.Backed (kernelBase + 4096 * f + r) f := by
  have hheap := h.heap
  have hfirst := h.le_first.1
  have hpdx : pdx (kernelBase + 4096 * f + r) = 960 + f / 1024 := by
    simp only [pdx, kernelBase]
    omega
  have hptx : ptx (kernelBase + 4096 * f + r) = f % 1024 := by
    simp only [ptx, kernelBase]
    omega
  have haddr : entryAddress (960 + f / 1024) (f % 1024) = kernelBase + 4096 * f := by
    simp only [entryAddress, kernelBase]
    omega
  have hi : 960 + f / 1024 ∈ kernelTables := mem_kernelTables.2 (.inr (.inr (by omega)))
  have htable := Hardware.tableFrame_bounds (m := m) hi
  -- the two frames the loop writes are not the directory and not the table
  have hdir : s.mem m.firstFrame (960 + f / 1024) = (m.layout h).dirEntry (960 + f / 1024) := by
    rw [hmem _ (by omega) (by omega), hd.dir _ (by omega), directory_eq h (by omega)]
  have hentry : s.mem (m.tableFrame (960 + f / 1024)) (f % 1024) =
      (m.layout h).tableEntry (kernelBase + 4096 * f) := by
    have hV : m.Mapped (entryAddress (960 + f / 1024) (f % 1024)) := by
      rw [haddr]
      exact .inr ⟨f, hf, rfl⟩
    rw [hmem _ (by omega) (by omega), hd.drawn _ hi _ (Nat.mod_lt _ (by decide)) hV, haddr]
  have hlink := (m.layout h).dirEntry_names hi
  have hframe : (m.layout h).tableFrame (960 + f / 1024) = m.tableFrame (960 + f / 1024) := rfl
  have hstatic := (m.layout h).tableEntry_static (show f < (m.layout h).kernelEnd from hf)
  rw [Kernel.Backed, Kernel.kernelEntry, hphys, Nat.mul_div_cancel _ (by decide), hpdx, hptx, hdir]
  simp only [hlink.present, hlink.frame_eq, hframe, hentry, if_true]
  rw [Nat.mul_comm 4096 f]
  exact hstatic

/-- What the loop over the two pages changes. -/
structure SpecialCleared (s t : Kernel) (i : Nat) : Prop where
  rest : t = { s with mem := t.mem }
  others : ∀ f, f ≠ 1 → f ≠ 2 → t.mem f = s.mem f
  zero : ClearedTo (s.mem 1) (t.mem 1) i
  temp : ClearedTo (s.mem 2) (t.mem 2) i

theorem Drawn.clearSpecialPages (hd : Drawn m h x m.kernelEnd m.directory m.Mapped bg b)
    {s : Kernel} (hphys : s.physPageDirectory = m.firstFrame * 4096) (hmem : s.mem = b.k.mem) :
    ∃ t, clearSpecialPages s = .ok t ∧ SpecialCleared s t 1024 := by
  have hfirst := h.le_first.1
  have hlt := m.first_lt
  have hstep : ∀ i t, 0 ≤ i → i < 0 + 1024 → SpecialCleared s t i →
      Lib.Ensures (fun _ => False) (fun u => SpecialCleared s u (i + 1)) (do
        let t ← t.storeByte (kernelBase + pageSize + i) 0#8
        t.storeByte (kernelBase + 2 * pageSize + i) 0#8) := by
    intro i t _ hi ht
    have hpage : ∀ u : Kernel, SpecialCleared s t i → u.physPageDirectory = t.physPageDirectory →
        (∀ f, f ≠ 1 → f ≠ 2 → u.mem f = t.mem f) → ∀ f < m.kernelEnd,
          u.Backed (kernelBase + 4096 * f + (i - i % 4)) f := by
      intro u ht hdir hother f hf
      refine hd.backed (hdir.trans ?_) (fun g h1 h2 => ?_) hf (by omega)
      · rw [ht.rest]
        exact hphys
      · rw [hother g h1 h2, ht.others g h1 h2, hmem]
    have hzero := Kernel.storeByte_page (v := 0#8) (by omega)
      (hpage t ht rfl (fun _ _ _ => rfl) 1 (by omega))
    have htemp := Kernel.storeByte_page (v := 0#8) (by omega)
      (hpage (t.setWord 1 (i / 4) ((t.mem 1 (i / 4)).setByte (i % 4) 0#8)) ht rfl
        (fun f hf _ => Kernel.setWord_mem_frame hf) 2 (by omega))
    have hone : kernelBase + pageSize + i = kernelBase + 4096 * 1 + i := rfl
    have htwo : kernelBase + 2 * pageSize + i = kernelBase + 4096 * 2 + i := rfl
    rw [hone, htwo, hzero, Lib.ok_bind, htemp, Lib.ensures_ok]
    refine ⟨?_, fun f h1 h2 => ?_, ?_, ?_⟩
    · rw [ht.rest]
      rfl
    · rw [Kernel.setWord_mem_frame h2, Kernel.setWord_mem_frame h1, ht.others f h1 h2]
    · rw [Kernel.setWord_mem_frame (by decide), Kernel.setWord_mem_page]
      exact ht.zero.step
    · have hsame : (t.setWord 1 (i / 4) ((t.mem 1 (i / 4)).setByte (i % 4) 0#8)).mem 2 = t.mem 2 :=
        Kernel.setWord_mem_frame (by decide)
      rw [Kernel.setWord_mem_page, hsame]
      exact ht.temp.step
  have hstart : SpecialCleared s s 0 := ⟨rfl, fun _ _ _ => rfl, clearedTo_zero _, clearedTo_zero _⟩
  exact (Lib.forRange_ensures (I := fun i t => SpecialCleared s t i) hstep hstart).exists_ok

end Special

/-! ## Loops over lists -/

theorem marked_cons (l : List Nat) (r : Nat → Nat) (a n : Nat) :
    (fun f => if f ∈ l then n else Function.update r a n f) =
      fun f => if f ∈ a :: l then n else r f := by
  funext f
  by_cases hl : f ∈ l
  · rw [if_pos hl, if_pos (List.mem_cons_of_mem a hl)]
  · by_cases ha : f = a
    · rw [if_neg hl, ha, Function.update_self, if_pos List.mem_cons_self]
    · rw [if_neg hl, Function.update_of_ne ha, if_neg (by simp [ha, hl])]

theorem foldl_reserveFrame (l : List Nat) (s : Kernel) : l.foldl reserveFrame s =
    { s with references := fun f => if f ∈ l then 1 else s.references f } := by
  induction l generalizing s with
  | nil => simp
  | cons a l ih =>
    rw [List.foldl_cons, ih, ← marked_cons]
    rfl

theorem foldl_insertFreeFrame (l : List Nat) (s : Kernel) : l.foldl insertFreeFrame s =
    { s with
      references := fun f => if f ∈ l then 0 else s.references f
      freeFrameList := l.reverse ++ s.freeFrameList } := by
  induction l generalizing s with
  | nil => simp
  | cons a l ih =>
    rw [List.foldl_cons, ih, ← marked_cons, List.reverse_cons, List.append_assoc,
      List.singleton_append]
    rfl

/-- A loop that puts each element at the head of one list of the state.  `get` reads that list and
`put` replaces it. -/
theorem foldl_insertHead {σ α : Type*} (get : σ → List α) (put : σ → List α → σ)
    (hget : ∀ s l, get (put s l) = l) (hput : ∀ s l l', put (put s l) l' = put s l')
    (hid : ∀ s, put s (get s) = s) (l : List α) (s : σ) :
    l.foldl (fun t a => put t (a :: get t)) s = put s (l.reverse ++ get s) := by
  induction l generalizing s with
  | nil => exact (hid s).symm
  | cons a l ih =>
    rw [List.foldl_cons, ih, hget, hput, List.reverse_cons, List.append_assoc,
      List.singleton_append]

theorem initializeDiskPageFile_eq (s : Kernel) : initializeDiskPageFile s =
    { s with diskFreeFrameList := (List.range' 1 (pagesPerFile - 1)).reverse } := by
  have hfold := foldl_insertHead Kernel.diskFreeFrameList
    (fun t l => { t with diskFreeFrameList := l }) (fun _ _ => rfl) (fun _ _ _ => rfl)
    (fun _ => rfl)
  rw [initializeDiskPageFile, hfold, List.append_nil]

theorem Kernel.envInit_eq (s : Kernel) (hs : s.envFreeList = []) :
    s.envInit = { s with envFreeList := List.range nenv } := by
  have hfold := foldl_insertHead Kernel.envFreeList (fun t l => { t with envFreeList := l })
    (fun _ _ => rfl) (fun _ _ _ => rfl) (fun _ => rfl)
  rw [Kernel.envInit, hfold, hs, List.append_nil, List.reverse_reverse]

/-! ## What the boot leaves -/

section Result

variable {m : Hardware} {x : Nat} {b : BootState}

/-- The four loops over frames, from frame 3 on. -/
theorem sortFrames (c : Boot) (s : Kernel) (hfree : s.freeFrameList = [])
    (href : ∀ f, s.references f = if f ∈ [0, 1, 2] then 1 else 0) :
    (List.range' c.kernelEnd (c.numberOfFrames - c.kernelEnd)).foldl insertFreeFrame
      ((List.range' 256 (c.kernelEnd - 256)).foldl reserveFrame
        ((List.range' 160 96).foldl reserveFrame ((List.range' 3 157).foldl insertFreeFrame s))) =
      { s with
        references := fun f => if c.Reserved f then 1 else 0
        freeFrameList := c.freeFrameList } := by
  have hdir := c.le_dirFrame
  have hlt := c.dirFrame_lt
  rw [foldl_insertFreeFrame, foldl_reserveFrame, foldl_reserveFrame, foldl_insertFreeFrame]
  congr 1
  · funext f
    have hthree : f ∈ [0, 1, 2] ↔ f < 3 := by
      simp only [List.mem_cons, List.not_mem_nil, or_false]
      omega
    simp only [List.mem_range'_1, href, hthree]
    by_cases hres : c.Reserved f
    · rw [if_pos hres]
      rw [Boot.Reserved] at hres
      split_ifs <;> omega
    · rw [if_neg hres]
      rw [Boot.Reserved] at hres
      split_ifs <;> omega
  · rw [hfree, List.append_nil]
    rfl

/-- What is left of `initialize_paging` once the two special pages are clear: the lists. -/
theorem Drawn.initializePaging_lists {h : m.Fits}
    (hd : Drawn m h x m.kernelEnd m.directory m.Mapped bg b)
    (hfree : b.ptrFreeMem = kernelBase + 4096 * m.kernelEnd) {t : Kernel}
    (ht : FosMemory.clearSpecialPages ([0, 1, 2].foldl reserveFrame
      { b.k with freeFrameList := [] }) = .ok t)
    (hempty : t.freeFrameList = []) (hframes : t.numberOfFrames = b.k.numberOfFrames)
    (href : ∀ f, t.references f = if f ∈ [0, 1, 2] then 1 else 0) :
    initializePaging b = .ok { b with k := { t with
      references := fun f => if (m.layout h).Reserved f then 1 else 0
      freeFrameList := (m.layout h).freeFrameList
      diskFreeFrameList := (List.range' 1 (pagesPerFile - 1)).reverse } } := by
  have hheap := h.heap
  have hphys : staticKernelPhysicalAddress b.ptrFreeMem = .ok (m.kernelEnd * 4096) := by
    rw [hfree, staticPhysical]
  have hend : roundUp (m.kernelEnd * 4096) pageSize / pageSize = m.kernelEnd := by
    simp only [roundUp, roundDown, pageSize, wordMod]
    omega
  have hio : roundUp 0xA0000 pageSize / pageSize - 3 = 157 := by decide
  have hhole : 0xA0000 / pageSize = 160 := by decide
  have hextended : 0x100000 / pageSize = 256 := by decide
  have hkeep : ∀ l l' l'' (u : Kernel), (List.foldl reserveFrame (List.foldl reserveFrame
      (List.foldl insertFreeFrame u l) l') l'').numberOfFrames = u.numberOfFrames := by
    intro l l' l'' u
    rw [foldl_reserveFrame, foldl_reserveFrame, foldl_insertFreeFrame]
  have hnumber : (m.layout h).numberOfFrames = t.numberOfFrames := by
    rw [hframes, hd.frames]
    rfl
  have hkernelEnd : (m.layout h).kernelEnd = m.kernelEnd := rfl
  have hsort := sortFrames (m.layout h) t hempty href
  rw [hnumber, hkernelEnd] at hsort
  rw [FosMemory.initializePaging]
  dsimp only
  rw [ht, liftStop_ok, Lib.ok_bind, hphys, Lib.ok_bind, hio, hhole, hextended, hend, hkeep, hsort,
    initializeDiskPageFile_eq]

/-- `initialize_paging` after `initialize_kernel_VM`. -/
theorem Drawn.initializePaging {h : m.Fits}
    (hd : Drawn m h x m.kernelEnd m.directory m.Mapped m.cleared b)
    (hfree : b.ptrFreeMem = kernelBase + 4096 * m.kernelEnd) :
    ∃ t, initializePaging b = .ok { b with k := t } ∧
      t = { b.k with
        mem := t.mem
        references := (m.layout h).state.references
        freeFrameList := (m.layout h).freeFrameList
        diskFreeFrameList := (m.layout h).state.diskFreeFrameList } ∧
      (∀ f, f ≠ 1 → f ≠ 2 → t.mem f = b.k.mem f) ∧
      ∀ f, f = 1 ∨ f = 2 → ∀ j, t.mem f j = if j < 256 then 0#32 else b.k.mem f j := by
  have href : b.k.references = fun _ => 0 := by
    rw [hd.rest]
    rfl
  have hphysdir : b.k.physPageDirectory = m.firstFrame * 4096 := by
    rw [hd.rest]
    rfl
  obtain ⟨s, hs⟩ : ∃ s, s = [0, 1, 2].foldl reserveFrame { b.k with freeFrameList := [] } :=
    ⟨_, rfl⟩
  have hs' := hs
  rw [foldl_reserveFrame, href] at hs'
  have hmem : s.mem = b.k.mem := by rw [hs']
  obtain ⟨t, ht, hclear⟩ := hd.clearSpecialPages (by rw [hs']; exact hphysdir) hmem
  have hrun := hd.initializePaging_lists hfree (hs ▸ ht) (by rw [hclear.rest, hs'])
    (by rw [hclear.rest, hs']) fun f => by rw [hclear.rest, hs']
  have hdisk : (m.layout h).state.diskFreeFrameList =
      (List.range' 1 (pagesPerFile - 1)).reverse := by
    rw [Boot.state]
  have hstate : (m.layout h).state.references =
      fun f => if (m.layout h).Reserved f then 1 else 0 := by
    rw [Boot.state]
  rw [hdisk, hstate]
  refine ⟨_, hrun, ?_, fun f h1 h2 => ?_, fun f hf j => ?_⟩
  · generalize (List.range' 1 (pagesPerFile - 1)).reverse = disk
    rw [hclear.rest, hs']
  · rw [hclear.others f h1 h2, hmem]
  · rcases hf with rfl | rfl
    · rw [hclear.zero.word j, hmem]
    · rw [hclear.temp.word j, hmem]

/-- What `FOS_initialize` has built: the globals, the directory, the tables with what was written
and what was not, and everything else. -/
structure Booted (m : Hardware) (h : m.Fits) (t : BootState) : Prop where
  freeMem : t.ptrFreeMem = kernelBase + 4096 * m.kernelEnd
  globals : t.k = { (m.layout h).state with mem := t.k.mem }
  dir : ∀ j < 1024, t.k.mem m.firstFrame j = (m.layout h).dirEntry j
  drawn : ∀ i ∈ kernelTables, ∀ j < 1024, m.Mapped (entryAddress i j) →
    t.k.mem (m.tableFrame i) j = (m.layout h).tableEntry (entryAddress i j)
  kept : ∀ i ∈ kernelTables, ∀ j < 1024, ¬ m.Mapped (entryAddress i j) →
    t.k.mem (m.tableFrame i) j = m.contents (m.tableFrame i) j
  others : ∀ f, f ≠ m.firstFrame → (∀ i ∈ kernelTables, f ≠ m.tableFrame i) → ∀ j,
    t.k.mem f j = if (f = 1 ∨ f = 2) ∧ j < 256 then 0#32 else m.cleared f j

theorem fosInitialize_booted (h : m.Fits) : ∃ t, fosInitialize m = .ok t ∧ Booted m h t := by
  obtain ⟨b, hb, hfree, hd⟩ := initializeKernelVM_spec h
  obtain ⟨u, hu, hglobals, hother, hspecial⟩ := hd.initializePaging hfree
  have hlist : u.envFreeList = [] := by
    rw [hglobals, hd.rest]
    rfl
  have hfirst := h.le_first.1
  have hlt := fun i hi => (Hardware.tableFrame_bounds (m := m) (i := i) hi).1
  have hrefs : (m.layout h).state.references =
      fun f => if (m.layout h).Reserved f then 1 else 0 := by
    rw [Boot.state]
  have hdisk : (m.layout h).state.diskFreeFrameList =
      (List.range' 1 (pagesPerFile - 1)).reverse := by
    rw [Boot.state]
  rw [hrefs, hdisk] at hglobals
  -- the long lists are not looked into
  obtain ⟨envs, henvs⟩ : ∃ envs, envs = List.range nenv := ⟨_, rfl⟩
  refine ⟨{ b with k := { u with envFreeList := envs, pageRepAlgoType := .lru } }, ?_, hfree, ?_,
    fun j hj => ?_, fun i hi j hj hV => ?_, fun i hi j hj hV => ?_, fun f hf hno j => ?_⟩
  · rw [fosInitialize, hb, Lib.ok_bind, hu, Lib.ok_bind, Kernel.envInit_eq u hlist, henvs]
  · rw [Boot.state, ← henvs]
    generalize (List.range' 1 (pagesPerFile - 1)).reverse = disk at hglobals ⊢
    rw [hglobals, hd.rest]
    rfl
  · exact (congrFun (hother _ (by omega) (by omega)) j).trans
      ((hd.dir j hj).trans (directory_eq h hj))
  · have hne := hlt i hi
    exact (congrFun (hother _ (by omega) (by omega)) j).trans (hd.drawn i hi j hj hV)
  · have hne := hlt i hi
    exact (congrFun (hother _ (by omega) (by omega)) j).trans (hd.kept i hi j hj hV)
  · have hbg := congrFun (hd.others f hf hno) j
    by_cases hf12 : f = 1 ∨ f = 2
    · refine (hspecial f hf12 j).trans ?_
      rw [hbg]
      exact if_congr (and_iff_right hf12).symm rfl rfl
    · obtain ⟨h1, h2⟩ := not_or.1 hf12
      rw [if_neg fun hx => hf12 hx.1, ← hbg]
      exact congrFun (hother f h1 h2) j

theorem tableEntry_unmapped (h : m.Fits) {a : Nat} (hal : a % 4096 = 0) (hno : ¬ m.Mapped a) :
    (m.layout h).tableEntry a = 0#32 := by
  obtain ⟨hnot, hstatic⟩ := not_or.1 hno
  obtain ⟨hstack, henvs⟩ := not_or.1 hnot
  have hend : (m.layout h).kernelEnd = m.kernelEnd := rfl
  have hnoStatic : ¬ (kernelBase ≤ a ∧ a < kernelBase + (m.layout h).kernelEnd * 4096) := by
    rintro ⟨hlow, hhigh⟩
    rw [hend] at hhigh
    simp only [kernelBase] at hlow hhigh
    refine hstatic ⟨(a - 0xF0000000) / 4096, by omega, ?_⟩
    simp only [kernelBase]
    omega
  have hnoStack : ¬ (0xEFBF8000 ≤ a ∧ a < 0xEFC00000) := fun hx =>
    hstack ⟨(a - 0xEFBF8000) / 4096, by omega, by omega⟩
  have hnoEnvs : ¬ (userTop ≤ a ∧ a < userTop + 256 * 4096) := by
    rintro ⟨hlow, hhigh⟩
    simp only [userTop] at hlow hhigh
    refine henvs ⟨(a - 0xEEC00000) / 4096, by omega, ?_⟩
    simp only [userTop]
    omega
  rw [Boot.tableEntry, if_neg hnoStatic, if_neg hnoStack, if_neg hnoEnvs]

theorem Boot.memory_other (c : Boot) {f : Nat} (hdir : f ≠ c.dirFrame)
    (hno : ∀ i ∈ kernelTables, f ≠ c.tableFrame i) (j : Nat) :
    c.memory f j = if (f = 1 ∨ f = 2) ∧ j < 256 then 0#32 else c.contents f j := by
  have hfind : kernelTables.find? (fun i => c.tableFrame i == f) = none := by
    rw [List.find?_eq_none]
    intro i hi heq
    exact hno i hi (beq_iff_eq.1 heq).symm
  rw [Boot.memory, if_neg hdir, hfind]

/-- Where the code has written, or need not, memory is that of the `Boot`. -/
theorem Booted.mem_eq {h : m.Fits} {t : BootState} (ht : Booted m h t) {f j : Nat} (hj : j < 1024)
    (hV : ∀ i ∈ kernelTables, f = m.tableFrame i → m.Mapped (entryAddress i j)) :
    t.k.mem f j = (m.layout h).memory f j := by
  by_cases hdir : f = m.firstFrame
  · rw [hdir, ht.dir j hj]
    exact ((m.layout h).memory_dir j).symm
  · by_cases htab : ∃ i ∈ kernelTables, f = m.tableFrame i
    · obtain ⟨i, hi, rfl⟩ := htab
      rw [ht.drawn i hi j hj (hV i hi rfl)]
      exact ((m.layout h).memory_table hi j).symm
    · have hno : ∀ i ∈ kernelTables, f ≠ m.tableFrame i := fun i hi heq => htab ⟨i, hi, heq⟩
      rw [ht.others f hdir hno j]
      exact ((m.layout h).memory_other hdir hno j).symm

/-- Whatever memory held before, the boot succeeds and leaves the state every run starts from, up to
the entries of kernel page tables that map nothing.  The tables are not cleared, so the states are
the same exactly when those words were zero. -/
theorem fosInitialize_exact (h : m.Fits) : ∃ t, fosInitialize m = .ok t ∧
    t.ptrFreeMem = kernelBase + 4096 * m.kernelEnd ∧
    t.k = { (m.layout h).state with mem := t.k.mem } ∧
    (∀ f, ∀ j < 1024, (∀ i ∈ kernelTables, f = m.tableFrame i → m.Mapped (entryAddress i j)) →
      t.k.mem f j = (m.layout h).state.mem f j) ∧
    ((∀ f, ∀ j < 1024, t.k.mem f j = (m.layout h).state.mem f j) ↔
      ∀ i ∈ kernelTables, ∀ j < 1024, ¬ m.Mapped (entryAddress i j) →
        m.contents (m.tableFrame i) j = 0#32) := by
  obtain ⟨t, hrun, ht⟩ := fosInitialize_booted h
  have hstate : (m.layout h).state.mem = (m.layout h).memory := by
    rw [Boot.state]
  have hempty : ∀ i ∈ kernelTables, ∀ j < 1024, ¬ m.Mapped (entryAddress i j) →
      (m.layout h).memory (m.tableFrame i) j = 0#32 := by
    intro i hi j hj hno
    refine ((m.layout h).memory_table hi j).trans (tableEntry_unmapped h ?_ hno)
    simp only [entryAddress]
    omega
  rw [hstate]
  refine ⟨t, hrun, ht.freeMem, ht.globals, fun f j hj hV => ht.mem_eq hj hV, ?_, ?_⟩
  · intro hsame i hi j hj hno
    rw [← ht.kept i hi j hj hno, hsame _ j hj, hempty i hi j hj hno]
  · intro hzero f j hj
    by_cases hleft : ∃ i ∈ kernelTables, f = m.tableFrame i ∧ ¬ m.Mapped (entryAddress i j)
    · obtain ⟨i, hi, rfl, hno⟩ := hleft
      rw [ht.kept i hi j hj hno, hzero i hi j hj hno, hempty i hi j hj hno]
    · refine ht.mem_eq hj fun i hi heq => ?_
      by_contra hno
      exact hleft ⟨i, hi, heq, hno⟩

/-- Address translation after the boot, for every kernel address outside the self-maps. -/
theorem fosInitialize_maps (h : m.Fits) : ∃ t, fosInitialize m = .ok t ∧
    ∀ va, userTop ≤ va → va < 4294967296 → pdx va ≠ 957 → pdx va ≠ 959 →
      (m.Mapped (roundDown va 4096) →
        t.k.kernelEntry va = (m.layout h).tableEntry (roundDown va 4096)) ∧
      (pdx va ∈ kernelTables → ¬ m.Mapped (roundDown va 4096) →
        t.k.kernelEntry va = m.contents (m.tableFrame (pdx va)) (ptx va)) ∧
      (pdx va ∉ kernelTables → t.k.kernelEntry va = 0#32) := by
  obtain ⟨t, hrun, ht⟩ := fosInitialize_booted h
  refine ⟨t, hrun, fun va htop hlt h957 h959 => ?_⟩
  have hphys : t.k.physPageDirectory / 4096 = m.firstFrame := by
    rw [ht.globals]
    exact Nat.mul_div_cancel _ (by decide)
  have hj : ptx va < 1024 := Nat.mod_lt _ (by decide)
  have haddr : entryAddress (pdx va) (ptx va) = roundDown va 4096 := by
    simp only [entryAddress, pdx, ptx, roundDown]
    omega
  -- with a table the walk ends in it
  have htable : pdx va ∈ kernelTables →
      t.k.kernelEntry va = t.k.mem (m.tableFrame (pdx va)) (ptx va) := by
    intro hi
    have hlink := (m.layout h).dirEntry_names hi
    have hframe : (m.layout h).tableFrame (pdx va) = m.tableFrame (pdx va) := rfl
    rw [Kernel.kernelEntry, hphys, ht.dir _ (pdx_lt va)]
    simp only [hlink.present, hlink.frame_eq, hframe, if_true]
  refine ⟨fun hV => ?_, fun hi hno => ?_, fun hi => ?_⟩
  · have hi : pdx va ∈ kernelTables := by
      have hround : pdx (roundDown va 4096) = pdx va := by
        simp only [pdx, roundDown]
        omega
      rw [← hround]
      exact (hV.entry h).2.2.1
    rw [htable hi, ht.drawn _ hi _ hj (by rw [haddr]; exact hV), haddr]
  · rw [htable hi, ht.kept _ hi _ hj (by rw [haddr]; exact hno)]
  · have hzero : (m.layout h).dirEntry (pdx va) = 0#32 := by
      have h955 : pdx va ≠ 955 := fun heq => hi (heq ▸ mem_kernelTables.2 (.inl rfl))
      rw [Boot.dirEntry, if_neg h957, if_neg h959, if_neg h955, if_neg hi]
    rw [Kernel.kernelEntry, hphys, ht.dir _ (pdx_lt va), hzero]
    rfl

end Result

/-! ## A machine with 64 MB -/

def smallHardware : Hardware where
  nvram := fun r => if r = 0x35 then 3#8 else 0#8
  endOfKernel := 0xF0600000
  ptrStackBottom := 0xF0500000
  contents := fun _ _ => 0#32
  diskContents := fun _ _ => 0#32

theorem smallHardware_fits : smallHardware.Fits := by
  constructor <;> decide

theorem fosInitialize_exact_small : ∃ t, fosInitialize smallHardware = .ok t ∧
    ∀ f, ∀ j < 1024, t.k.mem f j = (smallHardware.layout smallHardware_fits).state.mem f j := by
  obtain ⟨t, hrun, -, -, -, hiff⟩ := fosInitialize_exact smallHardware_fits
  exact ⟨t, hrun, hiff.2 fun _ _ _ _ _ => rfl⟩

/-- The first page of the kernel heap. -/
theorem fosInitialize_maps_small : ∃ t, fosInitialize smallHardware = .ok t ∧
    t.k.kernelEntry kernelHeapStart = 0#32 := by
  obtain ⟨t, hrun, hmaps⟩ := fosInitialize_maps smallHardware_fits
  have hend : smallHardware.kernelEnd ≤ 24576 := smallHardware_fits.heap
  have hno : ¬ smallHardware.Mapped (roundDown kernelHeapStart 4096) := by
    have hround : roundDown kernelHeapStart 4096 = 0xF6000000 := by decide
    rw [hround]
    rintro ((⟨i, hi, heq⟩ | ⟨i, hi, heq⟩) | ⟨i, hi, heq⟩)
    · omega
    · simp only [userTop] at heq
      omega
    · simp only [kernelBase] at heq
      omega
  have hi : pdx kernelHeapStart ∈ kernelTables :=
    mem_kernelTables.2 (.inr (.inr ⟨by decide, by decide⟩))
  have hheap := hmaps kernelHeapStart (by decide) (by decide) (by decide) (by decide)
  exact ⟨t, hrun, hheap.2.1 hi hno⟩

end FosMemory
