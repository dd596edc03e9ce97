import FosMemory.Kernel.BootTables

/-!
# BootResult — what the boot leaves

The phases of `initialize_kernel_VM` one after the other, each with the directory and the set of
written table entries it reaches; then `check_boot_pgdir`, which finds nothing to object to,
`turn_on_paging`, and the lists `initialize_paging` fills.
-/

namespace FosMemory

/-! ## Directories on the way -/

/-- The directory entry `boot_get_page_table` writes. -/
def Hardware.tableLink (m : Hardware) (i : Nat) : Word :=
  constructEntry (m.tableFrame i * 4096) (permWriteable ||| permPresent)

/-- The table of the stack and `n` tables from `KERNEL_BASE` on. -/
def Hardware.dirTables (m : Hardware) (n i : Nat) : Word :=
  if i = 958 ∨ 960 ≤ i ∧ i < 960 + n then m.tableLink i else 0#32

/-- Addresses below `KERNEL_STACK_TOP` that are mapped. -/
def StackPage (a : Nat) : Prop :=
  ∃ i < 8, a = 0xEFBF8000 + 4096 * i

section Phases

variable {m : Hardware} {h : m.Fits} {x next : Nat} {D : Nat → Word} {V : Nat → Prop}
  {bg : Nat → Nat → Word} {b : BootState}

theorem Drawn.dirCongr {D' : Nat → Word} (hd : Drawn m h x next D V bg b)
    (hD : ∀ j < 1024, D j = D' j) : Drawn m h x next D' V bg b :=
  { hd with dir := fun j hj => (hd.dir j hj).trans (hD j hj) }

theorem Hardware.Fits.tableLink_frame (h : m.Fits) {i : Nat} (hi : i ∈ kernelTables) :
    extractAddress (m.tableLink i) = m.tableFrame i * 4096 := by
  have hlt : m.tableFrame i < 1048576 := (m.layout h).frame_lt ((m.layout h).tableFrame_lt i hi)
  rw [extractAddress_eq, Hardware.tableLink, frame_constructEntry hlt (by decide)]

/-- The first phase. -/
theorem bootDirectory_spec (h : m.Fits) : ∃ t, bootDirectory m m.start = .ok t ∧
    Drawn m h 0 (m.firstFrame + 1) (fun _ => 0#32) (fun _ => False) m.contents t := by
  have hheap := h.heap
  have hroom := h.room
  have hlt := m.first_lt
  have hmod : (kernelBase + 4096 * m.firstFrame + 4096) % wordMod =
      kernelBase + 4096 * m.firstFrame + 4096 := by
    simp only [kernelBase, wordMod]
    omega
  have halloc : bootAllocateSpace m m.start pageSize pageSize = (kernelBase + 4096 * m.firstFrame,
      { m.start with ptrFreeMem := kernelBase + 4096 * m.firstFrame + 4096 }) := by
    rw [bootAllocateSpace, if_pos (show m.start.ptrFreeMem = 0 from rfl)]
    simp only [pageSize, h.first, hmod]
  have hin : 1024 * m.firstFrame + 1024 ≤ 1024 * m.detectMemory := by
    omega
  have hclear := BootState.memsetZero_frame (n := 1024)
    (b := { m.start with ptrFreeMem := kernelBase + 4096 * m.firstFrame + 4096 }) hin
  -- the frame of the directory is cleared, the others are not
  have hother : ∀ f, f ≠ m.firstFrame →
      clearWords m.contents (1024 * m.firstFrame) 1024 f = m.contents f := by
    intro f hf
    funext j
    rw [clearWords, if_neg]
    omega
  refine ⟨{ k := m.kernel (clearWords m.contents (1024 * m.firstFrame) 1024) (m.firstFrame * 4096) 0
            ptrFreeMem := kernelBase + 4096 * m.firstFrame + 4096 }, ?_, rfl, ?_, ?_, hlt,
    fun j hj => ?_, fun _ _ _ _ hV => hV.elim, fun i hi j hj _ => ?_, fun f hf _ => hother f hf⟩
  · have hsize : pageSize = 4 * 1024 := rfl
    rw [bootDirectory]
    simp only [halloc]
    rw [hsize, hclear, Lib.ok_bind, staticPhysical, Lib.ok_bind]
    rfl
  · show kernelBase + 4096 * m.firstFrame + 4096 ≠ 0
    omega
  · exact roundUp_pages_above (by decide) (by omega)
  · show clearWords m.contents (1024 * m.firstFrame) 1024 m.firstFrame j = 0#32
    rw [clearWords, if_pos]
    omega
  · exact congrFun (hother _ (Nat.ne_of_gt (Hardware.tableFrame_bounds hi).1)) j

theorem tableEntry_stack (h : m.Fits) {i : Nat} (hi : i < 8) :
    (m.layout h).tableEntry (0xEFBF8000 + 4096 * i) =
      constructEntry (m.ptrStackBottom - kernelBase + 4096 * i)
        (permWriteable ||| permPresent) := by
  have hlow := h.stack_low
  have hpage := h.stack_page
  have hframe : (m.layout h).stackFrame = (m.ptrStackBottom - kernelBase) / 4096 := rfl
  have hnot : ¬ (kernelBase ≤ 0xEFBF8000 + 4096 * i ∧
      0xEFBF8000 + 4096 * i < kernelBase + (m.layout h).kernelEnd * 4096) := by
    simp only [kernelBase]
    omega
  have hyes : 0xEFBF8000 ≤ 0xEFBF8000 + 4096 * i ∧ 0xEFBF8000 + 4096 * i < 0xEFC00000 := by
    omega
  have haddr : ((m.ptrStackBottom - kernelBase) / 4096 +
      (0xEFBF8000 + 4096 * i - 0xEFBF8000) / 4096) * 4096 =
      m.ptrStackBottom - kernelBase + 4096 * i := by
    simp only [kernelBase] at hlow ⊢
    omega
  rw [Boot.tableEntry, if_neg hnot, if_pos hyes, hframe, haddr]

/-- `boot_map_range` over `n + 1` pages of a table that does not exist yet. -/
theorem Drawn.mapRange_new (hd : Drawn m h x next D V bg b) (va pa n : Nat) {k : Nat} {perm : Word}
    (hal : va % 4096 = 0) (hk : k ∈ kernelTables) (hnone : D k = 0#32)
    (hnext : next = m.tableFrame k)
    (hpage : ∀ i < n + 1, va + 4096 * i < 4294967296 ∧ pdx (va + 4096 * i) = k ∧
      (m.layout h).tableEntry (va + 4096 * i) =
        constructEntry (pa + 4096 * i) (perm ||| permPresent)) :
    ∃ t, Lib.forRange (fun i t => bootMapPage m (kernelBase + 4096 * m.firstFrame) (va + 4096 * i)
        (pa + 4096 * i) perm t) 0 (n + 1) b = .ok t ∧
      t.ptrFreeMem = kernelBase + 4096 * (next + 1) ∧
      Drawn m h x (next + 1) (Function.update D k (m.tableLink k))
        (fun a => V a ∨ ∃ i < n + 1, a = va + 4096 * i) bg t := by
  obtain ⟨hlt, hpdx, hentry⟩ := hpage 0 (Nat.succ_pos n)
  -- the first page brings the table, the others find it
  obtain ⟨t, ht, hfree, hdt⟩ := hd.mapPage_new (va + 4096 * 0) (pa + 4096 * 0) (by omega) hlt
    (by rw [hpdx]; exact hk) (by rw [hpdx]; exact hnone) (by rw [hpdx]; exact hnext) hentry
  rw [hpdx] at hdt
  have hready : Ready m (Function.update D k (m.tableLink k)) k := by
    rw [Ready, Function.update_self]
    exact h.tableLink_frame hk
  obtain ⟨u, hu, hfree', hdu⟩ := hdt.mapPages va pa 1 n hal fun i _ hi => by
    obtain ⟨hlt, hpdx, hentry⟩ := hpage i (by omega)
    exact ⟨hlt, by rw [hpdx]; exact hk, by rw [hpdx]; exact hready, hentry⟩
  refine ⟨u, ?_, hfree'.trans hfree, hdu.congr fun a => ?_⟩
  · rw [Lib.forRange, ht, Lib.ok_bind]
    exact hu
  · constructor
    · rintro ((hx | rfl) | ⟨i, -, hi, rfl⟩)
      · exact .inl hx
      · exact .inr ⟨0, Nat.succ_pos n, rfl⟩
      · exact .inr ⟨i, by omega, rfl⟩
    · rintro (hx | ⟨i, hi, rfl⟩)
      · exact .inl (.inl hx)
      · cases i with
        | zero => exact .inl (.inr rfl)
        | succ i => exact .inr ⟨i + 1, by omega, by omega, rfl⟩

theorem Hardware.Fits.stack_physical (h : m.Fits) :
    staticKernelPhysicalAddress m.ptrStackBottom = .ok (m.ptrStackBottom - kernelBase) := by
  have hlow := h.stack_low
  rw [staticKernelPhysicalAddress, if_neg (by omega)]

/-- The kernel stack. -/
theorem Drawn.stack (hd : Drawn m h x (m.firstFrame + 1) (fun _ => 0#32) (fun _ => False) bg b) :
    ∃ t, bootStack m b = .ok t ∧
      Drawn m h x (m.firstFrame + 2) (m.dirTables 0) StackPage bg t := by
  have hmem : 958 ∈ kernelTables := mem_kernelTables.2 (.inr (.inl rfl))
  have hpage : ∀ i < 7 + 1, 0xEFBF8000 + 4096 * i < 4294967296 ∧ pdx (0xEFBF8000 + 4096 * i) = 958 ∧
      (m.layout h).tableEntry (0xEFBF8000 + 4096 * i) = constructEntry
        (m.ptrStackBottom - kernelBase + 4096 * i) (permWriteable ||| permPresent) := by
    intro i hi
    refine ⟨by omega, ?_, tableEntry_stack h hi⟩
    simp only [pdx]
    omega
  obtain ⟨t, ht, -, hdt⟩ := hd.mapRange_new 0xEFBF8000 (m.ptrStackBottom - kernelBase) 7
    (by decide) hmem rfl rfl hpage
  have hrounds : (8 * pageSize + 4095) / 4096 = 7 + 1 := by decide
  have hbase : 0xEFC00000 - 8 * pageSize = 0xEFBF8000 := by decide
  refine ⟨t, ?_, (hdt.congr fun a => or_iff_right id).dirCongr fun j _ => ?_⟩
  · rw [bootStack, h.stack_physical, Lib.ok_bind, hd.pageDirectory, bootMapRange, hrounds, hbase]
    exact ht
  · by_cases hj : j = 958
    · rw [hj, Function.update_self, Hardware.dirTables, if_pos (.inl rfl)]
    · rw [Function.update_of_ne hj, Hardware.dirTables, if_neg (by omega)]

/-- One table from `KERNEL_BASE` on. -/
theorem Drawn.table {i : Nat} (hi : i < 64)
    (hd : Drawn m h x (m.firstFrame + 2 + i) (m.dirTables i) V bg b) :
    ∃ t, bootTable m i b = .ok t ∧
      Drawn m h x (m.firstFrame + 2 + (i + 1)) (m.dirTables (i + 1)) V bg t := by
  have hpdx : pdx (kernelBase + ptSize * i) = 960 + i := by
    simp only [pdx, kernelBase, ptSize]
    omega
  have hmem : 960 + i ∈ kernelTables := mem_kernelTables.2 (.inr (.inr (by omega)))
  have hnone : m.dirTables i (960 + i) = 0#32 := by
    rw [Hardware.dirTables, if_neg (by omega)]
  have hnext : m.firstFrame + 2 + i = m.tableFrame (960 + i) := by
    rw [Hardware.tableFrame, if_neg (by omega), if_neg (by omega), Nat.add_sub_cancel_left]
  obtain ⟨t, ht, -, hdt⟩ := hd.newPageTable (kernelBase + ptSize * i) (by rw [hpdx]; exact hmem)
    (by rw [hpdx]; exact hnone) (by rw [hpdx]; exact hnext)
  rw [hpdx] at hdt
  refine ⟨t, ?_, hdt.dirCongr fun j _ => ?_⟩
  · rw [bootTable, hd.pageDirectory, ht, Lib.ok_bind]
  · by_cases hj : j = 960 + i
    · subst hj
      rw [Function.update_self, Hardware.dirTables, if_pos (.inr (by omega))]
      rfl
    · rw [Function.update_of_ne hj, Hardware.dirTables, Hardware.dirTables]
      refine if_congr ?_ rfl rfl
      omega

/-- The tables from `KERNEL_BASE` on. -/
theorem Drawn.tables (hd : Drawn m h x (m.firstFrame + 2) (m.dirTables 0) V bg b) {n : Nat}
    (hn : n ≤ 64) : ∃ t, Lib.forRange (bootTable m) 0 n b = .ok t ∧
      Drawn m h x (m.firstFrame + 2 + n) (m.dirTables n) V bg t := by
  have hstep : ∀ i t, 0 ≤ i → i < 0 + n →
      Drawn m h x (m.firstFrame + 2 + i) (m.dirTables i) V bg t →
      Lib.Ensures (fun _ => False)
        (Drawn m h x (m.firstFrame + 2 + (i + 1)) (m.dirTables (i + 1)) V bg)
        (bootTable m i t) := by
    intro i t _ hi ht
    obtain ⟨u, hu, hdu⟩ := ht.table (by omega)
    rw [hu]
    exact hdu
  have hrun := Lib.forRange_ensures
    (I := fun i => Drawn m h x (m.firstFrame + 2 + i) (m.dirTables i) V bg) hstep hd
  obtain ⟨t, ht, hdt⟩ := hrun.exists_ok
  rw [Nat.zero_add] at hdt
  exact ⟨t, ht, hdt⟩

theorem Drawn.array (hd : Drawn m h x next D V bg b) {size words pages : Nat}
    (hwords : size = 4 * words) (hpages : (size + 4095) / 4096 = pages)
    (hlow : m.infoFrame ≤ next) (hhigh : next + pages ≤ m.envsFrame + 256) :
    ∃ t, bootArray m size b = .ok (kernelBase + 4096 * next, t) ∧
      Drawn m h x (next + pages) D V (clearWords bg (1024 * next) words) t := by
  have hend : m.envsFrame + 257 = m.kernelEnd := rfl
  obtain ⟨t, halloc, -, -, ht⟩ := hd.alloc pageSize hpages (by omega)
  obtain ⟨u, hclear, -, hu⟩ := ht.memset (n := words) hlow (by omega)
  rw [← hwords] at hclear
  refine ⟨u, ?_, hu⟩
  rw [bootArray, halloc, hclear, Lib.ok_bind]

theorem Drawn.clearFramesInfo (hd : Drawn m h x next D V bg b) : b.clearFramesInfo = b := by
  have href : b.k.references = fun _ => 0 := by
    rw [hd.rest]
    rfl
  rw [BootState.clearFramesInfo, ← href]

theorem Drawn.clearEnvs (hd : Drawn m h x next D V bg b) : b.clearEnvs = b := by
  have henvs : b.k.envs = fun _ => Env.zero := by
    rw [hd.rest]
    rfl
  rw [BootState.clearEnvs, ← henvs]

/-- `frames_info` and `disk_frames_info`. -/
theorem Drawn.frameInfo (hd : Drawn m h x m.infoFrame D V bg b) : ∃ t, bootFrameInfo m b = .ok t ∧
    Drawn m h x m.envsFrame D V
      (clearWords (clearWords bg (1024 * m.infoFrame) (m.detectMemory * 6))
        (1024 * m.diskInfoFrame) 798720) t := by
  have hmax := m.detectMemory_le
  have hinfo : m.infoFrame + m.infoPages = m.diskInfoFrame := rfl
  have henvs : m.diskInfoFrame + 780 = m.envsFrame := rfl
  have hsize : b.k.numberOfFrames * frameInfoSize % wordMod = m.detectMemory * 24 := by
    rw [hd.frames]
    simp only [frameInfoSize, wordMod]
    omega
  have hdisk : pagesPerFile * frameInfoSize = 4 * 798720 := by decide
  have hdiskPages : (pagesPerFile * frameInfoSize + 4095) / 4096 = 780 := by decide
  obtain ⟨t, ht, hdt⟩ := hd.array (show m.detectMemory * 24 = 4 * (m.detectMemory * 6) by omega)
    (show (m.detectMemory * 24 + 4095) / 4096 = m.infoPages from rfl) (Nat.le_refl _) (by omega)
  rw [hinfo] at hdt
  obtain ⟨u, hu, hdu⟩ := hdt.array hdisk hdiskPages (by omega) (by omega)
  refine ⟨u, ?_, hdu⟩
  rw [bootFrameInfo, hsize, ht, Lib.ok_bind, hdt.clearFramesInfo, hu, Lib.ok_bind]

/-- The self-maps. -/
theorem Drawn.listing (hd : Drawn m h x next D V bg b) :
    ∃ t, setupListingToAllPageTablesEntries b (kernelBase + 4096 * m.firstFrame) = .ok t ∧
      Drawn m h x next (Function.update (Function.update D 959
        (constructEntry (m.firstFrame * 4096) (permPresent ||| permWriteable))) 957
        (BitVec.ofNat 32 (m.firstFrame * 4096) ||| permUser ||| permPresent)) V bg t := by
  obtain ⟨t, ht, -, hdt⟩ := hd.store_dir (show 959 < 1024 by decide)
    (constructEntry (m.firstFrame * 4096) (permPresent ||| permWriteable))
  obtain ⟨u, hu, -, hdu⟩ := hdt.store_dir (show 957 < 1024 by decide)
    (BitVec.ofNat 32 (m.firstFrame * 4096) ||| permUser ||| permPresent)
  have hvpt : pdx 0xEFC00000 = 959 := by decide
  have huvpt : pdx 0xEF400000 = 957 := by decide
  refine ⟨u, ?_, hdu⟩
  rw [setupListingToAllPageTablesEntries, staticPhysical, Lib.ok_bind, hvpt, ht, Lib.ok_bind,
    Lib.ok_bind, huvpt, hu]

/-- Addresses of the image of `envs`. -/
def EnvsPage (a : Nat) : Prop :=
  ∃ i < 255 + 1, a = userTop + 4096 * i

/-- Addresses of physical memory below `ptr_free_mem`. -/
def Hardware.StaticPage (m : Hardware) (a : Nat) : Prop :=
  ∃ i < m.kernelEnd, a = kernelBase + 4096 * i

theorem tableEntry_envs (h : m.Fits) {i : Nat} (hi : i < 256) :
    (m.layout h).tableEntry (userTop + 4096 * i) =
      constructEntry (m.envsFrame * 4096 + 4096 * i) (permUser ||| permPresent) := by
  have hframe : (m.layout h).envsFrame = m.envsFrame := rfl
  have hstatic : ¬ (kernelBase ≤ userTop + 4096 * i ∧
      userTop + 4096 * i < kernelBase + (m.layout h).kernelEnd * 4096) := by
    simp only [kernelBase, userTop]
    omega
  have hstack : ¬ (0xEFBF8000 ≤ userTop + 4096 * i ∧ userTop + 4096 * i < 0xEFC00000) := by
    simp only [userTop]
    omega
  have henvs : userTop ≤ userTop + 4096 * i ∧ userTop + 4096 * i < userTop + 256 * 4096 := by
    omega
  have haddr : (m.envsFrame + (userTop + 4096 * i - userTop) / 4096) * 4096 =
      m.envsFrame * 4096 + 4096 * i := by
    omega
  rw [Boot.tableEntry, if_neg hstatic, if_neg hstack, if_pos henvs, hframe, haddr]

/-- `envs`, with the last of the tables. -/
theorem Drawn.envs (hd : Drawn m h x m.envsFrame D V bg b) (hnone : D 955 = 0#32) :
    ∃ t, bootEnvs m b = .ok t ∧ t.ptrFreeMem = kernelBase + 4096 * m.kernelEnd ∧
      Drawn m h x m.kernelEnd (Function.update D 955 (m.tableLink 955 |||
        (permUser ||| (permPresent &&& ~~~permWriteable)))) (fun a => V a ∨ EnvsPage a)
        (clearWords bg (1024 * m.envsFrame) 262010) t := by
  have hmem : 955 ∈ kernelTables := mem_kernelTables.2 (.inl rfl)
  have hpages : (envsSize + 4095) / 4096 = 255 + 1 := by decide
  have hinfo : m.infoFrame ≤ m.envsFrame := by
    simp only [Hardware.envsFrame, Hardware.diskInfoFrame]
    omega
  obtain ⟨t, ht, hdt⟩ := hd.array (show envsSize = 4 * 262010 by decide) hpages hinfo
    (Nat.le_refl _)
  have hpage : ∀ i < 255 + 1, userTop + 4096 * i < 4294967296 ∧ pdx (userTop + 4096 * i) = 955 ∧
      (m.layout h).tableEntry (userTop + 4096 * i) =
        constructEntry (m.envsFrame * 4096 + 4096 * i) (permUser ||| permPresent) := by
    intro i hi
    refine ⟨?_, ?_, tableEntry_envs h hi⟩
    · simp only [userTop]
      omega
    · simp only [pdx, userTop]
      omega
  obtain ⟨u, hu, hfree, hdu⟩ := hdt.mapRange_new userTop (m.envsFrame * 4096) 255 (by decide) hmem
    hnone rfl hpage
  have hpdx : pdx userTop = 955 := by decide
  -- the table has its entry; the user bit is set in the directory
  obtain ⟨v, hv, hfree', hdv⟩ := hdu.store_dir (show 955 < 1024 by decide)
    (m.tableLink 955 ||| (permUser ||| (permPresent &&& ~~~permWriteable)))
  have hload := hdu.load_dir (show 955 < 1024 by decide)
  rw [Function.update_self] at hload
  refine ⟨v, ?_, hfree'.trans hfree, hdv.dirCongr fun j _ => ?_⟩
  · rw [bootEnvs, ht, Lib.ok_bind, staticPhysical, Lib.ok_bind, hdt.clearEnvs, bootMapRange, hpages,
      hd.pageDirectory, hu, Lib.ok_bind, hpdx, hload, Lib.ok_bind, hv]
  · rw [Function.update_idem]

/-- The last `boot_map_range`. -/
theorem Drawn.static (hd : Drawn m h x m.kernelEnd D V bg b)
    (hfree : b.ptrFreeMem = kernelBase + 4096 * m.kernelEnd)
    (hready : ∀ i, 960 ≤ i → i < 1024 → Ready m D i) :
    ∃ t, bootStatic m b = .ok t ∧ t.ptrFreeMem = kernelBase + 4096 * m.kernelEnd ∧
      Drawn m h x m.kernelEnd D (fun a => V a ∨ m.StaticPage a) bg t := by
  have hheap := h.heap
  have hrounds : (b.ptrFreeMem - kernelBase + 4095) / 4096 = m.kernelEnd := by
    rw [hfree]
    omega
  have hpage : ∀ i, 0 ≤ i → i < 0 + m.kernelEnd → kernelBase + 4096 * i < 4294967296 ∧
      pdx (kernelBase + 4096 * i) ∈ kernelTables ∧ Ready m D (pdx (kernelBase + 4096 * i)) ∧
      (m.layout h).tableEntry (kernelBase + 4096 * i) =
        constructEntry (0 + 4096 * i) (permWriteable ||| permPresent) := by
    intro i _ hi
    have hpdx : pdx (kernelBase + 4096 * i) = 960 + i / 1024 := by
      simp only [pdx, kernelBase]
      omega
    have hend : (m.layout h).kernelEnd = m.kernelEnd := rfl
    have hin : kernelBase ≤ kernelBase + 4096 * i ∧
        kernelBase + 4096 * i < kernelBase + (m.layout h).kernelEnd * 4096 := by
      omega
    have haddr : (kernelBase + 4096 * i - kernelBase) / 4096 * 4096 = 0 + 4096 * i := by
      omega
    refine ⟨?_, ?_, ?_, ?_⟩
    · simp only [kernelBase]
      omega
    · rw [hpdx]
      exact mem_kernelTables.2 (.inr (.inr (by omega)))
    · rw [hpdx]
      exact hready _ (by omega) (by omega)
    · rw [Boot.tableEntry, if_pos hin, haddr]
  obtain ⟨t, ht, hfree', hdt⟩ := hd.mapPages kernelBase 0 0 m.kernelEnd (by decide) hpage
  refine ⟨t, ?_, hfree'.trans hfree, hdt.congr fun a => or_congr_right ?_⟩
  · rw [bootStatic, bootMapRange, hrounds, hd.pageDirectory, ht]
  · exact exists_congr fun i => ⟨fun hx => ⟨by omega, hx.2.2⟩, fun hx => ⟨by omega, by omega, hx.2⟩⟩

/-! ## The directory and the mapped addresses -/

/-- The page addresses the boot maps. -/
def Hardware.Mapped (m : Hardware) (a : Nat) : Prop :=
  (StackPage a ∨ EnvsPage a) ∨ m.StaticPage a

/-- The directory after the self-maps and the table for `UENVS`. -/
def Hardware.directory (m : Hardware) : Nat → Word :=
  Function.update (Function.update (Function.update (m.dirTables 64) 959
    (constructEntry (m.firstFrame * 4096) (permPresent ||| permWriteable))) 957
    (BitVec.ofNat 32 (m.firstFrame * 4096) ||| permUser ||| permPresent)) 955
    (m.tableLink 955 ||| (permUser ||| (permPresent &&& ~~~permWriteable)))

theorem directory_eq (h : m.Fits) {j : Nat} (hj : j < 1024) :
    m.directory j = (m.layout h).dirEntry j := by
  have hdir : (m.layout h).dirFrame = m.firstFrame := rfl
  have htab : (m.layout h).tableFrame = m.tableFrame := rfl
  rw [Boot.dirEntry, hdir, htab, Hardware.directory]
  by_cases h955 : j = 955
  · subst h955
    have hperm : (permWriteable ||| permPresent) |||
        (permUser ||| (permPresent &&& ~~~permWriteable)) = permUserPage := by decide
    rw [Function.update_self, if_neg (by decide), if_neg (by decide), if_pos rfl,
      Hardware.tableLink, constructEntry, constructEntry, BitVec.or_assoc, hperm]
  · rw [Function.update_of_ne h955]
    by_cases h957 : j = 957
    · subst h957
      rw [Function.update_self, if_pos rfl, constructEntry, BitVec.or_assoc]
    · rw [Function.update_of_ne h957, if_neg h957]
      by_cases h959 : j = 959
      · subst h959
        have hperm : permPresent ||| permWriteable = permWriteable ||| permPresent := by decide
        rw [Function.update_self, if_pos rfl, hperm]
      · rw [Function.update_of_ne h959, if_neg h959, if_neg h955, Hardware.dirTables]
        refine if_congr ?_ rfl rfl
        rw [mem_kernelTables]
        omega

theorem directory_ready (h : m.Fits) {i : Nat} (hi : i ∈ kernelTables) : Ready m m.directory i := by
  have hlt : i < 1024 := by
    rw [mem_kernelTables] at hi
    omega
  rw [Ready, directory_eq h hlt, extractAddress_eq, ((m.layout h).dirEntry_names hi).frame_eq]
  rfl

theorem StackPage.index {a : Nat} (ha : StackPage a) : pdx a = 958 := by
  obtain ⟨i, hi, rfl⟩ := ha
  simp only [pdx]
  omega

/-- The entry of a mapped address is present, and its table exists. -/
theorem Hardware.Mapped.entry (h : m.Fits) {a : Nat} (ha : m.Mapped a) : a % 4096 = 0 ∧
    a < 4294967296 ∧ pdx a ∈ kernelTables ∧
      ((m.layout h).tableEntry a).has permPresent = true := by
  have hheap := h.heap
  rcases ha with (⟨i, hi, rfl⟩ | ⟨i, hi, rfl⟩) | ⟨i, hi, rfl⟩
  · refine ⟨by omega, by omega, ?_, ?_⟩
    · rw [StackPage.index ⟨i, hi, rfl⟩]
      exact mem_kernelTables.2 (.inr (.inl rfl))
    · rw [tableEntry_stack h hi]
      exact (has_of_has_or (has_constructEntry _ _)).2
  · refine ⟨by simp only [userTop]; omega, by simp only [userTop]; omega, ?_, ?_⟩
    · refine mem_kernelTables.2 (.inl ?_)
      simp only [pdx, userTop]
      omega
    · rw [tableEntry_envs h hi]
      exact (has_of_has_or (has_constructEntry _ _)).2
  · refine ⟨by simp only [kernelBase]; omega, by simp only [kernelBase]; omega, ?_, ?_⟩
    · refine mem_kernelTables.2 (.inr (.inr ?_))
      simp only [pdx, kernelBase]
      omega
    · have hf : i < (m.layout h).kernelEnd := hi
      rw [Nat.mul_comm]
      exact ((m.layout h).tableEntry_static hf).present

/-! ## `check_boot_pgdir` -/

theorem Drawn.checkVa2pa (hd : Drawn m h x m.kernelEnd m.directory m.Mapped bg b) {a : Nat}
    (ha : m.Mapped a) : checkVa2pa b (kernelBase + 4096 * m.firstFrame) a =
      .ok (extractAddress ((m.layout h).tableEntry a)) := by
  obtain ⟨hal, hlt, hi, hpresent⟩ := ha.entry h
  have hready := directory_ready h hi
  rw [Ready] at hready
  have hdir : (m.directory (pdx a)).has permPresent = true := by
    rw [directory_eq h (pdx_lt a)]
    exact ((m.layout h).dirEntry_names hi).present
  have htable := (Hardware.tableFrame_bounds (m := m) hi).2.1
  have hentry : b.k.mem (m.tableFrame (pdx a)) (ptx a) = (m.layout h).tableEntry a := by
    have hj : ptx a < 1024 := Nat.mod_lt _ (by decide)
    have hva := entryAddress_eq hal hlt
    rw [hd.drawn (pdx a) hi (ptx a) hj (by rw [hva]; exact ha), hva]
  have hload := BootState.load_frame (j := ptx a) (hd.inside htable) (Nat.mod_lt _ (by decide))
  rw [hentry] at hload
  rw [FosMemory.checkVa2pa, hd.load_dir (pdx_lt a), Lib.ok_bind, if_pos hdir, hready,
    hd.staticVirtual htable, liftStop_ok, Lib.ok_bind, hload, Lib.ok_bind, if_pos hpresent]

/-- A loop of checks that all hold. -/
theorem forRange_checks {f : Nat → Unit → Except BootStop Unit} {n : Nat}
    (hf : ∀ i < n, f i () = .ok ()) : Lib.forRange f 0 n () = .ok () := by
  have hstep : ∀ i (t : Unit), 0 ≤ i → i < 0 + n → True →
      Lib.Ensures (fun _ => False) (fun _ => True) (f i t) := by
    intro i t _ hi _
    rw [hf i (by omega)]
    trivial
  obtain ⟨t, ht, -⟩ := (Lib.forRange_ensures (I := fun _ _ => True) hstep trivial).exists_ok
  exact ht

/-- The directory entries that are set are those `check_boot_pgdir` wants. -/
theorem directory_wanted (h : m.Fits) {j : Nat} (hj : j < 1024) :
    (m.directory j != 0#32) = wantedEntry j := by
  have hwanted : wantedEntry j = decide (j = 959 ∨ j = 957 ∨ j ∈ kernelTables) := by
    have h1 : pdx 0xEFC00000 = 959 := by decide
    have h2 : pdx 0xEF400000 = 957 := by decide
    have h3 : pdx (0xEFC00000 - 1) = 958 := by decide
    have h4 : pdx userTop = 955 := by decide
    have h5 : pdx kernelBase = 960 := by decide
    rw [wantedEntry, h1, h2, h3, h4, h5, Bool.eq_iff_iff]
    simp only [Bool.or_eq_true, beq_iff_eq, decide_eq_true_eq, mem_kernelTables]
    omega
  rw [hwanted, directory_eq h hj]
  have hself : ∀ perm : Word, constructEntry ((m.layout h).dirFrame * 4096) (perm ||| permPresent) ≠
      0#32 := fun perm => has_ne_zero (has_of_has_or (has_constructEntry _ _)).2 (by decide)
  by_cases h957 : j = 957
  · subst h957
    rw [Boot.dirEntry, if_pos rfl]
    simpa using hself permUser
  · by_cases h959 : j = 959
    · subst h959
      rw [Boot.dirEntry, if_neg h957, if_pos rfl]
      simpa using hself permWriteable
    · by_cases hi : j ∈ kernelTables
      · have hne := ((m.layout h).dirEntry_names hi).ne_zero
        simpa [hi] using hne
      · have hne955 : j ≠ 955 := fun heq => hi (heq ▸ mem_kernelTables.2 (.inl rfl))
        rw [Boot.dirEntry, if_neg h957, if_neg h959, if_neg hne955, if_neg hi]
        simp [h957, h959, hi]

/-- `check_boot_pgdir` finds everything in order. -/
theorem Drawn.checkBootPgdir (hd : Drawn m h x m.kernelEnd m.directory m.Mapped bg b)
    (hfree : b.ptrFreeMem = kernelBase + 4096 * m.kernelEnd) : checkBootPgdir m b = .ok () := by
  have hheap := h.heap
  have hlow := h.stack_low
  have hpage := h.stack_page
  have hrounds : (b.ptrFreeMem - kernelBase + 4095) / 4096 = m.kernelEnd := by
    rw [hfree]
    omega
  have hbase : 0xEFC00000 - 8 * pageSize = 0xEFBF8000 := by decide
  rw [FosMemory.checkBootPgdir, hrounds, hd.pageDirectory, hbase]
  rw [forRange_checks (fun i hi => ?memory), Lib.ok_bind, forRange_checks (fun i hi => ?stack),
    Lib.ok_bind, forRange_checks (fun i hi => ?entry)]
  case memory =>
    have hf : i < (m.layout h).kernelEnd := hi
    have hnames := (m.layout h).tableEntry_static hf
    have haddr : extractAddress ((m.layout h).tableEntry (kernelBase + 4096 * i)) = 4096 * i := by
      rw [extractAddress_eq, Nat.mul_comm 4096 i, hnames.frame_eq]
    rw [hd.checkVa2pa (.inr ⟨i, hi, rfl⟩), Lib.ok_bind, haddr, beq_self_eq_true]
    rfl
  case stack =>
    have hframe : m.ptrStackBottom - kernelBase + 4096 * i =
        ((m.ptrStackBottom - kernelBase) / 4096 + i) * 4096 := by
      simp only [kernelBase] at hlow ⊢
      omega
    have hlt : (m.ptrStackBottom - kernelBase) / 4096 + i < 1048576 := by
      have hhigh := h.stack_high
      have himage := h.image
      simp only [kernelBase, kernelHeapStart] at hhigh himage ⊢
      omega
    rw [hd.checkVa2pa (.inl (.inl ⟨i, hi, rfl⟩)), Lib.ok_bind, h.stack_physical, Lib.ok_bind,
      tableEntry_stack h hi, extractAddress_eq, hframe, frame_constructEntry hlt (by decide),
      beq_self_eq_true]
    rfl
  case entry =>
    rw [hd.load_dir hi, Lib.ok_bind, directory_wanted h hi, beq_self_eq_true]
    rfl

/-! ## `turn_on_paging` -/

theorem Drawn.setCr3 (hd : Drawn m h x next D V bg b) (y : Nat) :
    Drawn m h y next D V bg { b with k := { b.k with cr3 := y } } := by
  refine ⟨?_, hd.started, hd.free, hd.le, hd.dir, hd.drawn, hd.kept, hd.others⟩
  rw [hd.rest]
  rfl

/-- The low entries while the first loop runs. -/
def lowCopied (D : Nat → Word) (i j : Nat) : Word :=
  if j < i then D (960 + j) else D j

/-- The low entries while the second loop runs. -/
def lowCleared (D : Nat → Word) (n i j : Nat) : Word :=
  if j < i then 0#32 else lowCopied D n j

theorem Drawn.copyLow (hd : Drawn m h x next D V bg b) {n : Nat} (hn : n ≤ 64) :
    ∃ t, Lib.forRange (fun j t => do
        let entry ← t.load (kernelBase + 4096 * m.firstFrame + 4 * (960 + j))
        t.store (kernelBase + 4096 * m.firstFrame + 4 * j) entry) 0 n b = .ok t ∧
      t.ptrFreeMem = b.ptrFreeMem ∧ Drawn m h x next (lowCopied D n) V bg t := by
  have hstep : ∀ i t, 0 ≤ i → i < 0 + n →
      (t.ptrFreeMem = b.ptrFreeMem ∧ Drawn m h x next (lowCopied D i) V bg t) →
      Lib.Ensures (fun _ => False)
        (fun u => u.ptrFreeMem = b.ptrFreeMem ∧ Drawn m h x next (lowCopied D (i + 1)) V bg u) (do
          let entry ← t.load (kernelBase + 4096 * m.firstFrame + 4 * (960 + i))
          t.store (kernelBase + 4096 * m.firstFrame + 4 * i) entry) := by
    rintro i t - hi ⟨hfree, ht⟩
    have hload := ht.load_dir (show 960 + i < 1024 by omega)
    have hsource : lowCopied D i (960 + i) = D (960 + i) := by
      rw [lowCopied, if_neg (by omega)]
    rw [hsource] at hload
    obtain ⟨u, hu, hfree', hdu⟩ := ht.store_dir (show i < 1024 by omega) (D (960 + i))
    rw [hload, Lib.ok_bind, hu]
    refine ⟨hfree'.trans hfree, hdu.dirCongr fun j _ => ?_⟩
    by_cases hj : j = i
    · rw [hj, Function.update_self, lowCopied, if_pos (Nat.lt_succ_self i)]
    · rw [Function.update_of_ne hj, lowCopied, lowCopied]
      refine if_congr ?_ rfl rfl
      omega
  have hstart : b.ptrFreeMem = b.ptrFreeMem ∧ Drawn m h x next (lowCopied D 0) V bg b :=
    ⟨rfl, hd.dirCongr fun j _ => by rw [lowCopied, if_neg (Nat.not_lt_zero j)]⟩
  obtain ⟨t, ht, hfree, hdt⟩ := (Lib.forRange_ensures hstep hstart).exists_ok
  rw [Nat.zero_add] at hdt
  exact ⟨t, ht, hfree, hdt⟩

theorem Drawn.clearLow {n : Nat} (hd : Drawn m h x next (lowCopied D n) V bg b) (hn : n ≤ 64) :
    ∃ t, Lib.forRange (fun j t => t.store (kernelBase + 4096 * m.firstFrame + 4 * j) 0#32) 0 n b =
        .ok t ∧ t.ptrFreeMem = b.ptrFreeMem ∧ Drawn m h x next (lowCleared D n n) V bg t := by
  have hstep : ∀ i t, 0 ≤ i → i < 0 + n →
      (t.ptrFreeMem = b.ptrFreeMem ∧ Drawn m h x next (lowCleared D n i) V bg t) →
      Lib.Ensures (fun _ => False)
        (fun u => u.ptrFreeMem = b.ptrFreeMem ∧ Drawn m h x next (lowCleared D n (i + 1)) V bg u)
        (t.store (kernelBase + 4096 * m.firstFrame + 4 * i) 0#32) := by
    rintro i t - hi ⟨hfree, ht⟩
    obtain ⟨u, hu, hfree', hdu⟩ := ht.store_dir (show i < 1024 by omega) 0#32
    rw [hu]
    refine ⟨hfree'.trans hfree, hdu.dirCongr fun j _ => ?_⟩
    by_cases hj : j = i
    · rw [hj, Function.update_self, lowCleared, if_pos (Nat.lt_succ_self i)]
    · rw [Function.update_of_ne hj, lowCleared, lowCleared]
      refine if_congr ?_ rfl rfl
      omega
  have hstart : b.ptrFreeMem = b.ptrFreeMem ∧ Drawn m h x next (lowCleared D n 0) V bg b :=
    ⟨rfl, hd.dirCongr fun j _ => by rw [lowCleared, if_neg (Nat.not_lt_zero j)]⟩
  obtain ⟨t, ht, hfree, hdt⟩ := (Lib.forRange_ensures hstep hstart).exists_ok
  rw [Nat.zero_add] at hdt
  exact ⟨t, ht, hfree, hdt⟩

/-- The low entries are used between the two loops and are zero again after them. -/
theorem Drawn.paging (hd : Drawn m h x m.kernelEnd m.directory V bg b)
    (hfree : b.ptrFreeMem = kernelBase + 4096 * m.kernelEnd) :
    ∃ t, turnOnPaging b = .ok t ∧ t.ptrFreeMem = kernelBase + 4096 * m.kernelEnd ∧
      Drawn m h (m.firstFrame * 4096) m.kernelEnd m.directory V bg t := by
  have hheap := h.heap
  have hbase : pdx kernelBase = 960 := by decide
  have hn : pdx b.ptrFreeMem - pdx kernelBase = m.kernelEnd / 1024 := by
    rw [hfree, hbase]
    simp only [pdx, kernelBase]
    omega
  have hlow : ∀ j < 900, m.directory j = 0#32 := by
    intro j hj
    have hi : j ∉ kernelTables := by
      rw [mem_kernelTables]
      omega
    rw [directory_eq h (by omega), Boot.dirEntry, if_neg (by omega), if_neg (by omega),
      if_neg (by omega), if_neg hi]
  obtain ⟨t, ht, hfree', hdt⟩ := hd.copyLow (n := m.kernelEnd / 1024) (by omega)
  have hphys : t.k.physPageDirectory = m.firstFrame * 4096 := by
    rw [hdt.rest]
    rfl
  obtain ⟨u, hu, hfree'', hdu⟩ := (hdt.setCr3 (m.firstFrame * 4096)).clearLow (by omega)
  refine ⟨u, ?_, hfree''.trans (hfree'.trans hfree), hdu.dirCongr fun j _ => ?_⟩
  · rw [turnOnPaging, hn, hd.pageDirectory, hbase, ht, Lib.ok_bind, hphys]
    exact hu
  · rw [lowCleared, lowCopied]
    split_ifs with hj
    · exact (hlow j (by omega)).symm
    · rfl

/-! ## `initialize_kernel_VM` -/

/-- On a machine where everything fits the tables are built, pass the check and come into use. -/
theorem initializeKernelVM_spec (h : m.Fits) : ∃ t, initializeKernelVM m m.start = .ok t ∧
    t.ptrFreeMem = kernelBase + 4096 * m.kernelEnd ∧
    Drawn m h (m.firstFrame * 4096) m.kernelEnd m.directory m.Mapped m.cleared t := by
  obtain ⟨b₁, h₁, hd₁⟩ := bootDirectory_spec h
  obtain ⟨b₂, h₂, hd₂⟩ := hd₁.stack
  obtain ⟨b₃, h₃, hd₃⟩ := hd₂.tables (Nat.le_refl 64)
  have hnext : m.firstFrame + 2 + 64 = m.infoFrame := rfl
  rw [hnext] at hd₃
  obtain ⟨b₄, h₄, hd₄⟩ := hd₃.frameInfo
  obtain ⟨b₅, h₅, hd₅⟩ := hd₄.listing
  have hnone : Function.update (Function.update (m.dirTables 64) 959
      (constructEntry (m.firstFrame * 4096) (permPresent ||| permWriteable))) 957
      (BitVec.ofNat 32 (m.firstFrame * 4096) ||| permUser ||| permPresent) 955 = 0#32 := by
    rw [Function.update_of_ne (by decide), Function.update_of_ne (by decide), Hardware.dirTables,
      if_neg (by decide)]
  obtain ⟨b₆, h₆, hfree₆, hd₆⟩ := hd₅.envs hnone
  obtain ⟨b₇, h₇, hfree₇, hd₇⟩ := hd₆.static hfree₆ fun i hlow hhigh =>
    directory_ready h (mem_kernelTables.2 (.inr (.inr ⟨hlow, hhigh⟩)))
  have hcheck := Drawn.checkBootPgdir (m := m) (h := h) hd₇ hfree₇
  obtain ⟨b₈, h₈, hfree₈, hd₈⟩ := Drawn.paging (m := m) (h := h) hd₇ hfree₇
  refine ⟨b₈, ?_, hfree₈, hd₈⟩
  rw [initializeKernelVM, h₁, Lib.ok_bind, h₂, Lib.ok_bind, bootTables, h₃, Lib.ok_bind, h₄,
    Lib.ok_bind, hd₄.pageDirectory, h₅, Lib.ok_bind, h₆, Lib.ok_bind, h₇, Lib.ok_bind, hcheck,
    Lib.ok_bind, h₈]

end Phases

end FosMemory
