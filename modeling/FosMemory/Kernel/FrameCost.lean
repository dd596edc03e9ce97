import FosMemory.Kernel.RangeLoops

/-!
# FrameCost — what mapping a range costs

`calculate_required_frames` counts the tables and the pages of a range that do not exist.  The
mapping itself creates each table at the first page that needs it.  Here the two numbers are
compared: for a directory whose tables are apart from each other, mapping the missing pages in any
order takes as many frames off `free_frame_list` as the prediction says.
-/

namespace FosMemory

open Lib

variable {c : Boot} {s t : Kernel} {dir fd start size : Nat}

/-! ## A directory and its tables -/

/-- The user half of the directory `dir` in frame `fd`: each entry is zero or names a kernel heap
page that is the table of this entry only. -/
structure UserTables (c : Boot) (s : Kernel) (dir fd : Nat) : Prop where
  inv : KernelInv c s
  dir_at : DirAt s dir fd
  pde : ∀ i < 955, s.mem fd i = 0#32 ∨
    ∃ tb, Names (s.mem fd i) tb permUserPage ∧ s.virtualAddresses tb ≠ 0 ∧ tb ≠ fd
  apart : ∀ i < 955, ∀ j < 955, i ≠ j → s.mem fd i ≠ 0#32 → s.mem fd j ≠ 0#32 →
    (s.mem fd i).frame ≠ (s.mem fd j).frame

/-- A page directory as the kernel leaves it: the entries of its tables name frames that exist. -/
structure PageDirectory (c : Boot) (s : Kernel) (dir fd : Nat) : Prop
    extends UserTables c s dir fd where
  in_ram : ∀ i < 955, s.mem fd i ≠ 0#32 → ∀ j < 1024, s.mem (s.mem fd i).frame j ≠ 0#32 →
    (s.mem (s.mem fd i).frame j).frame < c.numberOfFrames

/-- Page `v` has no mapping: its table is missing or its entry is zero. -/
def Vacant (s : Kernel) (fd v : Nat) : Prop :=
  s.mem fd (pdx v) = 0#32 ∨ s.mem (s.mem fd (pdx v)).frame (ptx v) = 0#32

instance (s : Kernel) (fd v : Nat) : Decidable (Vacant s fd v) :=
  inferInstanceAs (Decidable (_ ∨ _))

/-- The frames a page without a mapping costs besides its own. -/
def tableCost (s : Kernel) (fd v : Nat) : Nat :=
  if s.mem fd (pdx v) = 0#32 then 1 else 0

/-- Page `v` has been mapped, and the state is ready for the next page. -/
structure MappedPage (c : Boot) (s t : Kernel) (dir fd v : Nat) : Prop where
  tables : UserTables c t dir fd
  missing : ∀ i < 955, t.mem fd i = 0#32 ↔ s.mem fd i = 0#32 ∧ i ≠ pdx v
  vacant : ∀ w < userTop, ¬ (pdx w = pdx v ∧ ptx w = ptx v) → Vacant s fd w → Vacant t fd w
  heap : t.firstFreeVAInKHeap = s.firstFreeVAInKHeap + 4096 * tableCost s fd v

theorem UserTables.not_kernelFrame (h : UserTables c s dir fd) : ¬ c.KernelFrame fd :=
  h.inv.map.not_kernelFrame h.dir_at.ne

theorem UserTables.takeFrame (h : UserTables c s dir fd) {f : Nat} {rest : List Nat}
    (hfree : s.freeFrameList = f :: rest) : UserTables c (takeFrame s f rest) dir fd :=
  ⟨h.inv.takeFrame hfree, ⟨h.dir_at.va_eq, h.dir_at.ne_zero⟩, h.pde, h.apart⟩

/-- One entry of a table is filled. -/
theorem UserTables.fill (h : UserTables c s dir fd) {f v tb : Nat} {w : Word}
    (htb : s.virtualAddresses tb ≠ 0) (hne : tb ≠ fd) (hf : f ∉ s.freeFrameList)
    (href : s.references f < 65535) :
    UserTables c ((incrementReferences s f).setWord tb (ptx v) w) dir fd := by
  have hdir : ((incrementReferences s f).setWord tb (ptx v) w).mem fd = s.mem fd :=
    Kernel.setWord_mem_frame hne.symm
  refine ⟨?_, ⟨h.dir_at.va_eq, h.dir_at.ne_zero⟩, ?_, ?_⟩
  · exact (h.inv.increment hf href).setWord (h.inv.map.not_kernelFrame htb) _ _
  · rw [hdir]
    exact h.pde
  · rw [hdir]
    exact h.apart

/-- Filling an entry keeps the other pages vacant. -/
theorem UserTables.fill_vacant (h : UserTables c s dir fd) {f v tb : Nat} {w : Word}
    (hv : pdx v < 955) (hpde : Names (s.mem fd (pdx v)) tb permUserPage) (hne : tb ≠ fd) {x : Nat}
    (hx : pdx x < 955) (hother : ¬ (pdx x = pdx v ∧ ptx x = ptx v)) (hvacant : Vacant s fd x) :
    Vacant ((incrementReferences s f).setWord tb (ptx v) w) fd x := by
  have hdir : ((incrementReferences s f).setWord tb (ptx v) w).mem fd = s.mem fd :=
    Kernel.setWord_mem_frame hne.symm
  rw [Vacant, hdir]
  by_cases hmissing : s.mem fd (pdx x) = 0#32
  · exact .inl hmissing
  · refine .inr ?_
    have hzero := hvacant.resolve_left hmissing
    rw [Kernel.setWord_mem, if_neg]
    · exact hzero
    · rintro ⟨hframe, hptx⟩
      -- the tables are apart, so the entry is in the table of `v`
      have hpdx : pdx x = pdx v := by
        by_contra hdiff
        refine h.apart _ hx _ hv hdiff hmissing hpde.ne_zero ?_
        rw [hframe, hpde.frame_eq]
      exact hother ⟨hpdx, hptx⟩

/-- A table is created where none was. -/
theorem UserTables.newTable (h : UserTables c s dir fd) {i g p : Nat}
    (hnew : NewTable c s t fd i g p) : UserTables c t dir fd := by
  have hkf := h.not_kernelFrame
  have hmem := hnew.mem_dir hkf
  have hfree : s.virtualAddresses g = 0 := h.inv.list.not_heap g (by
    rw [hnew.free_eq]
    exact List.mem_cons_self)
  have hnames := hnew.names h.inv hkf
  have hold : ∀ k < 955, k ≠ i → ∀ tb, Names (s.mem fd k) tb permUserPage →
      s.virtualAddresses tb ≠ 0 → tb ≠ g := by
    rintro k - - tb - hheap rfl
    exact hheap hfree
  have hva : ∀ tb, tb ≠ g → t.virtualAddresses tb = s.virtualAddresses tb := fun tb hne => by
    rw [hnew.va_eq, Function.update_of_ne hne]
  refine ⟨hnew.inv h.inv h.dir_at.ne, ⟨?_, h.dir_at.ne_zero⟩, ?_, ?_⟩
  · rw [hva fd hnew.ne]
    exact h.dir_at.va_eq
  · intro k hk
    by_cases hki : k = i
    · subst hki
      refine .inr ⟨g, hnames, ?_, hnew.ne.symm⟩
      rw [hnew.va_eq, Function.update_self]
      exact hnew.p_ne
    · rw [hmem k, if_neg hki]
      rcases h.pde k hk with hzero | ⟨tb, hn, hheap, hne⟩
      · exact .inl hzero
      · refine .inr ⟨tb, hn, ?_, hne⟩
        rw [hva tb (hold k hk hki tb hn hheap)]
        exact hheap
  · -- the new table is a frame that was free, so no other entry names it
    have hother : ∀ k < 955, k ≠ i → t.mem fd k ≠ 0#32 → (t.mem fd k).frame ≠ g := by
      intro k hk hki hne
      rw [hmem k, if_neg hki] at hne ⊢
      obtain ⟨tb, hn, hheap, -⟩ := (h.pde k hk).resolve_left hne
      rw [hn.frame_eq]
      exact hold k hk hki tb hn hheap
    intro j hj k hk hjk hnej hnek
    by_cases hji : j = i
    · subst hji
      rw [hnames.frame_eq]
      exact (hother k hk hjk.symm hnek).symm
    · by_cases hki : k = i
      · subst hki
        rw [hnames.frame_eq]
        exact hother j hj hji hnej
      · rw [hmem j, if_neg hji] at hnej ⊢
        rw [hmem k, if_neg hki] at hnek ⊢
        exact h.apart j hj k hk hjk hnej hnek

theorem UserTables.newTable_vacant (h : UserTables c s dir fd) {i g p x : Nat}
    (hnew : NewTable c s t fd i g p) (hx : pdx x < 955) (hvacant : Vacant s fd x) :
    Vacant t fd x := by
  have hkf := h.not_kernelFrame
  have hmem := hnew.mem_dir hkf (pdx x)
  by_cases hi : pdx x = i
  · -- every entry of the new table is zero
    refine .inr ?_
    have hnames := hnew.names h.inv hkf
    rw [hi, hnames.frame_eq]
    exact hnew.mem_table (ptx_lt x)
  · rw [if_neg hi] at hmem
    rw [Vacant, hmem]
    rcases h.pde _ hx with hzero | ⟨tb, hn, hheap, hne⟩
    · exact .inl hzero
    · refine .inr ?_
      have hzero := hvacant.resolve_left hn.ne_zero
      have htg : tb ≠ g := by
        rintro rfl
        refine hheap (h.inv.list.not_heap tb ?_)
        rw [hnew.free_eq]
        exact List.mem_cons_self
      rw [hn.frame_eq] at hzero ⊢
      rw [hnew.mem_of_ne (h.inv.map.not_kernelFrame hheap) htg hne]
      exact hzero

/-! ## One page -/

section Page

variable {f v : Nat} (h : UserTables c s dir fd) (hv : v < userTop) (hf : f < 1048576)
  (hheld : f ∉ s.freeFrameList) (href : s.references f = 0) (perm : Word)
include h hv hf hheld href

/-- `map_frame` where the table exists. -/
theorem UserTables.mapFrame_table (hvacant : Vacant s fd v) (htable : s.mem fd (pdx v) ≠ 0#32) :
    ∃ t, mapFrame s dir f v perm = .ok t ∧ MappedPage c s t dir fd v ∧
      t.freeFrameList = s.freeFrameList := by
  have hpdx := pdx_user hv
  obtain ⟨tb, hn, hheap, hne⟩ := (h.pde _ hpdx).resolve_left htable
  have hzero := hvacant.resolve_left htable
  rw [hn.frame_eq] at hzero
  have hdir : ((incrementReferences s f).setWord tb (ptx v) (frameEntry f perm)).mem fd = s.mem fd :=
    Kernel.setWord_mem_frame hne.symm
  refine ⟨_, mapFrameWith_user_zero h.inv.map h.dir_at hv hn hheap hzero hf, ?_, rfl⟩
  constructor
  case tables => exact h.fill hheap hne hheld (by rw [href]; decide)
  case missing =>
    intro i _
    rw [hdir]
    refine ⟨fun hi => ⟨hi, ?_⟩, And.left⟩
    rintro rfl
    exact htable hi
  case vacant => exact fun w hw hother => h.fill_vacant hpdx hn hne (pdx_user hw) hother
  case heap =>
    rw [tableCost, if_neg htable]
    rfl

/-- `map_frame` where the table is missing: `create_page_table` takes a frame and a heap page. -/
theorem UserTables.mapFrame_missing (htable : s.mem fd (pdx v) = 0#32)
    (hframes : s.freeFrameList ≠ []) (hheap : s.firstFreeVAInKHeap + 4096 < kernelHeapMax) :
    ∃ t, mapFrame s dir f v perm = .ok t ∧ MappedPage c s t dir fd v ∧
      s.freeFrameList.length = t.freeFrameList.length + 1 := by
  have hpdx := pdx_user hv
  have hkf := h.not_kernelFrame
  have hspec : Ensures _ _ (mapFrame s dir f v perm) :=
    mapFrame_newTable h.inv h.dir_at hv htable hf
  cases hrun : mapFrame s dir f v perm with
  | error x =>
    rw [hrun] at hspec
    rcases hspec.2 with hx | hx
    · exact absurd hx hframes
    · exact absurd hheap (Nat.not_lt.2 hx)
  | ok k =>
    rw [hrun] at hspec
    obtain ⟨t, g, p, hnew, rfl⟩ := hspec
    have ht := h.newTable hnew
    have hn := hnew.names h.inv hkf
    have hva : t.virtualAddresses g ≠ 0 := by
      rw [hnew.va_eq, Function.update_self]
      exact hnew.p_ne
    have hfg : f ≠ g := by
      rintro rfl
      apply hheld
      rw [hnew.free_eq]
      exact List.mem_cons_self
    have hheld' : f ∉ t.freeFrameList := by
      intro hmem
      apply hheld
      rw [hnew.free_eq]
      exact List.mem_cons_of_mem _ hmem
    have href' : t.references f < 65535 := by
      rw [hnew.ref_eq, Function.update_of_ne hfg, href]
      decide
    have hdir : ((incrementReferences t f).setWord g (ptx v) (frameEntry f perm)).mem fd =
        t.mem fd :=
      Kernel.setWord_mem_frame hnew.ne
    refine ⟨_, rfl, ?_, ?_⟩
    · constructor
      case tables => exact ht.fill hva hnew.ne.symm hheld' href'
      case missing =>
        intro i _
        rw [hdir, hnew.mem_dir hkf i]
        by_cases hi : i = pdx v
        · rw [if_pos hi]
          refine ⟨fun hzero => absurd ?_ hn.ne_zero, fun hzero => absurd hi hzero.2⟩
          rw [hnew.mem_dir hkf, if_pos rfl]
          exact hzero
        · rw [if_neg hi]
          exact ⟨fun hzero => ⟨hzero, hi⟩, And.left⟩
      case vacant =>
        intro w hw hother hvac
        exact ht.fill_vacant hpdx hn hnew.ne.symm (pdx_user hw) hother
          (h.newTable_vacant hnew (pdx_user hw) hvac)
      case heap =>
        rw [tableCost, if_pos htable]
        exact hnew.top_eq
    · show _ = t.freeFrameList.length + 1
      rw [hnew.free_eq, List.length_cons]

end Page

/-- A page is given a frame of its own. -/
def mapPage (dir : Nat) (perm : Word) (va : Nat) (s : Kernel) : Except Stop Kernel := do
  let (f, s) ← allocateFrame s
  mapFrame s dir f va perm

/-- Mapping a vacant page costs its frame, and one more when its table is missing. -/
theorem UserTables.mapPage (h : UserTables c s dir fd) {v : Nat} (hv : v < userTop)
    (hvacant : Vacant s fd v) (perm : Word)
    (hframes : 1 + tableCost s fd v ≤ s.freeFrameList.length)
    (hheap : s.firstFreeVAInKHeap + 4096 * tableCost s fd v < kernelHeapMax) :
    ∃ t, FosMemory.mapPage dir perm v s = .ok t ∧ MappedPage c s t dir fd v ∧
      s.freeFrameList.length = t.freeFrameList.length + 1 + tableCost s fd v := by
  cases hlist : s.freeFrameList with
  | nil =>
    rw [hlist, List.length_nil] at hframes
    omega
  | cons f rest =>
    have hnodup := h.inv.list.nodup
    rw [hlist, List.nodup_cons] at hnodup
    have hf : f < 1048576 := by
      refine lt_of_lt_of_le (h.inv.list.lt f ?_) c.numberOfFrames_le
      rw [hlist]
      exact List.mem_cons_self
    have h₁ : UserTables c (FosMemory.takeFrame s f rest) dir fd := h.takeFrame hlist
    have href : (FosMemory.takeFrame s f rest).references f = 0 := Function.update_self ..
    have halloc : allocateFrame s = .ok (f, FosMemory.takeFrame s f rest) := by
      rw [allocateFrame, hlist]
      rfl
    rw [hlist, List.length_cons] at hframes
    rw [FosMemory.mapPage, halloc, ok_bind, List.length_cons]
    dsimp only
    by_cases htable : s.mem fd (pdx v) = 0#32
    · rw [tableCost, if_pos htable] at hframes hheap ⊢
      have hrest : rest ≠ [] := by
        rintro rfl
        rw [List.length_nil] at hframes
        omega
      obtain ⟨t, hrun, hm, hlen⟩ :=
        h₁.mapFrame_missing hv hf hnodup.1 href perm htable hrest hheap
      refine ⟨t, hrun, ⟨hm.tables, hm.missing, hm.vacant, hm.heap⟩, ?_⟩
      exact congrArg (· + 1) hlen
    · rw [tableCost, if_neg htable]
      obtain ⟨t, hrun, hm, hlen⟩ :=
        h₁.mapFrame_table hv hf hnodup.1 href perm hvacant htable
      refine ⟨t, hrun, ⟨hm.tables, hm.missing, hm.vacant, hm.heap⟩, ?_⟩
      rw [hlen]
      rfl

/-! ## Many pages, in any order -/

/-- One call of `allocate_frame` and one of `map_frame` for each page of the list. -/
def mapPages (dir : Nat) (perm : Nat → Word) : List Nat → Kernel → Except Stop Kernel
  | [], s => .ok s
  | v :: vs, s => mapPage dir (perm v) v s >>= mapPages dir perm vs

/-- The missing tables of a list of pages. -/
def tablesOf (s : Kernel) (fd : Nat) (vs : List Nat) : Finset Nat :=
  (vs.map pdx).toFinset.filter fun i => s.mem fd i = 0#32

/-- Once a page is mapped, its table is no longer missing, and no other table has been made. -/
theorem MappedPage.tablesOf {v : Nat} (h : MappedPage c s t dir fd v) {vs : List Nat}
    (hvs : ∀ w ∈ vs, w < userTop) :
    (FosMemory.tablesOf s fd (v :: vs)).card =
      (FosMemory.tablesOf t fd vs).card + tableCost s fd v := by
  have hrest : FosMemory.tablesOf t fd vs =
      (FosMemory.tablesOf s fd (v :: vs)).erase (pdx v) := by
    ext i
    simp only [FosMemory.tablesOf, Finset.mem_filter, Finset.mem_erase, List.mem_toFinset,
      List.map_cons, List.mem_cons]
    constructor
    · rintro ⟨hmem, hzero⟩
      obtain ⟨w, hw, rfl⟩ := List.mem_map.1 hmem
      obtain ⟨hold, hne⟩ := (h.missing _ (pdx_user (hvs w hw))).1 hzero
      exact ⟨hne, .inr hmem, hold⟩
    · rintro ⟨hne, hmem | hmem, hzero⟩
      · exact absurd hmem hne
      · obtain ⟨w, hw, rfl⟩ := List.mem_map.1 hmem
        exact ⟨hmem, (h.missing _ (pdx_user (hvs w hw))).2 ⟨hzero, hne⟩⟩
  rw [hrest, tableCost]
  have hmem : pdx v ∈ FosMemory.tablesOf s fd (v :: vs) ↔ s.mem fd (pdx v) = 0#32 := by
    simp [FosMemory.tablesOf]
  by_cases hzero : s.mem fd (pdx v) = 0#32
  · rw [if_pos hzero, Finset.card_erase_add_one (hmem.2 hzero)]
  · rw [if_neg hzero, Finset.erase_eq_of_notMem (fun hx => hzero (hmem.1 hx)), Nat.add_zero]

/-- The cost of a list of vacant pages: a frame for each page and one for each missing table. -/
theorem UserTables.mapPages (h : UserTables c s dir fd) (perm : Nat → Word) {vs : List Nat}
    (hnodup : vs.Nodup) (hpage : ∀ v ∈ vs, v < userTop ∧ v % 4096 = 0)
    (hvacant : ∀ v ∈ vs, Vacant s fd v)
    (hframes : vs.length + (tablesOf s fd vs).card ≤ s.freeFrameList.length)
    (hheap : s.firstFreeVAInKHeap + 4096 * (tablesOf s fd vs).card < kernelHeapMax) :
    ∃ t, FosMemory.mapPages dir perm vs s = .ok t ∧
      s.freeFrameList.length = t.freeFrameList.length + (vs.length + (tablesOf s fd vs).card) := by
  induction vs generalizing s with
  | nil => exact ⟨s, rfl, rfl⟩
  | cons v vs ih =>
    obtain ⟨hnot, hnodup⟩ := List.nodup_cons.1 hnodup
    have htop : ∀ w ∈ vs, w < userTop := fun w hw => (hpage w (List.mem_cons_of_mem _ hw)).1
    obtain ⟨hv, hal⟩ := hpage v List.mem_cons_self
    have hcost : tableCost s fd v ≤ (tablesOf s fd (v :: vs)).card := by
      rw [tableCost]
      split
      · next hzero =>
        exact Finset.card_pos.2 ⟨pdx v, by simp [FosMemory.tablesOf, hzero]⟩
      · exact Nat.zero_le _
    rw [List.length_cons] at hframes
    obtain ⟨t, hrun, hm, hlen⟩ := h.mapPage hv (hvacant v List.mem_cons_self) (perm v) (by omega)
      (by omega)
    have hcard := hm.tablesOf htop
    rw [hcard] at hframes hheap
    -- a page of the rest is another page than `v`, so it is still vacant
    have hvac : ∀ w ∈ vs, Vacant t fd w := by
      intro w hw
      obtain ⟨hwt, hwal⟩ := hpage w (List.mem_cons_of_mem _ hw)
      refine hm.vacant w hwt ?_ (hvacant w (List.mem_cons_of_mem _ hw))
      rintro ⟨hpdx, hptx⟩
      have hwv : w = v := by
        rw [← entryAddress_eq hwal (hwt.trans (by decide)), hpdx, hptx,
          entryAddress_eq hal (hv.trans (by decide))]
      exact hnot (hwv ▸ hw)
    have hheap' := hm.heap
    obtain ⟨u, hrun', hlen'⟩ := ih hm.tables hnodup
      (fun w hw => hpage w (List.mem_cons_of_mem _ hw)) hvac (by omega) (by omega)
    refine ⟨u, ?_, ?_⟩
    · rw [FosMemory.mapPages, hrun, ok_bind]
      exact hrun'
    · rw [hlen, hlen', hcard, List.length_cons]
      omega

/-! ## The prediction -/

section Count

variable (h : PageDirectory c s dir fd) {v : Nat} (hv : v < userTop)
include h hv

theorem PageDirectory.countTable (n : Nat) :
    FosMemory.countTable s dir v n = .ok (if s.mem fd (pdx v) = 0#32 then n + 1 else n) := by
  rcases h.pde _ (pdx_user hv) with hzero | ⟨tb, hn, hheap, -⟩
  · rw [FosMemory.countTable, getPageTable_user_none h.inv.map h.dir_at hv hzero, if_pos hzero]
    rfl
  · rw [FosMemory.countTable, getPageTable_user h.inv.map h.dir_at hv hn, if_neg hn.ne_zero]
    simp only [ok_bind, if_neg hheap]

theorem PageDirectory.getFrameInfo :
    ∃ r p, FosMemory.getFrameInfo s dir v = .ok (r, p) ∧ (r = none ↔ Vacant s fd v) := by
  rcases h.pde _ (pdx_user hv) with hzero | ⟨tb, hn, hheap, -⟩
  · refine ⟨none, 0, ?_, fun _ => .inl hzero, fun _ => rfl⟩
    simp only [FosMemory.getFrameInfo, getPageTable_user_none h.inv.map h.dir_at hv hzero, ok_bind,
      ne_eq, not_true_eq_false, if_false]
  · by_cases hpte : s.mem tb (ptx v) = 0#32
    · refine ⟨none, s.virtualAddresses tb, ?_, fun _ => .inr ?_, fun _ => rfl⟩
      · simp only [FosMemory.getFrameInfo, getPageTable_user h.inv.map h.dir_at hv hn, ok_bind,
          if_pos hheap, load_pte h.inv.map hheap, hpte, ne_eq, not_true_eq_false, if_false]
      · rw [hn.frame_eq]
        exact hpte
    · have hram := h.in_ram _ (pdx_user hv) hn.ne_zero (ptx v) (ptx_lt v)
      rw [hn.frame_eq] at hram
      refine ⟨_, _, getFrameInfo_user h.inv.map h.dir_at hv hn hheap hpte (hram hpte), ?_⟩
      refine ⟨fun hx => absurd hx (Option.some_ne_none _), fun hvac => ?_⟩
      have hzero := hvac.resolve_left hn.ne_zero
      rw [hn.frame_eq] at hzero
      exact absurd hzero hpte

theorem PageDirectory.countPage (n : Nat) :
    FosMemory.countPage s dir v n = .ok (if Vacant s fd v then n + 1 else n) := by
  obtain ⟨r, p, hr, hiff⟩ := h.getFrameInfo hv
  rw [FosMemory.countPage, hr]
  simp only [ok_bind, hiff]

end Count

/-- Page `v` has a byte in `[start, start + size)`. -/
def Touches (start size v : Nat) : Prop :=
  v % 4096 = 0 ∧ v < start + size ∧ start < v + 4096

/-- `get_frame_info` finds no frame for `v`. -/
def Unmapped (s : Kernel) (dir v : Nat) : Prop :=
  ∃ p, getFrameInfo s dir v = .ok (none, p)

theorem PageDirectory.unmapped_iff (h : PageDirectory c s dir fd) {v : Nat} (hv : v < userTop) :
    Unmapped s dir v ↔ Vacant s fd v := by
  obtain ⟨r, p, hr, hiff⟩ := h.getFrameInfo hv
  rw [← hiff, Unmapped, hr]
  constructor
  · rintro ⟨q, hq⟩
    exact (Prod.mk.inj (Except.ok.inj hq)).1
  · rintro rfl
    exact ⟨p, rfl⟩

section Range

/-- The vacant pages of a range, in the order in which the second loop meets them. -/
def vacantPages (s : Kernel) (fd start size : Nat) : List Nat :=
  ((List.range' 0 (rounds 4096 (roundDown start 4096) (start + size))).map
    fun k => roundDown start 4096 + 4096 * k).filter fun v => Vacant s fd v

/-- The missing tables of a range, in the order in which the first loop meets them. -/
def missingTables (s : Kernel) (fd start size : Nat) : List Nat :=
  ((List.range' 0 (rounds ptSize (roundDown start ptSize) (start + size))).map
    fun k => pdx (roundDown start ptSize + ptSize * k)).filter fun i => s.mem fd i = 0#32

theorem nodup_vacantPages : (vacantPages s fd start size).Nodup := by
  refine List.Nodup.filter _ (List.Nodup.map ?_ List.nodup_range')
  intro k k' hk
  dsimp only at hk
  omega

theorem mem_vacantPages {v : Nat} :
    v ∈ vacantPages s fd start size ↔ Touches start size v ∧ Vacant s fd v := by
  rw [vacantPages, List.mem_filter, List.mem_map, decide_eq_true_iff]
  refine and_congr_left fun _ => ?_
  have hal := roundDown_aligned start
  have hle := roundDown_le start
  have hlt : start < roundDown start 4096 + 4096 := by
    rw [roundDown]
    omega
  constructor
  · rintro ⟨k, hk, rfl⟩
    have hkr := (mem_rounds (show 0 < 4096 by decide)).1 hk
    exact ⟨by omega, hkr, by omega⟩
  · rintro ⟨hv, hlast, hfirst⟩
    refine ⟨(v - roundDown start 4096) / 4096, ?_, by omega⟩
    rw [mem_rounds (show 0 < 4096 by decide)]
    omega

theorem nodup_missingTables (htop : start + size ≤ userTop) :
    (missingTables s fd start size).Nodup := by
  refine List.Nodup.filter _ (List.Nodup.map_on ?_ List.nodup_range')
  intro k hk k' hk' heq
  have hkr := (mem_rounds (show 0 < ptSize by decide)).1 hk
  have hkr' := (mem_rounds (show 0 < ptSize by decide)).1 hk'
  simp only [pdx, ptSize, userTop] at hkr hkr' heq htop
  have hdvd := roundDown_dvd start 4194304
  omega

/-- A table of the range has a page in the range: the first one of both. -/
theorem touches_table (hsize : 0 < size) (htop : start + size ≤ userTop) {k : Nat}
    (hk : roundDown start ptSize + ptSize * k < start + size) :
    ∃ v, Touches start size v ∧ v < userTop ∧ pdx v = pdx (roundDown start ptSize + ptSize * k) := by
  have hle := roundDown_le start
  have hal := roundDown_aligned start
  have hlt : start < roundDown start 4096 + 4096 := by
    rw [roundDown]
    omega
  have hdvd := roundDown_dvd start ptSize
  have hfirst : start < roundDown start ptSize + ptSize := by
    rw [roundDown]
    simp only [ptSize]
    omega
  refine ⟨max (roundDown start 4096) (roundDown start ptSize + ptSize * k), ?_⟩
  simp only [Touches, pdx, ptSize, userTop] at hdvd hfirst hk htop ⊢
  omega

theorem mem_missingTables (hsize : 0 < size) (htop : start + size ≤ userTop) {i : Nat} :
    i ∈ missingTables s fd start size ↔ i ∈ tablesOf s fd (vacantPages s fd start size) := by
  simp only [missingTables, tablesOf, List.mem_filter, List.mem_map, decide_eq_true_iff,
    Finset.mem_filter, List.mem_toFinset]
  refine and_congr_left fun hzero => ?_
  constructor
  · rintro ⟨k, hk, rfl⟩
    have hkr := (mem_rounds (show 0 < ptSize by decide)).1 hk
    obtain ⟨v, hv, -, hpdx⟩ := touches_table hsize htop hkr
    refine ⟨v, mem_vacantPages.2 ⟨hv, .inl ?_⟩, hpdx⟩
    rw [hpdx]
    exact hzero
  · rintro ⟨v, hv, rfl⟩
    obtain ⟨⟨hal, hlast, hfirst⟩, -⟩ := mem_vacantPages.1 hv
    have hdvd := roundDown_dvd start ptSize
    have hle : roundDown start ptSize ≤ start := Nat.sub_le _ _
    refine ⟨(v - roundDown start ptSize) / ptSize, ?_, ?_⟩
    · rw [mem_rounds (show 0 < ptSize by decide)]
      simp only [ptSize] at hdvd hle ⊢
      omega
    · simp only [pdx, ptSize] at hdvd hle ⊢
      omega

/-- What the two loops of `calculate_required_frames` count. -/
theorem PageDirectory.requiredFrames_eq (h : PageDirectory c s dir fd)
    (htop : start + size ≤ userTop) :
    requiredFrames s dir start size =
      .ok ((missingTables s fd start size).length + (vacantPages s fd start size).length) := by
  have hlast : (start + size) % wordMod = start + size :=
    Nat.mod_eq_of_lt (lt_of_le_of_lt htop (by decide))
  have htables : forRange
      (fun k n => FosMemory.countTable s dir (roundDown start ptSize + ptSize * k) n) 0
      (rounds ptSize (roundDown start ptSize) (start + size)) 0 =
      .ok (missingTables s fd start size).length := by
    rw [forRange_count (p := fun k => s.mem fd (pdx (roundDown start ptSize + ptSize * k)) = 0#32)]
    · rw [Nat.zero_add, missingTables, ← List.countP_eq_length_filter, List.countP_map]
      rfl
    · intro k _ hk n
      rw [Nat.zero_add] at hk
      have hkr := lt_of_lt_rounds (show 0 < ptSize by decide) hk
      exact h.countTable (lt_of_lt_of_le hkr htop) n
  have hpages : forRange
      (fun k n => FosMemory.countPage s dir (roundDown start 4096 + 4096 * k) n) 0
      (rounds 4096 (roundDown start 4096) (start + size)) 0 =
      .ok (vacantPages s fd start size).length := by
    rw [forRange_count (p := fun k => Vacant s fd (roundDown start 4096 + 4096 * k))]
    · rw [Nat.zero_add, vacantPages, ← List.countP_eq_length_filter, List.countP_map]
      rfl
    · intro k _ hk n
      rw [Nat.zero_add] at hk
      have hkr := lt_of_lt_rounds (show 0 < 4096 by decide) hk
      exact h.countPage (lt_of_lt_of_le hkr htop) n
  rw [requiredFrames, hlast, htables, ok_bind, hpages, ok_bind]

/-- The missing tables of the range are those of its vacant pages, in whatever order. -/
theorem card_tablesOf (hsize : 0 < size) (htop : start + size ≤ userTop) {order : List Nat}
    (hmem : ∀ v, v ∈ order ↔ v ∈ vacantPages s fd start size) :
    (tablesOf s fd order).card = (missingTables s fd start size).length := by
  rw [← List.toFinset_card_of_nodup (nodup_missingTables htop)]
  congr 1
  ext i
  rw [List.mem_toFinset, mem_missingTables hsize htop]
  simp only [tablesOf, Finset.mem_filter, List.mem_toFinset, List.mem_map, hmem]

end Range

/-! ## The directories of the runs -/

theorem NewPage.pageDirectory {u : Kernel} {g p : Nat} (h : NewPage c s u g p) :
    PageDirectory c (u.zeroFrame g) p g := by
  have hzero : ∀ i < 955, (u.zeroFrame g).mem g i = 0#32 := fun i hi =>
    u.zeroFrame_mem_self g (hi.trans (by decide))
  constructor
  case toUserTables =>
    exact ⟨h.zero_inv, h.zero_dirAt, fun i hi => .inl (hzero i hi),
      fun i hi _ _ _ hne => absurd (hzero i hi) hne⟩
  case in_ram => exact fun i hi hne => absurd (hzero i hi) hne

/-- The directories of a run of the frame manager. -/
theorem Accounts.pageDirectory {m : Machine} {role : Nat → Option TableRole} {T : Finset Nat}
    (h : Accounts c m role T) (hdir : dir ∈ m.dirs) : ∃ fd, PageDirectory c m.kernel dir fd := by
  obtain ⟨fd, hat, hrole⟩ := h.forest.dir_at dir hdir
  have htable : ∀ i < 955, m.kernel.mem fd i ≠ 0#32 →
      role (m.kernel.mem fd i).frame = some (.table fd i) := by
    intro i hi hne
    obtain ⟨tb, hn, htb⟩ := (h.forest.pde fd hrole i hi).resolve_left hne
    rw [hn.frame_eq]
    exact htb
  refine ⟨fd, ⟨h.inv, hat, ?_, ?_⟩, ?_⟩
  · intro i hi
    rcases h.forest.pde fd hrole i hi with hzero | ⟨tb, hn, htb⟩
    · exact .inl hzero
    · refine .inr ⟨tb, hn, h.forest.heap tb (by rw [htb]; exact Option.some_ne_none _), ?_⟩
      rintro rfl
      rw [hrole] at htb
      cases htb
  · intro i hi j hj hij hnei hnej heq
    have hroles := htable i hi hnei
    rw [heq, htable j hj hnej] at hroles
    cases hroles
    exact hij rfl
  · intro i hi hne
    exact h.forest.in_ram _ ((h.forest.mem_T _).2 ⟨fd, i, htable i hi hne⟩)

/-- The directory of a live environment. -/
theorem Space.pageDirectory {G : Ghost} {e : Nat} (h : Space c s G e) (ho : Owned c s G) :
    PageDirectory c s (s.envs e).envPageDirectory (s.dirFrame e) := by
  have htable : ∀ i < 955, s.mem (s.dirFrame e) i ≠ 0#32 →
      G.own (s.mem (s.dirFrame e) i).frame = some ⟨e, .table i⟩ := by
    intro i hi hne
    obtain ⟨tb, hn, htb⟩ := (h.pde i hi).resolve_left hne
    rw [hn.frame_eq]
    exact htb
  refine ⟨⟨ho.inv, h.dirAt ho, ?_, ?_⟩, ?_⟩
  · intro i hi
    rcases h.pde i hi with hzero | ⟨tb, hn, htb⟩
    · exact .inl hzero
    · refine .inr ⟨tb, hn, (ho.heap htb rfl).1, ?_⟩
      rintro rfl
      rw [h.dir_own] at htb
      cases htb
  · intro i hi j hj hij hnei hnej heq
    have howner := htable i hi hnei
    rw [heq, htable j hj hnej] at howner
    cases howner
    exact hij rfl
  · intro i hi hne j hj hpte
    obtain ⟨f, b, htarget, hentry⟩ := (h.pte _ i (htable i hi hne) j hj).resolve_left hpte
    have hframe : (s.mem (s.mem (s.dirFrame e) i).frame j).frame = f := by
      cases b with
      | false => exact hentry.frame_eq
      | true => exact hentry.1.frame_eq
    rw [hframe]
    refine (ho.in_ram f ?_).1
    cases b with
    | false =>
      rw [htarget]
      exact Option.some_ne_none _
    | true =>
      obtain ⟨k, hk, -⟩ := htarget
      rw [hk]
      exact Option.some_ne_none _

theorem FrameRun.pageDirectory {m : Machine} (h : FrameRun c m) (hdir : dir ∈ m.dirs) :
    ∃ fd, PageDirectory c m.kernel dir fd := by
  obtain ⟨role, T, hacc⟩ := h.accounts
  exact hacc.pageDirectory hdir

theorem SysRun.pageDirectory {e : Nat} (h : SysRun c s) (hlive : s.Live e) :
    ∃ fd, PageDirectory c s (s.envs e).envPageDirectory fd := by
  obtain ⟨G, hinv⟩ := h.inv
  exact ⟨_, (hinv.alive e hlive).base.space.pageDirectory hinv.owned⟩

/-! ## The result -/

/-- `calculate_required_frames` says what mapping the range costs, in any order of its pages. -/
theorem calculateRequiredFrames_exact (h : PageDirectory c s dir fd) (hsize : 0 < size)
    (htop : start + size ≤ userTop) :
    ∃ n, EndsWith (calculateRequiredFrames s dir start size) (.ok n) ∧
      ∀ (order : List Nat) (perm : Nat → Word), order.Nodup →
        (∀ v, v ∈ order ↔ Touches start size v ∧ Unmapped s dir v) →
        n ≤ s.freeFrameList.length →
        s.firstFreeVAInKHeap + 4096 * (tablesOf s fd order).card < kernelHeapMax →
        ∃ t, mapPages dir perm order s = .ok t ∧
          s.freeFrameList.length = t.freeFrameList.length + n := by
  have hlast : (start + size) % wordMod ≤ wordMod - ptSize := by
    rw [Nat.mod_eq_of_lt (lt_of_le_of_lt htop (by decide))]
    exact htop.trans (by decide)
  have hends := calculateRequiredFrames_endsWith s dir start size hlast
  rw [h.requiredFrames_eq htop] at hends
  refine ⟨_, hends, ?_⟩
  intro order perm hnodup hmem hframes hheap
  have hpage : ∀ v, Touches start size v → v < userTop := fun v hv => lt_of_lt_of_le hv.2.1 htop
  -- the order lists the same pages as the second loop
  have hsame : ∀ v, v ∈ order ↔ v ∈ vacantPages s fd start size := by
    intro v
    rw [hmem, mem_vacantPages]
    exact and_congr_right fun hv => h.unmapped_iff (hpage v hv)
  have hlength : order.length = (vacantPages s fd start size).length :=
    ((List.perm_ext_iff_of_nodup hnodup nodup_vacantPages).2 hsame).length_eq
  have hcard := card_tablesOf hsize htop hsame
  have hcost : (missingTables s fd start size).length + (vacantPages s fd start size).length =
      order.length + (tablesOf s fd order).card := by
    rw [hlength, hcard, Nat.add_comm]
  rw [hcost] at hframes ⊢
  refine h.mapPages perm hnodup (fun v hv => ?_) (fun v hv => ?_) hframes hheap
  · have htouch := ((hmem v).1 hv).1
    exact ⟨hpage v htouch, htouch.1⟩
  · exact (mem_vacantPages.1 ((hsame v).1 hv)).2

/-- A new directory of the machine `smallBoot`, and a range of one byte. -/
theorem calculateRequiredFrames_exact_new : ∃ m dir n t, FrameRun smallBoot m ∧ dir ∈ m.dirs ∧
    EndsWith (calculateRequiredFrames m.kernel dir 4096 1) (.ok n) ∧
    mapPages dir (fun _ => permUserPage) [4096] m.kernel = .ok t ∧
    m.kernel.freeFrameList.length = t.freeFrameList.length + n := by
  have hboot := (sysInv_boot smallBoot).owned.inv
  obtain ⟨g, p, u, hnew, hrun⟩ := hboot.createUserDirectory_exists smallBoot_room
  have hpd := hnew.pageDirectory
  have hmachine : FrameRun smallBoot { Machine.initial smallBoot with
      kernel := u.zeroFrame g, dirs := [p] } :=
    .step .initial (.createUserDirectory hrun)
  obtain ⟨n, hends, hcost⟩ := calculateRequiredFrames_exact hpd Nat.one_pos
    (show 4096 + 1 ≤ userTop by decide)
  have hzero : ∀ v, Vacant (u.zeroFrame g) g v := fun v =>
    .inl (u.zeroFrame_mem_self g (pdx_lt v))
  -- two loops of one round
  have hn : n ≤ 2 := by
    have hlast : (4096 + 1) % wordMod ≤ wordMod - ptSize := by decide
    have hreq := hends.unique (calculateRequiredFrames_endsWith (u.zeroFrame g) p 4096 1 hlast)
    rw [hpd.requiredFrames_eq (by decide)] at hreq
    rw [Except.ok.inj hreq]
    have htables := List.length_filter_le (fun i => decide ((u.zeroFrame g).mem g i = 0#32))
      ((List.range' 0 (rounds ptSize (roundDown 4096 ptSize) (4096 + 1))).map
        fun k => pdx (roundDown 4096 ptSize + ptSize * k))
    have hpages := List.length_filter_le (fun v => decide (Vacant (u.zeroFrame g) g v))
      ((List.range' 0 (rounds 4096 (roundDown 4096 4096) (4096 + 1))).map
        fun k => roundDown 4096 4096 + 4096 * k)
    rw [List.length_map, List.length_range'] at htables hpages
    exact Nat.add_le_add htables hpages
  have hlen : (u.zeroFrame g).freeFrameList.length = 156 := by
    have hlist : smallBoot.state.freeFrameList = smallBoot.freeFrameList := by rw [Boot.state]
    have hall := smallBoot_frames
    rw [← hlist, hnew.free_eq, List.length_cons] at hall
    exact Nat.succ.inj hall
  have hcard : (tablesOf (u.zeroFrame g) g [4096]).card ≤ 1 :=
    (Finset.card_filter_le _ _).trans (List.toFinset_card_le _)
  have htop : (u.zeroFrame g).firstFreeVAInKHeap = kernelHeapStart + 4096 := by
    show u.firstFreeVAInKHeap = _
    rw [hnew.top_eq, Boot.state]
  have hmem : ∀ v, v ∈ [4096] ↔ Touches 4096 1 v ∧ Unmapped (u.zeroFrame g) p v := by
    intro v
    rw [List.mem_singleton]
    constructor
    · rintro rfl
      exact ⟨⟨rfl, by decide, by decide⟩, (hpd.unmapped_iff (by decide)).2 (hzero 4096)⟩
    · rintro ⟨⟨hal, hlast, hfirst⟩, -⟩
      omega
  have hheap : (u.zeroFrame g).firstFreeVAInKHeap +
      4096 * (tablesOf (u.zeroFrame g) g [4096]).card < kernelHeapMax := by
    rw [htop]
    simp only [kernelHeapStart, kernelHeapMax]
    omega
  obtain ⟨t, hmap, hshrink⟩ := hcost [4096] (fun _ => permUserPage) (List.nodup_singleton _) hmem
    (by omega) hheap
  exact ⟨_, p, n, t, hmachine, List.mem_singleton_self p, hends, hmap, hshrink⟩

end FosMemory
