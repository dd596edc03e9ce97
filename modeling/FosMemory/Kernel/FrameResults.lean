import FosMemory.Kernel.FrameRun

/-!
# FrameResults — frame accounting and the kernel heap over whole runs

Every step of a run keeps `Accounts`; from it follow the frame accounting (`frameRun_accounting`)
and the invariant of the kernel heap (`frameRun_heap`).
-/

namespace FosMemory

open Lib

variable {c : Boot} {m m' : Machine} {role : Nat → Option TableRole} {T : Finset Nat}

/-! ## The remaining steps -/

namespace Accounts

/-- `allocate_frame`. -/
theorem takeFrame (h : Accounts c m role T) {f : Nat} {rest : List Nat}
    (hfree : m.kernel.freeFrameList = f :: rest) :
    Accounts c { m with kernel := FosMemory.takeFrame m.kernel f rest, held := f :: m.held }
      role T := by
  have hmem : f ∈ m.kernel.freeFrameList := by
    rw [hfree]
    exact List.mem_cons_self
  have href := takeFrame_references h.inv hfree
  have hnodup := h.inv.list.nodup
  rw [hfree, List.nodup_cons] at hnodup
  constructor
  case inv => exact h.inv.takeFrame hfree
  case forest => exact h.forest.congr rfl rfl
  case references_eq =>
    intro g
    show (FosMemory.takeFrame m.kernel f rest).references g = _
    rw [href]
    exact h.references_eq g
  case free_iff =>
    intro g
    show g ∈ rest ↔ _ ∧ _ ∧ (FosMemory.takeFrame m.kernel f rest).references g = 0 ∧ _
    have hiff := h.free_iff g
    rw [hfree, List.mem_cons] at hiff
    rw [href, List.mem_cons]
    constructor
    · intro hg
      obtain ⟨hlt, hres, hzero, hheld⟩ := hiff.1 (.inr hg)
      refine ⟨hlt, hres, hzero, ?_⟩
      rintro (rfl | hmem)
      · exact hnodup.1 hg
      · exact hheld hmem
    · rintro ⟨hlt, hres, hzero, hheld⟩
      have hg := hiff.2 ⟨hlt, hres, hzero, fun hmem => hheld (.inr hmem)⟩
      exact hg.resolve_left fun heq => hheld (.inl heq)
  case held_lt =>
    intro g hg
    rcases List.mem_cons.1 hg with rfl | hg
    · exact h.inv.list.lt g hmem
    · exact h.held_lt g hg
  case held_unused =>
    intro g hg
    show (FosMemory.takeFrame m.kernel f rest).references g = 0
    rw [href]
    rcases List.mem_cons.1 hg with rfl | hg
    · exact h.inv.list.references_eq_zero g hmem
    · exact h.held_unused g hg
  case block => exact h.block
  case freed_mem => exact h.freed_mem
  case block_role => exact h.block_role
  case disjoint => exact h.disjoint

/-- `kmalloc`. -/
theorem newBlock (h : Accounts c m role T) {u : Kernel} {n p : Nat}
    (hk : Kmalloced c m.kernel u n p) :
    Accounts c { m with kernel := u, blocks := (p, n) :: m.blocks } role T := by
  have htake : ∀ f, role f ≠ none → f ∉ m.kernel.freeFrameList.take n :=
    fun f hf hmem => h.role_not_free hf (List.mem_of_mem_take hmem)
  have hmem : ∀ f, role f ≠ none → u.mem f = m.kernel.mem f := fun f hf =>
    hk.taken.mem_eq f (h.inv.map.not_kernelFrame (h.forest.heap f hf))
  have hva : ∀ f, role f ≠ none → u.virtualAddresses f = m.kernel.virtualAddresses f :=
    fun f hf => hk.taken.va_old f (htake f hf)
  have hT : ∀ t ∈ T, role t ≠ none := by
    intro t ht
    obtain ⟨d, i, hrole⟩ := (h.forest.mem_T t).1 ht
    simp [hrole]
  have hforest : Forest c u m.dirs role T := by
    constructor
    case dir_at =>
      intro q hq
      obtain ⟨fd, hd, hrole⟩ := h.forest.dir_at q hq
      exact ⟨fd, ⟨(hva fd (by simp [hrole])).trans hd.va_eq, hd.ne_zero⟩, hrole⟩
    case dir_mem =>
      intro d hd
      rw [hva d (by simp [hd])]
      exact h.forest.dir_mem d hd
    case heap =>
      intro f hf
      rw [hva f hf]
      exact h.forest.heap f hf
    case pde =>
      intro d hd
      rw [hmem d (by simp [hd])]
      exact h.forest.pde d hd
    case table =>
      intro t d i hrole
      have hd := (h.forest.table t d i hrole).1
      rw [hmem d (by simp [hd])]
      exact h.forest.table t d i hrole
    case mem_T => exact h.forest.mem_T
    case present =>
      intro t ht
      rw [hmem t (hT t ht)]
      exact h.forest.present t ht
    case in_ram =>
      intro t ht
      rw [hmem t (hT t ht)]
      exact h.forest.in_ram t ht
  refine @ofKmalloced _ _ _ _ h u n p hk u.mem _ _ _ _ hk.inv hforest ?_ (fun _ _ => rfl) (.inr ⟨rfl, ?_⟩)
  · intro f
    exact userUse_congr fun t ht j _ => congrFun (hmem t (hT t ht)) j
  · intro f hf
    exact h.role_of_free (List.mem_of_mem_take hf)

/-- The record of a block that was handed out. -/
theorem findBlock (h : Accounts c m role T) {p n : Nat} (hb : (p, n) ∈ m.blocks) :
    ∃ i < m.kernel.idx, (m.kernel.allocatedHAddresses i).virtualAddress = p ∧
      (m.kernel.allocatedHAddresses i).size = n ∧
      ((m.kernel.allocatedHAddresses i).empty = 0 ↔ p ∉ m.freed) := by
  obtain ⟨i, hi, heq⟩ := h.block (p, n) hb
  refine ⟨i, hi, by rw [heq], by rw [heq], ?_⟩
  rw [heq]
  by_cases hp : p ∈ m.freed <;> simp [hp]

/-- `kfree` of a block that has been freed before. -/
theorem kfreeAgain (h : Accounts c m role T) {p n : Nat} (hb : (p, n) ∈ m.blocks)
    (hp : p ∈ m.freed) : kfree m.kernel p = .ok m.kernel := by
  obtain ⟨i, hi, hva, -, hempty⟩ := h.findBlock hb
  rw [← hva]
  exact kfree_dead h.inv hi fun hzero => hempty.1 hzero hp

/-- `kfree`. -/
theorem dropBlock (h : Accounts c m role T) {p n i : Nat} {u : Kernel} (hb : (p, n) ∈ m.blocks)
    (hi : i < m.kernel.idx) (hva : (m.kernel.allocatedHAddresses i).virtualAddress = p)
    (hsize : (m.kernel.allocatedHAddresses i).size = n) (hk : Kfreed c m.kernel u i) :
    Accounts c { m with kernel := u, freed := p :: m.freed } role T := by
  have hr := hk.released
  rw [hva, hsize] at hr
  have hout : ∀ f, role f ≠ none → ¬ InBlock m.kernel p n f :=
    fun f hf hin => hf (h.block_role (p, n) hb f hin)
  have hmem : ∀ f, role f ≠ none → u.mem f = m.kernel.mem f := fun f hf =>
    hr.mem_eq f (h.inv.map.not_kernelFrame (h.forest.heap f hf))
  have hva' : ∀ f, role f ≠ none → u.virtualAddresses f = m.kernel.virtualAddresses f := by
    intro f hf
    rw [hr.va_eq, if_neg (hout f hf)]
  have hT : ∀ t ∈ T, role t ≠ none := by
    intro t ht
    obtain ⟨d, k, hrole⟩ := (h.forest.mem_T t).1 ht
    simp [hrole]
  have hblockpos := (h.block_lt_top hb).1
  have huse : ∀ f, userUse u T f = userUse m.kernel T f := fun f =>
    userUse_congr fun t ht j _ => congrFun (hmem t (hT t ht)) j
  have hheap : ∀ f, InBlock m.kernel p n f → m.kernel.virtualAddresses f ≠ 0 := by
    rintro f ⟨hle, -⟩
    simp only at hblockpos
    omega
  constructor
  case inv => exact hk.inv
  case forest =>
    constructor
    case dir_at =>
      intro q hq
      obtain ⟨fd, hd, hrole⟩ := h.forest.dir_at q hq
      exact ⟨fd, ⟨(hva' fd (by simp [hrole])).trans hd.va_eq, hd.ne_zero⟩, hrole⟩
    case dir_mem =>
      intro d hd
      rw [hva' d (by simp [hd])]
      exact h.forest.dir_mem d hd
    case heap =>
      intro f hf
      rw [hva' f hf]
      exact h.forest.heap f hf
    case pde =>
      intro d hd
      rw [hmem d (by simp [hd])]
      exact h.forest.pde d hd
    case table =>
      intro t d k hrole
      have hd := (h.forest.table t d k hrole).1
      rw [hmem d (by simp [hd])]
      exact h.forest.table t d k hrole
    case mem_T => exact h.forest.mem_T
    case present =>
      intro t ht
      rw [hmem t (hT t ht)]
      exact h.forest.present t ht
    case in_ram =>
      intro t ht
      rw [hmem t (hT t ht)]
      exact h.forest.in_ram t ht
  case references_eq =>
    intro f
    show u.references f = (if u.virtualAddresses f ≠ 0 then 1 else 0) + userUse u T f + _
    have hf := h.references_eq f
    rw [huse, hr.ref_eq, hr.va_eq]
    by_cases hin : InBlock m.kernel p n f
    · rw [heapUse, if_pos (hheap f hin)] at hf
      simp only [hin, if_true, ne_eq, not_true_eq_false, if_false]
      omega
    · simp only [hin, if_false]
      exact hf
  case free_iff =>
    intro f
    show f ∈ u.freeFrameList ↔ _ ∧ _ ∧ u.references f = 0 ∧ f ∉ m.held
    rw [hr.free_iff, hr.ref_eq]
    by_cases hin : InBlock m.kernel p n f
    · have hne := hheap f hin
      have hpos := h.inv.list.heap_referenced f hne
      have hnot : f ∉ m.kernel.freeFrameList := fun hmem => hne (h.inv.list.not_heap f hmem)
      have hheld : f ∉ m.held := by
        intro hmem
        have := h.held_unused f hmem
        omega
      simp only [hin, hnot, if_true, true_and, false_or]
      constructor
      · intro hone
        exact ⟨h.inv.map.in_ram f hne, h.inv.map.not_reserved f hne, by omega, hheld⟩
      · rintro ⟨-, -, hzero, -⟩
        omega
    · simp only [hin, if_false, false_and, or_false]
      exact h.free_iff f
  case held_lt => exact h.held_lt
  case held_unused =>
    intro f hf
    show u.references f = 0
    have hzero := h.held_unused f hf
    rw [hr.ref_eq]
    split <;> omega
  case block =>
    intro b hb'
    obtain ⟨j, hj, heq⟩ := h.block b hb'
    refine ⟨j, by show j < u.idx; rw [hk.idx_eq]; exact hj, ?_⟩
    show u.allocatedHAddresses j = _
    rw [hk.records]
    by_cases hji : j = i
    · subst hji
      have hbp : b.1 = p := by
        rw [← hva, heq]
      rw [Function.update_self, heq]
      simp [hbp]
    · rw [Function.update_of_ne hji, heq]
      have hbp : b.1 ≠ p := by
        intro hbp
        have hfind := findRecord_eq h.inv.map hi
        have hfind' := findRecord_eq h.inv.map hj
        rw [heq] at hfind'
        rw [hva, ← hbp] at hfind
        exact hji (Option.some.inj (hfind'.symm.trans hfind))
      simp [hbp]
  case freed_mem =>
    intro q hq
    rcases List.mem_cons.1 hq with rfl | hq
    · exact ⟨n, hb⟩
    · exact h.freed_mem q hq
  case block_role =>
    rintro b hb' f ⟨hle, hlt⟩
    have hpos := (h.block_lt_top hb').1
    have hva : u.virtualAddresses f = _ := hr.va_eq f
    split at hva
    · have hle' : b.1 ≤ u.virtualAddresses f := hle
      omega
    · refine h.block_role b hb' f ⟨?_, ?_⟩
      · rw [← hva]
        exact hle
      · rw [← hva]
        exact hlt
  case disjoint => exact h.disjoint

end Accounts

/-! ## Every step keeps the invariant -/

/-- References never exceed the number of entries. -/
theorem Forest.use_le_card {k : Kernel} {dirs : List Nat} (hmap : KernelMap c k)
    (h : Forest c k dirs role T) (hm : m.kernel = k) (hdirs : m.dirs = dirs) (f : Nat) :
    heapUse k f + userUse k T f + reservedUse c f ≤ (m.entriesNaming c f).card := by
  subst hm hdirs
  have hkernel := heapUse_add_le_kernelUse hmap f
  rw [h.card_entriesNaming hmap, reservedUse]
  split
  · rename_i hres
    rw [if_pos (Boot.reserved_lt hres)] at hkernel
    omega
  · omega

/-- Filling an entry, with the bound on the number of mappings taken after the call. -/
theorem Accounts.fillEntry_of_card (h : Accounts c m role T) {tb j f : Nat} {perm : Word}
    (htb : tb ∈ T) (hj : j < 1024) (hzero : m.kernel.mem tb j = 0#32)
    (hf : f ∈ m.held ∨ 1 ≤ m.kernel.references f) (hperm : perm.toNat < 4096)
    (hcard : (Machine.entriesNaming c { m with
      kernel := (incrementReferences m.kernel f).setWord tb j (frameEntry f perm) } f).card
        ≤ 65535) :
    Accounts c { m with
      kernel := (incrementReferences m.kernel f).setWord tb j (frameEntry f perm)
      held := m.held.filter (· ≠ f) } role T := by
  refine h.fillEntry htb hj hzero hf ?_ hperm
  have hram := h.lt_of_mappable hf
  have hf20 : f < 1048576 := Nat.lt_of_lt_of_le hram c.numberOfFrames_le
  have hperm' : (perm ||| permPresent).toNat < 4096 := by
    rw [BitVec.toNat_or]
    exact Nat.or_lt_two_pow (n := 12) hperm (by decide)
  have hnames : Names (frameEntry f perm) f (perm ||| permPresent) :=
    names_constructEntry hf20 hperm'
  have hforest : Forest c (incrementReferences m.kernel f) m.dirs role T :=
    h.forest.congr rfl rfl
  have hforest' : Forest c ((incrementReferences m.kernel f).setWord tb j (frameEntry f perm))
      m.dirs role T :=
    hforest.setPte htb (fun _ => hnames.present) (fun _ => hnames.frame_eq.symm ▸ hram)
  have hmap : KernelMap c (incrementReferences m.kernel f) :=
    h.inv.map.congr (fun _ _ => rfl) rfl rfl rfl rfl rfl rfl
  have hmap' : KernelMap c ((incrementReferences m.kernel f).setWord tb j (frameEntry f perm)) :=
    hmap.setWord (h.inv.map.not_kernelFrame (h.forest.table_heap htb)) _ _
  have hle := Forest.use_le_card (m := { m with
    kernel := (incrementReferences m.kernel f).setWord tb j (frameEntry f perm) })
    hmap' hforest' rfl rfl f
  have hset := userUse_setWord (s := incrementReferences m.kernel f) (f := f) htb hj
    (frameEntry f perm)
  have hold : ¬ Points ((incrementReferences m.kernel f).mem tb j) f := fun hp => hp.1 hzero
  have hnew : Points (frameEntry f perm) f := ⟨hnames.ne_zero, hnames.frame_eq⟩
  rw [if_neg hold, if_pos hnew, Nat.add_zero] at hset
  have hsame : userUse (incrementReferences m.kernel f) T f = userUse m.kernel T f := rfl
  have hheap : heapUse ((incrementReferences m.kernel f).setWord tb j (frameEntry f perm)) f =
      heapUse m.kernel f := rfl
  have href := h.references_eq f
  omega

/-- `map_frame` of a frame that is not held leaves the list of held frames as it is. -/
theorem Accounts.sameFrame (h : Accounts c m role T) {f : Nat}
    (hf : 1 ≤ m.kernel.references f) : m.held.filter (· ≠ f) = m.held := by
  rw [List.filter_eq_self]
  intro g hg
  have := h.held_unused g hg
  simp only [ne_eq, decide_eq_true_eq]
  rintro rfl
  omega

theorem FrameStep.accounts (h : Accounts c m role T) (hstep : FrameStep c m m') :
    ∃ role' T', Accounts c m' role' T' := by
  cases hstep with
  | allocateFrame hcall =>
    obtain ⟨rest, hfree, heq⟩ := (allocateFrame_spec m.kernel).of_ok hcall
    simp only at hfree heq
    subst heq
    exact ⟨role, T, h.takeFrame hfree⟩
  | createUserDirectory hcall =>
    obtain ⟨g, u, hnew, rfl⟩ := (createUserDirectory_spec h.inv).of_ok hcall
    exact ⟨_, T, h.newDirectory hnew⟩
  | @mapFrame dir f va perm k hdir hva hperm hf hcall hcard =>
    obtain ⟨fd, hd, hrole⟩ := h.forest.dir_at dir hdir
    have hf20 : f < 1048576 :=
      Nat.lt_of_lt_of_le (h.lt_of_mappable hf) c.numberOfFrames_le
    have hj := ptx_lt va
    rcases h.forest.pde fd hrole (pdx va) (pdx_user hva) with hpde | ⟨tb, hnames, htb⟩
    · -- a table is created first
      obtain ⟨t, g, p, hnew, rfl⟩ := (mapFrame_newTable h.inv hd hva hpde hf20).of_ok hcall
      have hacc := h.newTable hrole (pdx_user hva) hpde hnew
      have hfg : f ≠ g := by
        rintro rfl
        refine h.not_free hf ?_
        rw [hnew.free_eq]
        exact List.mem_cons_self
      have hf' : f ∈ m.held ∨ 1 ≤ t.references f := by
        rw [hnew.ref_eq, Function.update_of_ne hfg]
        exact hf
      exact ⟨_, _, hacc.fillEntry_of_card (Finset.mem_insert_self g T) hj (hnew.mem_table hj) hf'
        hperm hcard⟩
    · have hT : tb ∈ T := (h.forest.mem_T tb).2 ⟨_, _, htb⟩
      have hheap := h.forest.table_heap hT
      by_cases hzero : m.kernel.mem tb (ptx va) = 0#32
      · rw [FosMemory.mapFrame, mapFrameWith_user_zero h.inv.map hd hva hnames hheap hzero hf20]
          at hcall
        cases hcall
        exact ⟨role, T, h.fillEntry_of_card hT hj hzero hf hperm hcard⟩
      · have hpresent := h.forest.present tb hT _ hj hzero
        have hram := h.forest.in_ram tb hT _ hj hzero
        have huse := userUse_pos hT hj hzero
        have href := h.references_eq (m.kernel.mem tb (ptx va)).frame
        by_cases hsame : (m.kernel.mem tb (ptx va)).frame = f
        · rw [FosMemory.mapFrame,
            mapFrameWith_user_same h.inv.map hd hva hnames hheap hpresent hsame hf20] at hcall
          cases hcall
          rw [h.sameFrame (by rw [← hsame]; omega)]
          exact ⟨role, T, h⟩
        · rw [FosMemory.mapFrame,
            mapFrameWith_user_other h.inv.map hd hva hnames hheap hpresent hsame hram hf20]
            at hcall
          cases hcall
          have hclear := h.clearEntry hT hj hzero
          have hpos : 1 ≤ m.kernel.references (m.kernel.mem tb (ptx va)).frame := by omega
          have hf' : f ∈ m.held ∨ 1 ≤ ((decrementReferences m.kernel
              (m.kernel.mem tb (ptx va)).frame).setWord tb (ptx va) 0#32).references f := by
            refine hf.imp id fun href => ?_
            show 1 ≤ (decrementReferences m.kernel (m.kernel.mem tb (ptx va)).frame).references f
            rw [decrementReferences_references hpos, Function.update_of_ne (Ne.symm hsame)]
            exact href
          exact ⟨role, T, hclear.fillEntry_of_card hT hj (Kernel.setWord_mem_self ..) hf' hperm
            hcard⟩
  | @unmapFrame dir va k hdir hva hcall =>
    obtain ⟨fd, hd, hrole⟩ := h.forest.dir_at dir hdir
    rcases h.forest.pde fd hrole (pdx va) (pdx_user hva) with hpde | ⟨tb, hnames, htb⟩
    · rw [unmapFrame_user_none h.inv.map hd hva hpde] at hcall
      cases hcall
      exact ⟨role, T, h⟩
    · have hT : tb ∈ T := (h.forest.mem_T tb).2 ⟨_, _, htb⟩
      have hheap := h.forest.table_heap hT
      by_cases hzero : m.kernel.mem tb (ptx va) = 0#32
      · rw [unmapFrame_user_zero h.inv.map hd hva hnames hheap hzero] at hcall
        cases hcall
        exact ⟨role, T, h⟩
      · have hram := h.forest.in_ram tb hT _ (ptx_lt va) hzero
        rw [unmapFrame_user h.inv.map hd hva hnames hheap hzero hram] at hcall
        cases hcall
        exact ⟨role, T, h.clearEntry hT (ptx_lt va) hzero⟩
  | @kmallocNull size k hpos hle hcall =>
    rcases (kmalloc_spec h.inv hpos hle).of_ok hcall with ⟨-, hsame, -⟩ | hk
    · simp only at hsame
      subst hsame
      exact ⟨role, T, h⟩
    · have htop := h.inv.map.le_top
      have hp : 0 = m.kernel.firstFreeVAInKHeap := hk.p_eq
      simp only [kernelHeapStart] at htop
      omega
  | kmalloc hpos hle hcall hp =>
    rcases (kmalloc_spec h.inv hpos hle).of_ok hcall with ⟨hnull, -, -⟩ | hk
    · exact absurd hnull hp
    · exact ⟨role, T, h.newBlock hk⟩
  | @kfree p n k hb hcall =>
    obtain ⟨i, hi, hva, hsize, hempty⟩ := h.findBlock hb
    by_cases hp : p ∈ m.freed
    · rw [h.kfreeAgain hb hp] at hcall
      cases hcall
      refine ⟨role, T, ?_⟩
      have hiff : ∀ q, q ∈ p :: m.freed ↔ q ∈ m.freed := by
        intro q
        rw [List.mem_cons]
        exact ⟨fun hq => hq.elim (fun heq => heq ▸ hp) id, .inr⟩
      refine ⟨h.inv, h.forest, h.references_eq, h.free_iff, h.held_lt, h.held_unused, ?_, ?_,
        h.block_role, h.disjoint⟩
      · simp only [hiff]
        exact h.block
      · simp only [hiff]
        exact h.freed_mem
    · rw [← hva] at hcall
      have hk := (kfree_spec h.inv hi (hempty.2 hp)).of_ok hcall
      exact ⟨role, T, h.dropBlock hb hi hva hsize hk⟩

theorem FrameRun.accounts (h : FrameRun c m) : ∃ role T, Accounts c m role T := by
  induction h with
  | initial =>
    refine ⟨fun _ => none, ∅, ?_⟩
    have huse : ∀ f, userUse c.state ∅ f = 0 := by
      intro f
      refine hits_eq_zero fun e he => ?_
      exact absurd (mem_entriesOf.1 he).1 (Finset.notMem_empty _)
    constructor
    case inv => exact c.state_inv
    case forest =>
      constructor
      case dir_at => exact fun p hp => absurd hp List.not_mem_nil
      case mem_T =>
        intro t
        simp
      all_goals simp
    case references_eq =>
      intro f
      show (if c.Reserved f then 1 else 0) = heapUse c.state f + userUse c.state ∅ f + _
      rw [huse f, reservedUse]
      simp [heapUse, Boot.state]
    case free_iff =>
      intro f
      show f ∈ c.freeFrameList ↔ _ ∧ _ ∧ (if c.Reserved f then 1 else 0) = 0 ∧ f ∉ []
      rw [c.mem_freeFrameList]
      simp
    case held_lt => exact fun f hf => absurd hf List.not_mem_nil
    case held_unused => exact fun f hf => absurd hf List.not_mem_nil
    case block => exact fun b hb => absurd hb List.not_mem_nil
    case freed_mem => exact fun p hp => absurd hp List.not_mem_nil
    case block_role => exact fun b hb => absurd hb List.not_mem_nil
    case disjoint => exact List.Pairwise.nil
  | step _ hstep ih =>
    obtain ⟨role, T, h⟩ := ih
    exact hstep.accounts h

/-! ## Frame accounting -/

/-- Counting the references of a frame from the list. -/
theorem FrameRun.references_eq (h : FrameRun c m) {f : Nat} (hres : ¬ c.Reserved f) :
    m.kernel.references f + (if f < c.kernelEnd then 1 else 0) = (m.entriesNaming c f).card := by
  obtain ⟨role, T, hacc⟩ := h.accounts
  have href := hacc.references_eq f
  rw [reservedUse, if_neg hres] at href
  rw [hacc.forest.card_entriesNaming hacc.inv.map, kernelUse_eq hacc.inv.map hres]
  omega

/-- Every frame that `initialize_paging` put on the list: its references are the page table
entries that name it, less the entry of the remapped physical memory, and it is on
`free_frame_list` exactly when nobody refers to it and nobody holds it. -/
theorem frameRun_accounting (h : FrameRun c m) {f : Nat} (hf : f < c.numberOfFrames)
    (hres : ¬ c.Reserved f) :
    m.kernel.references f + (if f < c.kernelEnd then 1 else 0) = (m.entriesNaming c f).card ∧
      m.kernel.freeFrameList.count f =
        if m.kernel.references f = 0 ∧ f ∉ m.held then 1 else 0 := by
  refine ⟨h.references_eq hres, ?_⟩
  obtain ⟨role, T, hacc⟩ := h.accounts
  have hiff := hacc.free_iff f
  split
  · rename_i hfree
    exact List.count_eq_one_of_mem hacc.inv.list.nodup (hiff.2 ⟨hf, hres, hfree⟩)
  · rename_i hfree
    exact List.count_eq_zero_of_not_mem fun hmem => hfree (hiff.1 hmem).2.2

/-- A machine of 1024 frames, all below `ptr_free_mem`. -/
def smallBoot : Boot :=
  { numberOfFrames := 1024
    kernelEnd := 1024
    dirFrame := 256
    tableFrame := fun i => i - 600
    stackFrame := 500
    envsFrame := 600
    contents := fun _ _ => 0#32
    diskContents := fun _ _ => 0#32
    numberOfFrames_le := by decide
    kernelEnd_le := by decide
    kernelEnd_le_heap := by decide
    le_dirFrame := by decide
    dirFrame_lt := by decide
    le_tableFrame := by decide
    tableFrame_lt := by decide
    tableFrame_ne_dir := by decide
    tableFrame_inj := by
      intro i hi j hj hij
      rw [mem_kernelTables] at hi hj
      omega
    le_stackFrame := by decide
    stackFrame_le := by decide
    le_envsFrame := by decide
    envsFrame_le := by decide }

theorem smallBoot_frames : smallBoot.freeFrameList.length = 157 := by
  simp [Boot.freeFrameList, smallBoot]

/-- `smallBoot` after one `allocate_frame`. -/
def smallMachine : Machine :=
  { Machine.initial smallBoot with
    kernel := takeFrame smallBoot.state 159 (List.range' 3 156).reverse
    held := [159] }

theorem smallMachine_run : FrameRun smallBoot smallMachine :=
  FrameRun.step .initial (.allocateFrame rfl)

theorem frameRun_accounting_allocated :
    ¬ smallBoot.Reserved 159 ∧ 159 ∈ smallMachine.held ∧
      smallMachine.kernel.references 159 + (if 159 < smallBoot.kernelEnd then 1 else 0) =
        (smallMachine.entriesNaming smallBoot 159).card ∧
      smallMachine.kernel.freeFrameList.count 159 =
        if smallMachine.kernel.references 159 = 0 ∧ 159 ∉ smallMachine.held then 1 else 0 :=
  ⟨by decide, by decide,
    frameRun_accounting smallMachine_run (by decide) (by decide)⟩

/-- Frame 159 came from the list and nobody maps it, but the remapped physical memory names it. -/
theorem frameRun_references_ne_card :
    ∃ m, FrameRun smallBoot m ∧ 159 ∈ (Machine.initial smallBoot).kernel.freeFrameList ∧
      159 ∈ m.held ∧ m.kernel.references 159 ≠ (m.entriesNaming smallBoot 159).card := by
  refine ⟨smallMachine, smallMachine_run, by decide, by decide, ?_⟩
  have hcard := smallMachine_run.references_eq (f := 159) (by decide)
  rw [if_pos (by decide)] at hcard
  omega

/-! ## The kernel heap -/

/-- What holds of the kernel heap in every state of a run. -/
structure HeapSound (c : Boot) (m : Machine) : Prop where
  aligned : ∀ b ∈ m.blocks, b.1 % 4096 = 0
  inside : ∀ b ∈ m.blocks, kernelHeapStart ≤ b.1 ∧ b.1 < b.1 + 4096 * b.2 ∧
    b.1 + 4096 * b.2 ≤ kernelHeapMax
  disjoint : m.blocks.Pairwise fun b b' =>
    b.1 + 4096 * b.2 ≤ b'.1 ∨ b'.1 + 4096 * b'.2 ≤ b.1
  idx_lt : m.kernel.idx < heapRecords
  /-- a live page is mapped, and no other heap page is mapped to its frame -/
  live : ∀ b ∈ m.blocks, b.1 ∉ m.freed → ∀ k < b.2, ∃ f,
    m.kernel.Backed (b.1 + 4096 * k) f ∧
      ∀ va, isHeapPage va = true → Points (m.kernel.kernelEntry va) f → va = b.1 + 4096 * k
  freed : ∀ b ∈ m.blocks, b.1 ∈ m.freed → ∀ k < b.2,
    m.kernel.kernelEntry (b.1 + 4096 * k) = 0#32
  translate : ∀ va, isHeapPage va = true → m.kernel.kernelEntry va ≠ 0#32 →
    ∃ pa, kheapPhysicalAddress m.kernel va = .ok pa ∧ kheapVirtualAddress m.kernel pa = va
  reverse : ∀ f, (∀ va, isHeapPage va = true → ¬ Points (m.kernel.kernelEntry va) f) →
    ∀ pa, pa / 4096 = f → kheapVirtualAddress m.kernel pa = 0
  kfree_returns : ∀ b ∈ m.blocks, ∃ k, kfree m.kernel b.1 = .ok k
  kfree_again : ∀ p ∈ m.freed, kfree m.kernel p = .ok m.kernel
  kmalloc_returns : ∀ size, 1 ≤ size → size ≤ 0xFFFFF000 →
    heapPages size ≤ m.kernel.freeFrameList.length → ∃ p k, kmalloc m.kernel size = .ok (p, k)

/-- The entry of a heap page, found through the page directory. -/
theorem KernelMap.kernelEntry_heap {s : Kernel} (h : KernelMap c s) {va : Nat}
    (hva : isHeapPage va = true) : s.kernelEntry va = c.pte s va :=
  h.kernelEntry_eq (pdx_mem_of_isHeapPage hva)

theorem Accounts.isHeapPage_block (h : Accounts c m role T) {b : Nat × Nat} (hb : b ∈ m.blocks)
    {k : Nat} (hk : k < b.2) : isHeapPage (b.1 + 4096 * k) = true := by
  obtain ⟨i, hi, heq⟩ := h.block b hb
  have hstart := h.inv.map.start i hi
  have hal := h.inv.map.aligned i hi
  have hblock := h.inv.map.block_le_top i hi
  have hmax := h.inv.map.top_lt
  rw [heq] at hstart hal hblock
  simp only [kernelHeapStart, kernelHeapMax] at hstart hal hblock hmax
  rw [isHeapPage_iff]
  omega

/-- A heap entry that names `f` is the one the reverse map knows. -/
theorem KernelMap.eq_of_points {s : Kernel} (h : KernelMap c s) {va f : Nat}
    (hva : isHeapPage va = true) (hp : Points (s.kernelEntry va) f) :
    s.virtualAddresses f = va := by
  rw [h.kernelEntry_heap hva] at hp
  rw [← hp.2]
  exact h.mapped va hva hp.1

theorem frameRun_heap (h : FrameRun c m) : HeapSound c m := by
  obtain ⟨role, T, hacc⟩ := h.accounts
  have hmap := hacc.inv.map
  constructor
  case aligned =>
    intro b hb
    obtain ⟨i, hi, heq⟩ := hacc.block b hb
    have hal := hmap.aligned i hi
    rwa [heq] at hal
  case inside =>
    intro b hb
    obtain ⟨i, hi, heq⟩ := hacc.block b hb
    have hstart := hmap.start i hi
    rw [heq] at hstart
    have htop := hacc.block_lt_top hb
    have hmax := hmap.top_lt
    exact ⟨hstart, by omega, by omega⟩
  case disjoint => exact hacc.disjoint.imp fun hle => .inr hle
  case idx_lt => exact hmap.idx_lt
  case live =>
    intro b hb hlive k hk
    obtain ⟨i, hi, heq⟩ := hacc.block b hb
    rw [if_neg hlive] at heq
    obtain ⟨f, hf⟩ := hacc.inv.live.live i hi (by rw [heq]) k (by rw [heq]; exact hk)
    rw [heq] at hf
    simp only at hf
    have hpage := hacc.isHeapPage_block hb hk
    have hne : m.kernel.virtualAddresses f ≠ 0 := by
      rw [isHeapPage_iff] at hpage
      omega
    refine ⟨f, ?_, ?_⟩
    · have hback := hmap.backed_heap hne
      rwa [hf] at hback
    · intro va hva hp
      rw [← hmap.eq_of_points hva hp, hf]
  case freed =>
    intro b hb hfreed k hk
    obtain ⟨i, hi, heq⟩ := hacc.block b hb
    rw [if_pos hfreed] at heq
    have hdead := (hacc.inv.live.dead i hi (by rw [heq]; exact Nat.one_ne_zero)).2 k (by rw [heq]; exact hk)
    rw [heq] at hdead
    have hpage := hacc.isHeapPage_block hb hk
    rw [hmap.kernelEntry_heap hpage]
    exact (hmap.pte_eq_zero_iff hpage).2 hdead
  case translate =>
    intro va hva hne
    rw [hmap.kernelEntry_heap hva] at hne
    refine ⟨_, kheapPhysicalAddress_eq hmap.toStaticMap hva, ?_⟩
    rw [kheapVirtualAddress, Nat.mul_div_cancel _ (by decide)]
    exact hmap.mapped va hva hne
  case reverse =>
    rintro f hnone pa rfl
    rw [kheapVirtualAddress]
    by_contra hne
    have hnames := hmap.names _ hne
    have hpage := hmap.heapPage _ hne
    refine hnone _ hpage ?_
    rw [hmap.kernelEntry_heap hpage]
    exact ⟨hnames.ne_zero, hnames.frame_eq⟩
  case kfree_returns =>
    intro b hb
    by_cases hfreed : b.1 ∈ m.freed
    · exact ⟨_, hacc.kfreeAgain hb hfreed⟩
    · obtain ⟨i, hi, hva, -, hempty⟩ := hacc.findBlock hb
      obtain ⟨t, ht, -⟩ := (kfree_spec hacc.inv hi (hempty.2 hfreed)).exists_ok
      rw [hva] at ht
      exact ⟨t, ht⟩
  case kfree_again =>
    intro p hp
    obtain ⟨n, hb⟩ := hacc.freed_mem p hp
    exact hacc.kfreeAgain hb hp
  case kmalloc_returns =>
    intro size hpos hle hframes
    have hspec := kmalloc_spec hacc.inv hpos hle
    have hnever := hspec.mono (F := fun _ => False) (fun e he => absurd he.1 (by omega))
      fun _ hr => hr
    obtain ⟨r, hr, -⟩ := hnever.exists_ok
    exact ⟨r.1, r.2, hr⟩

/-- A run of `smallBoot` in which a block of two pages is allocated and freed. -/
theorem frameRun_heap_freed :
    ∃ m, FrameRun smallBoot m ∧ m.blocks = [(kernelHeapStart, 2)] ∧
      m.freed = [kernelHeapStart] ∧ HeapSound smallBoot m := by
  have hrun := smallMachine_run
  have hframes : heapPages 8192 ≤ smallMachine.kernel.freeFrameList.length := by
    simp [smallMachine, takeFrame, heapPages]
  obtain ⟨p, k, hk⟩ := (frameRun_heap hrun).kmalloc_returns 8192 (by decide) (by decide) hframes
  obtain ⟨role, T, hacc⟩ := hrun.accounts
  have hnew : p = kernelHeapStart := by
    rcases (kmalloc_spec hacc.inv (by decide) (by decide)).of_ok hk with ⟨-, -, hfull⟩ | hspec
    · exact absurd hfull (by decide)
    · exact hspec.p_eq
  subst hnew
  have hmalloc := hrun.step (.kmalloc (by decide) (by decide) hk (by decide))
  obtain ⟨u, hu⟩ := (frameRun_heap hmalloc).kfree_returns _ List.mem_cons_self
  have hfree := hmalloc.step (.kfree List.mem_cons_self hu)
  exact ⟨_, hfree, rfl, rfl, frameRun_heap hfree⟩

end FosMemory
