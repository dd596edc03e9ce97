import FosMemory.Kernel.UserMap
import FosMemory.Lib.Count

/-!
# FrameRun — runs of the frame manager and the kernel heap

A run starts from the boot state and calls, in any order, `allocate_frame`,
`create_user_directory`, `map_frame` and `unmap_frame` at user addresses of the directories created
so far, `kmalloc` and `kfree`.  `Accounts` is the invariant of such runs: the user page tables form
a forest of kernel heap pages, and every reference count is the number of entries that name the
frame.
-/

namespace FosMemory

open Lib

/-! ## The boot state satisfies the kernel invariant -/

namespace Boot

variable (c : Boot)

theorem mem_freeFrameList {f : Nat} :
    f ∈ c.freeFrameList ↔ f < c.numberOfFrames ∧ ¬ c.Reserved f := by
  have hend := c.kernelEnd_le
  have hdir := c.le_dirFrame
  have hlt := c.dirFrame_lt
  simp only [freeFrameList, List.mem_append, List.mem_reverse, List.mem_range'_1, Reserved]
  omega

theorem nodup_freeFrameList : c.freeFrameList.Nodup := by
  have hdir := c.le_dirFrame
  have hlt := c.dirFrame_lt
  refine List.nodup_append.2 ⟨?_, ?_, ?_⟩
  · exact List.nodup_reverse.2 List.nodup_range'
  · exact List.nodup_reverse.2 List.nodup_range'
  · intro f hf g hg
    rw [List.mem_reverse, List.mem_range'_1] at hf hg
    omega

theorem state_staticMap : StaticMap c c.state := by
  refine ⟨rfl, rfl, fun i _ => c.memory_dir i, ?_⟩
  intro i hi j hj _
  exact c.memory_table hi j

theorem tableEntry_heap {va : Nat} (h : isHeapPage va = true) : c.tableEntry va = 0#32 := by
  have hfit := c.kernelEnd_le_heap
  rw [isHeapPage_iff] at h
  rw [tableEntry, if_neg (by simp only [kernelBase]; omega), if_neg (by omega),
    if_neg (by simp only [userTop]; omega)]

theorem state_inv : KernelInv c c.state := by
  have hva : ∀ f, c.state.virtualAddresses f = 0 := fun _ => rfl
  have hidx : c.state.idx = 0 := rfl
  have hpte : ∀ va, isHeapPage va = true → c.pte c.state va = 0#32 := by
    intro va hheap
    have hal := isHeapPage_iff.1 hheap
    refine (c.memory_table (pdx_mem_of_isHeapPage hheap) _).trans ?_
    rw [entryAddress_eq hal.2.2 (by omega)]
    exact c.tableEntry_heap hheap
  refine ⟨?_, ?_, ?_⟩
  · constructor
    case toStaticMap => exact c.state_staticMap
    case heapPage => exact fun f hf => absurd (hva f) hf
    case below_top => exact fun f hf => absurd (hva f) hf
    case in_ram => exact fun f hf => absurd (hva f) hf
    case not_reserved => exact fun f hf => absurd (hva f) hf
    case names => exact fun f hf => absurd (hva f) hf
    case mapped => exact fun va hheap hne => absurd (hpte va hheap) hne
    case top_aligned => exact (by decide : kernelHeapStart % 4096 = 0)
    case le_top => exact Nat.le_refl _
    case top_lt => exact (by decide : kernelHeapStart < kernelHeapMax)
    case unused => exact fun _ _ => ⟨rfl, rfl⟩
    case start => exact fun i hi => absurd hi (Nat.not_lt_zero i)
    case aligned => exact fun i hi => absurd hi (Nat.not_lt_zero i)
    case size_pos => exact fun i hi => absurd hi (Nat.not_lt_zero i)
    case order => exact fun _ j _ hj => absurd hj (Nat.not_lt_zero j)
    case block_le_top => exact fun i hi => absurd hi (Nat.not_lt_zero i)
  · constructor
    case nodup => exact c.nodup_freeFrameList
    case lt => exact fun f hf => (c.mem_freeFrameList.1 hf).1
    case not_reserved => exact fun f hf => (c.mem_freeFrameList.1 hf).2
    case not_heap => exact fun f _ => hva f
    case references_eq_zero =>
      intro f hf
      exact if_neg (c.mem_freeFrameList.1 hf).2
    case references_lt =>
      intro f
      show (if c.Reserved f then 1 else 0) < 65536
      split <;> decide
    case heap_referenced => exact fun f hf => absurd (hva f) hf
  · exact ⟨fun i hi => absurd hi (Nat.not_lt_zero i), fun i hi => absurd hi (Nat.not_lt_zero i)⟩

end Boot

/-! ## Runs -/

/-- The kernel and what its callers have got from it. -/
structure Machine where
  kernel : Kernel
  /-- frames from `allocate_frame` that have not been mapped since -/
  held : List Nat
  /-- directories from `create_user_directory` -/
  dirs : List Nat
  /-- address and page count of every block `kmalloc` has returned -/
  blocks : List (Nat × Nat)
  /-- addresses `kfree` was called on -/
  freed : List Nat

def Machine.initial (c : Boot) : Machine :=
  { kernel := c.state, held := [], dirs := [], blocks := [], freed := [] }

/-- The frames of the page tables of a directory. -/
def dirTables (s : Kernel) (dir : Nat) : List Nat :=
  (List.range 955).filterMap fun i =>
    let pde := s.mem (s.kernelEntry dir).frame i
    if pde = 0#32 then none else some pde.frame

/-- The frames of the kernel's page tables. -/
@[irreducible] def Boot.tableFrames (c : Boot) : Finset Nat :=
  (kernelTables.map c.tableFrame).toFinset

/-- The physical page tables: those of the kernel and those of the directories. -/
def Machine.pageTables (c : Boot) (m : Machine) : Finset Nat :=
  c.tableFrames ∪ (m.dirs.flatMap (dirTables m.kernel)).toFinset

/-- The entries of a set of tables: table frame and index. -/
@[irreducible] def entriesOf (T : Finset Nat) : Finset (Nat × Nat) :=
  T ×ˢ Finset.range 1024

theorem mem_entriesOf {T : Finset Nat} {e : Nat × Nat} :
    e ∈ entriesOf T ↔ e.1 ∈ T ∧ e.2 < 1024 := by
  rw [entriesOf, Finset.mem_product, Finset.mem_range]

theorem entriesOf_union (T U : Finset Nat) :
    entriesOf (T ∪ U) = entriesOf T ∪ entriesOf U := by
  rw [entriesOf, entriesOf, entriesOf, Finset.union_product]

theorem disjoint_entriesOf {T U : Finset Nat} (h : Disjoint T U) :
    Disjoint (entriesOf T) (entriesOf U) := by
  rw [Finset.disjoint_left] at h ⊢
  intro e ht hu
  exact h (mem_entriesOf.1 ht).1 (mem_entriesOf.1 hu).1

/-- The entry is not zero and names frame `f`. -/
def Points (w : Word) (f : Nat) : Prop :=
  w ≠ 0#32 ∧ w.frame = f

instance (w : Word) (f : Nat) : Decidable (Points w f) :=
  inferInstanceAs (Decidable (_ ∧ _))

/-- The page table entries that name frame `f`. -/
def Machine.entriesNaming (c : Boot) (m : Machine) (f : Nat) : Finset (Nat × Nat) :=
  (entriesOf (m.pageTables c)).filter fun e => Points (m.kernel.mem e.1 e.2) f

/-- One call.  A frame may be mapped when a caller holds it or when it is mapped already; after
the call no frame is mapped at more than 65535 addresses. -/
inductive FrameStep (c : Boot) : Machine → Machine → Prop
  | allocateFrame {m : Machine} {f : Nat} {k : Kernel} :
      allocateFrame m.kernel = .ok (f, k) →
      FrameStep c m { m with kernel := k, held := f :: m.held }
  | createUserDirectory {m : Machine} {p : Nat} {k : Kernel} :
      createUserDirectory m.kernel = .ok (p, k) →
      FrameStep c m { m with kernel := k, dirs := p :: m.dirs }
  | mapFrame {m : Machine} {dir f va : Nat} {perm : Word} {k : Kernel} :
      dir ∈ m.dirs → va < userTop → perm.toNat < 4096 →
      (f ∈ m.held ∨ 1 ≤ m.kernel.references f) →
      mapFrame m.kernel dir f va perm = .ok k →
      (Machine.entriesNaming c { m with kernel := k } f).card ≤ 65535 →
      FrameStep c m { m with kernel := k, held := m.held.filter (· ≠ f) }
  | unmapFrame {m : Machine} {dir va : Nat} {k : Kernel} :
      dir ∈ m.dirs → va < userTop → unmapFrame m.kernel dir va = .ok k →
      FrameStep c m { m with kernel := k }
  | kmallocNull {m : Machine} {size : Nat} {k : Kernel} :
      1 ≤ size → size ≤ 0xFFFFF000 → kmalloc m.kernel size = .ok (0, k) →
      FrameStep c m { m with kernel := k }
  | kmalloc {m : Machine} {size p : Nat} {k : Kernel} :
      1 ≤ size → size ≤ 0xFFFFF000 → kmalloc m.kernel size = .ok (p, k) → p ≠ 0 →
      FrameStep c m { m with kernel := k, blocks := (p, heapPages size) :: m.blocks }
  | kfree {m : Machine} {p n : Nat} {k : Kernel} :
      (p, n) ∈ m.blocks → kfree m.kernel p = .ok k →
      FrameStep c m { m with kernel := k, freed := p :: m.freed }

/-- Machines reachable from boot. -/
inductive FrameRun (c : Boot) : Machine → Prop
  | initial : FrameRun c (Machine.initial c)
  | step {m m' : Machine} : FrameRun c m → FrameStep c m m' → FrameRun c m'

/-! ## The invariant -/

/-- What a kernel heap page serves for. -/
inductive TableRole where
  | dir
  /-- table number `i` of the directory in frame `d` -/
  | table (d i : Nat)
  deriving DecidableEq

/-- The user directories and their tables: `role` says which frame is which, `T` collects the
tables. -/
structure Forest (c : Boot) (s : Kernel) (dirs : List Nat) (role : Nat → Option TableRole)
    (T : Finset Nat) : Prop where
  dir_at : ∀ p ∈ dirs, ∃ fd, DirAt s p fd ∧ role fd = some .dir
  dir_mem : ∀ d, role d = some .dir → s.virtualAddresses d ∈ dirs
  heap : ∀ f, role f ≠ none → s.virtualAddresses f ≠ 0
  pde : ∀ d, role d = some .dir → ∀ i < 955, s.mem d i = 0#32 ∨
    ∃ t, Names (s.mem d i) t permUserPage ∧ role t = some (.table d i)
  table : ∀ t d i, role t = some (.table d i) →
    role d = some .dir ∧ i < 955 ∧ Names (s.mem d i) t permUserPage
  mem_T : ∀ t, t ∈ T ↔ ∃ d i, role t = some (.table d i)
  present : ∀ t ∈ T, ∀ j < 1024, s.mem t j ≠ 0#32 → (s.mem t j).has permPresent = true
  in_ram : ∀ t ∈ T, ∀ j < 1024, s.mem t j ≠ 0#32 → (s.mem t j).frame < c.numberOfFrames

/-- References held by user page table entries. -/
def userUse (s : Kernel) (T : Finset Nat) (f : Nat) : Nat :=
  hits (entriesOf T) fun e => Points (s.mem e.1 e.2) f

/-- The reference held by the kernel heap. -/
def heapUse (s : Kernel) (f : Nat) : Nat :=
  if s.virtualAddresses f ≠ 0 then 1 else 0

/-- The reference `initialize_paging` gives to the frames it keeps. -/
def reservedUse (c : Boot) (f : Nat) : Nat :=
  if c.Reserved f then 1 else 0

/-- The invariant of a run. -/
structure Accounts (c : Boot) (m : Machine) (role : Nat → Option TableRole) (T : Finset Nat) :
    Prop where
  inv : KernelInv c m.kernel
  forest : Forest c m.kernel m.dirs role T
  references_eq : ∀ f, m.kernel.references f =
    heapUse m.kernel f + userUse m.kernel T f + reservedUse c f
  free_iff : ∀ f, f ∈ m.kernel.freeFrameList ↔
    f < c.numberOfFrames ∧ ¬ c.Reserved f ∧ m.kernel.references f = 0 ∧ f ∉ m.held
  held_lt : ∀ f ∈ m.held, f < c.numberOfFrames
  held_unused : ∀ f ∈ m.held, m.kernel.references f = 0
  block : ∀ b ∈ m.blocks, ∃ i < m.kernel.idx, m.kernel.allocatedHAddresses i =
    { size := b.2, virtualAddress := b.1, empty := if b.1 ∈ m.freed then 1 else 0 }
  freed_mem : ∀ p ∈ m.freed, ∃ n, (p, n) ∈ m.blocks
  block_role : ∀ b ∈ m.blocks, ∀ f, InBlock m.kernel b.1 b.2 f → role f = none
  disjoint : m.blocks.Pairwise fun b b' => b'.1 + 4096 * b'.2 ≤ b.1

/-! ## Counting user entries -/

section UserUse

variable {s t : Kernel} {T : Finset Nat} {f : Nat}

theorem userUse_congr (h : ∀ tb ∈ T, ∀ j < 1024, t.mem tb j = s.mem tb j) :
    userUse t T f = userUse s T f := by
  refine hits_congr ?_
  rintro ⟨tb, j⟩ he
  rw [mem_entriesOf] at he
  simp only [h tb he.1 j he.2]

theorem userUse_setWord {tb j : Nat} (htb : tb ∈ T) (hj : j < 1024) (w : Word) :
    userUse (s.setWord tb j w) T f + (if Points (s.mem tb j) f then 1 else 0) =
      userUse s T f + (if Points w f then 1 else 0) := by
  have hchange := hits_change (A := entriesOf T) (a := (tb, j))
    (p := fun e => Points (s.mem e.1 e.2) f)
    (q := fun e => Points ((s.setWord tb j w).mem e.1 e.2) f)
    (mem_entriesOf.2 ⟨htb, hj⟩)
    (by
      rintro ⟨a, b⟩ - hne
      have hcond : ¬ (a = tb ∧ b = j) := by
        rintro ⟨rfl, rfl⟩
        exact hne rfl
      rw [s.setWord_mem, if_neg hcond])
  simp only [Kernel.setWord_mem_self] at hchange
  exact hchange

/-- A new table full of zeros adds nothing. -/
theorem userUse_insert {tb : Nat} (htb : tb ∉ T) (hzero : ∀ j < 1024, s.mem tb j = 0#32) :
    userUse s (insert tb T) f = userUse s T f := by
  have hdisj : Disjoint T {tb} := by
    rw [Finset.disjoint_singleton_right]
    exact htb
  have hnone : hits (entriesOf {tb}) (fun e => Points (s.mem e.1 e.2) f) = 0 := by
    refine hits_eq_zero ?_
    rintro ⟨a, b⟩ he hp
    rw [mem_entriesOf, Finset.mem_singleton] at he
    obtain ⟨rfl, hb⟩ := he
    exact hp.1 (hzero b hb)
  rw [userUse, Finset.insert_eq, Finset.union_comm, entriesOf_union,
    hits_union (disjoint_entriesOf hdisj), hnone]
  rfl

theorem userUse_pos {tb j : Nat} (htb : tb ∈ T) (hj : j < 1024) (hne : s.mem tb j ≠ 0#32) :
    1 ≤ userUse s T (s.mem tb j).frame :=
  hits_pos (a := (tb, j)) (mem_entriesOf.2 ⟨htb, hj⟩) ⟨hne, rfl⟩

end UserUse

/-! ## Steps on a page table entry -/

section Entry

variable {c : Boot} {s t : Kernel} {dirs : List Nat} {role : Nat → Option TableRole}
  {T : Finset Nat}

/-- The forest reads memory and the reverse map only. -/
theorem Forest.congr (h : Forest c s dirs role T) (hva : t.virtualAddresses = s.virtualAddresses)
    (hmem : t.mem = s.mem) : Forest c t dirs role T := by
  constructor
  case dir_at =>
    intro p hp
    obtain ⟨fd, hd, hrole⟩ := h.dir_at p hp
    exact ⟨fd, ⟨hva ▸ hd.va_eq, hd.ne_zero⟩, hrole⟩
  case dir_mem => rw [hva]; exact h.dir_mem
  case heap => rw [hva]; exact h.heap
  case pde => rw [hmem]; exact h.pde
  case table => rw [hmem]; exact h.table
  case mem_T => exact h.mem_T
  case present => rw [hmem]; exact h.present
  case in_ram => rw [hmem]; exact h.in_ram

theorem Forest.table_heap (h : Forest c s dirs role T) {tb : Nat} (htb : tb ∈ T) :
    s.virtualAddresses tb ≠ 0 := by
  obtain ⟨d, i, hrole⟩ := (h.mem_T tb).1 htb
  exact h.heap tb (by simp [hrole])

theorem Forest.dir_ne_table (h : Forest c s dirs role T) {d tb : Nat} (hd : role d = some .dir)
    (htb : tb ∈ T) : d ≠ tb := by
  rintro rfl
  obtain ⟨d', i, hrole⟩ := (h.mem_T d).1 htb
  rw [hd] at hrole
  cases hrole

theorem Forest.setPte (h : Forest c s dirs role T) {tb j : Nat} {w : Word} (htb : tb ∈ T)
    (hpresent : w ≠ 0#32 → w.has permPresent = true)
    (hram : w ≠ 0#32 → w.frame < c.numberOfFrames) : Forest c (s.setWord tb j w) dirs role T := by
  have hdir : ∀ d, role d = some .dir → (s.setWord tb j w).mem d = s.mem d :=
    fun d hd => Kernel.setWord_mem_frame (h.dir_ne_table hd htb)
  constructor
  case dir_at =>
    intro p hp
    obtain ⟨fd, hd, hrole⟩ := h.dir_at p hp
    exact ⟨fd, ⟨hd.va_eq, hd.ne_zero⟩, hrole⟩
  case dir_mem => exact h.dir_mem
  case heap => exact h.heap
  case pde =>
    intro d hd
    rw [hdir d hd]
    exact h.pde d hd
  case table =>
    intro t d i hrole
    have hd := (h.table t d i hrole).1
    rw [hdir d hd]
    exact h.table t d i hrole
  case mem_T => exact h.mem_T
  case present =>
    intro t ht k hk
    rw [s.setWord_mem]
    split
    · exact hpresent
    · exact h.present t ht k hk
  case in_ram =>
    intro t ht k hk
    rw [s.setWord_mem]
    split
    · exact hram
    · exact h.in_ram t ht k hk

namespace Accounts

variable {m : Machine}

/-- A referenced frame exists. -/
theorem lt_of_referenced (h : Accounts c m role T) {f : Nat}
    (hf : 1 ≤ m.kernel.references f) : f < c.numberOfFrames := by
  have href := h.references_eq f
  by_cases hheap : m.kernel.virtualAddresses f ≠ 0
  · exact h.inv.map.in_ram f hheap
  · by_cases hres : c.Reserved f
    · exact Nat.lt_of_lt_of_le (Boot.reserved_lt hres) c.kernelEnd_le
    · rw [heapUse, if_neg hheap, reservedUse, if_neg hres] at href
      have hpos : 0 < userUse m.kernel T f := by omega
      obtain ⟨⟨tb, j⟩, he⟩ := Finset.card_pos.1 hpos
      rw [Finset.mem_filter, mem_entriesOf] at he
      obtain ⟨⟨htb, hj⟩, hne, rfl⟩ := he
      exact h.forest.in_ram tb htb j hj hne

/-- Unmapping what a user entry names. -/
theorem clearEntry (h : Accounts c m role T) {tb j : Nat} (htb : tb ∈ T) (hj : j < 1024)
    (hne : m.kernel.mem tb j ≠ 0#32) :
    Accounts c { m with
      kernel := (decrementReferences m.kernel (m.kernel.mem tb j).frame).setWord tb j 0#32 }
      role T := by
  obtain ⟨g, hg⟩ : ∃ g, (m.kernel.mem tb j).frame = g := ⟨_, rfl⟩
  rw [hg]
  have huse : 1 ≤ userUse m.kernel T g := hg ▸ userUse_pos htb hj hne
  have href := h.references_eq g
  have hpos : 1 ≤ m.kernel.references g := by omega
  have hlt : g < c.numberOfFrames := h.lt_of_referenced hpos
  have hinv : KernelInv c (decrementReferences m.kernel g) := by
    refine h.inv.decrement hlt hpos ?_ ?_
    · by_cases hres : c.Reserved g
      · rw [reservedUse, if_pos hres] at href
        exact .inr (by omega)
      · exact .inl hres
    · intro hheap
      rw [heapUse, if_pos hheap] at href
      omega
  have hnot := h.inv.map.not_kernelFrame (h.forest.table_heap htb)
  have hrefs := decrementReferences_references (s := m.kernel) hpos
  have hfree := decrementReferences_freeFrameList (s := m.kernel) hpos
  obtain ⟨-, -, hrec, hidx, -⟩ := decrementReferences_kernel (s := m.kernel) (f := g)
  have hva : (decrementReferences m.kernel g).virtualAddresses = m.kernel.virtualAddresses :=
    decrementReferences_virtualAddresses
  have hforest : Forest c (decrementReferences m.kernel g) m.dirs role T :=
    h.forest.congr hva decrementReferences_mem
  have hcount : ∀ f, userUse ((decrementReferences m.kernel g).setWord tb j 0#32) T f +
      (if f = g then 1 else 0) = userUse m.kernel T f := by
    intro f
    have hset := userUse_setWord (s := decrementReferences m.kernel g) (f := f) htb hj 0#32
    have hold : userUse (decrementReferences m.kernel g) T f = userUse m.kernel T f :=
      userUse_congr fun _ _ _ _ => by rw [decrementReferences_mem]
    have hiff : Points (m.kernel.mem tb j) f ↔ f = g := by
      rw [← hg]
      exact ⟨fun hp => hp.2.symm, fun heq => ⟨hne, heq.symm⟩⟩
    have hzero : ¬ Points 0#32 f := fun hp => hp.1 rfl
    rw [decrementReferences_mem, hold, if_neg hzero] at hset
    simp only [hiff] at hset
    exact hset
  constructor
  case inv => exact hinv.setWord hnot _ _
  case forest => exact hforest.setPte htb (fun h0 => absurd rfl h0) (fun h0 => absurd rfl h0)
  case references_eq =>
    intro f
    show (decrementReferences m.kernel g).references f =
      (if (decrementReferences m.kernel g).virtualAddresses f ≠ 0 then 1 else 0) +
        userUse ((decrementReferences m.kernel g).setWord tb j 0#32) T f + reservedUse c f
    have hf := h.references_eq f
    have hcf := hcount f
    rw [heapUse] at hf
    rw [hva, hrefs, Function.update_apply]
    split
    · rename_i hfg
      subst hfg
      rw [if_pos rfl] at hcf
      omega
    · rename_i hfg
      rw [if_neg hfg] at hcf
      omega
  case free_iff =>
    intro f
    show f ∈ (decrementReferences m.kernel g).freeFrameList ↔
      _ ∧ _ ∧ (decrementReferences m.kernel g).references f = 0 ∧ _
    rw [hfree, hrefs, Function.update_apply]
    have hheld : g ∉ m.held := by
      intro hmem
      have := h.held_unused g hmem
      omega
    by_cases hfg : f = g
    · subst hfg
      rw [if_pos rfl]
      constructor
      · intro hmem
        split at hmem
        · rename_i hone
          refine ⟨hlt, ?_, by omega, hheld⟩
          intro hres
          rw [reservedUse, if_pos hres] at href
          omega
        · have := h.inv.list.references_eq_zero f hmem
          omega
      · rintro ⟨-, -, hzero, -⟩
        have hone : m.kernel.references f = 1 := by omega
        rw [if_pos hone]
        exact List.mem_cons_self
    · rw [if_neg hfg]
      split
      · rw [List.mem_cons, h.free_iff f]
        exact ⟨fun hmem => hmem.resolve_left hfg, .inr⟩
      · exact h.free_iff f
  case held_lt => exact h.held_lt
  case held_unused =>
    intro f hmem
    show (decrementReferences m.kernel g).references f = 0
    have hzero := h.held_unused f hmem
    rw [hrefs, Function.update_of_ne (by rintro rfl; omega)]
    exact hzero
  case block =>
    intro b hb
    obtain ⟨i, hi, heq⟩ := h.block b hb
    refine ⟨i, ?_, ?_⟩
    · show i < (decrementReferences m.kernel g).idx
      rw [hidx]
      exact hi
    · show (decrementReferences m.kernel g).allocatedHAddresses i = _
      rw [hrec]
      exact heq
  case freed_mem => exact h.freed_mem
  case block_role =>
    intro b hb f hin
    refine h.block_role b hb f ?_
    have hin' : b.1 ≤ (decrementReferences m.kernel g).virtualAddresses f ∧
      (decrementReferences m.kernel g).virtualAddresses f < b.1 + 4096 * b.2 := hin
    rw [hva] at hin'
    exact hin'
  case disjoint => exact h.disjoint

theorem not_free (h : Accounts c m role T) {f : Nat}
    (hf : f ∈ m.held ∨ 1 ≤ m.kernel.references f) : f ∉ m.kernel.freeFrameList := by
  intro hmem
  have hfree := (h.free_iff f).1 hmem
  rcases hf with hheld | hpos
  · exact hfree.2.2.2 hheld
  · omega

theorem lt_of_mappable (h : Accounts c m role T) {f : Nat}
    (hf : f ∈ m.held ∨ 1 ≤ m.kernel.references f) : f < c.numberOfFrames :=
  hf.elim (h.held_lt f) h.lt_of_referenced

/-- Filling an empty user entry. -/
theorem fillEntry (h : Accounts c m role T) {tb j f : Nat} {perm : Word} (htb : tb ∈ T)
    (hj : j < 1024) (hzero : m.kernel.mem tb j = 0#32)
    (hf : f ∈ m.held ∨ 1 ≤ m.kernel.references f) (hlt : m.kernel.references f < 65535)
    (hperm : perm.toNat < 4096) :
    Accounts c { m with
      kernel := (incrementReferences m.kernel f).setWord tb j (frameEntry f perm)
      held := m.held.filter (· ≠ f) } role T := by
  have hram := h.lt_of_mappable hf
  have hf20 : f < 1048576 := Nat.lt_of_lt_of_le hram c.numberOfFrames_le
  have hnot := h.inv.map.not_kernelFrame (h.forest.table_heap htb)
  have hrefs := incrementReferences_references hlt
  have hperm' : (perm ||| permPresent).toNat < 4096 := by
    rw [BitVec.toNat_or]
    exact Nat.or_lt_two_pow (n := 12) hperm (by decide)
  have hnames : Names (frameEntry f perm) f (perm ||| permPresent) :=
    names_constructEntry hf20 hperm'
  have hforest : Forest c (incrementReferences m.kernel f) m.dirs role T :=
    h.forest.congr rfl rfl
  have hcount : ∀ g, userUse ((incrementReferences m.kernel f).setWord tb j (frameEntry f perm)) T g
      = userUse m.kernel T g + (if g = f then 1 else 0) := by
    intro g
    have hset := userUse_setWord (s := incrementReferences m.kernel f) (f := g) htb hj
      (frameEntry f perm)
    have hold : ¬ Points ((incrementReferences m.kernel f).mem tb j) g :=
      fun hp => hp.1 hzero
    have hnew : Points (frameEntry f perm) g ↔ g = f := by
      rw [Points, hnames.frame_eq]
      exact ⟨fun hp => hp.2.symm, fun heq => ⟨hnames.ne_zero, heq.symm⟩⟩
    rw [if_neg hold, Nat.add_zero] at hset
    simp only [hnew] at hset
    exact hset
  constructor
  case inv => exact (h.inv.increment (h.not_free hf) hlt).setWord hnot _ _
  case forest =>
    exact hforest.setPte htb (fun _ => hnames.present) (fun _ => hnames.frame_eq.symm ▸ hram)
  case references_eq =>
    intro g
    show (incrementReferences m.kernel f).references g = heapUse m.kernel g + _ + _
    have hg := h.references_eq g
    rw [hrefs, hcount]
    split
    · rename_i heq
      subst heq
      omega
    · omega
  case free_iff =>
    intro g
    show g ∈ m.kernel.freeFrameList ↔
      _ ∧ _ ∧ (incrementReferences m.kernel f).references g = 0 ∧ g ∉ m.held.filter (· ≠ f)
    rw [hrefs]
    by_cases hgf : g = f
    · subst hgf
      simp [h.not_free hf]
    · rw [if_neg hgf, h.free_iff g, List.mem_filter]
      simp [hgf]
  case held_lt =>
    intro g hg
    exact h.held_lt g (List.mem_of_mem_filter hg)
  case held_unused =>
    intro g hg
    obtain ⟨hmem, hne⟩ := List.mem_filter.1 hg
    show (incrementReferences m.kernel f).references g = 0
    rw [hrefs, if_neg (by simpa using hne)]
    exact h.held_unused g hmem
  case block => exact h.block
  case freed_mem => exact h.freed_mem
  case block_role => exact h.block_role
  case disjoint => exact h.disjoint

end Accounts

end Entry

/-! ## Steps that change the kernel heap -/

section Heap

variable {c : Boot} {m : Machine} {role : Nat → Option TableRole} {T : Finset Nat}

namespace Accounts

/-- Tables, directories and held frames are not on the free list. -/
theorem role_not_free (h : Accounts c m role T) {f : Nat} (hf : role f ≠ none) :
    f ∉ m.kernel.freeFrameList :=
  fun hmem => h.forest.heap f hf (h.inv.list.not_heap f hmem)

theorem block_lt_top (h : Accounts c m role T) {b : Nat × Nat} (hb : b ∈ m.blocks) :
    0 < b.1 ∧ 1 ≤ b.2 ∧ b.1 + 4096 * b.2 ≤ m.kernel.firstFreeVAInKHeap := by
  obtain ⟨i, hi, heq⟩ := h.block b hb
  have hstart := h.inv.map.start i hi
  have hsize := h.inv.map.size_pos i hi
  have htop := h.inv.map.block_le_top i hi
  rw [heq] at hstart hsize htop
  simp only [kernelHeapStart] at hstart
  exact ⟨by omega, hsize, htop⟩

/-- New heap pages, whatever they serve for. -/
theorem ofKmalloced (h : Accounts c m role T) {u : Kernel} {n p : Nat}
    (hk : Kmalloced c m.kernel u n p) {mem' : Nat → Nat → Word} {dirs' : List Nat}
    {blocks' : List (Nat × Nat)} {role' : Nat → Option TableRole} {T' : Finset Nat}
    (hinv : KernelInv c { u with mem := mem' })
    (hforest : Forest c { u with mem := mem' } dirs' role' T')
    (huse : ∀ f, userUse { u with mem := mem' } T' f = userUse m.kernel T f)
    (hrole : ∀ f, f ∉ m.kernel.freeFrameList.take n → role' f = role f)
    (hblocks : blocks' = m.blocks ∨ blocks' = (p, n) :: m.blocks ∧
      ∀ f ∈ m.kernel.freeFrameList.take n, role' f = none) :
    Accounts c { m with kernel := { u with mem := mem' }, dirs := dirs', blocks := blocks' }
      role' T' := by
  have ht := hk.taken
  have hold : ∀ b ∈ m.blocks, ∃ i < u.idx, u.allocatedHAddresses i =
      { size := b.2, virtualAddress := b.1, empty := if b.1 ∈ m.freed then 1 else 0 } := by
    intro b hb
    obtain ⟨i, hi, heq⟩ := h.block b hb
    refine ⟨i, by rw [hk.idx_eq]; omega, ?_⟩
    rw [hk.records, Function.update_of_ne (by omega)]
    exact heq
  have hp : p ∉ m.freed := by
    intro hmem
    obtain ⟨n', hb⟩ := h.freed_mem p hmem
    have hlt := h.block_lt_top hb
    have := hk.p_eq
    simp only at hlt
    omega
  have hnewva : ∀ f ∈ m.kernel.freeFrameList.take n, p ≤ u.virtualAddresses f := by
    intro f hf
    obtain ⟨j, hj, hget⟩ := List.mem_take_iff_getElem.1 hf
    have hva := ht.va_new j f (by omega) (by rw [List.getElem?_eq_getElem (by omega), hget])
    rw [hva, hk.p_eq]
    omega
  have hfree : ∀ f, f ∈ u.freeFrameList ↔
      f ∈ m.kernel.freeFrameList ∧ f ∉ m.kernel.freeFrameList.take n := by
    intro f
    have hnodup := h.inv.list.nodup
    rw [← List.take_append_drop n m.kernel.freeFrameList] at hnodup
    have hdisj := (List.nodup_append.1 hnodup).2.2
    rw [ht.free_eq]
    constructor
    · intro hmem
      exact ⟨List.mem_of_mem_drop hmem, fun htake => hdisj f htake f hmem rfl⟩
    · rintro ⟨hmem, hnot⟩
      rw [← List.take_append_drop n m.kernel.freeFrameList, List.mem_append] at hmem
      exact hmem.resolve_left hnot
  constructor
  case inv => exact hinv
  case forest => exact hforest
  case references_eq =>
    intro f
    show u.references f = (if u.virtualAddresses f ≠ 0 then 1 else 0) + _ + _
    have hf := h.references_eq f
    rw [huse f]
    by_cases hmem : f ∈ m.kernel.freeFrameList.take n
    · have hlist := List.mem_of_mem_take hmem
      have hzero := h.inv.list.references_eq_zero f hlist
      have hva := hnewva f hmem
      have hpos := h.inv.map.le_top
      have hpeq := hk.p_eq
      simp only [kernelHeapStart] at hpos
      rw [ht.ref_new f hmem, if_pos (by omega)]
      omega
    · rw [ht.ref_old f hmem, ht.va_old f hmem]
      exact hf
  case free_iff =>
    intro f
    show f ∈ u.freeFrameList ↔ _ ∧ _ ∧ u.references f = 0 ∧ f ∉ m.held
    rw [hfree f]
    by_cases hmem : f ∈ m.kernel.freeFrameList.take n
    · have hone := ht.ref_new f hmem
      constructor
      · exact fun hf => absurd hmem hf.2
      · rintro ⟨-, -, hzero, -⟩
        omega
    · rw [ht.ref_old f hmem, h.free_iff f]
      exact ⟨fun hf => hf.1, fun hf => ⟨hf, hmem⟩⟩
  case held_lt => exact h.held_lt
  case held_unused =>
    intro f hf
    show u.references f = 0
    rw [ht.ref_old f fun hmem => h.not_free (.inl hf) (List.mem_of_mem_take hmem)]
    exact h.held_unused f hf
  case block =>
    rcases hblocks with rfl | ⟨rfl, -⟩
    · exact hold
    · intro b hb
      rcases List.mem_cons.1 hb with rfl | hb
      · refine ⟨m.kernel.idx, by show _ < u.idx; rw [hk.idx_eq]; omega, ?_⟩
        show u.allocatedHAddresses _ = _
        rw [hk.records, Function.update_self]
        simp only [if_neg hp]
      · exact hold b hb
  case freed_mem =>
    intro q hq
    obtain ⟨n', hb⟩ := h.freed_mem q hq
    rcases hblocks with rfl | ⟨rfl, -⟩
    · exact ⟨n', hb⟩
    · exact ⟨n', List.mem_cons_of_mem _ hb⟩
  case block_role =>
    have hstep : ∀ b ∈ m.blocks, ∀ f, InBlock u b.1 b.2 f → role' f = none := by
      rintro b hb f ⟨hle, hlt⟩
      have htop := h.block_lt_top hb
      have hpeq := hk.p_eq
      have hnot : f ∉ m.kernel.freeFrameList.take n := by
        intro hmem
        have := hnewva f hmem
        omega
      rw [hrole f hnot]
      rw [ht.va_old f hnot] at hle hlt
      exact h.block_role b hb f ⟨hle, hlt⟩
    rcases hblocks with rfl | ⟨rfl, hnone⟩
    · exact hstep
    · intro b hb f hin
      rcases List.mem_cons.1 hb with rfl | hb
      · refine hnone f ?_
        by_contra hnot
        have hle : p ≤ u.virtualAddresses f := hin.1
        rw [ht.va_old f hnot, hk.p_eq] at hle
        have htop := h.inv.map.le_top
        simp only [kernelHeapStart] at htop
        have := h.inv.map.below_top f (by omega)
        omega
      · exact hstep b hb f hin
  case disjoint =>
    rcases hblocks with rfl | ⟨rfl, -⟩
    · exact h.disjoint
    · refine List.pairwise_cons.2 ⟨?_, h.disjoint⟩
      intro b hb
      have := h.block_lt_top hb
      have := hk.p_eq
      omega

/-- Frames with a role keep their contents when a heap page is added. -/
theorem mem_of_role (h : Accounts c m role T) {u : Kernel} {g p f : Nat}
    (hnew : NewPage c m.kernel u g p) (hf : role f ≠ none) :
    f ≠ g ∧ u.mem f = m.kernel.mem f ∧ u.virtualAddresses f = m.kernel.virtualAddresses f := by
  have hne := hnew.ne_of_not_mem (h.role_not_free hf)
  exact ⟨hne, hnew.mem_eq f (h.inv.map.not_kernelFrame (h.forest.heap f hf)), hnew.va_of_ne hne⟩

theorem role_of_free (h : Accounts c m role T) {g : Nat} (hg : g ∈ m.kernel.freeFrameList) :
    role g = none := by
  by_contra hne
  exact h.role_not_free hne hg

theorem not_mem_T (h : Accounts c m role T) {g : Nat} (hg : g ∈ m.kernel.freeFrameList) :
    g ∉ T := by
  intro hmem
  obtain ⟨d, i, hrole⟩ := (h.forest.mem_T g).1 hmem
  rw [h.role_of_free hg] at hrole
  cases hrole

theorem take_one {s t : Kernel} {g p : Nat} (hnew : NewPage c s t g p) :
    s.freeFrameList.take 1 = [g] := by
  rw [hnew.free_eq]
  rfl

/-- `create_user_directory`. -/
theorem newDirectory (h : Accounts c m role T) {u : Kernel} {g p : Nat}
    (hnew : NewPage c m.kernel u g p) :
    Accounts c { m with kernel := u.zeroFrame g, dirs := p :: m.dirs }
      (Function.update role g (some .dir)) T := by
  have hg : u.virtualAddresses g ≠ 0 := by
    rw [hnew.va_self]
    exact hnew.p_ne
  have hnot := hnew.inv.map.not_kernelFrame hg
  have hnone : ∀ f, role f ≠ none → f ≠ g := fun f hf => (h.mem_of_role hnew hf).1
  have hmem : ∀ f, role f ≠ none → (u.zeroFrame g).mem f = m.kernel.mem f := by
    intro f hf
    obtain ⟨hne, hmem, -⟩ := h.mem_of_role hnew hf
    rw [u.zeroFrame_mem_frame hne, hmem]
  have hT : ∀ t ∈ T, role t ≠ none := by
    intro t ht
    obtain ⟨d, i, hrole⟩ := (h.forest.mem_T t).1 ht
    simp [hrole]
  have hupd : ∀ f d i, Function.update role g (some .dir) f = some (.table d i) →
      role f = some (.table d i) := by
    intro f d i hf
    by_cases hfg : f = g
    · rw [hfg, Function.update_self] at hf
      cases hf
    · rwa [Function.update_of_ne hfg] at hf
  have hforest : Forest c (u.zeroFrame g) (p :: m.dirs) (Function.update role g (some .dir)) T := by
    constructor
    case dir_at =>
      intro q hq
      rcases List.mem_cons.1 hq with rfl | hq
      · exact ⟨g, ⟨hnew.va_self, hnew.p_ne⟩, Function.update_self ..⟩
      · obtain ⟨fd, hd, hrole⟩ := h.forest.dir_at q hq
        obtain ⟨hne, -, hva⟩ := h.mem_of_role hnew (f := fd) (by simp [hrole])
        exact ⟨fd, ⟨hva.trans hd.va_eq, hd.ne_zero⟩, by rwa [Function.update_of_ne hne]⟩
    case dir_mem =>
      intro d hd
      by_cases hdg : d = g
      · rw [hdg]
        exact List.mem_cons.2 (.inl hnew.va_self)
      · rw [Function.update_of_ne hdg] at hd
        have hva := (h.mem_of_role hnew (f := d) (by simp [hd])).2.2
        exact List.mem_cons_of_mem _ (hva.symm ▸ h.forest.dir_mem d hd)
    case heap =>
      intro f hf
      by_cases hfg : f = g
      · rw [hfg]
        exact hg
      · rw [Function.update_of_ne hfg] at hf
        exact (h.mem_of_role hnew hf).2.2.symm ▸ h.forest.heap f hf
    case pde =>
      intro d hd i hi
      by_cases hdg : d = g
      · rw [hdg]
        exact .inl (u.zeroFrame_mem_self g (by omega))
      · rw [Function.update_of_ne hdg] at hd
        rw [hmem d (by simp [hd])]
        rcases h.forest.pde d hd i hi with hzero | ⟨t, hnames, hrole⟩
        · exact .inl hzero
        · exact .inr ⟨t, hnames, by rwa [Function.update_of_ne (hnone t (by simp [hrole]))]⟩
    case table =>
      intro t d i hrole
      obtain ⟨hd, hi, hnames⟩ := h.forest.table t d i (hupd t d i hrole)
      have hdn : role d ≠ none := by simp [hd]
      exact ⟨by rwa [Function.update_of_ne (hnone d hdn)], hi, (hmem d hdn).symm ▸ hnames⟩
    case mem_T =>
      intro t
      rw [h.forest.mem_T]
      constructor
      · rintro ⟨d, i, hrole⟩
        exact ⟨d, i, by rwa [Function.update_of_ne (hnone t (by simp [hrole]))]⟩
      · rintro ⟨d, i, hrole⟩
        exact ⟨d, i, hupd t d i hrole⟩
    case present =>
      intro t ht
      rw [hmem t (hT t ht)]
      exact h.forest.present t ht
    case in_ram =>
      intro t ht
      rw [hmem t (hT t ht)]
      exact h.forest.in_ram t ht
  refine h.ofKmalloced hnew.kmalloced (hnew.inv.zeroFrame hnot) hforest ?_ ?_ (.inl rfl)
  · intro f
    exact userUse_congr fun t ht j _ => congrFun (hmem t (hT t ht)) j
  · intro f hf
    rw [take_one hnew, List.mem_singleton] at hf
    exact Function.update_of_ne hf _ _

/-- `create_page_table`. -/
theorem newTable (h : Accounts c m role T) {t : Kernel} {fd i g p : Nat}
    (hd : role fd = some .dir) (hi : i < 955) (hpde : m.kernel.mem fd i = 0#32)
    (hnew : NewTable c m.kernel t fd i g p) :
    Accounts c { m with kernel := t } (Function.update role g (some (.table fd i)))
      (insert g T) := by
  have hfd := h.forest.heap fd (by simp [hd])
  have hkfd := h.inv.map.not_kernelFrame hfd
  have hnames := hnew.names h.inv hkfd
  have hinv := hnew.inv h.inv hfd
  have hnew' := hnew
  obtain ⟨⟨u, hpage, heq⟩, hne⟩ := hnew'
  have hgT := h.not_mem_T hpage.mem_free
  have hnone : ∀ f, role f ≠ none → f ≠ g := fun f hf => (h.mem_of_role hpage hf).1
  have hva : ∀ f, role f ≠ none → t.virtualAddresses f = m.kernel.virtualAddresses f := by
    intro f hf
    rw [hnew.va_eq, Function.update_of_ne (hnone f hf)]
  have hmem : ∀ f, role f ≠ none → f ≠ fd → t.mem f = m.kernel.mem f := by
    intro f hf hffd
    exact hnew.mem_of_ne (h.inv.map.not_kernelFrame (h.forest.heap f hf)) (hnone f hf) hffd
  have hT : ∀ tb ∈ T, role tb ≠ none := by
    intro tb htb
    obtain ⟨d, k, hrole⟩ := (h.forest.mem_T tb).1 htb
    simp [hrole]
  have hTmem : ∀ tb ∈ T, t.mem tb = m.kernel.mem tb := fun tb htb =>
    hmem tb (hT tb htb) (Ne.symm (h.forest.dir_ne_table hd htb))
  have hdirmem : ∀ d k, role d = some .dir → (d = fd → k ≠ i) →
      t.mem d k = m.kernel.mem d k := by
    intro d k hdr hk
    by_cases hdfd : d = fd
    · rw [hdfd, hnew.mem_dir hkfd, if_neg (hk hdfd)]
    · rw [hmem d (by simp [hdr]) hdfd]
  have hforest : Forest c t m.dirs (Function.update role g (some (.table fd i))) (insert g T) := by
    constructor
    case dir_at =>
      intro q hq
      obtain ⟨d, hdq, hrole⟩ := h.forest.dir_at q hq
      have hdn : role d ≠ none := by simp [hrole]
      exact ⟨d, ⟨(hva d hdn).trans hdq.va_eq, hdq.ne_zero⟩,
        by rwa [Function.update_of_ne (hnone d hdn)]⟩
    case dir_mem =>
      intro d hdr
      by_cases hdg : d = g
      · rw [hdg, Function.update_self] at hdr
        cases hdr
      · rw [Function.update_of_ne hdg] at hdr
        rw [hva d (by simp [hdr])]
        exact h.forest.dir_mem d hdr
    case heap =>
      intro f hf
      by_cases hfg : f = g
      · rw [hfg, hnew.va_eq, Function.update_self]
        exact hnew.p_ne
      · rw [Function.update_of_ne hfg] at hf
        rw [hva f hf]
        exact h.forest.heap f hf
    case pde =>
      intro d hdr k hk
      have hdg : d ≠ g := by
        rintro rfl
        rw [Function.update_self] at hdr
        cases hdr
      rw [Function.update_of_ne hdg] at hdr
      by_cases hcase : d = fd ∧ k = i
      · obtain ⟨rfl, rfl⟩ := hcase
        exact .inr ⟨g, hnames, Function.update_self ..⟩
      · rw [hdirmem d k hdr fun hdfd hki => hcase ⟨hdfd, hki⟩]
        rcases h.forest.pde d hdr k hk with hzero | ⟨tb, hn, hrole⟩
        · exact .inl hzero
        · exact .inr ⟨tb, hn, by rwa [Function.update_of_ne (hnone tb (by simp [hrole]))]⟩
    case table =>
      intro tb d k hrole
      by_cases htg : tb = g
      · rw [htg, Function.update_self] at hrole
        cases hrole
        exact ⟨by rwa [Function.update_of_ne hne], hi, htg ▸ hnames⟩
      · rw [Function.update_of_ne htg] at hrole
        obtain ⟨hdr, hk, hn⟩ := h.forest.table tb d k hrole
        refine ⟨by rwa [Function.update_of_ne (hnone d (by simp [hdr]))], hk, ?_⟩
        rw [hdirmem d k hdr ?_]
        · exact hn
        · -- the new table took the place of an empty entry
          rintro rfl rfl
          exact hn.ne_zero hpde
    case mem_T =>
      intro tb
      rw [Finset.mem_insert]
      by_cases htg : tb = g
      · simp only [htg, true_or, true_iff]
        exact ⟨fd, i, Function.update_self ..⟩
      · simp only [htg, false_or, Function.update_of_ne htg]
        exact h.forest.mem_T tb
    case present =>
      intro tb htb j hj hne0
      rcases Finset.mem_insert.1 htb with rfl | htb
      · exact absurd (hnew.mem_table hj) hne0
      · rw [hTmem tb htb] at hne0 ⊢
        exact h.forest.present tb htb j hj hne0
    case in_ram =>
      intro tb htb j hj hne0
      rcases Finset.mem_insert.1 htb with rfl | htb
      · exact absurd (hnew.mem_table hj) hne0
      · rw [hTmem tb htb] at hne0 ⊢
        exact h.forest.in_ram tb htb j hj hne0
  have huse : ∀ f, userUse t (insert g T) f = userUse m.kernel T f := by
    intro f
    rw [userUse_insert hgT fun j hj => hnew.mem_table hj]
    exact userUse_congr fun tb htb j _ => congrFun (hTmem tb htb) j
  have hrest : t = { u with mem := t.mem } := by
    rw [heq]
    rfl
  rw [hrest] at hinv hforest huse ⊢
  refine h.ofKmalloced hpage.kmalloced hinv hforest huse ?_ (.inl rfl)
  intro f hf
  rw [take_one hpage, List.mem_singleton] at hf
  exact Function.update_of_ne hf _ _

end Accounts

end Heap

/-! ## Counting all entries -/

section Naming

variable {c : Boot} {s : Kernel}

theorem Boot.mem_tableFrames {t : Nat} :
    t ∈ c.tableFrames ↔ ∃ i ∈ kernelTables, c.tableFrame i = t := by
  simp [tableFrames]

/-- Where the entry for a kernel address is. -/
def Boot.place (c : Boot) (va : Nat) : Nat × Nat :=
  (c.tableFrame (pdx va), ptx va)

theorem Boot.place_inj {va vb : Nat} (ha : pdx va ∈ kernelTables) (hb : pdx vb ∈ kernelTables)
    (hal : va % 4096 = 0) (hbl : vb % 4096 = 0) (hla : va < 4294967296) (hlb : vb < 4294967296)
    (h : c.place va = c.place vb) : va = vb := by
  obtain ⟨hframe, hptx⟩ := Prod.mk.inj h
  have hpdx := c.tableFrame_inj _ ha _ hb hframe
  rw [← entryAddress_eq hal hla, ← entryAddress_eq hbl hlb, hpdx, hptx]

/-- The kernel entries that name a frame: its heap page and its place in the remapped memory. -/
def kernelPlaces (c : Boot) (s : Kernel) (f : Nat) : Finset (Nat × Nat) :=
  (if s.virtualAddresses f ≠ 0 then {c.place (s.virtualAddresses f)} else ∅) ∪
    (if f < c.kernelEnd then {c.place (kernelBase + f * 4096)} else ∅)

theorem static_pdx {f : Nat} (hf : f < c.kernelEnd) :
    pdx (kernelBase + f * 4096) ∈ kernelTables ∧ kernelBase + f * 4096 < 0xF6000000 ∧
      (kernelBase + f * 4096) % 4096 = 0 := by
  have hfit := c.kernelEnd_le_heap
  simp only [kernelBase]
  exact ⟨pdx_mem_kernelTables (by omega) (by omega), by omega, by omega⟩

theorem card_kernelPlaces (h : KernelMap c s) (f : Nat) :
    (kernelPlaces c s f).card = heapUse s f + (if f < c.kernelEnd then 1 else 0) := by
  rw [kernelPlaces, Finset.card_union_of_disjoint, heapUse]
  · split <;> split <;> simp
  · rw [Finset.disjoint_left]
    intro e hheap hstatic
    split at hheap
    · rename_i hva
      split at hstatic
      · rename_i hf
        obtain ⟨hmem, hlt, hal⟩ := static_pdx hf
        have hpage := h.heapPage f hva
        have hrange := isHeapPage_iff.1 hpage
        rw [Finset.mem_singleton] at hheap hstatic
        have := Boot.place_inj (pdx_mem_of_isHeapPage hpage) hmem hrange.2.2 hal (by omega)
          (by omega) (hheap.symm.trans hstatic)
        omega
      · simp at hstatic
    · simp at hheap

/-- The kernel's entries that name `f`. -/
def kernelUse (c : Boot) (s : Kernel) (f : Nat) : Nat :=
  hits (entriesOf c.tableFrames) fun e => Points (s.mem e.1 e.2) f

theorem place_mem {va : Nat} (hva : pdx va ∈ kernelTables) :
    c.place va ∈ entriesOf c.tableFrames :=
  mem_entriesOf.2 ⟨Boot.mem_tableFrames.2 ⟨_, hva, rfl⟩, ptx_lt va⟩

theorem kernelPlaces_subset (h : KernelMap c s) (f : Nat) :
    kernelPlaces c s f ⊆
      (entriesOf c.tableFrames).filter fun e => Points (s.mem e.1 e.2) f := by
  intro e he
  rw [kernelPlaces, Finset.mem_union] at he
  rw [Finset.mem_filter]
  rcases he with he | he
  · split at he
    · rename_i hva
      rw [Finset.mem_singleton] at he
      subst he
      have hnames := h.names f hva
      exact ⟨place_mem (pdx_mem_of_isHeapPage (h.heapPage f hva)), hnames.ne_zero, hnames.frame_eq⟩
    · simp at he
  · split at he
    · rename_i hf
      rw [Finset.mem_singleton] at he
      subst he
      have hmem := (static_pdx hf).1
      have hback := h.backed_static hf
      rw [Kernel.Backed, h.kernelEntry_eq hmem] at hback
      exact ⟨place_mem hmem, hback.ne_zero, hback.frame_eq⟩
    · simp at he

theorem heapUse_add_le_kernelUse (h : KernelMap c s) (f : Nat) :
    heapUse s f + (if f < c.kernelEnd then 1 else 0) ≤ kernelUse c s f := by
  rw [← card_kernelPlaces h f]
  exact Finset.card_le_card (kernelPlaces_subset h f)

/-- Outside the heap, a boot entry that names a frame of the free list is its place in the
remapped memory. -/
theorem tableEntry_points {va f : Nat} (hal : va % 4096 = 0) (hres : ¬ c.Reserved f)
    (hp : Points (c.tableEntry va) f) : f < c.kernelEnd ∧ va = kernelBase + f * 4096 := by
  have hfit := c.kernelEnd_le_heap
  have hstack := c.le_stackFrame
  have hstack' := c.stackFrame_le
  have henvs := c.le_envsFrame
  have henvs' := c.envsFrame_le
  have hcases := hp
  unfold Boot.tableEntry at hcases
  split at hcases
  · rename_i hrange
    simp only [kernelBase] at hrange hcases ⊢
    have hlt : (va - 0xF0000000) / 4096 < 1048576 := by omega
    have hframe := hcases.2
    rw [frame_constructEntry hlt (by decide)] at hframe
    omega
  · split at hcases
    · rename_i hrange
      have hlt : c.stackFrame + (va - 0xEFBF8000) / 4096 < 1048576 := by omega
      have hframe := hcases.2
      rw [frame_constructEntry hlt (by decide)] at hframe
      exact absurd (Boot.reserved_of_le (by omega) (by omega)) hres
    · split at hcases
      · rename_i hrange
        simp only [userTop] at hrange hcases
        have hlt : c.envsFrame + (va - 0xEEC00000) / 4096 < 1048576 := by omega
        have hframe := hcases.2
        rw [frame_constructEntry hlt (by decide)] at hframe
        exact absurd (Boot.reserved_of_le (by omega) (by omega)) hres
      · exact absurd rfl hcases.1

theorem kernelUse_eq (h : KernelMap c s) {f : Nat} (hres : ¬ c.Reserved f) :
    kernelUse c s f = heapUse s f + (if f < c.kernelEnd then 1 else 0) := by
  rw [← card_kernelPlaces h f, kernelUse, hits]
  congr 1
  refine Finset.Subset.antisymm ?_ (kernelPlaces_subset h f)
  rintro ⟨t, j⟩ he
  rw [Finset.mem_filter, mem_entriesOf, Boot.mem_tableFrames] at he
  obtain ⟨⟨⟨i, hi, rfl⟩, hj⟩, hp⟩ := he
  simp only at hj hp
  have hi1024 : i < 1024 := by
    have := mem_kernelTables.1 hi
    omega
  have hpdx := pdx_entryAddress hi1024 hj
  have hptx : ptx (entryAddress i j) = j := ptx_entryAddress hj
  have hplace : c.place (entryAddress i j) = (c.tableFrame i, j) := by
    rw [Boot.place, hpdx, hptx]
  rw [kernelPlaces, Finset.mem_union, ← hplace]
  by_cases hheap : isHeapPage (entryAddress i j) = true
  · left
    have hpte : c.pte s (entryAddress i j) = s.mem (c.tableFrame i) j := by
      rw [Boot.pte, hpdx, hptx]
    have hva := h.mapped _ hheap (by rw [hpte]; exact hp.1)
    rw [hpte, hp.2] at hva
    have hne : s.virtualAddresses f ≠ 0 := by
      rw [isHeapPage_iff] at hheap
      omega
    rw [if_pos hne, hva]
    exact Finset.mem_singleton_self _
  · right
    rw [h.table_entry i hi j hj (by simpa using hheap)] at hp
    obtain ⟨hlt, hva⟩ := tableEntry_points (by simp only [entryAddress]; omega) hres hp
    rw [if_pos hlt, hva]
    exact Finset.mem_singleton_self _

variable {m : Machine} {role : Nat → Option TableRole} {T : Finset Nat}

/-- The tables of the directories are the tables of the forest. -/
theorem Forest.pageTables_eq (hmap : KernelMap c m.kernel)
    (h : Forest c m.kernel m.dirs role T) : m.pageTables c = c.tableFrames ∪ T := by
  rw [Machine.pageTables]
  congr 1
  ext t
  rw [List.mem_toFinset, List.mem_flatMap, h.mem_T]
  have hframe : ∀ p fd, DirAt m.kernel p fd → (m.kernel.kernelEntry p).frame = fd := by
    intro p fd hd
    have hback := hmap.backed_heap hd.ne
    rw [hd.va_eq] at hback
    exact hback.frame_eq
  constructor
  · rintro ⟨p, hp, ht⟩
    obtain ⟨fd, hd, hrole⟩ := h.dir_at p hp
    rw [dirTables, List.mem_filterMap, hframe p fd hd] at ht
    obtain ⟨i, hi, hsome⟩ := ht
    rw [List.mem_range] at hi
    simp only at hsome
    split at hsome
    · cases hsome
    · rename_i hne
      rcases h.pde fd hrole i hi with hzero | ⟨tb, hnames, htb⟩
      · exact absurd hzero hne
      · rw [Option.some.injEq, hnames.frame_eq] at hsome
        exact ⟨fd, i, hsome ▸ htb⟩
  · rintro ⟨d, i, hrole⟩
    obtain ⟨hd, hi, hnames⟩ := h.table t d i hrole
    refine ⟨_, h.dir_mem d hd, ?_⟩
    have hat : DirAt m.kernel (m.kernel.virtualAddresses d) d := ⟨rfl, h.heap d (by simp [hd])⟩
    rw [dirTables, List.mem_filterMap, hframe _ d hat]
    refine ⟨i, List.mem_range.2 hi, ?_⟩
    simp only [hnames.ne_zero, if_false, hnames.frame_eq]

theorem Forest.disjoint_tables (hmap : KernelMap c m.kernel)
    (h : Forest c m.kernel m.dirs role T) : Disjoint c.tableFrames T := by
  rw [Finset.disjoint_left]
  intro t ht htT
  obtain ⟨i, hi, rfl⟩ := Boot.mem_tableFrames.1 ht
  exact hmap.not_kernelFrame (h.table_heap htT) (Boot.kernelFrame_table hi)

/-- All entries: those of the kernel and those of the user tables. -/
theorem Forest.card_entriesNaming (hmap : KernelMap c m.kernel)
    (h : Forest c m.kernel m.dirs role T) (f : Nat) :
    (m.entriesNaming c f).card = kernelUse c m.kernel f + userUse m.kernel T f := by
  rw [Machine.entriesNaming, h.pageTables_eq hmap, entriesOf_union]
  exact hits_union (disjoint_entriesOf (h.disjoint_tables hmap))

end Naming

end FosMemory
