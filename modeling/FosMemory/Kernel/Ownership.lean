import FosMemory.Kernel.Environment
import FosMemory.Kernel.UserMap

/-!
# Ownership — which frame serves which environment

A `Ghost` records what the code only implies: the environment and the purpose behind every frame
taken from `free_frame_list`, which pages of a working set array are also mapped in the user's
window, and the disk frame of every page in the page file.  `Owned` ties the record to the frame
tables: a frame is on the list exactly when nobody has it, and the reference count follows from
the purpose.  The lemmas say how the frame operations move the record.
-/

namespace FosMemory

open Lib

/-! ## The record -/

/-- What an environment uses a frame for. -/
inductive Role where
  /-- its page directory -/
  | dir
  /-- its page table number `i` -/
  | table (i : Nat)
  /-- page `k` of its working set array -/
  | ws (k : Nat)
  /-- its disk page directory -/
  | ddir
  /-- its disk page table number `i` -/
  | dtable (i : Nat)
  /-- the user page at address `v` -/
  | page (v : Nat)
  /-- taken from the list, not mapped yet -/
  | held
  deriving DecidableEq

structure Owner where
  env : Nat
  role : Role
  deriving DecidableEq

/-- Roles filled by a kernel heap block of one page. -/
def Role.isTable : Role → Bool
  | .dir | .table _ | .ddir | .dtable _ => true
  | .ws _ | .page _ | .held => false

structure Ghost where
  own : Nat → Option Owner
  /-- frames off the list that no environment has -/
  lost : Nat → Prop
  /-- page `k` of the working set array of `e` is mapped in the window -/
  win : Nat → Nat → Bool
  /-- the disk frame of a page -/
  slots : Nat → Nat → Option Nat

def Ghost.setOwn (G : Ghost) (f : Nat) (o : Option Owner) : Ghost :=
  { G with own := Function.update G.own f o }

def Ghost.setWin (G : Ghost) (e k : Nat) (b : Bool) : Ghost :=
  { G with win := Function.update G.win e (Function.update (G.win e) k b) }

def Ghost.setSlot (G : Ghost) (e v : Nat) (d : Option Nat) : Ghost :=
  { G with slots := Function.update G.slots e (Function.update (G.slots e) v d) }

@[simp] theorem Ghost.setOwn_self (G : Ghost) (f : Nat) (o : Option Owner) :
    (G.setOwn f o).own f = o := by
  simp [Ghost.setOwn]

theorem Ghost.setOwn_of_ne (G : Ghost) {f g : Nat} (o : Option Owner) (h : g ≠ f) :
    (G.setOwn f o).own g = G.own g := by
  simp [Ghost.setOwn, h]

/-- Frames that get a new role keep no old one. -/
theorem Ghost.setOwn_eq_some {G : Ghost} {f g : Nat} {o : Option Owner} {p : Owner} :
    (G.setOwn f o).own g = some p ↔ (g = f ∧ o = some p) ∨ (g ≠ f ∧ G.own g = some p) := by
  by_cases h : g = f
  · subst h
    simp
  · simp [G.setOwn_of_ne o h, h]

/-- A live block of the kernel heap. -/
def Block (s : Kernel) (p n : Nat) : Prop :=
  ∃ i < s.idx, s.allocatedHAddresses i = { size := n, virtualAddress := p, empty := 0 }

/-- What the frame tables say about a frame in a given role. -/
def FrameUse (s : Kernel) (win : Nat → Nat → Bool) (f : Nat) : Owner → Prop
  | ⟨_, .held⟩ => s.virtualAddresses f = 0 ∧ s.references f = 0
  | ⟨_, .page _⟩ => s.virtualAddresses f = 0 ∧ s.references f = 1
  | ⟨e, .ws k⟩ => s.virtualAddresses f ≠ 0 ∧ s.references f = if win e k then 2 else 1
  | ⟨_, .dir⟩ | ⟨_, .table _⟩ | ⟨_, .ddir⟩ | ⟨_, .dtable _⟩ =>
    s.virtualAddresses f ≠ 0 ∧ s.references f = 1 ∧ Block s (s.virtualAddresses f) 1

/-- The record agrees with the frame tables. -/
structure Owned (c : Boot) (s : Kernel) (G : Ghost) : Prop where
  inv : KernelInv c s
  free_iff : ∀ f, f ∈ s.freeFrameList ↔
    f < c.numberOfFrames ∧ ¬ c.Reserved f ∧ G.own f = none ∧ ¬ G.lost f
  in_ram : ∀ f, G.own f ≠ none → f < c.numberOfFrames ∧ ¬ c.Reserved f ∧ ¬ G.lost f
  use : ∀ f o, G.own f = some o → FrameUse s G.win f o

section Use

variable {c : Boot} {s t : Kernel} {G : Ghost} {f e : Nat}

theorem frameUse_table {win : Nat → Nat → Bool} {o : Owner} (ho : o.role.isTable = true) :
    FrameUse s win f o ↔
      s.virtualAddresses f ≠ 0 ∧ s.references f = 1 ∧ Block s (s.virtualAddresses f) 1 := by
  obtain ⟨e, r⟩ := o
  cases r <;> first | exact Iff.rfl | cases ho

theorem Owned.held (h : Owned c s G) (hf : G.own f = some ⟨e, .held⟩) :
    s.virtualAddresses f = 0 ∧ s.references f = 0 :=
  h.use f _ hf

theorem Owned.page (h : Owned c s G) {v : Nat} (hf : G.own f = some ⟨e, .page v⟩) :
    s.virtualAddresses f = 0 ∧ s.references f = 1 :=
  h.use f _ hf

theorem Owned.ws (h : Owned c s G) {k : Nat} (hf : G.own f = some ⟨e, .ws k⟩) :
    s.virtualAddresses f ≠ 0 ∧ s.references f = if G.win e k then 2 else 1 :=
  h.use f _ hf

theorem Owned.heap (h : Owned c s G) {o : Owner} (hf : G.own f = some o)
    (ho : o.role.isTable = true) :
    s.virtualAddresses f ≠ 0 ∧ s.references f = 1 ∧ Block s (s.virtualAddresses f) 1 :=
  (frameUse_table ho).1 (h.use f o hf)

/-- The use of a frame depends on its own rows of the frame tables. -/
theorem FrameUse.congr {win : Nat → Nat → Bool} {o : Owner} (h : FrameUse s win f o)
    (href : t.references f = s.references f) (hva : t.virtualAddresses f = s.virtualAddresses f)
    (hblock : Block s (s.virtualAddresses f) 1 → Block t (s.virtualAddresses f) 1) :
    FrameUse t win f o := by
  obtain ⟨e, r⟩ := o
  cases r with
  | held | page | ws => simpa only [FrameUse, href, hva] using h
  | dir | table | ddir | dtable =>
    simp only [FrameUse, href, hva] at h ⊢
    exact ⟨h.1, h.2.1, hblock h.2.2⟩

end Use

/-! ## Resources -/

/-- `k` frames and `k` heap pages are left. -/
def Enough (s : Kernel) (k : Nat) : Prop :=
  k ≤ s.freeFrameList.length ∧ s.firstFreeVAInKHeap + 4096 * k < kernelHeapMax

/-- At most `k` frames and `k` heap pages have been used. -/
def Spent (s t : Kernel) (k : Nat) : Prop :=
  s.freeFrameList.length ≤ t.freeFrameList.length + k ∧
    t.firstFreeVAInKHeap ≤ s.firstFreeVAInKHeap + 4096 * k

theorem Enough.mono {s : Kernel} {k m : Nat} (h : Enough s k) (hm : m ≤ k) : Enough s m :=
  ⟨Nat.le_trans hm h.1, by have := h.2; omega⟩

theorem Enough.after {s t : Kernel} {k m : Nat} (h : Enough s (k + m)) (hst : Spent s t k) :
    Enough t m := by
  obtain ⟨h₁, h₂⟩ := h
  obtain ⟨h₃, h₄⟩ := hst
  exact ⟨by omega, by omega⟩

theorem NoPage.not_enough {s : Kernel} (h : NoPage s) : ¬ Enough s 1 := by
  rintro ⟨hlen, htop⟩
  rcases h with hx | hx
  · rw [hx] at hlen
    exact absurd hlen (by decide)
  · omega

theorem Spent.refl (s : Kernel) : Spent s s 0 :=
  ⟨Nat.le_refl _, Nat.le_refl _⟩

theorem Spent.trans {s t u : Kernel} {k m : Nat} (h : Spent s t k) (h' : Spent t u m) :
    Spent s u (k + m) := by
  obtain ⟨h₁, h₂⟩ := h
  obtain ⟨h₃, h₄⟩ := h'
  exact ⟨by omega, by omega⟩

theorem Spent.mono {s t : Kernel} {k m : Nat} (h : Spent s t k) (hm : k ≤ m) : Spent s t m := by
  obtain ⟨h₁, h₂⟩ := h
  exact ⟨by omega, by omega⟩

/-! ## Changes outside the frame tables -/

/-- Frames, heap records and the reverse map are the same. -/
structure SameFrames (s t : Kernel) : Prop where
  numberOfFrames : t.numberOfFrames = s.numberOfFrames
  physPageDirectory : t.physPageDirectory = s.physPageDirectory
  references : t.references = s.references
  freeFrameList : t.freeFrameList = s.freeFrameList
  virtualAddresses : t.virtualAddresses = s.virtualAddresses
  allocatedHAddresses : t.allocatedHAddresses = s.allocatedHAddresses
  idx : t.idx = s.idx
  firstFreeVAInKHeap : t.firstFreeVAInKHeap = s.firstFreeVAInKHeap

theorem SameFrames.refl (s : Kernel) : SameFrames s s :=
  ⟨rfl, rfl, rfl, rfl, rfl, rfl, rfl, rfl⟩

theorem SameFrames.trans {s t u : Kernel} (h : SameFrames s t) (h' : SameFrames t u) :
    SameFrames s u :=
  ⟨h'.1.trans h.1, h'.2.trans h.2, h'.3.trans h.3, h'.4.trans h.4, h'.5.trans h.5,
    h'.6.trans h.6, h'.7.trans h.7, h'.8.trans h.8⟩

theorem SameFrames.setWord (s : Kernel) (f j : Nat) (w : Word) : SameFrames s (s.setWord f j w) :=
  ⟨rfl, rfl, rfl, rfl, rfl, rfl, rfl, rfl⟩

theorem SameFrames.setEnv (s : Kernel) (e : Nat) (env : Env) : SameFrames s (s.setEnv e env) :=
  ⟨rfl, rfl, rfl, rfl, rfl, rfl, rfl, rfl⟩

theorem SameFrames.spent {s t : Kernel} (h : SameFrames s t) : Spent s t 0 := by
  rw [Spent, h.freeFrameList, h.firstFreeVAInKHeap]
  exact Spent.refl s

theorem SameFrames.block {s t : Kernel} (h : SameFrames s t) {p n : Nat} (hb : Block s p n) :
    Block t p n := by
  rw [Block, h.idx, h.allocatedHAddresses]
  exact hb

section Congr

variable {c : Boot} {s t : Kernel} {G : Ghost}

theorem KernelInv.congr (h : KernelInv c s) (hst : SameFrames s t)
    (hmem : ∀ f, c.KernelFrame f → t.mem f = s.mem f) : KernelInv c t := by
  refine ⟨?_, ?_, ?_⟩
  · exact h.map.congr hmem hst.numberOfFrames hst.physPageDirectory hst.virtualAddresses
      hst.allocatedHAddresses hst.idx hst.firstFreeVAInKHeap
  · constructor
    case nodup => rw [hst.freeFrameList]; exact h.list.nodup
    case lt => rw [hst.freeFrameList]; exact h.list.lt
    case not_reserved => rw [hst.freeFrameList]; exact h.list.not_reserved
    case not_heap => rw [hst.freeFrameList, hst.virtualAddresses]; exact h.list.not_heap
    case references_eq_zero =>
      rw [hst.freeFrameList, hst.references]
      exact h.list.references_eq_zero
    case references_lt => rw [hst.references]; exact h.list.references_lt
    case heap_referenced =>
      rw [hst.virtualAddresses, hst.references]
      exact h.list.heap_referenced
  · constructor
    · rw [hst.idx, hst.allocatedHAddresses, hst.virtualAddresses]
      exact h.live.live
    · rw [hst.idx, hst.allocatedHAddresses, hst.virtualAddresses]
      exact h.live.dead

/-- Frames of environments are not the kernel's own. -/
theorem Owned.not_kernelFrame (h : Owned c s G) {f : Nat} (hf : G.own f ≠ none) :
    ¬ c.KernelFrame f :=
  fun hk => (h.in_ram f hf).2.1 (Boot.kernelFrame_reserved hk)

/-- Frames 0 to 2 never belong to an environment, and are never free. -/
theorem Owned.low_ne (h : Owned c s G) {f g : Nat} (hf : f < 3) (hg : G.own g ≠ none) : f ≠ g := by
  rintro rfl
  exact (h.in_ram f hg).2.1 (.inl hf)

theorem Owned.own_low (h : Owned c s G) {f : Nat} (hf : f < 3) (o : Owner) : G.own f ≠ some o := by
  intro hx
  exact (h.in_ram f (by simp [hx])).2.1 (.inl hf)

theorem Owned.low_ne_free (h : Owned c s G) {f g : Nat} (hf : f < 3) (hg : g ∈ s.freeFrameList) :
    f ≠ g := by
  rintro rfl
  exact ((h.free_iff f).1 hg).2.1 (.inl hf)

theorem Owned.not_free (h : Owned c s G) {f : Nat} (hf : G.own f ≠ none) :
    f ∉ s.freeFrameList :=
  fun hmem => hf ((h.free_iff f).1 hmem).2.2.1

theorem Owned.own_free (h : Owned c s G) {f : Nat} (hf : f ∈ s.freeFrameList) : G.own f = none :=
  ((h.free_iff f).1 hf).2.2.1

theorem Owned.lt (h : Owned c s G) {f : Nat} (hf : G.own f ≠ none) : f < 1048576 :=
  Nat.lt_of_lt_of_le (h.in_ram f hf).1 c.numberOfFrames_le

/-- The record depends on the frame tables and on the window. -/
theorem Owned.congr {H : Ghost} (h : Owned c s G) (hst : SameFrames s t)
    (hmem : ∀ f, c.KernelFrame f → t.mem f = s.mem f) (hown : H.own = G.own)
    (hlost : H.lost = G.lost) (hwin : H.win = G.win) : Owned c t H := by
  constructor
  case inv => exact h.inv.congr hst hmem
  case free_iff =>
    intro f
    rw [hst.freeFrameList, hown, hlost]
    exact h.free_iff f
  case in_ram => rw [hown, hlost]; exact h.in_ram
  case use =>
    intro f o hf
    rw [hown] at hf
    rw [hwin]
    exact (h.use f o hf).congr (by rw [hst.references]) (by rw [hst.virtualAddresses]) hst.block

/-- Writing a word of a frame that is not the kernel's. -/
theorem Owned.setWord (h : Owned c s G) {f : Nat} (hf : G.own f ≠ none) (j : Nat) (w : Word) :
    Owned c (s.setWord f j w) G := by
  refine h.congr (SameFrames.setWord s f j w) (fun g hg => ?_) rfl rfl rfl
  exact Kernel.setWord_mem_frame (by rintro rfl; exact h.not_kernelFrame hf hg)

theorem Owned.setEnv (h : Owned c s G) (e : Nat) (env : Env) : Owned c (s.setEnv e env) G :=
  h.congr (SameFrames.setEnv s e env) (fun _ _ => rfl) rfl rfl rfl

end Congr

/-! ## Moving one frame -/

section Move

variable {c : Boot} {s t : Kernel} {G : Ghost} {f e : Nat}

/-- One frame changes its role; the others keep theirs. -/
theorem Owned.move (h : Owned c s G) (o : Option Owner) (hinv : KernelInv c t)
    (hram : f < c.numberOfFrames ∧ ¬ c.Reserved f ∧ ¬ G.lost f)
    (hfree : ∀ g ≠ f, g ∈ t.freeFrameList ↔ g ∈ s.freeFrameList)
    (hself : f ∈ t.freeFrameList ↔ o = none)
    (huse : ∀ p, o = some p → FrameUse t G.win f p)
    (hrest : ∀ g ≠ f, G.own g ≠ none → t.references g = s.references g ∧
      t.virtualAddresses g = s.virtualAddresses g ∧
        (Block s (s.virtualAddresses g) 1 → Block t (s.virtualAddresses g) 1)) :
    Owned c t (G.setOwn f o) := by
  constructor
  case inv => exact hinv
  case free_iff =>
    intro g
    by_cases hg : g = f
    · subst hg
      rw [hself, G.setOwn_self]
      exact ⟨fun ho => ⟨hram.1, hram.2.1, ho, hram.2.2⟩, fun hx => hx.2.2.1⟩
    · rw [hfree g hg, G.setOwn_of_ne o hg]
      exact h.free_iff g
  case in_ram =>
    intro g hg
    by_cases hgf : g = f
    · subst hgf
      exact hram
    · rw [G.setOwn_of_ne o hgf] at hg
      exact h.in_ram g hg
  case use =>
    intro g p hg
    rcases Ghost.setOwn_eq_some.1 hg with ⟨rfl, ho⟩ | ⟨hne, hold⟩
    · exact huse p ho
    · obtain ⟨href, hva, hblock⟩ := hrest g hne (by simp [hold])
      exact (h.use g p hold).congr href hva hblock

/-- `allocate_frame`. -/
theorem Owned.hold (h : Owned c s G) {rest : List Nat} (hfree : s.freeFrameList = f :: rest)
    (e : Nat) : Owned c (takeFrame s f rest) (G.setOwn f (some ⟨e, .held⟩)) := by
  have hmem : f ∈ s.freeFrameList := by
    rw [hfree]
    exact List.mem_cons_self
  have hiff := (h.free_iff f).1 hmem
  have hnodup := h.inv.list.nodup
  rw [hfree, List.nodup_cons] at hnodup
  have href := takeFrame_references h.inv hfree
  refine h.move _ (h.inv.takeFrame hfree) ⟨hiff.1, hiff.2.1, hiff.2.2.2⟩ ?_ ?_ ?_ ?_
  · intro g hg
    rw [hfree, List.mem_cons]
    exact ⟨.inr, fun hx => hx.resolve_left hg⟩
  · exact ⟨fun hx => absurd hx hnodup.1, fun hx => by cases hx⟩
  · rintro p hp
    cases hp
    refine ⟨h.inv.list.not_heap f hmem, ?_⟩
    rw [href]
    exact h.inv.list.references_eq_zero f hmem
  · intro g _ _
    rw [href]
    exact ⟨rfl, rfl, fun hb => hb⟩

theorem takeFrame_spent {rest : List Nat} (hfree : s.freeFrameList = f :: rest) :
    Spent s (takeFrame s f rest) 1 := by
  refine ⟨?_, Nat.le_add_right _ _⟩
  rw [hfree]
  exact Nat.le_refl _

/-- A held frame gets its first mapping. -/
theorem Owned.fill (h : Owned c s G) (hf : G.own f = some ⟨e, .held⟩) (v : Nat) :
    Owned c (incrementReferences s f) (G.setOwn f (some ⟨e, .page v⟩)) := by
  have hne : G.own f ≠ none := by simp [hf]
  obtain ⟨hva, href⟩ := h.held hf
  have hinc := incrementReferences_references (s := s) (f := f) (by omega)
  refine h.move _ (h.inv.increment (h.not_free hne) (by omega)) (h.in_ram f hne) (fun _ _ => Iff.rfl)
    ?_ ?_ ?_
  · exact ⟨fun hx => absurd hx (h.not_free hne), fun hx => by cases hx⟩
  · rintro p hp
    cases hp
    refine ⟨hva, ?_⟩
    rw [hinc, if_pos rfl, href]
  · intro g hg _
    refine ⟨?_, rfl, fun hb => hb⟩
    rw [hinc, if_neg hg]

theorem decrementReferences_block {p n : Nat} (hb : Block s p n) :
    Block (decrementReferences s f) p n := by
  obtain ⟨-, -, hrec, hidx, -⟩ := decrementReferences_kernel (s := s) (f := f)
  rw [Block, hidx, hrec]
  exact hb

theorem decrementReferences_spent (hpos : 1 ≤ s.references f) :
    Spent s (decrementReferences s f) 0 := by
  obtain ⟨-, -, -, -, htop⟩ := decrementReferences_kernel (s := s) (f := f)
  refine ⟨?_, Nat.le_of_eq htop⟩
  rw [decrementReferences_freeFrameList hpos]
  split
  · exact Nat.le_succ _
  · exact Nat.le_refl _

/-- The last mapping of a user page goes. -/
theorem Owned.drop (h : Owned c s G) {v : Nat} (hf : G.own f = some ⟨e, .page v⟩) :
    Owned c (decrementReferences s f) (G.setOwn f none) := by
  have hne : G.own f ≠ none := by simp [hf]
  obtain ⟨hlt, hres, hlost⟩ := h.in_ram f hne
  obtain ⟨hva, href⟩ := h.page hf
  have hinv : KernelInv c (decrementReferences s f) :=
    h.inv.decrement hlt (by omega) (.inl hres) (fun hx => absurd hva hx)
  have hfree : (decrementReferences s f).freeFrameList = f :: s.freeFrameList := by
    rw [decrementReferences_freeFrameList (by omega), if_pos href]
  refine h.move _ hinv ⟨hlt, hres, hlost⟩ ?_ ?_ ?_ ?_
  · intro g hg
    rw [hfree, List.mem_cons]
    exact ⟨fun hx => hx.resolve_left hg, .inr⟩
  · rw [hfree]
    exact ⟨fun _ => rfl, fun _ => List.mem_cons_self⟩
  · rintro p hp
    cases hp
  · intro g hg _
    rw [decrementReferences_references (by omega), decrementReferences_virtualAddresses,
      Function.update_of_ne hg]
    exact ⟨rfl, rfl, decrementReferences_block⟩

/-- The window of one page says nothing about other frames. -/
theorem frameUse_setWin {g k : Nat} {b : Bool} {o : Owner} (hne : o ≠ ⟨e, .ws k⟩) :
    FrameUse s (G.setWin e k b).win g o ↔ FrameUse s G.win g o := by
  obtain ⟨e', r⟩ := o
  cases r with
  | ws k' =>
    have hsame : (G.setWin e k b).win e' k' = G.win e' k' := by
      by_cases hee : e' = e
      · subst hee
        have hk : k' ≠ k := by
          rintro rfl
          exact hne rfl
        simp [Ghost.setWin, hk]
      · simp [Ghost.setWin, hee]
    simp only [FrameUse, hsame]
  | _ => exact Iff.rfl

theorem Ghost.setWin_self (G : Ghost) (e k : Nat) (b : Bool) : (G.setWin e k b).win e k = b := by
  simp [Ghost.setWin]

/-- A page of the working set array enters the window. -/
theorem Owned.openWindow (h : Owned c s G) {k : Nat} (hf : G.own f = some ⟨e, .ws k⟩)
    (hwin : G.win e k = false) (huniq : ∀ g, G.own g = some ⟨e, .ws k⟩ → g = f) :
    Owned c (incrementReferences s f) (G.setWin e k true) := by
  have hne : G.own f ≠ none := by simp [hf]
  obtain ⟨hva, href⟩ := h.ws hf
  rw [hwin, if_neg (by simp)] at href
  have hinc := incrementReferences_references (s := s) (f := f) (by omega)
  refine ⟨h.inv.increment (h.not_free hne) (by omega), h.free_iff, h.in_ram, ?_⟩
  intro g o (hg : G.own g = some o)
  by_cases hgf : g = f
  · subst hgf
    rw [hg] at hf
    cases hf
    refine ⟨hva, ?_⟩
    rw [hinc, if_pos rfl, href, G.setWin_self, if_pos rfl]
  · have huse : FrameUse s (G.setWin e k true).win g o := by
      refine (frameUse_setWin ?_).2 (h.use g o hg)
      rintro rfl
      exact hgf (huniq g hg)
    refine huse.congr ?_ rfl (fun hb => hb)
    rw [hinc, if_neg hgf]

/-- A page of the working set array leaves the window. -/
theorem Owned.closeWindow (h : Owned c s G) {k : Nat} (hf : G.own f = some ⟨e, .ws k⟩)
    (hwin : G.win e k = true) (huniq : ∀ g, G.own g = some ⟨e, .ws k⟩ → g = f) :
    Owned c (decrementReferences s f) (G.setWin e k false) := by
  have hne : G.own f ≠ none := by simp [hf]
  obtain ⟨hlt, hres, -⟩ := h.in_ram f hne
  obtain ⟨hva, href⟩ := h.ws hf
  rw [hwin, if_pos rfl] at href
  have hinv : KernelInv c (decrementReferences s f) :=
    h.inv.decrement hlt (by omega) (.inl hres) (fun _ => by omega)
  have hfree : (decrementReferences s f).freeFrameList = s.freeFrameList := by
    rw [decrementReferences_freeFrameList (by omega), if_neg (by omega)]
  have hdec := decrementReferences_references (s := s) (f := f) (by omega)
  refine ⟨hinv, ?_, h.in_ram, ?_⟩
  · intro g
    rw [hfree]
    exact h.free_iff g
  · intro g o (hg : G.own g = some o)
    by_cases hgf : g = f
    · subst hgf
      rw [hg] at hf
      cases hf
      refine ⟨by rw [decrementReferences_virtualAddresses]; exact hva, ?_⟩
      rw [hdec, Function.update_self, href, G.setWin_self, if_neg (by simp)]
    · have huse : FrameUse s (G.setWin e k false).win g o := by
        refine (frameUse_setWin ?_).2 (h.use g o hg)
        rintro rfl
        exact hgf (huniq g hg)
      refine huse.congr ?_ (by rw [decrementReferences_virtualAddresses])
        decrementReferences_block
      rw [hdec, Function.update_of_ne hgf]

/-! ## Heap blocks -/

/-- Blocks survive a `kmalloc`. -/
theorem Kmalloced.block {n p q m : Nat} (h : Kmalloced c s t n p) (hb : Block s q m) :
    Block t q m := by
  obtain ⟨i, hi, hrec⟩ := hb
  refine ⟨i, by rw [h.idx_eq]; omega, ?_⟩
  rw [h.records, Function.update_of_ne (by omega), hrec]

theorem Kmalloced.block_self {n p : Nat} (h : Kmalloced c s t n p) : Block t p n := by
  refine ⟨s.idx, by rw [h.idx_eq]; omega, ?_⟩
  rw [h.records, Function.update_self]

theorem Kmalloced.spent {n p : Nat} (h : Kmalloced c s t n p) : Spent s t n := by
  refine ⟨?_, Nat.le_of_eq h.taken.top_eq⟩
  rw [h.taken.free_eq, List.length_drop]
  omega

/-- `kmalloc(PAGE_SIZE)`. -/
theorem Owned.newPage (h : Owned c s G) {p : Nat} (hnew : NewPage c s t f p) {r : Role}
    (hr : r.isTable = true) (e : Nat) : Owned c t (G.setOwn f (some ⟨e, r⟩)) := by
  have hmem := hnew.mem_free
  have hiff := (h.free_iff f).1 hmem
  have hnodup := h.inv.list.nodup
  rw [hnew.free_eq, List.nodup_cons] at hnodup
  refine h.move _ hnew.inv ⟨hiff.1, hiff.2.1, hiff.2.2.2⟩ ?_ ?_ ?_ ?_
  · intro g hg
    rw [hnew.free_eq, List.mem_cons]
    exact ⟨.inr, fun hx => hx.resolve_left hg⟩
  · exact ⟨fun hx => absurd hx hnodup.1, fun hx => by cases hx⟩
  · rintro o ho
    cases ho
    refine (frameUse_table hr).2 ⟨?_, ?_, ?_⟩
    · rw [hnew.va_self]
      exact hnew.p_ne
    · rw [hnew.ref_eq, Function.update_self]
    · rw [hnew.va_self]
      exact hnew.kmalloced.block_self
  · intro g hg _
    rw [hnew.ref_eq, Function.update_of_ne hg]
    exact ⟨rfl, hnew.va_of_ne hg, hnew.kmalloced.block⟩

/-- What the release of the block at frame `f` leaves alone. -/
structure Dropped (c : Boot) (s t : Kernel) (f : Nat) : Prop where
  mem_eq : ∀ g, ¬ c.KernelFrame g → t.mem g = s.mem g
  va_eq : t.virtualAddresses = Function.update s.virtualAddresses f 0
  block : ∀ p n, p ≠ s.virtualAddresses f → Block s p n → Block t p n
  spent : Spent s t 0
  same : SameRest s t

/-- Blocks other than the released one survive a `kfree`. -/
theorem Kfreed.block {i p n : Nat} (h : Kfreed c s t i)
    (hne : p ≠ (s.allocatedHAddresses i).virtualAddress) (hb : Block s p n) : Block t p n := by
  obtain ⟨j, hj, hrec⟩ := hb
  refine ⟨j, by rw [h.idx_eq]; exact hj, ?_⟩
  rw [h.records, Function.update_of_ne, hrec]
  rintro rfl
  exact hne (by rw [hrec])

/-- A release gives frames back and takes none. -/
theorem Kfreed.spent {i : Nat} (h : Kfreed c s t i) (hs : KernelInv c s) : Spent s t 0 := by
  refine ⟨?_, Nat.le_of_eq h.released.top_eq⟩
  have hsub : s.freeFrameList ⊆ t.freeFrameList := fun g hg => (h.released.free_iff g).2 (.inl hg)
  exact hs.list.nodup.length_le_of_subset hsub

/-- `kfree` of a block of one page. -/
theorem Owned.kfreePage (h : Owned c s G) {o : Owner} (hf : G.own f = some o)
    (ho : o.role.isTable = true) :
    ∃ t, kfree s (s.virtualAddresses f) = .ok t ∧ Owned c t (G.setOwn f none) ∧
      Dropped c s t f := by
  have hne : G.own f ≠ none := by simp [hf]
  obtain ⟨hva, href, i, hi, hrec⟩ := h.heap hf ho
  have hspec := kfree_spec h.inv hi (by rw [hrec])
  rw [hrec] at hspec
  obtain ⟨t, ht, hk⟩ := hspec.exists_ok
  have hr := hk.released
  rw [hrec] at hr
  -- only `f` lies in a block of one page
  have hin : ∀ g, InBlock s (s.virtualAddresses f) 1 g ↔ g = f := by
    intro g
    constructor
    · rintro ⟨hle, hlt⟩
      have hg : s.virtualAddresses g ≠ 0 := by omega
      have half := h.inv.map.heap_aligned hva
      have halg := h.inv.map.heap_aligned hg
      exact h.inv.map.virtualAddresses_inj hg (by omega)
    · rintro rfl
      exact ⟨Nat.le_refl _, by omega⟩
  have hva' : t.virtualAddresses = Function.update s.virtualAddresses f 0 := by
    funext g
    rw [hr.va_eq, Function.update_apply]
    simp only [hin]
  have hblock : ∀ p n, p ≠ s.virtualAddresses f → Block s p n → Block t p n := by
    intro p n hp hb
    exact hk.block (by rw [hrec]; exact hp) hb
  refine ⟨t, ht, ?_, hr.mem_eq, hva', hblock, hk.spent h.inv, hr.same⟩
  refine h.move none hk.inv (h.in_ram f hne) ?_ ?_ ?_ ?_
  · intro g hg
    rw [hr.free_iff, hin]
    exact ⟨fun hx => hx.resolve_right fun hx => hg hx.1, .inl⟩
  · rw [hr.free_iff, hin]
    exact ⟨fun _ => rfl, fun _ => .inr ⟨rfl, href⟩⟩
  · rintro q hq
    cases hq
  · intro g hg hown
    rw [hr.ref_eq, if_neg (by rw [hin]; exact hg), hva', Function.update_of_ne hg]
    refine ⟨rfl, rfl, fun hb => ?_⟩
    obtain ⟨j, hj, hrecj⟩ := id hb
    refine hblock _ _ (fun heq => ?_) hb
    have hg0 : s.virtualAddresses g ≠ 0 := by
      rw [heq]
      exact hva
    exact hg (h.inv.map.virtualAddresses_inj hg0 heq)

/-! ## The block of a working set -/

/-- The frames of `L` become the pages of the working set array at `p`. -/
def Ghost.giveWs (G : Ghost) (va : Nat → Nat) (e p : Nat) (L : List Nat) : Ghost :=
  { G with own := fun g => if g ∈ L then some ⟨e, .ws ((va g - p) / 4096)⟩ else G.own g }

/-- The pages of the working set array of `e` are nobody's any more. -/
def Ghost.dropWs (G : Ghost) (e : Nat) : Ghost :=
  { G with own := fun g =>
      match G.own g with
      | some ⟨e', .ws k⟩ => if e' = e then none else some ⟨e', .ws k⟩
      | o => o }

theorem Ghost.dropWs_eq_some {g : Nat} {o : Owner} :
    (G.dropWs e).own g = some o ↔ G.own g = some o ∧ ∀ k, o ≠ ⟨e, .ws k⟩ := by
  have hown : (G.dropWs e).own g = match G.own g with
      | some ⟨e', .ws k⟩ => if e' = e then none else some ⟨e', .ws k⟩
      | o => o := rfl
  rw [hown]
  constructor
  · intro h
    split at h
    · rename_i e' k hk
      split at h
      · cases h
      · rename_i hne
        cases h
        refine ⟨hk, fun k' hx => ?_⟩
        cases hx
        exact hne rfl
    · rename_i hno
      refine ⟨h, fun k hx => ?_⟩
      subst hx
      exact hno e k h
  · rintro ⟨h, hne⟩
    rw [h]
    obtain ⟨e', r⟩ := o
    cases r with
    | ws k =>
      have hee : e' ≠ e := by
        rintro rfl
        exact hne k rfl
      simp [hee]
    | _ => rfl

/-- `kmalloc` of the working set array. -/
theorem Owned.kmallocWs (h : Owned c s G) {n p : Nat} (hk : Kmalloced c s t n p) (e : Nat)
    (hwin : ∀ k, G.win e k = false) :
    Owned c t (G.giveWs t.virtualAddresses e p (s.freeFrameList.take n)) := by
  have ht := hk.taken
  have hmem : ∀ g ∈ s.freeFrameList.take n, g ∈ s.freeFrameList :=
    fun g hg => List.mem_of_mem_take hg
  have hnodup := h.inv.list.nodup
  have hdrop : ∀ g, g ∈ t.freeFrameList ↔
      g ∈ s.freeFrameList ∧ g ∉ s.freeFrameList.take n := by
    intro g
    have hsplit := List.take_append_drop n s.freeFrameList
    rw [← hsplit, List.nodup_append] at hnodup
    have hiff : g ∈ s.freeFrameList ↔
        g ∈ s.freeFrameList.take n ∨ g ∈ s.freeFrameList.drop n := by
      rw [← List.mem_append, hsplit]
    rw [ht.free_eq, hiff]
    constructor
    · intro hg
      exact ⟨.inr hg, fun hg' => hnodup.2.2 g hg' g hg rfl⟩
    · rintro ⟨hg, hg'⟩
      exact hg.resolve_left hg'
  refine ⟨hk.inv, ?_, ?_, ?_⟩
  · intro g
    rw [hdrop, h.free_iff]
    show _ ↔ _ ∧ _ ∧ (if g ∈ s.freeFrameList.take n then _ else G.own g) = none ∧ _
    by_cases hg : g ∈ s.freeFrameList.take n
    · simp only [hg, not_true_eq_false, and_false, if_true, reduceCtorEq, false_and]
    · simp only [hg, not_false_eq_true, and_true, if_false]
      exact Iff.rfl
  · intro g hg
    by_cases hgt : g ∈ s.freeFrameList.take n
    · have hiff := (h.free_iff g).1 (hmem g hgt)
      exact ⟨hiff.1, hiff.2.1, hiff.2.2.2⟩
    · simp only [Ghost.giveWs, if_neg hgt] at hg
      exact h.in_ram g hg
  · intro g o hg
    by_cases hgt : g ∈ s.freeFrameList.take n
    · simp only [Ghost.giveWs, if_pos hgt, Option.some.injEq] at hg
      subst hg
      have href := ht.ref_new g hgt
      obtain ⟨i, hi⟩ := List.mem_iff_getElem?.1 hgt
      have hin : i < n := by
        by_contra hge
        rw [List.getElem?_take, if_neg hge] at hi
        cases hi
      rw [List.getElem?_take, if_pos hin] at hi
      have hva := ht.va_new i g hin hi
      have htop := h.inv.map.le_top
      simp only [kernelHeapStart] at htop
      refine ⟨by omega, ?_⟩
      show t.references g = if G.win e _ then 2 else 1
      rw [href, hwin, if_neg (by simp)]
    · simp only [Ghost.giveWs, if_neg hgt] at hg
      exact (h.use g o hg).congr (ht.ref_old g hgt) (ht.va_old g hgt) hk.block

/-- `kfree` of the working set array, once the window is closed. -/
theorem Owned.kfreeWs (h : Owned c s G) {n p : Nat} (hb : Block s p n)
    (hin : ∀ g, InBlock s p n g ↔ ∃ k, G.own g = some ⟨e, .ws k⟩)
    (hwin : ∀ k, G.win e k = false) :
    ∃ t, kfree s p = .ok t ∧ Owned c t (G.dropWs e) ∧
      (∀ g, ¬ c.KernelFrame g → t.mem g = s.mem g) ∧
      (∀ g o, (G.dropWs e).own g = some o → t.virtualAddresses g = s.virtualAddresses g) ∧
      (∀ q m, q ≠ p → Block s q m → Block t q m) ∧ Spent s t 0 ∧ SameRest s t := by
  obtain ⟨i, hi, hrec⟩ := hb
  have hspec := kfree_spec h.inv hi (by rw [hrec])
  rw [hrec] at hspec
  obtain ⟨t, ht, hk⟩ := hspec.exists_ok
  have hr := hk.released
  rw [hrec] at hr
  have hblock : ∀ q m, q ≠ p → Block s q m → Block t q m := by
    intro q m hq hb
    exact hk.block (by rw [hrec]; exact hq) hb
  have hout : ∀ g o, (G.dropWs e).own g = some o → ¬ InBlock s p n g := by
    intro g o hg hx
    obtain ⟨k, hk⟩ := (hin g).1 hx
    obtain ⟨hown, hne⟩ := Ghost.dropWs_eq_some.1 hg
    rw [hk] at hown
    cases hown
    exact hne k rfl
  have hva : ∀ g o, (G.dropWs e).own g = some o →
      t.virtualAddresses g = s.virtualAddresses g := by
    intro g o hg
    rw [hr.va_eq, if_neg (hout g o hg)]
  refine ⟨t, ht, ⟨hk.inv, ?_, ?_, ?_⟩, hr.mem_eq, hva, hblock, hk.spent h.inv, hr.same⟩
  · intro g
    rw [hr.free_iff, h.free_iff]
    cases hg : (G.dropWs e).own g with
    | some o =>
      have hold := (Ghost.dropWs_eq_some.1 hg).1
      simp [hold, hout g o hg]
    | none =>
      by_cases hx : InBlock s p n g
      · obtain ⟨k, hown⟩ := (hin g).1 hx
        have href := (h.ws hown).2
        rw [hwin, if_neg (by simp)] at href
        obtain ⟨hlt, hres, hlost⟩ := h.in_ram g (by simp [hown])
        exact ⟨fun _ => ⟨hlt, hres, rfl, hlost⟩, fun _ => .inr ⟨hx, href⟩⟩
      · have hold : G.own g = none := by
          by_contra hne
          obtain ⟨o, ho⟩ := Option.ne_none_iff_exists'.1 hne
          have : (G.dropWs e).own g = some o := by
            refine Ghost.dropWs_eq_some.2 ⟨ho, fun k hok => ?_⟩
            subst hok
            exact hx ((hin g).2 ⟨k, ho⟩)
          rw [hg] at this
          cases this
        simp only [hx, false_and, or_false, hold]
        exact Iff.rfl
  · intro g hg
    obtain ⟨o, ho⟩ := Option.ne_none_iff_exists'.1 hg
    exact h.in_ram g (by simp [(Ghost.dropWs_eq_some.1 ho).1])
  · intro g o hg
    have hold := (Ghost.dropWs_eq_some.1 hg).1
    refine (h.use g o hold).congr ?_ (hva g o hg) ?_
    · rw [hr.ref_eq, if_neg (hout g o hg)]
    · intro hb
      refine hblock _ _ (fun heq => ?_) hb
      -- a block that starts where the array starts is the array
      have hn := h.inv.map.size_pos i hi
      rw [hrec] at hn
      simp only at hn
      exact hout g o hg ⟨by omega, by omega⟩

/-- A frame is forgotten. -/
theorem Owned.leak (h : Owned c s G) (hf : G.own f ≠ none) :
    Owned c s { G.setOwn f none with lost := fun g => g = f ∨ G.lost g } := by
  refine ⟨h.inv, ?_, ?_, ?_⟩
  · intro g
    rw [h.free_iff]
    show _ ↔ _ ∧ _ ∧ (G.setOwn f none).own g = none ∧ ¬ (g = f ∨ G.lost g)
    by_cases hg : g = f
    · subst hg
      simp [hf]
    · simp [G.setOwn_of_ne none hg, hg]
  · intro g (hg : (G.setOwn f none).own g ≠ none)
    have hne : g ≠ f := by
      rintro rfl
      simp at hg
    rw [G.setOwn_of_ne none hne] at hg
    obtain ⟨hlt, hres, hlost⟩ := h.in_ram g hg
    exact ⟨hlt, hres, fun hx => hx.elim hne hlost⟩
  · intro g o (hg : (G.setOwn f none).own g = some o)
    rcases Ghost.setOwn_eq_some.1 hg with ⟨-, hx⟩ | ⟨-, hold⟩
    · cases hx
    · exact h.use g o hold

end Move

end FosMemory
