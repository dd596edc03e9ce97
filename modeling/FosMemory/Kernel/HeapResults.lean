import FosMemory.Kernel.Environment
import FosMemory.Kernel.FrameResults

/-!
# HeapResults — which requests `kmalloc` serves, and what a failed one leaves

A request is served exactly if it fits, but for two kinds: the one that would fill the heap to its
last page is refused, and one within a page of 2^32 gets a block without pages.  When the frames run
out in the middle of a request the pages mapped so far stay mapped and nobody owns them.

The panic of `allocate_frame` ends the environment and the system goes on, so the states the two
results speak about include those that follow such a panic.
-/

namespace FosMemory

open Lib

variable {c : Boot} {s t u : Kernel} {m : Machine} {role : Nat → Option TableRole}
  {T : Finset Nat} {size : Nat}

/-! ## Out of frames in the middle of a request -/

/-- The round of `kmalloc` that finds no frame panics in the state it starts in. -/
theorem kmallocPage_exhausted (hfree : t.freeFrameList = []) :
    kmallocPage t = .error (.panic .outOfMemory t) := by
  rw [kmallocPage, allocateFrame, hfree]
  rfl

/-- `kmalloc` gives up when it has taken all frames there are. -/
theorem kmalloc_exhausted (hs : KernelInv c s) (hle : size ≤ 0xFFFFF000) :
    Ensures (fun e => ∃ u, e = .panic .outOfMemory u ∧ Growing c s s.freeFrameList.length u ∧
      (s.freeFrameList = [] → u = s)) (fun _ => True) (kmalloc s size) := by
  have hpages := heapPages_eq hle
  rw [kmalloc]
  by_cases hcase : heapFull s (heapPages size) = true
  · simp only [hcase, if_true]
    exact trivial
  · have hfits : s.firstFreeVAInKHeap + 4096 * heapPages size < kernelHeapMax := by
      by_contra hge
      exact hcase ((heapFull_iff (by omega)).2 (by omega))
    rw [if_neg hcase]
    -- before the first round nothing has changed, and only that round can find the list empty if
    -- it was empty from the start
    have hloop := forRange_ensures
      (I := fun k t => Growing c s k t ∧ (k = 0 → t = s)) (a := 0) (n := heapPages size) (s := s)
      (b := fun _ t => kmallocPage t)
      (E := fun e => ∃ u, e = .panic .outOfMemory u ∧ Growing c s s.freeFrameList.length u ∧
        (s.freeFrameList = [] → u = s))
      (fun k t _ hk ht => ?_) ⟨⟨hs.map, hs.list, Taken.zero c s, rfl, rfl⟩, fun _ => rfl⟩
    · exact hloop.bind fun _ _ => trivial
    · obtain ⟨hgrow, hfirst⟩ := ht
      cases hfree : t.freeFrameList with
      | nil =>
        have hlen : s.freeFrameList.length = k := by
          have hdrop := hgrow.taken.free_eq
          rw [hfree, eq_comm, List.drop_eq_nil_iff] at hdrop
          exact Nat.le_antisymm hdrop hgrow.taken.le_length
        rw [kmallocPage_exhausted hfree]
        refine ⟨t, rfl, hlen ▸ hgrow, fun hnil => hfirst ?_⟩
        rw [← hlen, hnil, List.length_nil]
      | cons f rest =>
        have hstep := hgrow.step hs.list (by omega)
        refine hstep.mono (fun e he => ?_) fun v hv =>
          ⟨hv, fun h0 => absurd h0 (Nat.succ_ne_zero k)⟩
        -- the list is not empty, so this round takes a frame
        have hdrop := hgrow.taken.free_eq
        rw [he.1.symm, List.drop_length, hfree] at hdrop
        cases hdrop

/-- The frames a failed request has taken back heap pages, as if they belonged to a block. -/
theorem Accounts.halted (h : Accounts c m role T) {k : Nat} (hgrow : Growing c m.kernel k u)
    (hfirst : k = 0 → u = m.kernel) : Accounts c { m with kernel := u } role T := by
  rcases Nat.eq_zero_or_pos k with rfl | hpos
  · rw [hfirst rfl]
    exact h
  · have hroom : m.kernel.firstFreeVAInKHeap + 4096 * k < kernelHeapMax :=
      hgrow.taken.top_eq ▸ hgrow.map.top_lt
    have hblock := h.newBlock (hgrow.finish h.inv hpos hroom)
    have hidx := hgrow.idx_eq
    have hrec : ∀ i < u.idx, Function.update u.allocatedHAddresses u.idx
        { size := k, virtualAddress := m.kernel.firstFreeVAInKHeap, empty := 0 } i =
          u.allocatedHAddresses i :=
      fun i hi => Function.update_of_ne (by omega) _ _
    have hlive : HeapLive u := by
      constructor
      · intro i hi hempty
        have hl := hblock.inv.live.live i (Nat.lt_succ_of_lt hi)
        simp only [hrec i hi] at hl
        exact hl hempty
      · intro i hi hempty
        have hd := hblock.inv.live.dead i (Nat.lt_succ_of_lt hi)
        simp only [hrec i hi] at hd
        exact hd hempty
    refine ⟨⟨hgrow.map, hgrow.list, hlive⟩, hblock.forest.congr rfl rfl, hblock.references_eq,
      hblock.free_iff, hblock.held_lt, hblock.held_unused, fun b hb => ?_, h.freed_mem,
      fun b hb => hblock.block_role b (List.mem_cons_of_mem _ hb), h.disjoint⟩
    obtain ⟨i, hi, heq⟩ := h.block b hb
    exact ⟨i, hidx.symm ▸ hi, by rw [← heq]; exact congrFun hgrow.records i⟩

/-! ## Runs that go on after a panic -/

/-- Machines reachable from boot, the panics of `kmalloc` included. -/
inductive PanicRun (c : Boot) : Machine → Prop
  | initial : PanicRun c (Machine.initial c)
  | step {m m' : Machine} : PanicRun c m → FrameStep c m m' → PanicRun c m'
  | panic {m : Machine} {size : Nat} {u : Kernel} : PanicRun c m →
      1 ≤ size → size ≤ 0xFFFFF000 → kmalloc m.kernel size = .error (.panic .outOfMemory u) →
      PanicRun c { m with kernel := u }

theorem PanicRun.accounts (h : PanicRun c m) : ∃ role T, Accounts c m role T := by
  induction h with
  | initial => exact FrameRun.accounts .initial
  | step _ hstep ih =>
    obtain ⟨role, T, hacc⟩ := ih
    exact hstep.accounts hacc
  | panic _ _ hle hcall ih =>
    obtain ⟨role, T, hacc⟩ := ih
    have hspec := kmalloc_exhausted hacc.inv hle
    rw [hcall] at hspec
    obtain ⟨v, hv, hgrow, hnil⟩ := hspec
    cases hv
    exact ⟨role, T, hacc.halted hgrow fun h0 => hnil (List.length_eq_zero_iff.1 h0)⟩

/-! ## Requests that fit -/

/-- The pages left in the heap are enough. -/
def FitsHeap (s : Kernel) (size : Nat) : Prop :=
  s.firstFreeVAInKHeap + 4096 * pagesOf size ≤ kernelHeapMax

instance (s : Kernel) (size : Nat) : Decidable (FitsHeap s size) :=
  inferInstanceAs (Decidable (_ ≤ _))

/-- The bytes of a page of the heap lie in the frame of the page. -/
theorem Kernel.Backed.byte {p k a f : Nat} (hal : p % 4096 = 0) (h : s.Backed (p + 4096 * k) f)
    (hlo : p + 4096 * k ≤ a) (hhi : a < p + 4096 * (k + 1)) : s.Backed a f := by
  have hpdx : pdx a = pdx (p + 4096 * k) := by
    simp only [pdx]
    omega
  have hptx : ptx a = ptx (p + 4096 * k) := by
    simp only [ptx]
    omega
  rw [Kernel.Backed, Kernel.kernelEntry, hpdx, hptx]
  exact h

/-- The kernel heap, its page tables and the free list are the same. -/
structure SameHeap (c : Boot) (s t : Kernel) : Prop where
  top : t.firstFreeVAInKHeap = s.firstFreeVAInKHeap
  records : t.allocatedHAddresses = s.allocatedHAddresses
  virtualAddresses : t.virtualAddresses = s.virtualAddresses
  tables : ∀ f, c.KernelFrame f → t.mem f = s.mem f
  free : t.freeFrameList = s.freeFrameList

/-- A request for more frames than there are takes them all. -/
theorem KernelInv.kmalloc_fails (hs : KernelInv c s) (h1 : 1 ≤ size) (hfits : FitsHeap s size)
    (hfew : s.freeFrameList.length < pagesOf size) :
    kmalloc s size = .ok (0, s) ∧
        s.firstFreeVAInKHeap + 4096 * pagesOf size = kernelHeapMax ∨
      ∃ u, kmalloc s size = .error (.panic .outOfMemory u) ∧
        (SameHeap c s u ↔ s.freeFrameList = []) := by
  have hle : size ≤ 0xFFFFF000 := by
    simp only [FitsHeap, pagesOf, kernelHeapMax] at hfits
    omega
  have hpages : heapPages size = pagesOf size := heapPages_eq hle
  have hspec := kmalloc_spec hs h1 hle
  have hend := kmalloc_exhausted hs hle
  cases hcall : kmalloc s size with
  | ok r =>
    rw [hcall] at hspec
    obtain ⟨p, t⟩ := r
    rcases hspec with ⟨hp, ht, hmax⟩ | hk
    · simp only at hp ht
      rw [hpages] at hmax
      rw [hp, ht]
      exact .inl ⟨rfl, Nat.le_antisymm hfits hmax⟩
    · -- the block would have more pages than there were frames
      have hlen := hk.taken.le_length
      rw [hpages] at hlen
      exact absurd hlen (Nat.not_le_of_lt hfew)
  | error e =>
    rw [hcall] at hend
    obtain ⟨u, rfl, hgrow, hnil⟩ := hend
    refine .inr ⟨u, rfl, fun hsame => ?_, fun hempty => ?_⟩
    · have hfree := hgrow.taken.free_eq
      rw [List.drop_length, hsame.free] at hfree
      exact hfree
    · rw [hnil hempty]
      exact ⟨rfl, rfl, rfl, fun _ _ => rfl, rfl⟩

/-- A request that needs more frames than there are is refused as an exact fit, or panics, and then
leaves everything as it was exactly if there was no frame at all. -/
theorem kmalloc_atomic_iff (h : PanicRun c m) (h1 : 1 ≤ size) (hfits : FitsHeap m.kernel size)
    (hfew : m.kernel.freeFrameList.length < pagesOf size) :
    kmalloc m.kernel size = .ok (0, m.kernel) ∧
        m.kernel.firstFreeVAInKHeap + 4096 * pagesOf size = kernelHeapMax ∨
      ∃ u, kmalloc m.kernel size = .error (.panic .outOfMemory u) ∧
        (SameHeap c m.kernel u ↔ m.kernel.freeFrameList = []) := by
  obtain ⟨role, T, hacc⟩ := h.accounts
  exact hacc.inv.kmalloc_fails h1 hfits hfew

/-- 158 pages on a machine that has 157 frames. -/
theorem kmalloc_atomic_small :
    kmalloc (Machine.initial smallBoot).kernel 647168 =
          .ok (0, (Machine.initial smallBoot).kernel) ∧
        (Machine.initial smallBoot).kernel.firstFreeVAInKHeap + 4096 * pagesOf 647168 =
          kernelHeapMax ∨
      ∃ u, kmalloc (Machine.initial smallBoot).kernel 647168 = .error (.panic .outOfMemory u) ∧
        (SameHeap smallBoot (Machine.initial smallBoot).kernel u ↔
          (Machine.initial smallBoot).kernel.freeFrameList = []) := by
  refine kmalloc_atomic_iff .initial (by decide) (by decide) ?_
  have hframes : (Machine.initial smallBoot).kernel.freeFrameList.length = 157 := smallBoot_frames
  rw [hframes]
  decide

/-- The frames of that request are lost. -/
theorem kmalloc_loses_frames : PanicRun smallBoot (Machine.initial smallBoot) ∧
    FitsHeap (Machine.initial smallBoot).kernel 647168 ∧
      ∃ u, kmalloc (Machine.initial smallBoot).kernel 647168 = .error (.panic .outOfMemory u) ∧
        ¬ SameHeap smallBoot (Machine.initial smallBoot).kernel u := by
  have hstate : (Machine.initial smallBoot).kernel = smallBoot.state := rfl
  have hframes : smallBoot.state.freeFrameList.length = 157 := smallBoot_frames
  have hfits : FitsHeap smallBoot.state 647168 := by decide
  rw [hstate]
  refine ⟨.initial, hfits, ?_⟩
  rcases smallBoot.state_inv.kmalloc_fails (by decide) hfits (by rw [hframes]; decide) with
    ⟨-, hexact⟩ | ⟨u, hu, hiff⟩
  · exact absurd hexact (by decide)
  · refine ⟨u, hu, fun hsame => ?_⟩
    rw [hiff.1 hsame] at hframes
    cases hframes

end FosMemory
