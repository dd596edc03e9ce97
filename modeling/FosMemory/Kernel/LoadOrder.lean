import FosMemory.Kernel.FrameResults
import FosMemory.Kernel.Replacement
import FosMemory.Kernel.Untouched
import FosMemory.Lib.Ring

/-!
# LoadOrder — replacement under FIFO

The elements of a working set are a ring that `env_create` and the faults fill in turn, with
`page_last_WS_index` as the next cell.  So pages are evicted in the order in which they were loaded.
-/

namespace FosMemory

open Lib

variable {c : Boot} {s t u : Kernel} {G H : Ghost} {e n : Nat} {prog : UserProgram}
  {L E : List Nat}

/-! ## Pages that come and go -/

/-- The pages of the working set of `t` that were not in memory in `s`. -/
def arrivedPages (e : Nat) (s t : Kernel) : List Nat :=
  evictedPages e t s

theorem present_roundDown (s : Kernel) (e va : Nat) :
    s.present e (roundDown va 4096) = s.present e va := by
  simp only [Kernel.present, pteWord_roundDown, pdx_roundDown]

/-- Pages of elements are present. -/
theorem Alive.present (h : Alive c s G e) {i v : Nat} (hi : i < s.wsMax e)
    (hv : s.wsPage e i = some v) : s.present e v = true := by
  obtain ⟨f, hf⟩ := h.entries.page i hi v hv
  exact h.base.is_present hf

/-- The elements name the same pages, so none has left memory. -/
theorem Steady.evictedPages_eq (h : Steady e s t) (ha : Alive c t H e) : evictedPages e s t = [] := by
  refine List.filter_eq_nil_iff.2 fun v hv => ?_
  obtain ⟨i, hi, hpage⟩ := List.mem_filterMap.1 hv
  rw [List.mem_range] at hi
  rw [ha.present (by rw [h.size]; exact hi) (by rw [h.page i hi]; exact hpage)]
  decide

theorem Steady.symm (h : Steady e s t) : Steady e t s :=
  ⟨h.size.symm, h.last.symm, fun i hi => (h.page i (by rw [← h.size]; exact hi)).symm⟩

/-- Only the page of `va` has come. -/
theorem Replaced.arrivedPages_eq {va i : Nat} (h : Replaced e va i s t) (ha : Alive c s G e)
    (hsize : t.wsMax e = s.wsMax e) (habs : s.present e va = false) :
    arrivedPages e s t = [roundDown va 4096] := by
  have hlist : arrivedPages e s t = (t.wsPage e i).toList := by
    refine filter_filterMap_range (by rw [hsize]; exact h.index) ?_ ?_
    · intro k hk hne v hv
      rw [hsize] at hk
      rw [(h.kept k hk hne).1] at hv
      rw [ha.present hk hv]
      rfl
    · intro v hv
      rw [h.placed] at hv
      cases hv
      rw [present_roundDown, habs]
      rfl
  rw [hlist, h.placed]
  rfl

/-! ## FIFO -/

/-- Under FIFO the element at the hand is used, provided it is empty while any element is. -/
theorem Faulted.replaced_fifo (hb : Base c s G e) (hent : Entries s G e) {va : Nat}
    (habs : Absent G e (roundDown va 4096)) (h : Faulted c e va s G t H)
    (hpolicy : s.pageRepAlgoType = .fifo)
    (hhand : (∀ k < s.wsMax e, s.wsPage e k ≠ none) ∨
      s.wsPage e (s.envs e).pageLastWSIndex = none) :
    Replaced e va (s.envs e).pageLastWSIndex s t := by
  by_cases hfull : ∀ k < s.wsMax e, s.wsPage e k ≠ none
  · obtain ⟨i, w, hvic, hrep, -⟩ := h.replaced_full hb hent habs hfull
    rw [victim, hpolicy] at hvic
    cases hvic
    exact hrep
  · have hnone := hhand.resolve_left hfull
    have hbegin : ((s.envs e).pageLastWSIndex + 0) % s.wsMax e = (s.envs e).pageLastWSIndex := by
      rw [Nat.add_zero, Nat.mod_eq_of_lt hent.last]
    obtain ⟨m, -, hrep, hbusy, -⟩ :=
      h.replaced_room hb hent habs ⟨_, hent.last, hnone⟩
    -- the search does not move away from an empty element
    have hzero : m = 0 := by
      by_contra hne
      refine hbusy 0 (by omega) ?_
      rw [hbegin]
      exact hnone
    rw [hzero, hbegin] at hrep
    exact hrep

/-- What may happen while load order is followed: `e` faults under FIFO and does not call
`freeMem`. -/
def FifoOp (s : Kernel) (e : Nat) : SysOp → Prop
  | .user (.fault _) => s.curenv = some e → s.pageRepAlgoType = .fifo
  | .user (.freeMem _ _) => s.curenv ≠ some e
  | .user .tick | .user (.read _) | .user (.write _ _) | .user (.allocateMem _ _) => True
  | .create _ _ | .run _ | .select _ | .idle => True

/-- Runs from the creation of `e` on, with the pages loaded into its working set and the pages
evicted from it so far, in order. -/
inductive FifoRun (c : Boot) (e n : Nat) (prog : UserProgram) :
    Kernel → List Nat → List Nat → Prop
  | created {s t : Kernel} (before : SysRun c s) (size : 1 ≤ n) (wrap : n * 12 + 4095 < wordMod)
      (program : Loadable n prog) (done : envCreate s prog n = .ok (some e, t)) :
      FifoRun c e n prog t (initialPages prog n) []
  | step {s t : Kernel} {L E : List Nat} {op : SysOp} (run : FifoRun c e n prog s L E)
      (fifo : FifoOp s e op) (next : SysStep s op t) :
      FifoRun c e n prog t (L ++ arrivedPages e s t) (E ++ evictedPages e s t)

/-- The working set is a ring with the hand at the next cell. -/
structure FifoInv (c : Boot) (e n : Nat) (s : Kernel) (L E : List Nat) : Prop where
  inv : ∃ G, SysInv c s G
  live : s.Live e
  size : s.wsMax e = n
  last : (s.envs e).pageLastWSIndex = L.length % n
  ring : RingQueue n (s.wsPage e) L E

theorem FifoInv.pos (h : FifoInv c e n s L E) : 0 < n := by
  obtain ⟨G, hG⟩ := h.inv
  rw [← h.size]
  exact (hG.alive e h.live).base.array.size_pos

/-- `env_create` fills the first cells. -/
theorem SysInv.fifo_created (h : SysInv c s G) (hn : 1 ≤ n) (hwrap : n * 12 + 4095 < wordMod)
    (hprog : Loadable n prog) (hdone : envCreate s prog n = .ok (some e, t)) :
    FifoInv c e n t (initialPages prog n) [] := by
  obtain ⟨hmem, H, hcr⟩ := h.created hn hwrap hprog hdone
  constructor
  case inv => exact ⟨H, h.create hmem hcr⟩
  case live => exact (hcr.live h.nodup (h.unused e hmem).1 e).2 (.inl rfl)
  case size => exact hcr.size
  case last => exact hcr.last
  case ring => exact RingQueue.start (initialPages_length_le prog hn) hcr.element

/-- A step that leaves the elements alone. -/
theorem FifoInv.steady (h : FifoInv c e n s L E) (hst : Steady e s t) (hinv : SysInv c t H)
    (hlive : t.Live e) :
    FifoInv c e n t (L ++ arrivedPages e s t) (E ++ evictedPages e s t) := by
  obtain ⟨G, hG⟩ := h.inv
  have harr : arrivedPages e s t = [] := hst.symm.evictedPages_eq (hG.alive e h.live)
  rw [harr, hst.evictedPages_eq (hinv.alive e hlive), List.append_nil, List.append_nil]
  refine ⟨⟨H, hinv⟩, hlive, by rw [hst.size, h.size], by rw [hst.last, h.last], ?_⟩
  refine h.ring.congr (fun i hi => hst.page i ?_) h.pos
  rw [h.size]
  exact hi

/-- A fault of `e`. -/
theorem FifoInv.fault (h : FifoInv c e n s L E) (hcur : s.curenv = some e)
    (hpolicy : s.pageRepAlgoType = .fifo) {va : Nat} (hva : va < userTop)
    (habs : s.present e va = false) (hdone : trapPageFault s e va = .ok t) :
    FifoInv c e n t (L ++ arrivedPages e s t) (E ++ evictedPages e s t) := by
  obtain ⟨G, hG⟩ := h.inv
  have ha := hG.current hcur
  obtain ⟨u, H, hu, -, -, hf⟩ := hG.trapPageFault_spec hcur hva habs hdone
  -- time stamps are kept under LRU only
  have hsame : u = s := by
    rw [onTrap, hpolicy, if_neg (by decide)] at hu
    exact (Except.ok.inj hu).symm
  subst hsame
  rcases hf with hq | hf
  · have hacts := hq.acts ha
    have hlive : t.Live e := by
      have hlist : t.envFreeList = u.envFreeList := hacts.run.envFreeList
      exact ⟨h.live.1, by rw [hlist]; exact h.live.2⟩
    exact h.steady (hq.ws.steady hq.step.env.pageWSMaxSize hq.last) (hG.acts h.live hacts) hlive
  · have hacts := hf.acts ha
    have hlist : t.envFreeList = u.envFreeList := hacts.run.envFreeList
    have hsize : t.wsMax e = u.wsMax e := hacts.env.pageWSMaxSize
    have hhand : (∀ k < u.wsMax e, u.wsPage e k ≠ none) ∨
        u.wsPage e (u.envs e).pageLastWSIndex = none := by
      rw [h.size, h.last]
      exact h.ring.full_or h.pos
    have hrep := hf.replaced_fifo ha.base ha.entries (ha.base.absent_of_present hva habs) hpolicy
      hhand
    rw [hrep.arrivedPages_eq ha hsize habs, hrep.evictedPages_eq, h.last]
    rw [h.last] at hrep
    refine ⟨⟨H, hG.acts h.live hacts⟩, ⟨h.live.1, by rw [hlist]; exact h.live.2⟩,
      by rw [hsize, h.size], ?_, ?_⟩
    · rw [hrep.last, h.size, List.length_append, List.length_singleton, Nat.mod_add_mod]
    · refine h.ring.push h.pos hrep.placed fun i hi hne => (hrep.kept i ?_ hne).1
      rw [h.size]
      exact hi

/-- One step of a run. -/
theorem FifoInv.step (h : FifoInv c e n s L E) {op : SysOp} (hop : FifoOp s e op)
    (hnext : SysStep s op t) :
    FifoInv c e n t (L ++ arrivedPages e s t) (E ++ evictedPages e s t) := by
  obtain ⟨G, hG⟩ := h.inv
  obtain ⟨H, hinv, hlive, hstep⟩ := hG.step_live h.live hnext
  rcases hstep with ⟨hun, -⟩ | ⟨act, rfl, hcur, hact⟩
  · exact h.steady hun.toSteady hinv hlive
  · have ha := hG.current hcur
    have hcr3 := (hG.isRunning hcur).cr3
    cases hact with
    | fault hva habs hdone => exact h.fault hcur (hop hcur) hva habs hdone
    | tick hdone =>
      obtain ⟨u, hu, haged⟩ := hG.onTrap_eq hcur
      obtain rfl : t = u := Except.ok.inj (hdone.symm.trans hu)
      exact h.steady haged.steady hinv hlive
    | read hva hdone =>
      obtain ⟨f, k, -, -, hset⟩ := ha.base.space.readByte_some hcr3 hva hdone
      exact h.steady (hset.toWalkOnly.steady hG.owned ha.base hG.frames) hinv hlive
    | write hva hdone =>
      obtain ⟨f, hf, hset⟩ := ha.base.space.writeByte_some hcr3 hva hdone
      exact h.steady (hset.steady hf hG.owned ha.base hG.frames) hinv hlive
    | allocateMem hrange hdone =>
      obtain ⟨I, hl⟩ := hG.allocateMem_listed hcur hrange hdone
      exact h.steady (hl.untouched hG.owned ha).toSteady hinv hlive
    | freeMem hpos hrange hdone => exact absurd hcur hop

theorem FifoRun.inv (h : FifoRun c e n prog s L E) : FifoInv c e n s L E := by
  induction h with
  | created hbefore hn hwrap hprog hdone =>
    obtain ⟨G, hG⟩ := hbefore.inv
    exact hG.fifo_created hn hwrap hprog hdone
  | step _ hop hnext ih => exact ih.step hop hnext

end FosMemory
