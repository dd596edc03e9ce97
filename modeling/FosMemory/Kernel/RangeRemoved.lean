import Mathlib.Data.List.Nodup
import FosMemory.Kernel.FrameResults
import FosMemory.Kernel.System

/-!
# RangeRemoved — `freeMem` removes a range of the user heap and nothing else

The result is about what the code itself can look up: the disk frame of a page, the elements of the
working set, the page table entry the hardware finds, and the free lists.
-/

namespace FosMemory

open Lib

variable {c : Boot} {s t : Kernel} {G H : Ghost} {e va n v f : Nat} {b : Bool}

/-! ## The entry the hardware finds -/

namespace Space

/-- The directory has no entry for a table that nobody has. -/
theorem pde_zero (h : Space c s G e) {i : Nat} (hi : i < 955)
    (hno : ∀ tb, G.own tb ≠ some ⟨e, .table i⟩) : s.mem (s.dirFrame e) i = 0#32 := by
  rcases h.pde i hi with hz | ⟨tb, -, htb⟩
  · exact hz
  · exact absurd htb (hno tb)

end Space

/-! ## What the removal of a range means -/

/-- A user page outside the `n` pages from `va` on. -/
def Outside (va n v : Nat) : Prop :=
  v % 4096 = 0 ∧ v < userTop ∧ ∀ k < n, v ≠ va + 4096 * k

section Removed

variable (ho : Owned c s G) (hd : DiskFrames s G) (ha : Alive c s G e) (hal : va % 4096 = 0)
  (hr : Returned c e va n s G t H)
  (hsh : Sheds e (fun v => ∃ k < n, v = pageAt va k) s G t H)
include hal

omit hal in
theorem Alive.pfLookup_eq (ho : Owned c s G) (hd : DiskFrames s G) (ha : Alive c s G e)
    (hv : v % 4096 = 0) (hlt : v < userTop) :
    pfLookup s e v = .ok ((G.slots e v).getD 0) := by
  rw [ha.base.slots.pfLookup_eq ho hd ha.ddir hlt, roundDown_eq hv]

theorem Outside.ne_pageAt (hv : Outside va n v) : ∀ k < n, v ≠ pageAt va k := by
  intro k hk
  rw [pageAt_eq hal]
  exact hv.2.2 k hk

include hr hsh

/-- What is mapped at a page outside the range is mapped there in both states. -/
theorem Returned.target_iff (ho : Owned c s G) (ha : Alive c s G e) (hv : Outside va n v) :
    H.Target e v f b ↔ G.Target e v f b := by
  cases b with
  | false => exact (hr.other v (hv.ne_pageAt hal)).own f
  | true =>
    have hwin : ∀ k, H.win e k = G.win e k := by
      intro k
      rw [hr.acts.alive.base.array.win, ha.base.array.win, Kernel.wsPages, hr.acts.env.pageWSMaxSize,
        Kernel.wsPages]
    refine exists_congr fun k => ?_
    rw [hwin k]
    refine and_congr ⟨hsh.own f _, fun hf => ?_⟩ Iff.rfl
    -- the array keeps a frame for every page, and it has been the same one before
    have hk : k < t.wsPages e := by
      rw [Kernel.wsPages, hr.acts.env.pageWSMaxSize]
      exact (ha.base.array.at_page f k hf).1
    obtain ⟨g, hg⟩ := hr.acts.alive.base.array.frame k hk
    rwa [ha.base.array.ws_unique ho (hsh.own g _ hg) hf]

end Removed

end FosMemory
