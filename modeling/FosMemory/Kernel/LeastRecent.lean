import FosMemory.Kernel.FrameResults
import FosMemory.Kernel.Replacement
import FosMemory.Kernel.Untouched

/-!
# LeastRecent — replacement under LRU

The scan for a least time stamp starts from the stamp 1000000000, which every page used in the last
interval exceeds: a stamp has its top bit set then.  If all pages of the working set have been used
the scan finds nothing and the element at the hand is taken, whatever its stamp.
-/

namespace FosMemory

open Lib

variable {c : Boot} {s t u : Kernel} {G H : Ghost} {e n : Nat} {prog : UserProgram}
  {faults : List (Kernel × Kernel)}

/-! ## What the scan finds -/

/-- The states before and after `page_fault_handler`, if a step calls it for `e`. -/
def pageFaults (e : Nat) (s t : Kernel) : SysOp → List (Kernel × Kernel)
  | .user (.fault va) =>
    if s.curenv = some e then
      match onTrap s with
      | .ok u => if (u.mem (u.dirFrame e) (pdx va)).has permPresent then [(u, t)] else []
      | .error _ => []
    else []
  | .user .tick | .user (.read _) | .user (.write _ _) | .user (.allocateMem _ _)
  | .user (.freeMem _ _) | .create _ _ | .run _ | .select _ | .idle => []

/-- Runs from the creation of `e` on with LRU selected throughout, and the calls of
`page_fault_handler` for `e` in them. -/
inductive LruRun (c : Boot) (e n : Nat) (prog : UserProgram) :
    Kernel → List (Kernel × Kernel) → Prop
  | created {s t : Kernel} (before : SysRun c s) (size : 1 ≤ n) (wrap : n * 12 + 4095 < wordMod)
      (program : Loadable n prog) (done : envCreate s prog n = .ok (some e, t)) :
      LruRun c e n prog t []
  | step {s t : Kernel} {faults : List (Kernel × Kernel)} {op : SysOp}
      (run : LruRun c e n prog s faults) (lru : s.pageRepAlgoType = .lru) (next : SysStep s op t) :
      LruRun c e n prog t (faults ++ pageFaults e s t op)

theorem LruRun.inv (h : LruRun c e n prog s faults) : ∃ G, SysInv c s G ∧ s.Live e := by
  induction h with
  | created hbefore hn hwrap hprog hdone =>
    obtain ⟨G, hG⟩ := hbefore.inv
    obtain ⟨hmem, H, hcr⟩ := hG.created hn hwrap hprog hdone
    exact ⟨H, hG.create hmem hcr, (hcr.live hG.nodup (hG.unused e hmem).1 e).2 (.inl rfl)⟩
  | step _ _ hnext ih =>
    obtain ⟨G, hG, hlive⟩ := ih
    obtain ⟨H, hinv, hlive', -⟩ := hG.step_live hlive hnext
    exact ⟨H, hinv, hlive'⟩

end FosMemory
