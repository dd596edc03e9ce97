import FosMemory.Kernel.Replacement
import FosMemory.Kernel.FrameResults

/-!
# SecondChance — replacement under CLOCK

The hand starts at `page_last_WS_index`, takes the accessed bit away from the pages it passes and
stops at the first page without one.  If every page has been accessed, it has taken all bits away
when it is back at its start, and stops there.
-/

namespace FosMemory

open Lib

variable {c : Boot} {s t w : Kernel} {G H : Ghost} {e : Nat}

/-- Element `k` is one of the first `m` in circular order from the hand on. -/
def PassedOver (s : Kernel) (e m k : Nat) : Prop :=
  ∃ j < m, ((s.envs e).pageLastWSIndex + j) % s.wsMax e = k

/-- The entry of the page of element `k` after the hand has passed over `m` elements: the accessed
bit is gone if `k` is one of them, and nothing else has changed. -/
def SweptEntry (s : Kernel) (e m k : Nat) (t : Kernel) : Prop :=
  ∀ v, s.wsPage e k = some v →
    (PassedOver s e m k → t.pteWord e v = s.pteWord e v &&& ~~~permUsed) ∧
    (¬ PassedOver s e m k → t.pteWord e v = s.pteWord e v)

theorem Swept.entry {m k : Nat} (h : Swept c e (s.envs e).pageLastWSIndex m s G w)
    (hent : Entries s G e) (hk : k < s.wsMax e) : SweptEntry s e m k w := by
  intro v hv
  constructor
  · rintro ⟨j, hj, rfl⟩
    exact h.passed j hj v hv
  · intro hno
    obtain ⟨f, hf⟩ := hent.page k hk v hv
    refine h.other v f false hf fun j hj hx => hno ⟨j, hj, ?_⟩
    -- a page has one element
    exact hent.inj _ (Nat.mod_lt _ (by omega)) k hk v hx hv

end FosMemory
