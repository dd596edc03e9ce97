import FosMemory.Kernel.FlatMemory

/-!
# HeapPages — what `allocateMem` promises

`sys_allocateMem` answers nothing.  Which pages of the range have a slot afterwards depends on how
many disk frames were free; a page that has none is refused when it is first used.
-/

namespace FosMemory

open Lib

variable {c : Boot} {s t u : Kernel} {G H I : Ghost} {e : Nat} {lost : Nat → Prop}

/-- Pages without a slot among the first `n` of the range at `va`. -/
def Kernel.missing (s : Kernel) (e va n : Nat) : Nat :=
  (List.range n).countP fun k => (s.fileByte e (pageAt va k)).isNone

end FosMemory
