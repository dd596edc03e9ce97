import FosMemory.Kernel.HeapPages
import FosMemory.UserHeap.CallResults

/-!
# KernelHeap — the heap in user space and in the kernel

`malloc` and `free` keep their tables in user space; slots, mappings and the working set are the
kernel's.  The two sides meet in the calls `sys_allocateMem` and `sys_freeMem` alone.  `AgreedRun` is
a run of the whole system in which one environment calls `malloc` and `free`; the pages that have
slots are those of its live blocks after every step.
-/

namespace FosMemory
namespace UserHeap

open Lib

variable {c : Boot} {s t u : Kernel} {G H : Ghost} {e : Nat} {h : UHeap} {live : List LiveBlock}
  {lost : Nat → Prop}

/-! ## Runs -/

/-- A live block consists of whole pages. -/
theorem Rep.block (hr : Rep h live) {b : LiveBlock} (hb : b ∈ live) :
    b.addr % 4096 = 0 ∧ b.size % 4096 = 0 ∧ 0 < b.size := by
  have hw := hr.placed b hb
  have hpos := hr.layout.nonempty _ (List.mem_map.2 ⟨b, hb, rfl⟩)
  have hsize := (hr.addr_eq hb).2
  exact ⟨hw.addr_aligned, hw.size_aligned, by omega⟩

/-- Two live blocks are the same or have no byte in common. -/
theorem Rep.apart (hr : Rep h live) {b b' : LiveBlock} (hb : b ∈ live) (hb' : b' ∈ live)
    (hne : b' ≠ b) : b'.addr + b'.size ≤ b.addr ∨ b.addr + b.size ≤ b'.addr := by
  have hsymm : Std.Symm fun a b : LiveBlock =>
      a.addr + a.size ≤ b.addr ∨ b.addr + b.size ≤ a.addr := ⟨fun _ _ hx => hx.symm⟩
  exact hr.disjoint.forall hb' hb hne

/-- Address `a` lies in the user heap. -/
def InHeap (a : Nat) : Prop :=
  userHeapStart ≤ a ∧ a < userHeapMax

section Page

variable {a : Nat} (ha : InHeap a)
include ha

theorem InHeap.user : a < userTop := by
  have := ha.2
  simp only [userHeapMax, userTop] at *
  omega

theorem InHeap.page : InHeap (roundDown a 4096) := by
  obtain ⟨hlo, hhi⟩ := ha
  simp only [InHeap, userHeapStart, userHeapMax, roundDown] at *
  omega

end Page

section Calls

variable (hinv : LifeInv c s G) (hcur : s.curenv = some e) {b : LiveBlock}
  (hb : b.addr % 4096 = 0 ∧ b.size % 4096 = 0 ∧ 0 < b.size)
  (hin : userHeapStart ≤ b.addr ∧ b.addr + b.size ≤ userHeapMax)

include hinv hcur hb hin

end Calls

/-! ## The two sides agree -/

end UserHeap
end FosMemory
