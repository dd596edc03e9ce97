import Mathlib.Data.Nat.Basic
import Mathlib.Tactic.Ring

/-!
# Layout — the address map and the 32-bit arithmetic of FOS

Constants of `inc/mmu.h`, `inc/memlayout.h`, `kern/file_manager.h` and the rounding macros of
`inc/types.h`.  Addresses and sizes are `Nat`s below `2 ^ 32`; where the C code computes with
`uint32` and the result may leave that range, the reduction is written out.
-/

namespace FosMemory

/-! ## Sizes -/

/-- `PAGE_SIZE` of `inc/mmu.h`: bytes mapped by a page. -/
@[simp] def pageSize : Nat := 4096

/-- `PTSIZE`: bytes mapped by a page directory entry. -/
@[simp] def ptSize : Nat := 4194304

/-- `NPTENTRIES`, also the number of entries of a page directory. -/
@[simp] def nptEntries : Nat := 1024

/-- The range of `uint32`. -/
@[simp] def wordMod : Nat := 4294967296

/-! ## Virtual memory map -/

@[simp] def kernelBase : Nat := 0xF0000000

@[simp] def kernelHeapStart : Nat := 0xF6000000

@[simp] def kernelHeapMax : Nat := 0xFFFFF000

/-- `USER_LIMIT`, the page the kernel borrows for temporary mappings. -/
@[simp] def userLimit : Nat := 0xEF800000

/-- `USER_TOP`, also `UENVS`: the first address that is not the user's. -/
@[simp] def userTop : Nat := 0xEEC00000

@[simp] def userStackTop : Nat := 0xEEBFE000

@[simp] def userHeapStart : Nat := 0x80000000

@[simp] def userHeapMax : Nat := 0xA0000000

/-- `USER_PAGES_WS_START`: where an environment sees its own working set array, read-only. -/
@[simp] def userPagesWSStart : Nat := 0xA0000000

/-- `sizeof(struct WorkingSetElement)` on i386. -/
@[simp] def wsElementSize : Nat := 12

/-! ## Rounding macros -/

/-- `ROUNDDOWN(a, n)`. -/
def roundDown (a n : Nat) : Nat :=
  a - a % n

/-- `ROUNDUP(a, n)`: the addition is a `uint32` addition. -/
def roundUp (a n : Nat) : Nat :=
  roundDown ((a + n - 1) % wordMod) n

/-- `USER_PAGES_WS_MAX`.  The product `sizeof(struct WorkingSetElement) * USER_TOP` is a `uint32`
product and wraps around. -/
@[simp] def userPagesWSMax : Nat :=
  userPagesWSStart + wsElementSize * userTop % wordMod / pageSize

/-- `USTACKBOTTOM`. -/
@[simp] def userStackBottom : Nat :=
  roundUp userPagesWSMax pageSize

/-! ## Page directory and page table indices -/

/-- `PDX(la)`. -/
def pdx (va : Nat) : Nat :=
  va / 4194304 % 1024

/-- `PTX(la)`. -/
def ptx (va : Nat) : Nat :=
  va / 4096 % 1024

/-- `CHECK_IF_KERNEL_ADDRESS`. -/
def isKernelAddress (va : Nat) : Bool :=
  decide (userTop ≤ va)

end FosMemory
