import FosMemory.Sched.SchedRun

/-!
# Calls — system calls that access user memory

`SYS_cputs`, `SYS_create_env` and `SYS_get_virtual_time` read or write memory of the environment
through their arguments; the other calls of `kern/syscall.c` that take a pointer panic before they use
it.  A call is a program over single accesses.  An access to a page that is not resident traps in
kernel mode: `fault_handler` brings the page in and `trap` ends in `env_run(curenv)`, which resumes
the environment from its saved trapframe, so that the rest of the call is not executed.
-/

namespace FosMemory

/-! ## Programs -/

/-- The accesses and effects of a system call, in order. -/
inductive CallProg where
  /-- `return w` -/
  | ret (w : Word)
  /-- load the byte at `va` -/
  | load (va : Nat) (k : UInt8 → CallProg)
  /-- `*(uint32*)va = w` -/
  | store (va : Nat) (w : Word) (k : CallProg)
  /-- `cputchar(c)` -/
  | putch (c : UInt8) (k : CallProg)
  /-- `env_create` of a known program and `sched_new_env` -/
  | create (k : Word → CallProg)
  /-- a loop that does not end -/
  | loops

/-- What a system call can see or change.  `mem` is what the environment reads at an address, be the
page resident or in the page file. -/
structure CallState where
  mem : Nat → UInt8
  resident : Nat → Bool
  /-- the pages that are resident, in the page file or in the stack -/
  valid : Nat → Bool
  console : List UInt8
  sched : Sched
  /-- the page `create_user_directory` will obtain -/
  directory : Nat
  /-- the names in `userPrograms[]` -/
  userPrograms : List (List UInt8)
  progName : List UInt8
  /-- the value of `get_virtual_time`, low and high word -/
  time : Word × Word

/-- How control comes back from the call. -/
inductive Resume where
  /-- the environment goes on with this value in `eax` -/
  | user (eax : Word) (s : CallState)
  /-- `page_fault_handler` has panicked -/
  | killed (s : CallState)
  | loops

/-- The page of an address. -/
def pageOf (va : Nat) : Nat :=
  va / pageSize

/-- The last byte of the word at `va`. -/
def wordEnd (va : Nat) : Nat :=
  (va + 3) % wordMod

/-- A little-endian word store. -/
def CallState.storeWord (s : CallState) (va : Nat) (w : Word) : CallState :=
  { s with mem := fun a =>
      if a = va then UInt8.ofNat w.toNat
      else if a = (va + 1) % wordMod then UInt8.ofNat (w.toNat / 2 ^ 8)
      else if a = (va + 2) % wordMod then UInt8.ofNat (w.toNat / 2 ^ 16)
      else if a = wordEnd va then UInt8.ofNat (w.toNat / 2 ^ 24)
      else s.mem a }

/-- `E_ENV_CREATION_ERROR`. -/
def envCreationError : Word := BitVec.ofInt 32 (-17)

/-- The result of `sys_create_env` for a known program, and the new state. -/
def CallState.createEnv (s : CallState) : Word × CallState :=
  match schedEnvCreate s.sched (some s.directory) with
  | (none, t) => (envCreationError, { s with sched := t })
  | (some e, t) =>
    let t := schedNewEnv t (some e)
    ((t.envs e).envId, { s with sched := t })

section Run

/- The pages that are resident after `fault_handler`, under any replacement algorithm. -/
variable (replace : (Nat → Bool) → Nat → Nat → Bool)

/-- A page fault in kernel mode.  `env_run(curenv)` restores the registers saved when the call was
made: `eax` holds the number of the call. -/
def kernelFault (number : Word) (va : Nat) (s : CallState) : Resume :=
  if s.valid (pageOf va) then
    .user number { s with resident := replace s.resident (pageOf va) }
  else .killed s

/-- The execution of a call. -/
def runCall (number : Word) : CallProg → CallState → Resume
  | .ret w, s => .user w s
  | .load va k, s =>
    if s.resident (pageOf va) then runCall number (k (s.mem va)) s
    else kernelFault replace number va s
  | .store va w k, s =>
    -- the processor checks both pages before it writes
    if s.resident (pageOf va) = false then kernelFault replace number va s
    else if s.resident (pageOf (wordEnd va)) = false then
      kernelFault replace number (wordEnd va) s
    else runCall number k (s.storeWord va w)
  | .putch c k, s => runCall number k { s with console := s.console ++ [c] }
  | .create k, s => runCall number (k s.createEnv.1) s.createEnv.2
  | .loops, _ => .loops

end Run

/-- The addresses the call accesses when all its pages are resident. -/
def accesses : CallProg → CallState → List Nat
  | .ret _, _ => []
  | .load va k, s => va :: accesses (k (s.mem va)) s
  | .store va w k, s => va :: wordEnd va :: accesses k (s.storeWord va w)
  | .putch c k, s => accesses k { s with console := s.console ++ [c] }
  | .create k, s => accesses (k s.createEnv.1) s.createEnv.2
  | .loops, _ => []

/-! ## Printing -/

def putchAll : List UInt8 → CallProg → CallProg
  | [], k => k
  | c :: cs, k => .putch c (putchAll cs k)

/-- The bytes of a text of the source. -/
def textBytes (s : String) : List UInt8 :=
  s.toList.map fun c => UInt8.ofNat c.toNat

/-- `%d`: `printnum` with base 10, after a sign. -/
def printInt (w : Word) : List UInt8 :=
  let digits := (Nat.toDigits 10 w.toInt.natAbs).map fun c => UInt8.ofNat c.toNat
  if w.toInt < 0 then UInt8.ofNat '-'.toNat :: digits else digits

/-- `precision < 0 || --precision >= 0`: the precision afterwards, or `none` if the test fails.  A
negative precision is `none`. -/
def lowerPrecision : Option Nat → Option (Option Nat)
  | none => some none
  | some 0 => none
  | some (n + 1) => some (some n)

/-- The loop of `vprintfmt` for `%s`.  The byte is read before the precision is tested. -/
def printLoop : Nat → Nat → Option Nat → CallProg → CallProg
  | 0, _, _, _ => .loops
  | rounds + 1, p, precision, k =>
    .load p fun ch =>
      if ch = 0 then k
      else
        match lowerPrecision precision with
        | none => k
        | some precision => .putch ch (printLoop rounds ((p + 1) % wordMod) precision k)

/-- `%.*s`: a null pointer prints `(null)`.  Without a null byte and with a negative precision the
loop goes round the address space. -/
def printString (p : Nat) (precision : Option Nat) (k : CallProg) : CallProg :=
  if p = 0 then
    putchAll (match precision with
      | none => textBytes "(null)"
      | some n => (textBytes "(null)").take n) k
  else printLoop wordMod p precision k

/-- The addresses of the characters that the loop prints. -/
def printedAt (mem : Nat → UInt8) : Nat → Nat → Option Nat → List Nat
  | 0, _, _ => []
  | rounds + 1, p, precision =>
    if mem p = 0 then []
    else
      match lowerPrecision precision with
      | none => []
      | some precision => p :: printedAt mem rounds ((p + 1) % wordMod) precision

/-! ## The calls -/

/-- `strcmp(va, q) == 0`, for a kernel string `q`. -/
def strcmpProg : List UInt8 → Nat → (Bool → CallProg) → CallProg
  | [], va, k => .load va fun c => k (decide (c = 0))
  | d :: q, va, k =>
    .load va fun c =>
      if c ≠ 0 ∧ c = d then strcmpProg q ((va + 1) % wordMod) k else k false

/-- The loop of `get_user_program_info`. -/
def findProgram : List (List UInt8) → Nat → (Bool → CallProg) → CallProg
  | [], _, k => k false
  | q :: qs, va, k => strcmpProg q va fun equal => if equal then k true else findProgram qs va k

/-- The system calls that access user memory through their arguments. -/
inductive UserCall where
  | cputs (s : Nat) (len : Word)
  | createEnv (programName : Nat)
  | getVirtualTime (low hi : Nat)
  deriving DecidableEq, Repr

/-- The system call numbers of `inc/syscall.h`. -/
def UserCall.number : UserCall → Word
  | .cputs _ _ => 0#32
  | .createEnv _ => 29#32
  | .getVirtualTime _ _ => 32#32

/-- `[%s %d] ` with the name and the identifier of the current environment. -/
def CallState.header (s : CallState) : List UInt8 :=
  textBytes "[" ++ s.progName ++ textBytes " " ++
    printInt (match s.sched.curenv with
      | none => 0#32
      | some e => (s.sched.envs e).envId) ++ textBytes "] "

/-- `int precision = len`. -/
def precisionOf (len : Word) : Option Nat :=
  if len.toInt < 0 then none else some len.toInt.toNat

/-- The body of the case of `syscall`. -/
def UserCall.body (st : CallState) : UserCall → CallProg
  | .cputs s len => putchAll st.header (printString s (precisionOf len) (.ret 0#32))
  | .createEnv programName =>
    findProgram st.userPrograms programName fun found =>
      if found then .create .ret
      else
        putchAll (textBytes "Unknown user program '")
          (printString programName none (putchAll (textBytes "'\n") (.ret envCreationError)))
  | .getVirtualTime low hi => .store low st.time.1 (.store hi st.time.2 (.ret 0#32))

/-- A system call of the running environment. -/
def sysCall (replace : (Nat → Bool) → Nat → Nat → Bool) (c : UserCall) (s : CallState) : Resume :=
  runCall replace c.number (c.body s) s

end FosMemory
