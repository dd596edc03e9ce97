import FosMemory.Sched.Traps
import FosMemory.Syscall.Calls

/-!
# Transparency — page faults inside system calls

A call that takes no fault does the same whichever other pages are resident.  A call that takes one
is abandoned: the environment resumes with the number of the call in `eax`.  Nobody notices this
only where the number is the result and nothing was left to be done, as for `SYS_cputs` when the
fault hits the byte behind the last character.
-/

namespace FosMemory

open Lib

/-! ## States that differ in the resident pages -/

/-- The same state with other resident pages. -/
def CallState.withResident (s : CallState) (r : Nat → Bool) : CallState :=
  { s with resident := r }

/-- What is compared at the end: everything but the resident pages. -/
def Resume.visible : Resume → Resume
  | .user eax s => .user eax (s.withResident fun _ => false)
  | .killed s => .killed (s.withResident fun _ => false)
  | .loops => .loops

/-- Same memory, same `eax` and same effects in the kernel. -/
def SameEffect (x y : Resume) : Prop :=
  x.visible = y.visible

/-- The call without any fault. -/
def complete : CallProg → CallState → Resume
  | .ret w, s => .user w s
  | .load va k, s => complete (k (s.mem va)) s
  | .store va w k, s => complete k (s.storeWord va w)
  | .putch c k, s => complete k { s with console := s.console ++ [c] }
  | .create k, s => complete (k s.createEnv.1) s.createEnv.2
  | .loops, _ => .loops

theorem createEnv_withResident (s : CallState) (r : Nat → Bool) :
    (s.withResident r).createEnv = (s.createEnv.1, s.createEnv.2.withResident r) := by
  simp only [CallState.createEnv, CallState.withResident]
  cases schedEnvCreate s.sched (some s.directory) with
  | mk e t => cases e <;> rfl

theorem createEnv_resident (s : CallState) : s.createEnv.2.resident = s.resident := by
  simp only [CallState.createEnv]
  cases schedEnvCreate s.sched (some s.directory) with
  | mk e t => cases e <;> rfl

theorem createEnv_valid (s : CallState) : s.createEnv.2.valid = s.valid := by
  simp only [CallState.createEnv]
  cases schedEnvCreate s.sched (some s.directory) with
  | mk e t => cases e <;> rfl

theorem accesses_withResident (prog : CallProg) (s : CallState) (r : Nat → Bool) :
    accesses prog (s.withResident r) = accesses prog s := by
  induction prog generalizing s with
  | ret w => rfl
  | load va k ih => exact congrArg (va :: ·) (ih _ s)
  | store va w k ih => exact congrArg (fun l => va :: wordEnd va :: l) (ih (s.storeWord va w))
  | putch c k ih => exact ih { s with console := s.console ++ [c] }
  | create k ih =>
    simp only [accesses, createEnv_withResident]
    exact ih _ s.createEnv.2
  | loops => rfl

theorem complete_visible (prog : CallProg) (s : CallState) (r : Nat → Bool) :
    (complete prog (s.withResident r)).visible = (complete prog s).visible := by
  induction prog generalizing s with
  | ret w => rfl
  | load va k ih => exact ih _ s
  | store va w k ih => exact ih (s.storeWord va w)
  | putch c k ih => exact ih { s with console := s.console ++ [c] }
  | create k ih =>
    simp only [complete, createEnv_withResident]
    exact ih _ s.createEnv.2
  | loops => rfl

/-! ## With and without faults -/

/-- Every page the program accesses is resident. -/
def AllResident (prog : CallProg) (s : CallState) : Prop :=
  ∀ va ∈ accesses prog s, s.resident (pageOf va) = true

section Run

variable (replace : (Nat → Bool) → Nat → Nat → Bool) (number : Word)

theorem runCall_resident {prog : CallProg} {s : CallState} (h : AllResident prog s) :
    runCall replace number prog s = complete prog s := by
  induction prog generalizing s with
  | ret w => rfl
  | load va k ih =>
    have hva := h va List.mem_cons_self
    rw [runCall, if_pos hva]
    exact ih _ fun a ha => h a (List.mem_cons_of_mem _ ha)
  | store va w k ih =>
    have hva := h va List.mem_cons_self
    have hend := h (wordEnd va) (List.mem_cons_of_mem _ List.mem_cons_self)
    rw [runCall, if_neg (by simp [hva]), if_neg (by simp [hend])]
    exact ih fun a ha => h a (List.mem_cons_of_mem _ (List.mem_cons_of_mem _ ha))
  | putch c k ih => exact ih h
  | create k ih =>
    refine ih _ fun a ha => ?_
    rw [createEnv_resident]
    exact h a ha
  | loops => rfl

theorem kernelFault_user {va : Nat} {s : CallState} (h : s.valid (pageOf va) = true) :
    ∃ t, kernelFault replace number va s = .user number t ∧ t.console = s.console := by
  rw [kernelFault, if_pos h]
  exact ⟨_, rfl, rfl⟩

/-- The first fault on a valid page ends the call. -/
theorem runCall_fault {prog : CallProg} {s : CallState} (h : ¬ AllResident prog s)
    (hvalid : ∀ va ∈ accesses prog s, s.resident (pageOf va) = false → s.valid (pageOf va) = true) :
    ∃ t, runCall replace number prog s = .user number t := by
  induction prog generalizing s with
  | ret w => exact absurd (fun _ ha => by cases ha) h
  | load va k ih =>
    by_cases hva : s.resident (pageOf va) = true
    · rw [runCall, if_pos hva]
      refine ih _ (fun hall => h fun a ha => ?_) fun a ha => hvalid a (List.mem_cons_of_mem _ ha)
      rcases List.mem_cons.1 ha with rfl | ha
      · exact hva
      · exact hall a ha
    · rw [runCall, if_neg hva]
      obtain ⟨t, ht, -⟩ := kernelFault_user replace number
        (hvalid va List.mem_cons_self (Bool.eq_false_of_not_eq_true hva))
      exact ⟨t, ht⟩
  | store va w k ih =>
    have hmem : wordEnd va ∈ accesses (.store va w k) s := List.mem_cons_of_mem _ List.mem_cons_self
    by_cases hva : s.resident (pageOf va) = false
    · rw [runCall, if_pos hva]
      obtain ⟨t, ht, -⟩ := kernelFault_user replace number
        (hvalid va List.mem_cons_self hva)
      exact ⟨t, ht⟩
    · by_cases hend : s.resident (pageOf (wordEnd va)) = false
      · rw [runCall, if_neg hva, if_pos hend]
        obtain ⟨t, ht, -⟩ := kernelFault_user replace number
          (hvalid (wordEnd va) hmem hend)
        exact ⟨t, ht⟩
      · rw [runCall, if_neg hva, if_neg hend]
        refine ih (fun hall => h fun a ha => ?_) fun a ha =>
          hvalid a (List.mem_cons_of_mem _ (List.mem_cons_of_mem _ ha))
        rcases List.mem_cons.1 ha with rfl | ha
        · exact Bool.eq_true_of_not_eq_false hva
        · rcases List.mem_cons.1 ha with rfl | ha
          · exact Bool.eq_true_of_not_eq_false hend
          · exact hall a ha
  | putch c k ih => exact ih h hvalid
  | create k ih =>
    refine ih _ (fun hall => h fun a ha => ?_) fun a ha => ?_
    · have := hall a ha
      rwa [createEnv_resident] at this
    · rw [createEnv_resident, createEnv_valid]
      exact hvalid a ha
  | loops => exact absurd (fun _ ha => by cases ha) h

/-- A call whose result is not its number: a fault is always noticed. -/
theorem sameEffect_iff_resident {prog : CallProg} {s : CallState} {r : Nat → Bool}
    (hr : AllResident prog (s.withResident r))
    (hvalid : ∀ p, s.resident p ≠ r p → s.valid p = true)
    (hret : ∀ t, complete prog s ≠ .user number t) :
    SameEffect (runCall replace number prog s) (runCall replace number prog (s.withResident r)) ↔
      AllResident prog s := by
  rw [runCall_resident replace number hr, SameEffect, complete_visible]
  constructor
  · intro hsame
    by_contra hfault
    obtain ⟨t, ht⟩ := runCall_fault replace number hfault fun va hva hnot => by
      refine hvalid _ fun heq => ?_
      rw [← accesses_withResident prog s r] at hva
      have hres : r (pageOf va) = true := hr va hva
      rw [← heq, hnot] at hres
      cases hres
    rw [ht] at hsame
    cases hc : complete prog s with
    | user eax u =>
      rw [hc] at hsame
      injection hsame with heax _
      exact hret u (heax ▸ hc)
    | killed u =>
      rw [hc] at hsame
      cases hsame
    | loops =>
      rw [hc] at hsame
      cases hsame
  · intro hall
    rw [runCall_resident replace number hall]

/-! ## Printing a string -/

theorem putchAll_run (cs : List UInt8) (k : CallProg) (s : CallState) :
    runCall replace number (putchAll cs k) s =
      runCall replace number k { s with console := s.console ++ cs } := by
  induction cs generalizing s with
  | nil => simp [putchAll]
  | cons c cs ih =>
    rw [putchAll, runCall, ih]
    simp

theorem accesses_putchAll (cs : List UInt8) (k : CallProg) (s : CallState) :
    accesses (putchAll cs k) s = accesses k { s with console := s.console ++ cs } := by
  induction cs generalizing s with
  | nil => simp [putchAll]
  | cons c cs ih =>
    rw [putchAll, accesses, ih]
    simp

/-- The console only grows. -/
theorem console_le {prog : CallProg} {s t : CallState} {eax : Word}
    (h : runCall replace number prog s = .user eax t) : s.console.length ≤ t.console.length := by
  induction prog generalizing s with
  | ret w =>
    cases h
    exact Nat.le_refl _
  | load va k ih =>
    rw [runCall] at h
    split at h
    case isTrue => exact ih _ h
    case isFalse =>
      rw [kernelFault] at h
      split at h
      case isTrue =>
        cases h
        exact Nat.le_refl _
      case isFalse => cases h
  | store va w k ih =>
    have hfault : ∀ a, kernelFault replace number a s = .user eax t →
        s.console.length ≤ t.console.length := by
      intro a ha
      rw [kernelFault] at ha
      split at ha
      case isTrue =>
        cases ha
        exact Nat.le_refl _
      case isFalse => cases ha
    rw [runCall] at h
    split at h
    case isTrue => exact hfault _ h
    case isFalse =>
      split at h
      case isTrue => exact hfault _ h
      case isFalse =>
        have hle := ih h
        exact hle
  | putch c k ih =>
    have hle := ih h
    simp only [List.length_append, List.length_singleton] at hle
    omega
  | create k ih =>
    have hle := ih _ h
    have hsame : s.createEnv.2.console = s.console := by
      simp only [CallState.createEnv]
      cases schedEnvCreate s.sched (some s.directory) with
      | mk e u => cases e <;> rfl
    rwa [hsame] at hle
  | loops => cases h

/-- The loop at a byte that ends the string. -/
theorem printLoop_stop {rounds p : Nat} {precision : Option Nat} {k : CallProg} {s : CallState}
    (h : s.mem p = 0 ∨ lowerPrecision precision = none) :
    runCall replace number (printLoop (rounds + 1) p precision k) s =
      if s.resident (pageOf p) then runCall replace number k s
      else kernelFault replace number p s := by
  rw [printLoop, runCall]
  rcases h with h | h
  · simp only [h, if_true]
  · simp only [h, ite_self]

/-- The loop at a character that is printed. -/
theorem printLoop_next {rounds p : Nat} {precision lower : Option Nat} {k : CallProg} {s : CallState}
    (hch : s.mem p ≠ 0) (hlower : lowerPrecision precision = some lower) :
    runCall replace number (printLoop (rounds + 1) p precision k) s =
      if s.resident (pageOf p) then
        runCall replace number (printLoop rounds ((p + 1) % wordMod) lower k)
          { s with console := s.console ++ [s.mem p] }
      else kernelFault replace number p s := by
  rw [printLoop, runCall]
  simp only [if_neg hch, hlower]
  rfl

/-- A string printed at the end of a call whose number is its result: what counts is that the
characters are resident. -/
theorem printLoop_sameEffect {rounds p : Nat} {precision : Option Nat} {s : CallState}
    {r : Nat → Bool} (hvalid : ∀ p, s.resident p ≠ r p → s.valid p = true)
    (hr : AllResident (printLoop rounds p precision (.ret number)) (s.withResident r)) :
    SameEffect (runCall replace number (printLoop rounds p precision (.ret number)) s)
        (runCall replace number (printLoop rounds p precision (.ret number)) (s.withResident r)) ↔
      ∀ va ∈ printedAt s.mem rounds p precision, s.resident (pageOf va) = true := by
  induction rounds generalizing p precision s with
  | zero => exact iff_of_true rfl fun _ ha => by cases ha
  | succ rounds ih =>
    have hp : r (pageOf p) = true := hr p List.mem_cons_self
    have hfault : s.resident (pageOf p) ≠ true →
        ∃ t, kernelFault replace number p s = .user number t ∧ t.console = s.console := by
      intro hnot
      refine kernelFault_user replace number (hvalid _ fun heq => hnot ?_)
      rw [heq, hp]
    by_cases hstop : s.mem p = 0 ∨ lowerPrecision precision = none
    · -- nothing more is printed, with or without a fault
      have hnone : printedAt s.mem (rounds + 1) p precision = [] := by
        rw [printedAt]
        rcases hstop with h | h
        · rw [if_pos h]
        · simp only [h, ite_self]
      rw [hnone]
      refine iff_of_true ?_ fun _ ha => by cases ha
      rw [printLoop_stop replace number hstop,
        printLoop_stop replace number (s := s.withResident r) hstop,
        if_pos (show (s.withResident r).resident (pageOf p) = true from hp)]
      by_cases hres : s.resident (pageOf p) = true
      · rw [if_pos hres]
        rfl
      · rw [if_neg hres, kernelFault, if_pos]
        · rfl
        · refine hvalid _ fun heq => hres ?_
          rw [heq, hp]
    · obtain ⟨hch, hlow⟩ := not_or.1 hstop
      obtain ⟨lower, hlower⟩ := Option.ne_none_iff_exists'.1 hlow
      have hmore : printedAt s.mem (rounds + 1) p precision =
          p :: printedAt s.mem rounds ((p + 1) % wordMod) lower := by
        rw [printedAt, if_neg hch, hlower]
      have hrest : AllResident (printLoop rounds ((p + 1) % wordMod) lower (.ret number))
          ({ s with console := s.console ++ [s.mem p] }.withResident r) := by
        intro a ha
        refine hr a (List.mem_cons_of_mem _ ?_)
        simp only [CallState.withResident, if_neg hch, hlower]
        exact ha
      rw [hmore, printLoop_next replace number hch hlower,
        printLoop_next replace number (s := s.withResident r) hch hlower,
        if_pos (show (s.withResident r).resident (pageOf p) = true from hp)]
      by_cases hres : s.resident (pageOf p) = true
      · rw [if_pos hres, List.forall_mem_cons]
        exact (ih (s := { s with console := s.console ++ [s.mem p] }) hvalid hrest).trans
          (and_iff_right hres).symm
      · -- the fault comes before the character is printed
        refine iff_of_false (fun hsame => ?_) fun hall => hres (hall p List.mem_cons_self)
        obtain ⟨t, ht, hcon⟩ := hfault hres
        rw [if_neg hres, ht, SameEffect] at hsame
        cases hc : runCall replace number (printLoop rounds ((p + 1) % wordMod) lower (.ret number))
            { s.withResident r with console := s.console ++ [s.mem p] } with
        | user eax u =>
          have hle := console_le replace number hc
          have hsame' : (Resume.user number t).visible = (Resume.user eax u).visible := by
            rw [hsame, ← hc]
            rfl
          injection hsame' with _ hst
          have hcons := congrArg CallState.console hst
          simp only [CallState.withResident] at hcons
          rw [← hcons, hcon] at hle
          simp at hle
        | killed u =>
          have hsame' : (Resume.user number t).visible = (Resume.killed u).visible := by
            rw [hsame, ← hc]
            rfl
          cases hsame'
        | loops =>
          have hsame' : (Resume.user number t).visible = Resume.loops.visible := by
            rw [hsame, ← hc]
            rfl
          cases hsame'

end Run

/-! ## Results -/

theorem complete_putchAll (cs : List UInt8) (k : CallProg) (s : CallState) :
    complete (putchAll cs k) s = complete k { s with console := s.console ++ cs } := by
  induction cs generalizing s with
  | nil => simp [putchAll]
  | cons c cs ih =>
    rw [putchAll, complete, ih]
    simp

theorem complete_printLoop (rounds p : Nat) (precision : Option Nat) (k : CallProg) (s : CallState) :
    complete (printLoop rounds p precision k) s = .loops ∨
      ∃ console, complete (printLoop rounds p precision k) s =
        complete k { s with console := console } := by
  induction rounds generalizing p precision s with
  | zero => exact .inl rfl
  | succ rounds ih =>
    rw [printLoop, complete]
    by_cases hch : s.mem p = 0
    · rw [if_pos hch]
      exact .inr ⟨s.console, rfl⟩
    · rw [if_neg hch]
      cases lowerPrecision precision with
      | none => exact .inr ⟨s.console, rfl⟩
      | some lower => exact ih ((p + 1) % wordMod) lower { s with console := s.console ++ [s.mem p] }

theorem complete_printString (p : Nat) (precision : Option Nat) (k : CallProg) (s : CallState) :
    complete (printString p precision k) s = .loops ∨
      ∃ console, complete (printString p precision k) s =
        complete k { s with console := console } := by
  by_cases hp : p = 0
  · simp only [printString, if_pos hp]
    exact .inr ⟨_, complete_putchAll _ _ _⟩
  · simp only [printString, if_neg hp]
    exact complete_printLoop _ _ _ _ _

theorem complete_strcmpProg (q : List UInt8) (va : Nat) (k : Bool → CallProg) (s : CallState) :
    ∃ b, complete (strcmpProg q va k) s = complete (k b) s := by
  induction q generalizing va with
  | nil => exact ⟨_, rfl⟩
  | cons d q ih =>
    rw [strcmpProg, complete]
    split
    case isTrue => exact ih ((va + 1) % wordMod)
    case isFalse => exact ⟨false, rfl⟩

theorem complete_findProgram (names : List (List UInt8)) (va : Nat) (k : Bool → CallProg)
    (s : CallState) : ∃ b, complete (findProgram names va k) s = complete (k b) s := by
  induction names with
  | nil => exact ⟨false, rfl⟩
  | cons q names ih =>
    rw [findProgram]
    obtain ⟨b, hb⟩ := complete_strcmpProg q va
      (fun equal => if equal then k true else findProgram names va k) s
    rw [hb]
    cases b with
    | true => exact ⟨true, rfl⟩
    | false => exact ih

/-- `sys_create_env` returns an identifier or an error, and never its own number. -/
theorem createEnv_ne_number {s : CallState} (h : SchedRun s.sched) : s.createEnv.1 ≠ 29#32 := by
  obtain ⟨xs, hinv⟩ := h.inv
  rw [CallState.createEnv]
  cases hfirst : (s.sched.queues .free).lhFirst with
  | none =>
    simp only [schedEnvCreate, hfirst]
    decide
  | some e =>
    have hmem : e ∈ xs .free := by
      refine List.mem_of_head? ?_
      rw [← (hinv.placed.lists.list .free).first, hfirst]
    have hid : newEnvId (s.sched.envs e).envId e = liveId e := by
      rw [hinv.placed.freeId e hmem, newEnvId_zero]
    have hne : liveId e ≠ 29#32 := by
      intro heq
      have hnat := congrArg BitVec.toNat heq
      rw [liveId_toNat (hinv.placed.lt hmem), BitVec.toNat_ofNat] at hnat
      omega
    simpa [schedEnvCreate, hfirst, schedNewEnv, schedInsertNew, schedInsert, Sched.insertTail,
      Sched.setQueue, Sched.remove, hid] using hne

/-! ## The calls -/

/-- The pages that have to be resident for the call to go unnoticed through: for `SYS_cputs` those of
the characters it prints, otherwise all it accesses. -/
def NeededResident (c : UserCall) (s : CallState) : Prop :=
  match c with
  | .cputs p len => p ≠ 0 →
    ∀ va ∈ printedAt s.mem wordMod p (precisionOf len), s.resident (pageOf va) = true
  | c => AllResident (c.body s) s

/-- For every call and two states that differ in which valid pages are resident, where the second one
takes no fault: the environment resumes with the same memory, the same `eax` and the same effects
exactly if the needed pages are resident in the first one. -/
theorem sysCall_transparent_iff (replace : (Nat → Bool) → Nat → Nat → Bool) (c : UserCall)
    {s : CallState} {r : Nat → Bool} (hrun : SchedRun s.sched)
    (hvalid : ∀ p, s.resident p ≠ r p → s.valid p = true)
    (hr : AllResident (c.body (s.withResident r)) (s.withResident r)) :
    SameEffect (sysCall replace c s) (sysCall replace c (s.withResident r)) ↔
      NeededResident c s := by
  have hbody : c.body (s.withResident r) = c.body s := by cases c <;> rfl
  rw [hbody] at hr
  rw [sysCall, sysCall, hbody]
  cases c with
  | cputs p len =>
    simp only [UserCall.body, UserCall.number, putchAll_run, NeededResident]
    by_cases hp : p = 0
    · simp only [printString, if_pos hp, putchAll_run]
      exact iff_of_true rfl fun h => absurd hp h
    · rw [imp_iff_right hp]
      have hr' : AllResident (printLoop wordMod p (precisionOf len) (.ret 0#32))
          ({ s with console := s.console ++ s.header }.withResident r) := by
        intro va hva
        refine hr va ?_
        simp only [UserCall.body, printString, if_neg hp, accesses_putchAll]
        exact hva
      simp only [printString, if_neg hp]
      exact printLoop_sameEffect replace 0#32 hvalid hr'
  | createEnv programName =>
    refine sameEffect_iff_resident replace _ hr hvalid fun t ht => ?_
    simp only [UserCall.body] at ht
    obtain ⟨b, hb⟩ := complete_findProgram s.userPrograms programName (fun found =>
      if found then .create .ret
      else
        putchAll (textBytes "Unknown user program '")
          (printString programName none (putchAll (textBytes "'\n") (.ret envCreationError)))) s
    rw [hb] at ht
    cases b with
    | true =>
      injection ht with heax _
      exact createEnv_ne_number hrun heax
    | false =>
      simp only [Bool.false_eq_true, if_false, complete_putchAll] at ht
      rcases complete_printString programName none
        (putchAll (textBytes "'\n") (.ret envCreationError))
        { s with console := s.console ++ textBytes "Unknown user program '" } with h | ⟨console, h⟩
      · rw [h] at ht
        cases ht
      · rw [h, complete_putchAll] at ht
        injection ht with heax _
        exact absurd heax (show envCreationError ≠ 29#32 by decide)
  | getVirtualTime low hi =>
    refine sameEffect_iff_resident replace _ hr hvalid fun t ht => ?_
    injection ht with heax _
    exact absurd heax (show 0#32 ≠ 32#32 by decide)

/-- A state in which the environment is about to ask for the time, with these resident pages. -/
def timeState (sched : Sched) (resident : Nat → Bool) : CallState :=
  { mem := fun _ => 0
    resident := resident
    valid := fun _ => true
    console := []
    sched := sched
    directory := 6
    userPrograms := []
    progName := []
    time := (7#32, 0#32) }

/-- A fault handler that evicts nothing. -/
def keepAll (resident : Nat → Bool) (p q : Nat) : Bool :=
  resident q || decide (q = p)

/-- Both words on a resident page. -/
theorem sysCall_transparent_iff_time :
    ∃ sched, SchedRun sched ∧ sched.curenv = some 0 ∧
      SameEffect
        (sysCall keepAll (.getVirtualTime 0x800000 0x800004)
          (timeState sched fun p => decide (p = 0x800)))
        (sysCall keepAll (.getVirtualTime 0x800000 0x800004) (timeState sched fun _ => true)) := by
  obtain ⟨sched, -, -, hrun, -, hc, -⟩ := kernelRun_first
  refine ⟨sched, hrun, hc, ?_⟩
  have hiff := sysCall_transparent_iff keepAll (.getVirtualTime 0x800000 0x800004)
    (s := timeState sched fun p => decide (p = 0x800)) (r := fun _ => true) hrun
    (fun _ _ => rfl) (fun _ _ => rfl)
  refine hiff.2 fun va hva => ?_
  have hva' : va ∈ [0x800000, 0x800003, 0x800004, 0x800007] := hva
  simp only [List.mem_cons, List.not_mem_nil, or_false] at hva'
  rcases hva' with rfl | rfl | rfl | rfl <;> rfl

/-- The page of both words is in the page file only: the call is abandoned, `eax` is 32 instead of 0
and the time is not stored. -/
theorem sysCall_abandoned :
    ∃ sched, SchedRun sched ∧ sched.curenv = some 0 ∧
      (∃ t, sysCall keepAll (.getVirtualTime 0x800000 0x800004) (timeState sched fun _ => false) =
        .user 32#32 t ∧ t.mem 0x800000 = 0) ∧
      (∃ u, sysCall keepAll (.getVirtualTime 0x800000 0x800004) (timeState sched fun _ => true) =
        .user 0#32 u ∧ u.mem 0x800000 = 7) ∧
      ¬ SameEffect
        (sysCall keepAll (.getVirtualTime 0x800000 0x800004) (timeState sched fun _ => false))
        (sysCall keepAll (.getVirtualTime 0x800000 0x800004) (timeState sched fun _ => true)) := by
  obtain ⟨sched, -, -, hrun, -, hc, -⟩ := kernelRun_first
  refine ⟨sched, hrun, hc, ⟨_, rfl, rfl⟩, ⟨_, rfl, rfl⟩, fun hsame => ?_⟩
  injection hsame with heax _
  revert heax
  decide

end FosMemory
