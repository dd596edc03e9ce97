import FosMemory.Sched.SchedRun

/-!
# Traps — how the kernel returns after a scheduler operation

A system call or a clock interrupt runs an operation of the scheduler inside `trap`.  If it returns,
`trap` asserts that `curenv` is ready and runs it; a failed assertion ends in `_panic`, which calls
the scheduler.  At the command prompt an operation that returns goes back to the prompt.
-/

namespace FosMemory

open Lib

/-! ## The end of a trap -/

/-- `env_exit`. -/
def envExit (s : Sched) (e : Nat) : Leave :=
  match schedExitEnv (s.envs e).envId s with
  | .error l => l
  | .ok s => fosScheduler s

/-- `_panic`. -/
def kernelPanic (s : Sched) : Leave :=
  match s.curenv with
  | none => fosScheduler s
  | some e => if (s.envs e).envStatus = .ready then envExit s e else fosScheduler s

/-- `assert(curenv && curenv->env_status == ENV_READY)`. -/
def trapAssert (s : Sched) : Bool :=
  match s.curenv with
  | none => false
  | some e => decide ((s.envs e).envStatus = .ready)

/-- The end of `trap`, after `trap_dispatch` has returned. -/
def trapEnd (s : Sched) : Leave :=
  match s.curenv with
  | none => kernelPanic s
  | some e => if (s.envs e).envStatus = .ready then .user (schedEnvRun s e) else kernelPanic s

/-- `sys_env_destroy`; `e->env_id` with `e = NULL` is a null pointer access. -/
def sysEnvDestroy (envId : Word) (s : Sched) : Except Leave Sched :=
  match envid2env s envId with
  | none => .ok s
  | some none => .error .nullPointer
  | some (some e) => schedKillEnv (s.envs e).envId s

/-- What `trap_dispatch` can run while an environment is running: `SYS_free_env`, `SYS_env_destroy`,
`sched_exit_env`, `sched_kill_all` and `clock_interrupt_handler`. -/
inductive TrapOp where
  | freeEnv (envId : Word)
  | envDestroy (envId : Word)
  | exitEnv (envId : Word)
  | killAll
  | clock

def trapDispatch (s : Sched) : TrapOp → Except Leave Sched
  | .freeEnv envId => schedKillEnv envId s
  | .envDestroy envId => sysEnvDestroy envId s
  | .exitEnv envId => schedExitEnv envId s
  | .killAll => schedKillAll s
  | .clock => .error (fosScheduler s)

/-- `trap`: how control leaves the kernel, and whether the assertion was reached and failed. -/
def trap (r : Except Leave Sched) : Leave × Bool :=
  match r with
  | .error l => (l, false)
  | .ok s => (trapEnd s, !trapAssert s)

/-- The states in which the kernel is in user mode or at the prompt.  An operation started at the
prompt returns to the prompt. -/
inductive KernelRun : Leave → Prop where
  | boot : KernelRun (.prompt Sched.boot)
  | command {s t : Sched} (op : SchedOp) (h : KernelRun (.prompt s)) (hop : op.Allowed s)
      (ht : schedStep s op = .ok t) : KernelRun (.prompt t)
  | commandLeaves {s : Sched} {l : Leave} (op : SchedOp) (h : KernelRun (.prompt s))
      (hop : op.Allowed s) (hl : schedStep s op = .error l) : KernelRun l
  | syscall {s : Sched} (op : SchedOp) (h : KernelRun (.user s)) (hop : op.Allowed s) :
      KernelRun (trap (schedStep s op)).1
  | trap {s : Sched} (op : TrapOp) (h : KernelRun (.user s)) :
      KernelRun (trap (trapDispatch s op)).1

/-! ## Invariant -/

/-- `curenv` is `NULL`, or ready, in the ready list, and has its page directory. -/
def CurenvReady (s : Sched) : Prop :=
  ∀ c, s.curenv = some c → c ∈ s.elements .ready ∧ (s.envs c).envStatus = .ready ∧
    s.directories (s.envs c).envPageDirectory = true

/-- The kernel has left to user mode or to the prompt with a good `curenv`. -/
def LeavesReady : Leave → Prop
  | .user s => CurenvReady s ∧ ∃ c, s.curenv = some c
  | .prompt s => CurenvReady s
  | .nullPointer => False
  | .loops => False

/-- In user mode the current environment is ready; at the prompt there is none. -/
def LeaveInv : Leave → Prop
  | .user s => ∃ xs c, SchedInv s xs ∧ s.curenv = some c ∧ c ∈ xs .ready
  | .prompt s => ∃ xs, SchedInv s xs ∧ s.curenv = none
  | .nullPointer => False
  | .loops => False

theorem LeaveInv.leavesReady {l : Leave} (h : LeaveInv l) : LeavesReady l := by
  cases l with
  | user s =>
    obtain ⟨xs, c, hinv, hc, hready⟩ := h
    refine ⟨fun c' hc' => ?_, c, hc⟩
    rw [hc] at hc'
    cases hc'
    rw [hinv.placed.elements]
    exact ⟨hready, hinv.placed.status .ready c hready, hinv.placed.directory .ready (by decide) c hready⟩
  | prompt s =>
    obtain ⟨xs, hinv, hc⟩ := h
    intro c' hc'
    rw [hc] at hc'
    cases hc'
  | nullPointer => exact h
  | loops => exact h

theorem Queued.leaveInv_pick {s : Sched} {xs : QueueId → List Nat} (h : Queued s xs) :
    LeaveInv (fosScheduler s) := by
  obtain ⟨t, ht, -, ⟨c, hrun, hc, hmem⟩ | ⟨hrun, hc⟩⟩ := h.pick
  · rw [hrun]
    exact ⟨xs, c, ht, hc, hmem⟩
  · rw [hrun]
    exact ⟨xs, ht, hc⟩

theorem trapAssert_iff {s : Sched} {xs : QueueId → List Nat} {c : Nat} (h : Queued s xs)
    (hc : s.curenv = some c) (hlt : c < nenv) : trapAssert s = true ↔ c ∈ xs .ready := by
  rw [trapAssert, hc]
  simp only [decide_eq_true_eq]
  constructor
  · intro hstatus
    obtain ⟨q, hq⟩ := (h.cover c).1 hlt
    rw [h.status q c hq] at hstatus
    cases q <;> first | exact hq | cases hstatus
  · exact h.status .ready c

/-- An operation that runs inside `trap`. -/
theorem trap_effect {s : Sched} {xs : QueueId → List Nat} {c : Nat} {killed : Prop}
    {r : Except Leave Sched} (h : SchedInv s xs) (hc : s.curenv = some c) (hready : c ∈ xs .ready)
    (he : Effect s xs killed r) :
    LeaveInv (trap r).1 ∧ ((trap r).2 = false ↔ ¬ killed) := by
  cases he with
  | leaves hplaced hsafe => exact ⟨hplaced.leaveInv_pick, iff_of_true rfl hsafe⟩
  | @returns t ys hplaced hsame hstopped hkept =>
    have htc : t.curenv = some c := hsame.curenv.trans hc
    have hassert := trapAssert_iff hplaced htc (h.current c hc)
    rw [hkept c hc hready] at hassert
    have hfails : (trap (.ok t)).2 = false ↔ ¬ killed := by
      rw [trap, ← hassert]
      simp
    refine ⟨?_, hfails⟩
    simp only [trap, trapEnd, htc]
    split
    case isTrue hstatus =>
      -- the environment goes on running
      have hrun : schedEnvRun t c = t := by rw [schedEnvRun, if_pos htc]
      have hmem : c ∈ ys .ready := by
        obtain ⟨q, hq⟩ := (hplaced.cover c).1 (h.current c hc)
        rw [hplaced.status q c hq] at hstatus
        cases q <;> first | exact hq | cases hstatus
      rw [hrun]
      exact ⟨ys, c, h.of_returns hplaced hsame hstopped, htc, hmem⟩
    case isFalse hstatus =>
      -- `_panic` finds that `curenv` is not ready
      have hpanic : kernelPanic t = fosScheduler t := by
        simp only [kernelPanic, htc, if_neg hstatus]
      rw [hpanic]
      exact hplaced.leaveInv_pick

/-- The identifier of the environment that the operation kills. -/
def TrapOp.killedId (s : Sched) : TrapOp → Option Word
  | .freeEnv envId => some envId
  | .envDestroy envId =>
    match envid2env s envId with
    | some (some e) => some (s.envs e).envId
    | _ => none
  | .exitEnv _ => none
  | .killAll => none
  | .clock => none

/-- The operation kills the running environment. -/
def TrapOp.KillsRunning (s : Sched) (op : TrapOp) : Prop :=
  ∃ c, s.curenv = some c ∧ op.killedId s = some (s.envs c).envId

theorem trapDispatch_effect {s : Sched} {xs : QueueId → List Nat} {c : Nat} (h : SchedInv s xs)
    (hc : s.curenv = some c) (hready : c ∈ xs .ready) (op : TrapOp) :
    Effect s xs (op.KillsRunning s) (trapDispatch s op) := by
  -- with a running environment, naming it and being about to kill it are the same
  have hnames : ∀ envId, NamesCurrent s xs envId ↔ ∃ c, s.curenv = some c ∧
      some envId = some (s.envs c).envId := by
    intro envId
    constructor
    · rintro ⟨c', hc', -, hid⟩
      exact ⟨c', hc', by rw [hid]⟩
    · rintro ⟨c', hc', hid⟩
      rw [hc] at hc'
      cases hc'
      exact ⟨c, hc, hready, (Option.some.inj hid).symm⟩
  have hnone : ∀ op : TrapOp, op.killedId s = none → (op.KillsRunning s ↔ False) := by
    intro op hop
    refine iff_of_false ?_ not_false
    rintro ⟨c', -, hid⟩
    rw [hop] at hid
    cases hid
  cases op with
  | freeEnv envId =>
    have heffect := schedKillEnv_effect h envId
    rwa [propext (hnames envId)] at heffect
  | envDestroy envId =>
    rw [trapDispatch, sysEnvDestroy]
    cases hlookup : envid2env s envId with
    | none =>
      have hop : (TrapOp.envDestroy envId).killedId s = none := by
        rw [TrapOp.killedId, hlookup]
      exact h.returns h.placed ⟨rfl, rfl⟩ fun hk => (hnone _ hop).1 hk
    | some p =>
      cases p with
      | none =>
        -- `envid2env` returns `curenv` or a slot
        rw [envid2env] at hlookup
        split at hlookup
        case isTrue => simp [hc] at hlookup
        case isFalse => simp only at hlookup; split at hlookup <;> simp at hlookup
      | some e =>
        have heffect := schedKillEnv_effect h (s.envs e).envId
        have hop : (TrapOp.envDestroy envId).killedId s = some (s.envs e).envId := by
          rw [TrapOp.killedId, hlookup]
        have hkills : (TrapOp.envDestroy envId).KillsRunning s ↔
            NamesCurrent s xs (s.envs e).envId := by
          rw [hnames, TrapOp.KillsRunning, hop]
        rwa [← propext hkills] at heffect
  | exitEnv envId =>
    rw [propext (hnone (.exitEnv envId) rfl)]
    exact schedExitEnv_effect h envId
  | killAll =>
    rw [propext (hnone .killAll rfl)]
    exact schedKillAll_effect h
  | clock => exact .leaves h.placed fun hk => (hnone .clock rfl).1 hk

/-! ## Runs -/

theorem KernelRun.inv {l : Leave} (h : KernelRun l) : LeaveInv l := by
  induction h with
  | boot =>
    refine ⟨bootLists, boot_inv, ?_⟩
    rw [Sched.boot, schedInit_curenv]
    exact (envInit_same nenv Sched.blank).1
  | command op h hop ht ih =>
    obtain ⟨xs, hinv, hc⟩ := ih
    have heffect := schedStep_effect hinv hop
    rw [ht] at heffect
    cases heffect with
    | returns hplaced hsame hstopped _ =>
      exact ⟨_, hinv.of_returns hplaced hsame hstopped, hsame.curenv.trans hc⟩
  | commandLeaves op h hop hl ih =>
    obtain ⟨xs, hinv, hc⟩ := ih
    have heffect := schedStep_effect hinv hop
    rw [hl] at heffect
    cases heffect with
    | leaves hplaced _ => exact hplaced.leaveInv_pick
  | syscall op h hop ih =>
    obtain ⟨xs, c, hinv, hc, hready⟩ := ih
    exact (trap_effect hinv hc hready (schedStep_effect hinv hop)).1
  | trap op h ih =>
    obtain ⟨xs, c, hinv, hc, hready⟩ := ih
    exact (trap_effect hinv hc hready (trapDispatch_effect hinv hc hready op)).1

/-- Whenever an environment is running and the kernel performs one of the operations, it returns to
user mode or to the prompt with `curenv` `NULL` or ready; the assertion at the end of `trap` does not
fail exactly if the operation does not kill the running environment. -/
theorem kernelRun_curenv_iff {s : Sched} (h : KernelRun (.user s)) (op : TrapOp) :
    (LeavesReady (trap (trapDispatch s op)).1 ∧ (trap (trapDispatch s op)).2 = false) ↔
      ¬ op.KillsRunning s := by
  obtain ⟨xs, c, hinv, hc, hready⟩ := h.inv
  obtain ⟨hleave, hassert⟩ := trap_effect hinv hc hready (trapDispatch_effect hinv hc hready op)
  rw [hassert]
  exact and_iff_right hleave.leavesReady

/-- An environment created and run from the prompt: it is in slot 0 and has identifier 4096. -/
theorem kernelRun_first : ∃ s xs, KernelRun (.user s) ∧ SchedRun s ∧ SchedInv s xs ∧
    s.curenv = some 0 ∧ 0 ∈ xs .ready ∧ (s.envs 0).envId = 4096#32 := by
  have hfree : bootLists .free = 0 :: (List.range 1378).map Nat.succ := by
    rw [bootLists, nenv, List.range_succ_eq_map]
  obtain ⟨s, hcreate, hplaced, hsame, -⟩ := boot_inv.placed.create hfree (boot_directories 5)
  have hcreated : KernelRun (.prompt s) :=
    .command (.create (some 5)) .boot (boot_directories 5) hcreate
  obtain ⟨t, ys, hloop, ht⟩ := runAll_loop hplaced
  have hready : ∀ e, e ∈ ys .ready ↔ e = 0 := by
    intro e
    have := ht.ready e
    rw [moved_to, moved_other (by decide) (by decide)] at this
    simpa [bootLists] using this
  have hstopped : t.schedulerStatus = .stopped := by
    rw [ht.same.status, hsame.status]
    rfl
  have hrun : schedStep s .runAll = .error (fosScheduler t) := by
    simp only [schedStep, schedRunAll, bind, Except.bind, hloop, if_pos hstopped]
  have hleaves : KernelRun (fosScheduler t) := .commandLeaves .runAll hcreated trivial hrun
  have hsched : SchedRun s := by
    refine .step (.create (some 5)) .boot (boot_directories 5) ?_
    rw [schedStep, hcreate, outcome]
  obtain ⟨u, hu, -, ⟨c, hpick, hc, hmem⟩ | ⟨-, hc⟩⟩ := ht.placed.pick
  · have hsched' : SchedRun u := by
      refine .step .runAll hsched trivial ?_
      rw [hrun, outcome, hpick, Leave.state]
    rw [hpick] at hleaves
    cases (hready c).1 hmem
    refine ⟨u, ys, hleaves, hsched', hu, hc, hmem, ?_⟩
    exact (hu.placed.envId .ready (by decide) 0 hmem).trans (by decide)
  · -- the ready list is not empty
    have hnil := hu.stopped (hu.idle hc)
    have hmem := (hready 0).2 rfl
    rw [hnil] at hmem
    cases hmem

/-- The clock interrupt while an environment is running. -/
theorem kernelRun_curenv_iff_clock :
    ∃ s, KernelRun (.user s) ∧ LeavesReady (trap (trapDispatch s .clock)).1 ∧
      (trap (trapDispatch s .clock)).2 = false := by
  obtain ⟨s, xs, hrun, -⟩ := kernelRun_first
  refine ⟨s, hrun, (kernelRun_curenv_iff hrun .clock).2 ?_⟩
  rintro ⟨c, -, hid⟩
  cases hid

/-- `SYS_free_env` of the running environment: the assertion fails. -/
theorem kernelRun_free_running :
    ∃ s, KernelRun (.user s) ∧ s.curenv = some 0 ∧ (s.envs 0).envId = 4096#32 ∧
      (trap (trapDispatch s (.freeEnv 4096#32))).2 = true := by
  obtain ⟨s, xs, hrun, -, hinv, hc, hready, hid⟩ := kernelRun_first
  refine ⟨s, hrun, hc, hid, ?_⟩
  have hassert := (trap_effect hinv hc hready
    (trapDispatch_effect hinv hc hready (.freeEnv 4096#32))).2
  rw [← Bool.not_eq_false, hassert, not_not]
  exact ⟨0, hc, by rw [hid]; rfl⟩

end FosMemory
