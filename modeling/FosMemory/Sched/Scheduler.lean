import FosMemory.Kernel.Boot
import FosMemory.Sched.Queue

/-!
# Scheduler — `kern/sched.c` and the life of a slot of `envs[]`

The four lists of environments share the link fields of `struct Env`.  A scheduler function either
returns or leaves the kernel: `fos_scheduler` runs an environment or goes back to the command
prompt, and never returns to its caller.  The memory of an environment is reduced to its page
directory, a heap page that `env_create` obtains and `env_free` releases; page buffering is off, as
`FOS_initialize` leaves it.
-/

namespace FosMemory

open Lib

/-! ## State -/

/-- Values of `env_status`. -/
inductive EnvStatus where
  | free
  | ready
  | blocked
  | new
  | exit
  | unknown
  deriving DecidableEq, Repr

/-- `scheduler_status`. -/
inductive SchedulerStatus where
  | stopped
  | started
  deriving DecidableEq, Repr

/-- The lists an environment can be in: `env_free_list`, `env_new_queue`, `env_ready_queue` and
`env_exit_queue`. -/
inductive QueueId where
  | free
  | new
  | ready
  | exit
  deriving DecidableEq, Repr

/-- The status of the members of a list. -/
def QueueId.status : QueueId → EnvStatus
  | .free => .free
  | .new => .new
  | .ready => .ready
  | .exit => .exit

/-- The fields of `struct Env` that scheduling reads. -/
structure SchedEnv where
  envId : Word
  envStatus : EnvStatus
  envPageDirectory : Nat

/-- `memset(e, 0, sizeof(*e))`, apart from the links. -/
def SchedEnv.zero : SchedEnv :=
  { envId := 0#32, envStatus := .free, envPageDirectory := 0 }

/-- The globals of the scheduler.  Environments are numbered by their index in `envs[]`. -/
structure Sched where
  links : Links Nat
  queues : QueueId → ListHead Nat
  envs : Nat → SchedEnv
  schedNext : Option Nat
  curenv : Option Nat
  schedulerStatus : SchedulerStatus
  /-- the kernel heap pages that hold a page directory -/
  directories : Nat → Bool

/-- How control leaves a scheduler function that does not return. -/
inductive Leave where
  /-- `env_run`: back to user mode -/
  | user (s : Sched)
  /-- `run_command_prompt` -/
  | prompt (s : Sched)
  /-- a field of `curenv` is read while it is `NULL` -/
  | nullPointer
  /-- a `LIST_FOREACH` that does not end -/
  | loops

/-- The state in which control leaves, if it does. -/
def Leave.state : Leave → Option Sched
  | .user s => some s
  | .prompt s => some s
  | .nullPointer => none
  | .loops => none

def Sched.setStatus (s : Sched) (e : Nat) (st : EnvStatus) : Sched :=
  { s with envs := Function.update s.envs e { s.envs e with envStatus := st } }

/-- The effect of a list macro on one of the lists. -/
def Sched.setQueue (s : Sched) (q : QueueId) (r : Links Nat × ListHead Nat) : Sched :=
  { s with links := r.1, queues := Function.update s.queues q r.2 }

def Sched.insertHead (s : Sched) (q : QueueId) (e : Nat) : Sched :=
  s.setQueue q (listInsertHead s.links (s.queues q) e)

def Sched.insertTail (s : Sched) (q : QueueId) (e : Nat) : Sched :=
  s.setQueue q (listInsertTail s.links (s.queues q) e)

def Sched.remove (s : Sched) (q : QueueId) (e : Nat) : Sched :=
  s.setQueue q (listRemove s.links (s.queues q) e)

/-! ## The ready queue -/

/-- `sched_init`. -/
def schedInit (s : Sched) : Sched :=
  { s with
    queues := fun q =>
      match q with
      | .free => s.queues .free
      | .new | .ready | .exit => listInit (s.queues q)
    schedNext := none
    schedulerStatus := .stopped }

/-- `sched_next_circular`. -/
def schedNextCircular (s : Sched) : Option Nat → Option Nat
  | none => none
  | some e =>
    match s.links.next e with
    | none => (s.queues .ready).lhFirst
    | some next => some next

/-- `env_run`. -/
def schedEnvRun (s : Sched) (e : Nat) : Sched :=
  if s.curenv = some e then s else { s with curenv := some e }

/-- `fos_scheduler`. -/
def fosScheduler (s : Sched) : Leave :=
  let s := { s with schedulerStatus := .started }
  let currentEnv := s.schedNext
  let s := { s with schedNext := schedNextCircular s s.schedNext }
  match currentEnv with
  | some e => .user (schedEnvRun s e)
  | none => .prompt { s with curenv := none, schedulerStatus := .stopped }

/-- `sched_insert_ready`. -/
def schedInsertReady (s : Sched) (e : Nat) : Sched :=
  let s := s.setStatus e .ready
  match s.schedNext with
  | some next => s.setQueue .ready (listInsertBefore s.links (s.queues .ready) next e)
  | none => { s.insertTail .ready e with schedNext := some e }

/-- The first statement of `sched_remove_ready`: `sched_next` moves off the environment. -/
def schedSkip (s : Sched) (e : Nat) : Sched :=
  if s.schedNext = some e then
    let next := schedNextCircular s (some e)
    { s with schedNext := if next = some e then none else next }
  else s

/-- `sched_remove_ready`. -/
def schedRemoveReady (s : Sched) (e : Nat) : Sched :=
  ((schedSkip s e).remove .ready e).setStatus e .unknown

/-! ## The other queues -/

/-- `sched_insert_new` and `sched_insert_exit`. -/
def schedInsert (s : Sched) (q : QueueId) (e : Nat) : Sched :=
  (s.setStatus e q.status).insertTail q e

/-- `sched_remove_new` and `sched_remove_exit`. -/
def schedRemove (s : Sched) (q : QueueId) (e : Nat) : Sched :=
  (s.remove q e).setStatus e .unknown

def schedInsertNew (s : Sched) (e : Nat) : Sched := schedInsert s .new e
def schedInsertExit (s : Sched) (e : Nat) : Sched := schedInsert s .exit e
def schedRemoveNew (s : Sched) (e : Nat) : Sched := schedRemove s .new e
def schedRemoveExit (s : Sched) (e : Nat) : Sched := schedRemove s .exit e

/-! ## Creating and freeing an environment -/

/-- `ENVGENSHIFT`: `1 << 12`. -/
def envGeneration : Word := 0x1000#32

/-- `NENV - 1`, the mask of `ENVX`. -/
def envMask : Word := BitVec.ofNat 32 (nenv - 1)

/-- The identifier `complete_environment_initialization` computes from the old one. -/
def newEnvId (old : Word) (e : Nat) : Word :=
  let generation := (old + envGeneration) &&& ~~~envMask
  let generation := if generation.toInt ≤ 0 then envGeneration else generation
  generation ||| BitVec.ofNat 32 e

/-- `env_create` as far as the lists go; `none` is `NULL`.  `program` is `none` when
`get_user_program_info` knows no program of that name, and otherwise the page directory that
`create_user_directory` obtains. -/
def schedEnvCreate (s : Sched) (program : Option Nat) : Option Nat × Sched :=
  match program, (s.queues .free).lhFirst with
  | none, _ => (none, s)
  | some _, none => (none, s)
  | some dir, some e =>
    let s := s.setStatus e .unknown
    let s := { s with
      directories := Function.update s.directories dir true
      envs := Function.update s.envs e
        { envId := newEnvId (s.envs e).envId e, envStatus := .new, envPageDirectory := dir } }
    (some e, s.remove .free e)

/-- `sched_new_env`. -/
def schedNewEnv (s : Sched) : Option Nat → Sched
  | none => s
  | some e => schedInsertNew s e

/-- `start_env_free`: `env_free` and `free_environment`. -/
def startEnvFree (s : Sched) (e : Nat) : Sched :=
  let s := { s with
    directories := Function.update s.directories (s.envs e).envPageDirectory false
    envs := Function.update s.envs e SchedEnv.zero
    links := (s.links.setNext e none).setPrev e none }
  (s.setStatus e .free).insertHead .free e

/-! ## LIST_FOREACH -/

/-- `(head)->___ptr_next = p`. -/
def Sched.setPtr (s : Sched) (q : QueueId) (p : Option Nat) : Sched :=
  { s with queues := Function.update s.queues q { s.queues q with ptrNext := p } }

/-- `LIST_FOREACH(e, q) body`.  The place is kept in the head of the list while the body runs; the
body says whether it leaves the loop. -/
def listForeach (q : QueueId) (body : Nat → Sched → Except Leave (Bool × Sched)) :
    Nat → Option Nat → Sched → Except Leave (Bool × Sched)
  | 0, _, _ => .error .loops
  | _ + 1, none, s => .ok (false, s.setPtr q none)
  | rounds + 1, some e, s => do
    let (left, s) ← body e (s.setPtr q (s.links.next e))
    if left then .ok (true, s) else listForeach q body rounds (s.queues q).ptrNext s

/-- Rounds enough for every list. -/
def foreachRounds : Nat := nenv + 1

/-- The whole loop, from the first element on. -/
def foreachEnv (q : QueueId) (body : Nat → Sched → Except Leave (Bool × Sched)) (s : Sched) :
    Except Leave (Bool × Sched) :=
  listForeach q body foreachRounds (s.queues q).lhFirst s

/-! ## Operations -/

/-- One round of `sched_run_all`. -/
def runAllRound (e : Nat) (s : Sched) : Except Leave (Bool × Sched) :=
  .ok (false, schedInsertReady (schedRemoveNew s e) e)

/-- `sched_run_all`. -/
def schedRunAll (s : Sched) : Except Leave Sched := do
  let (_, s) ← foreachEnv .new runAllRound s
  if s.schedulerStatus = .stopped then .error (fosScheduler s) else .ok s

/-- `sched_remove_new`, `sched_remove_ready` or `sched_remove_exit`. -/
def removeFrom (q : QueueId) (s : Sched) (e : Nat) : Sched :=
  match q with
  | .ready => schedRemoveReady s e
  | .free | .new | .exit => schedRemove s q e

/-- One round of the loops of `sched_kill_all`. -/
def killAllRound (q : QueueId) (e : Nat) (s : Sched) : Except Leave (Bool × Sched) :=
  .ok (false, startEnvFree (removeFrom q s e) e)

/-- `if (!LIST_EMPTY(q)) LIST_FOREACH ...`. -/
def killQueue (q : QueueId) (s : Sched) : Except Leave Sched :=
  if (s.queues q).lhFirst = none then .ok s
  else do
    let (_, s) ← foreachEnv q (killAllRound q) s
    .ok s

/-- `sched_kill_all`. -/
def schedKillAll (s : Sched) : Except Leave Sched := do
  let s ← killQueue .new s
  let s ← killQueue .ready s
  let s ← killQueue .exit s
  .error (fosScheduler s)

/-- The body of the loop of `sched_run_env`. -/
def runEnvRound (envId : Word) (e : Nat) (s : Sched) : Except Leave (Bool × Sched) :=
  if (s.envs e).envId = envId then
    let s := schedInsertReady (schedRemoveNew s e) e
    if s.schedulerStatus = .stopped then .error (fosScheduler s) else .ok (true, s)
  else .ok (false, s)

/-- `sched_run_env`. -/
def schedRunEnv (envId : Word) (s : Sched) : Except Leave Sched := do
  let (_, s) ← foreachEnv .new (runEnvRound envId) s
  .ok s

/-- `curenv->env_id == envId`. -/
def curenvIs (s : Sched) (envId : Word) : Except Leave Bool :=
  match s.curenv with
  | none => .error .nullPointer
  | some e => .ok (decide ((s.envs e).envId = envId))

/-- The bodies of the two loops of `sched_exit_env`. -/
def exitEnvRound (q : QueueId) (envId : Word) (e : Nat) (s : Sched) :
    Except Leave (Bool × Sched) :=
  if (s.envs e).envId = envId then do
    let s := schedInsertExit (removeFrom q s e) e
    if q = .ready then
      if ← curenvIs s envId then .error (fosScheduler s) else .ok (true, s)
    else .ok (true, s)
  else .ok (false, s)

/-- `sched_exit_env`. -/
def schedExitEnv (envId : Word) (s : Sched) : Except Leave Sched := do
  let (left, s) ← foreachEnv .new (exitEnvRound .new envId) s
  if left then .ok s
  else
    let (_, s) ← foreachEnv .ready (exitEnvRound .ready envId) s
    .ok s

/-- The bodies of the three loops of `sched_kill_env`.  The environment is cleared before its
identifier is compared with that of `curenv`. -/
def killEnvRound (q : QueueId) (envId : Word) (e : Nat) (s : Sched) :
    Except Leave (Bool × Sched) :=
  if (s.envs e).envId = envId then do
    let s := startEnvFree (removeFrom q s e) e
    if q = .ready then
      if ← curenvIs s envId then .error (fosScheduler { s with curenv := none }) else .ok (true, s)
    else .ok (true, s)
  else .ok (false, s)

/-- `sched_kill_env`. -/
def schedKillEnv (envId : Word) (s : Sched) : Except Leave Sched := do
  let (left, s) ← foreachEnv .new (killEnvRound .new envId) s
  if left then .ok s
  else
    let (left, s) ← foreachEnv .ready (killEnvRound .ready envId) s
    if left then .ok s
    else
      let (_, s) ← foreachEnv .exit (killEnvRound .exit envId) s
      .ok s

/-- `env_create` followed by `sched_new_env`. -/
def schedCreate (program : Option Nat) (s : Sched) : Except Leave Sched :=
  let r := schedEnvCreate s program
  .ok (schedNewEnv r.2 r.1)

/-! ## envid2env -/

/-- `ENVX`. -/
def envx (envId : Word) : Nat :=
  (envId &&& envMask).toNat

/-- `envid2env(envid, &p, 0)`: `none` is `E_BAD_ENV`, with `p = NULL`; otherwise the value of
`p`. -/
def envid2env (s : Sched) (envId : Word) : Option (Option Nat) :=
  if envId = 0#32 then some s.curenv
  else
    let e := envx envId
    if (s.envs e).envStatus = .free ∨ (s.envs e).envId ≠ envId then none else some (some e)

/-! ## Boot -/

/-- Globals before any initialisation: zero. -/
def Sched.blank : Sched :=
  { links := { next := fun _ => none, prev := fun _ => none }
    queues := fun _ => { lhFirst := none, lhLast := none, ptrNext := none, size := 0 }
    envs := fun _ => SchedEnv.zero
    schedNext := none
    curenv := none
    schedulerStatus := .stopped
    directories := fun _ => false }

/-- The loop of `env_init` over `envs[n-1]`, ..., `envs[0]`. -/
def envInit : Nat → Sched → Sched
  | 0, s => s
  | n + 1, s =>
    let s := s.setStatus n .free
    let s := { s with envs := Function.update s.envs n { s.envs n with envId := 0#32 } }
    envInit n (s.insertHead .free n)

/-- The state after `env_init` and `sched_init`. -/
def Sched.boot : Sched :=
  schedInit (envInit nenv Sched.blank)

end FosMemory
