import Mathlib.Data.List.Perm.Subperm
import FosMemory.Lib.Rotation
import FosMemory.Sched.Scheduler

/-!
# Ready — the ready list and `sched_next` as a rotation queue

Reading `env_ready_queue` circularly from `sched_next` gives a queue: `sched_insert_ready` appends
to it, `sched_remove_ready` takes an element out and a pick of `fos_scheduler` moves its front to
the back.
-/

namespace FosMemory

open Lib

/-! ## Frames -/

/-- What inserting into or removing from list `q` leaves alone, apart from the status of `e` and
`sched_next`. -/
structure OnlyList (q : QueueId) (e : Nat) (s t : Sched) : Prop where
  queues : ∀ p, p ≠ q → t.queues p = s.queues p
  envs : ∀ x, x ≠ e → t.envs x = s.envs x
  envId : (t.envs e).envId = (s.envs e).envId
  directory : (t.envs e).envPageDirectory = (s.envs e).envPageDirectory
  curenv : t.curenv = s.curenv
  status : t.schedulerStatus = s.schedulerStatus
  directories : t.directories = s.directories

@[simp] theorem setStatus_envs_same (s : Sched) (e : Nat) (st : EnvStatus) :
    (s.setStatus e st).envs e = { s.envs e with envStatus := st } := by
  simp [Sched.setStatus]

theorem setStatus_envs_of_ne {s : Sched} {e x : Nat} (st : EnvStatus) (h : x ≠ e) :
    (s.setStatus e st).envs x = s.envs x := by
  simp [Sched.setStatus, h]

@[simp] theorem setStatus_links (s : Sched) (e : Nat) (st : EnvStatus) :
    (s.setStatus e st).links = s.links := rfl

@[simp] theorem setStatus_queues (s : Sched) (e : Nat) (st : EnvStatus) :
    (s.setStatus e st).queues = s.queues := rfl

@[simp] theorem setStatus_schedNext (s : Sched) (e : Nat) (st : EnvStatus) :
    (s.setStatus e st).schedNext = s.schedNext := rfl

@[simp] theorem setQueue_links (s : Sched) (q : QueueId) (r : Links Nat × ListHead Nat) :
    (s.setQueue q r).links = r.1 := rfl

@[simp] theorem setQueue_queues_same (s : Sched) (q : QueueId) (r : Links Nat × ListHead Nat) :
    (s.setQueue q r).queues q = r.2 := by
  simp [Sched.setQueue]

@[simp] theorem setQueue_schedNext (s : Sched) (q : QueueId) (r : Links Nat × ListHead Nat) :
    (s.setQueue q r).schedNext = s.schedNext := rfl

/-- A list macro followed or preceded by a change of status. -/
theorem onlyList_setQueue (s : Sched) (q : QueueId) (e : Nat) (st : EnvStatus)
    (r : Links Nat × ListHead Nat) (next : Option Nat) :
    OnlyList q e s { (s.setStatus e st).setQueue q r with schedNext := next } := by
  constructor
  case queues =>
    intro p hp
    simp [Sched.setQueue, hp]
  case envs =>
    intro x hx
    exact setStatus_envs_of_ne st hx
  case envId => simp [Sched.setQueue]
  case directory => simp [Sched.setQueue]
  case curenv => rfl
  case status => rfl
  case directories => rfl

/-! ## Inserting -/

/-- The ready list is `xs` and its circular reading is `q`. -/
structure ReadyQueue (s : Sched) (xs q : List Nat) : Prop where
  list : IsList s.links (s.queues .ready) xs
  rotated : Rotated xs s.schedNext q

theorem schedInsertReady_spec {s : Sched} {xs q : List Nat} {e : Nat} (h : ReadyQueue s xs q)
    (he : e ∉ xs) :
    ∃ ys, ReadyQueue (schedInsertReady s e) ys (q ++ [e]) ∧ ys.Perm (e :: xs) ∧
      SameOff xs e s.links (schedInsertReady s e).links ∧
      OnlyList .ready e s (schedInsertReady s e) ∧
      ((schedInsertReady s e).envs e).envStatus = .ready := by
  cases hnext : s.schedNext with
  | none =>
    -- the list is empty
    have hrot := h.rotated
    rw [hnext] at hrot
    obtain ⟨rfl, rfl⟩ := hrot.eq_nil
    obtain ⟨hlist, hoff⟩ := h.list.insertTail he
    have hins : schedInsertReady s e =
        { (s.setStatus e .ready).setQueue .ready (listInsertTail s.links (s.queues .ready) e) with
          schedNext := some e } := by
      simp only [schedInsertReady, setStatus_schedNext, hnext]
      rfl
    rw [hins]
    refine ⟨[e], ⟨?_, rotated_split [] e []⟩, List.Perm.refl _, hoff, onlyList_setQueue .., ?_⟩
    · simpa using hlist
    · simp [Sched.setQueue]
  | some n =>
    have hrot := h.rotated
    rw [hnext] at hrot
    obtain ⟨as, bs, rfl, rfl⟩ := hrot.split
    obtain ⟨hlist, hoff⟩ := h.list.insertBefore he
    have hins : schedInsertReady s e =
        { (s.setStatus e .ready).setQueue .ready (listInsertBefore s.links (s.queues .ready) n e)
          with schedNext := some n } := by
      simp only [schedInsertReady, setStatus_schedNext, hnext]
      simp only [← hnext]
      rfl
    rw [hins]
    refine ⟨as ++ e :: n :: bs, ⟨?_, rotated_insertBefore as e n bs⟩, ?_, hoff,
      onlyList_setQueue .., ?_⟩
    · simpa using hlist
    · exact List.perm_middle
    · simp [Sched.setQueue]

/-! ## Removing -/

/-- `LIST_REMOVE` in terms of the sequence. -/
theorem IsList.erase {l : Links Nat} {h : ListHead Nat} {xs : List Nat} {e : Nat}
    (hl : IsList l h xs) (he : e ∈ xs) :
    IsList (listRemove l h e).1 (listRemove l h e).2 (xs.erase e) ∧
      SameOff xs e l (listRemove l h e).1 ∧ (listRemove l h e).2.ptrNext = h.ptrNext := by
  obtain ⟨as, bs, rfl⟩ := List.append_of_mem he
  have hna : e ∉ as := fun h => (List.nodup_append.1 hl.nodup).2.2 e h e List.mem_cons_self rfl
  rw [erase_middle hna]
  exact hl.remove

theorem schedNextCircular_eq {s : Sched} {as bs : List Nat} {n : Nat}
    (h : IsList s.links (s.queues .ready) (as ++ n :: bs)) :
    schedNextCircular s (some n) = circularNext as n bs := by
  have hfirst := h.first
  have hnext := h.next_eq
  simp only [schedNextCircular, circularNext, hnext]
  cases hbs : bs.head? with
  | none => rw [hfirst, Option.none_or]
  | some b => rw [Option.some_or]

theorem schedSkip_rotated {s : Sched} {xs q : List Nat} {e : Nat} (h : ReadyQueue s xs q) :
    Rotated (xs.erase e) (schedSkip s e).schedNext (q.erase e) := by
  by_cases hnext : s.schedNext = some e
  · have hrot := h.rotated
    rw [hnext] at hrot
    obtain ⟨as, bs, rfl, rfl⟩ := hrot.split
    have hskip : (schedSkip s e).schedNext =
        if circularNext as e bs = some e then none else circularNext as e bs := by
      rw [schedSkip, if_pos hnext, ← schedNextCircular_eq h.list]
    rw [hskip]
    exact rotated_erase_next h.list.nodup
  · rw [schedSkip, if_neg hnext]
    exact h.rotated.erase_of_ne h.list.nodup hnext

/-- `sched_remove_ready` as one update. -/
theorem schedRemoveReady_eq (s : Sched) (e : Nat) :
    schedRemoveReady s e =
      { (s.setStatus e .unknown).setQueue .ready (listRemove s.links (s.queues .ready) e) with
        schedNext := (schedSkip s e).schedNext } := by
  by_cases hnext : s.schedNext = some e
  · simp only [schedRemoveReady, schedSkip, if_pos hnext]
    rfl
  · simp only [schedRemoveReady, schedSkip, if_neg hnext]
    rfl

theorem schedRemoveReady_spec {s : Sched} {xs q : List Nat} {e : Nat} (h : ReadyQueue s xs q)
    (he : e ∈ xs) :
    ReadyQueue (schedRemoveReady s e) (xs.erase e) (q.erase e) ∧
      SameOff xs e s.links (schedRemoveReady s e).links ∧
      OnlyList .ready e s (schedRemoveReady s e) ∧
      ((schedRemoveReady s e).queues .ready).ptrNext = (s.queues .ready).ptrNext := by
  obtain ⟨hlist, hoff, hptr⟩ := h.list.erase he
  rw [schedRemoveReady_eq]
  refine ⟨⟨?_, schedSkip_rotated h⟩, hoff, onlyList_setQueue .., ?_⟩
  · simpa using hlist
  · simpa using hptr

/-! ## Picking -/

/-- A pick runs the front of the queue and moves it to the back; over an empty queue it goes to
the command prompt. -/
theorem fosScheduler_spec {s : Sched} {xs q : List Nat} (h : ReadyQueue s xs q) :
    (∃ n t, q.head? = some n ∧ fosScheduler s = .user t ∧ ReadyQueue t xs (q.rotate 1) ∧
      t.curenv = some n ∧ t.schedulerStatus = .started ∧ t.links = s.links ∧
      t.queues = s.queues ∧ t.envs = s.envs ∧ t.directories = s.directories) ∨
    (q = [] ∧ xs = [] ∧ fosScheduler s =
      .prompt { s with curenv := none, schedulerStatus := .stopped, schedNext := none } ∧
      ReadyQueue { s with curenv := none, schedulerStatus := .stopped, schedNext := none } [] []) := by
  cases hnext : s.schedNext with
  | none =>
    right
    have hrot := h.rotated
    rw [hnext] at hrot
    obtain ⟨rfl, rfl⟩ := hrot.eq_nil
    refine ⟨rfl, rfl, ?_, h.list, rotated_nil⟩
    simp only [fosScheduler, hnext, schedNextCircular]
  | some n =>
    left
    have hrot := h.rotated
    rw [hnext] at hrot
    obtain ⟨as, bs, rfl, rfl⟩ := hrot.split
    -- the state `env_run` is called in
    obtain ⟨t, ht⟩ : ∃ t : Sched, t = { s with
        schedulerStatus := .started, schedNext := circularNext as n bs } := ⟨_, rfl⟩
    have hrun : fosScheduler s = .user (schedEnvRun t n) := by
      have hcirc := schedNextCircular_eq
        (show IsList { s with schedulerStatus := SchedulerStatus.started }.links
          (({ s with schedulerStatus := SchedulerStatus.started }).queues .ready) _ from h.list)
      simp only [hnext] at hcirc
      simp only [fosScheduler, hnext, hcirc, ht]
    have hfields : (schedEnvRun t n) = { t with curenv := some n } := by
      rw [schedEnvRun]
      split
      case isTrue h => rw [← h]
      case isFalse => rfl
    refine ⟨n, schedEnvRun t n, rfl, hrun, ?_⟩
    rw [hfields, ht]
    exact ⟨⟨h.list, rotated_advance as n bs⟩, rfl, rfl, rfl, rfl, rfl, rfl⟩

/-! ## Reading the lists -/

/-- Up to `n` elements, from `x` on and following `next`. -/
def follow (next : Nat → Option Nat) : Nat → Option Nat → List Nat
  | 0, _ => []
  | _ + 1, none => []
  | n + 1, some x => x :: follow next n (next x)

/-- The elements of a list, from the first one on. -/
def Sched.elements (s : Sched) (q : QueueId) : List Nat :=
  follow s.links.next nenv (s.queues q).lhFirst

/-- The ready list read circularly from `sched_next` on. -/
def Sched.readCircular (s : Sched) : List Nat :=
  follow (fun e => schedNextCircular s (some e)) (s.queues .ready).size s.schedNext

theorem follow_seg {l : Links Nat} {p : Option Nat} {xs : List Nat} {n : Nat}
    (h : Seg l p xs none) (hn : xs.length ≤ n) : follow l.next n xs.head? = xs := by
  induction xs generalizing p n with
  | nil => cases n <;> rfl
  | cons x xs ih =>
    obtain ⟨-, hnext, hrest⟩ := h
    rw [Option.or_none] at hnext
    cases n with
    | zero => simp at hn
    | succ n =>
      rw [List.head?_cons, follow, hnext, ih hrest (by simpa using hn)]

theorem IsList.elements {s : Sched} {q : QueueId} {xs : List Nat}
    (h : IsList s.links (s.queues q) xs) (hlen : xs.length ≤ nenv) : s.elements q = xs := by
  rw [Sched.elements, h.first]
  exact follow_seg h.seg hlen

/-- A rotation only brings the front behind the first `n` elements of the rest. -/
theorem take_rotate {e n : Nat} {q : List Nat} (hn : n ≤ q.length) :
    ((e :: q).rotate 1).take n = q.take n := by
  rw [List.rotate_cons_succ, List.rotate_zero, List.take_append_of_le_length hn]

theorem follow_circular {s : Sched} {xs : List Nat} (hl : IsList s.links (s.queues .ready) xs)
    {n : Nat} {next : Option Nat} {q : List Nat} (h : Rotated xs next q) (hn : n ≤ q.length) :
    follow (fun e => schedNextCircular s (some e)) n next = q.take n := by
  induction n generalizing next q with
  | zero => rfl
  | succ n ih =>
    cases next with
    | none =>
      rw [h.eq_nil.2]
      rfl
    | some e =>
      obtain ⟨as, bs, rfl, rfl⟩ := h.split
      have hrot := rotated_advance as e bs
      rw [← schedNextCircular_eq hl] at hrot
      have hlen : n ≤ (bs ++ as).length := by simpa using hn
      have hrest := ih hrot (by simpa [Nat.add_assoc] using Nat.le_succ_of_le hlen)
      rw [List.cons_append, take_rotate hlen] at hrest
      rw [follow, hrest]
      rfl

theorem ReadyQueue.readCircular {s : Sched} {xs q : List Nat} (h : ReadyQueue s xs q)
    (hlen : xs.length ≤ nenv) : s.readCircular = q := by
  have hq : q.length = xs.length := h.rotated.perm.length_eq
  have hsize : (s.queues .ready).size = q.length := by
    have hlt : xs.length < wordMod := Nat.lt_of_le_of_lt hlen (by decide)
    rw [h.list.size, Nat.mod_eq_of_lt hlt, hq]
  rw [Sched.readCircular, follow_circular h.list h.rotated (Nat.le_of_eq hsize), hsize,
    List.take_length]

/-- The environments that `n` consecutive picks run. -/
def picks : Nat → Sched → List Nat
  | 0, _ => []
  | n + 1, s =>
    match fosScheduler s with
    | .user t => t.curenv.toList ++ picks n t
    | _ => []

theorem ReadyQueue.picks {s : Sched} {xs q : List Nat} {n : Nat} (h : ReadyQueue s xs q)
    (hn : n ≤ q.length) : picks n s = q.take n := by
  induction n generalizing s q with
  | zero => rfl
  | succ n ih =>
    obtain ⟨e, t, hq, hrun, ht, hcur, -⟩ | ⟨rfl, -, -, -⟩ := fosScheduler_spec h
    · cases q with
      | nil => cases hq
      | cons x q =>
        cases hq
        have hlen : n ≤ q.length := by simpa using hn
        have hrest := ih ht (by simpa using Nat.le_succ_of_le hlen)
        rw [take_rotate hlen] at hrest
        simp only [FosMemory.picks, hrun, hcur, hrest]
        rfl
    · simp at hn

/-! ## Runs of the ready queue -/

/-- The operations on the ready queue. -/
inductive ReadyOp where
  | insert (e : Nat)
  | remove (e : Nat)
  | pick
  deriving DecidableEq, Repr

/-- The environment inserted is a slot of `envs[]` and in no list, and the one removed is in the
ready list. -/
def ReadyOp.Allowed (s : Sched) : ReadyOp → Prop
  | .insert e => e < nenv ∧ ∀ q, e ∉ s.elements q
  | .remove e => e ∈ s.elements .ready
  | .pick => True

/-- `sched_insert_ready`, `sched_remove_ready` and `fos_scheduler`. -/
def readyStep (s : Sched) : ReadyOp → Option Sched
  | .insert e => some (schedInsertReady s e)
  | .remove e => some (schedRemoveReady s e)
  | .pick => (fosScheduler s).state

/-- A sequence of operations after `sched_init`. -/
inductive ReadyRun : List ReadyOp → Sched → Prop where
  | init (s : Sched) : ReadyRun [] (schedInit s)
  | step {ops : List ReadyOp} {s t : Sched} (op : ReadyOp) (h : ReadyRun ops s)
      (hop : op.Allowed s) (ht : readyStep s op = some t) : ReadyRun (ops ++ [op]) t

/-- The rotation queue. -/
def rotationStep (q : List Nat) : ReadyOp → List Nat
  | .insert e => q ++ [e]
  | .remove e => q.erase e
  | .pick => q.rotate 1

/-- The ready queue of a run: the list holds slots of `envs[]`, each once. -/
structure ReadyInv (s : Sched) (xs q : List Nat) : Prop where
  queue : ReadyQueue s xs q
  lt : ∀ e ∈ xs, e < nenv

theorem length_le_nenv {xs : List Nat} (hnd : xs.Nodup) (h : ∀ e ∈ xs, e < nenv) :
    xs.length ≤ nenv := by
  have hsub : xs ⊆ List.range nenv := fun e he => List.mem_range.2 (h e he)
  have hle := (List.subperm_of_subset hnd hsub).length_le
  rwa [List.length_range] at hle

theorem ReadyInv.length_le {s : Sched} {xs q : List Nat} (h : ReadyInv s xs q) :
    xs.length ≤ nenv :=
  length_le_nenv h.queue.list.nodup h.lt

theorem ReadyInv.elements {s : Sched} {xs q : List Nat} (h : ReadyInv s xs q) :
    s.elements .ready = xs :=
  h.queue.list.elements h.length_le

theorem readyInv_step {s t : Sched} {xs q : List Nat} {op : ReadyOp} (h : ReadyInv s xs q)
    (hop : op.Allowed s) (ht : readyStep s op = some t) :
    ∃ ys, ReadyInv t ys (rotationStep q op) := by
  cases op with
  | insert e =>
    obtain ⟨hlt, hnot⟩ := hop
    have he : e ∉ xs := by
      have := hnot .ready
      rwa [h.elements] at this
    cases ht
    obtain ⟨ys, hys, hperm, -⟩ := schedInsertReady_spec h.queue he
    refine ⟨ys, hys, fun x hx => ?_⟩
    rcases List.mem_cons.1 (hperm.mem_iff.1 hx) with rfl | hx
    · exact hlt
    · exact h.lt x hx
  | remove e =>
    have he : e ∈ xs := by
      have hmem : e ∈ s.elements .ready := hop
      rwa [h.elements] at hmem
    cases ht
    obtain ⟨hys, -⟩ := schedRemoveReady_spec h.queue he
    exact ⟨xs.erase e, hys, fun x hx => h.lt x (List.mem_of_mem_erase hx)⟩
  | pick =>
    obtain ⟨n, u, hq, hrun, hu, -⟩ | ⟨rfl, rfl, hrun, hu⟩ := fosScheduler_spec h.queue
    · simp only [readyStep, hrun, Leave.state] at ht
      cases ht
      exact ⟨xs, hu, h.lt⟩
    · simp only [readyStep, hrun, Leave.state] at ht
      cases ht
      exact ⟨[], hu, fun _ hx => by cases hx⟩

theorem ReadyRun.inv {ops : List ReadyOp} {s : Sched} (h : ReadyRun ops s) :
    ∃ xs, ReadyInv s xs (ops.foldl rotationStep []) := by
  induction h with
  | init s =>
    refine ⟨[], ⟨isList_init _ _, rotated_nil⟩, fun _ hx => by cases hx⟩
  | step op h hop ht ih =>
    obtain ⟨xs, hxs⟩ := ih
    rw [List.foldl_append]
    exact readyInv_step hxs hop ht

/-- The ready list with `sched_next` refines the rotation queue, and any `n` consecutive picks over
`n` ready environments run each of them once. -/
theorem readyRun_rotation {ops : List ReadyOp} {s : Sched} (h : ReadyRun ops s) :
    s.readCircular = ops.foldl rotationStep [] ∧
    (s.schedNext = none ↔ s.elements .ready = []) ∧
    (∀ e, s.schedNext = some e → e ∈ s.elements .ready) ∧
    (∀ op, op.Allowed s → ∃ t, readyStep s op = some t ∧
      t.readCircular = rotationStep s.readCircular op) ∧
    (∀ e q, s.readCircular = e :: q →
      ∃ t, fosScheduler s = .user t ∧ t.curenv = some e ∧ t.readCircular = q ++ [e]) ∧
    (s.elements .ready).Nodup ∧
    (picks (s.elements .ready).length s).Perm (s.elements .ready) := by
  obtain ⟨xs, hinv⟩ := h.inv
  obtain ⟨q, hq⟩ : ∃ q, q = ops.foldl rotationStep [] := ⟨_, rfl⟩
  rw [← hq] at hinv ⊢
  have hread := hinv.queue.readCircular hinv.length_le
  have hlen : q.length = xs.length := hinv.queue.rotated.perm.length_eq
  rw [hinv.elements, hread]
  refine ⟨rfl, hinv.queue.rotated.next_eq_none_iff, ?_, ?_, ?_, hinv.queue.list.nodup, ?_⟩
  · intro e he
    have hmem : e ∈ q := List.mem_of_head? (hinv.queue.rotated.head?.trans he)
    exact hinv.queue.rotated.perm.mem_iff.1 hmem
  · intro op hop
    have htotal : ∃ t, readyStep s op = some t := by
      cases op with
      | insert e => exact ⟨_, rfl⟩
      | remove e => exact ⟨_, rfl⟩
      | pick =>
        obtain ⟨n, t, -, hrun, -⟩ | ⟨-, -, hrun, -⟩ := fosScheduler_spec hinv.queue
        · exact ⟨t, by rw [readyStep, hrun]; rfl⟩
        · exact ⟨_, by rw [readyStep, hrun]; rfl⟩
    obtain ⟨t, ht⟩ := htotal
    obtain ⟨ys, hys⟩ := readyInv_step hinv hop ht
    exact ⟨t, ht, hys.queue.readCircular hys.length_le⟩
  · rintro e r rfl
    obtain ⟨n, t, hn, hrun, ht, hcur, -⟩ | ⟨hnil, -, -, -⟩ := fosScheduler_spec hinv.queue
    · cases hn
      refine ⟨t, hrun, hcur, ?_⟩
      rw [ht.readCircular hinv.length_le, List.rotate_cons_succ, List.rotate_zero]
    · cases hnil
  · rw [hinv.queue.picks (Nat.le_of_eq hlen.symm), ← hlen, List.take_length]
    exact hinv.queue.rotated.perm

/-- Three environments; the first one is picked and the second one removed. -/
theorem readyRun_rotation_remove :
    ∃ s, ReadyRun [.insert 4, .insert 7, .insert 2, .pick, .remove 7] s ∧
      s.readCircular = [2, 4] := by
  have h₀ : ReadyRun [] (schedInit Sched.blank) := .init _
  have h₁ := h₀.step (.insert 4) ⟨by decide, by rintro (_ | _ | _ | _) <;> decide⟩ rfl
  have h₂ := h₁.step (.insert 7) ⟨by decide, by rintro (_ | _ | _ | _) <;> decide⟩ rfl
  have h₃ := h₂.step (.insert 2) ⟨by decide, by rintro (_ | _ | _ | _) <;> decide⟩ rfl
  have h₄ := h₃.step .pick trivial rfl
  have h₅ := h₄.step (.remove 7)
    (show 7 ∈ Sched.elements _ QueueId.ready from by decide) rfl
  exact ⟨_, h₅, (readyRun_rotation h₅).1⟩

end FosMemory
