import FosMemory.Sched.Lists

/-!
# Loops — the operations that walk over a list

`LIST_FOREACH` keeps its place in the head of the list, so that the body may take the element it
stands on out of the list.  Two rules cover the loops of the scheduler: one for loops that consume
the list, one for loops that look for an identifier.
-/

namespace FosMemory

open Lib

/-! ## The saved place -/

@[simp] theorem setPtr_ptrNext (s : Sched) (q : QueueId) (p : Option Nat) :
    ((s.setPtr q p).queues q).ptrNext = p := by
  simp [Sched.setPtr]

@[simp] theorem setPtr_setPtr (s : Sched) (q : QueueId) (p r : Option Nat) :
    (s.setPtr q p).setPtr q r = s.setPtr q r := by
  simp [Sched.setPtr]

theorem setPtr_self (s : Sched) (q : QueueId) : s.setPtr q (s.queues q).ptrNext = s := by
  simp [Sched.setPtr]

@[simp] theorem setPtr_envs (s : Sched) (q : QueueId) (p : Option Nat) :
    (s.setPtr q p).envs = s.envs := rfl

@[simp] theorem setPtr_links (s : Sched) (q : QueueId) (p : Option Nat) :
    (s.setPtr q p).links = s.links := rfl

theorem setPtr_sameSched (s : Sched) (q : QueueId) (p : Option Nat) : SameSched s (s.setPtr q p) :=
  ⟨rfl, rfl⟩

theorem Queued.setPtr {s : Sched} {xs : QueueId → List Nat} (h : Queued s xs) (q : QueueId)
    (p : Option Nat) : Queued (s.setPtr q p) xs := by
  have hlists : Lists (s.setPtr q p) xs := by
    refine ⟨fun r => ?_, h.lists.unique, h.lists.rotated⟩
    by_cases hr : r = q
    · subst hr
      refine (h.lists.list r).congr (fun _ _ => ⟨rfl, rfl⟩) ?_ ?_ ?_ <;> simp [Sched.setPtr]
    · have hsame : (s.setPtr q p).queues r = s.queues r := by simp [Sched.setPtr, hr]
      rw [hsame]
      exact h.lists.list r
  exact ⟨hlists, h.cover, h.status, h.freeId, h.envId, h.directory, h.distinct⟩

theorem Queued.lt {s : Sched} {xs : QueueId → List Nat} (h : Queued s xs) {q : QueueId} {e : Nat}
    (he : e ∈ xs q) : e < nenv :=
  (h.cover e).2 ⟨q, he⟩

theorem Queued.length_le {s : Sched} {xs : QueueId → List Nat} (h : Queued s xs) (q : QueueId) :
    (xs q).length ≤ nenv :=
  length_le_nenv (h.lists.list q).nodup fun _ he => h.lt he

/-! ## Loop rules -/

section Rules

variable {q : QueueId} {body : Nat → Sched → Except Leave (Bool × Sched)}

/-- A loop whose body takes the element it stands on out of the list. -/
theorem listForeach_consume {I : List Nat → Sched → Prop}
    (hnext : ∀ e rest s, I (e :: rest) s → s.links.next e = rest.head?)
    (hbody : ∀ e rest s, I (e :: rest) s → ∃ t, body e (s.setPtr q rest.head?) = .ok (false, t) ∧
      (t.queues q).ptrNext = rest.head? ∧ I rest t)
    {n : Nat} {xs : List Nat} {s : Sched} (hs : I xs s) (hn : xs.length < n) :
    ∃ t, listForeach q body n xs.head? s = .ok (false, t.setPtr q none) ∧ I [] t := by
  induction xs generalizing n s with
  | nil =>
    cases n with
    | zero => cases hn
    | succ n => exact ⟨s, rfl, hs⟩
  | cons e rest ih =>
    cases n with
    | zero => cases hn
    | succ n =>
      obtain ⟨t, hrun, hptr, ht⟩ := hbody e rest s hs
      obtain ⟨u, hu, hinv⟩ := ih ht (Nat.lt_of_succ_lt_succ hn)
      refine ⟨u, ?_, hinv⟩
      rw [List.head?_cons, listForeach, hnext e rest s hs, hrun]
      simp only [bind, Except.bind, hptr, hu]
      rfl

/-- The result of a loop that looks for an element: the body at the first hit, if there is one. -/
theorem listForeach_search {s : Sched} (p : Nat → Prop) [DecidablePred p]
    (hmiss : ∀ e ptr, ¬ p e → body e (s.setPtr q ptr) = .ok (false, s.setPtr q ptr))
    (hhit : ∀ e ptr, p e → ∀ t, body e (s.setPtr q ptr) ≠ .ok (false, t))
    {n : Nat} {prev : Option Nat} (place : Option Nat) {xs : List Nat}
    (hseg : Seg s.links prev xs none) (hn : xs.length < n) :
    (∀ e ∈ xs, ¬ p e) ∧
        listForeach q body n xs.head? (s.setPtr q place) = .ok (false, s.setPtr q none) ∨
    ∃ e ∈ xs, p e ∧ ∃ ptr, listForeach q body n xs.head? (s.setPtr q place) =
        body e (s.setPtr q ptr) := by
  induction xs generalizing n prev place with
  | nil =>
    left
    cases n with
    | zero => cases hn
    | succ n =>
      refine ⟨fun _ he => ?_, ?_⟩
      · cases he
      · rw [List.head?_nil, listForeach, setPtr_setPtr]
  | cons x rest ih =>
    obtain ⟨-, hnext, hrest⟩ := hseg
    rw [Option.or_none] at hnext
    cases n with
    | zero => cases hn
    | succ n =>
      have hstep : listForeach q body (n + 1) (some x) (s.setPtr q place) =
          (do let r ← body x (s.setPtr q rest.head?)
              if r.1 then .ok (true, r.2)
              else listForeach q body n (r.2.queues q).ptrNext r.2) := by
        rw [listForeach, setPtr_links, hnext, setPtr_setPtr]
      rw [List.head?_cons, hstep]
      by_cases hx : p x
      · right
        refine ⟨x, List.mem_cons_self, hx, rest.head?, ?_⟩
        -- a hit leaves the loop
        cases hb : body x (s.setPtr q rest.head?) with
        | error l => rfl
        | ok r =>
          obtain ⟨left, t⟩ := r
          cases left with
          | false => exact absurd hb (hhit x _ hx t)
          | true => rfl
      · rw [hmiss x _ hx]
        simp only [bind, Except.bind, setPtr_ptrNext, Bool.false_eq_true, if_false]
        rcases ih rest.head? hrest (Nat.lt_of_succ_lt_succ hn) with ⟨hnone, heq⟩ | ⟨e, he, hp, ptr, heq⟩
        · left
          refine ⟨fun e he => ?_, heq⟩
          rcases List.mem_cons.1 he with rfl | he
          · exact hx
          · exact hnone e he
        · right
          exact ⟨e, List.mem_cons_of_mem _ he, hp, ptr, heq⟩

/-- The whole loop over list `q`, looking for an identifier. -/
theorem foreachEnv_search (q : QueueId) (body : Nat → Sched → Except Leave (Bool × Sched))
    {s : Sched} {xs : QueueId → List Nat} (h : Queued s xs) (envId : Word)
    (hmiss : ∀ e ptr, (s.envs e).envId ≠ envId →
      body e (s.setPtr q ptr) = .ok (false, s.setPtr q ptr))
    (hhit : ∀ e ptr, (s.envs e).envId = envId → ∀ t, body e (s.setPtr q ptr) ≠ .ok (false, t)) :
    (∀ e ∈ xs q, (s.envs e).envId ≠ envId) ∧
        foreachEnv q body s = .ok (false, s.setPtr q none) ∨
    ∃ e ∈ xs q, (s.envs e).envId = envId ∧ ∃ ptr, foreachEnv q body s =
        body e (s.setPtr q ptr) := by
  have hn : (xs q).length < foreachRounds := Nat.lt_succ_of_le (h.length_le q)
  have hloop := listForeach_search (fun e => (s.envs e).envId = envId) hmiss hhit
    (s.queues q).ptrNext (h.lists.list q).seg hn
  rw [setPtr_self, ← (h.lists.list q).first] at hloop
  exact hloop

end Rules

/-! ## sched_run_all -/

theorem Queued.next_of_first {s : Sched} {xs : QueueId → List Nat} (h : Queued s xs) {q : QueueId}
    {e : Nat} {rest : List Nat} (hq : xs q = e :: rest) : s.links.next e = rest.head? := by
  have hlist : IsList s.links (s.queues q) ([] ++ e :: rest) := by
    rw [List.nil_append, ← hq]
    exact h.lists.list q
  exact hlist.next_eq

/-- The state between two rounds of `sched_run_all`: `rest` is what is left of the new queue. -/
structure RunningAll (s : Sched) (xs : QueueId → List Nat) (rest : List Nat) (t : Sched)
    (ys : QueueId → List Nat) : Prop where
  placed : Queued t ys
  same : SameSched s t
  new : ys .new = rest
  ready : ∀ e, e ∈ ys .ready ∨ e ∈ rest ↔ e ∈ xs .ready ∨ e ∈ xs .new
  free : ys .free = xs .free
  exit : ys .exit = xs .exit

theorem RunningAll.round {s t : Sched} {xs ys : QueueId → List Nat} {e : Nat} {rest : List Nat}
    (h : RunningAll s xs (e :: rest) t ys) :
    ∃ u, runAllRound e (t.setPtr .new rest.head?) = .ok (false, u) ∧
      (u.queues .new).ptrNext = rest.head? ∧ ∃ zs, RunningAll s xs rest u zs := by
  have hplaced := h.placed.setPtr .new rest.head?
  have he : e ∈ ys .new := by
    rw [h.new]
    exact List.mem_cons_self
  obtain ⟨zs, hperm, hz, hsame, hptr⟩ := hplaced.toReady he
  refine ⟨_, rfl, ?_, moved ys .new .ready e zs, ?_⟩
  · rw [hptr, setPtr_ptrNext]
  · have hnew : moved ys .new .ready e zs .new = rest := by
      rw [moved_from (by decide), h.new, List.erase_cons_head]
    refine ⟨hz, h.same.trans ((setPtr_sameSched _ _ _).trans hsame), hnew, ?_, ?_, ?_⟩
    · intro x
      rw [moved_to, hperm.mem_iff, ← h.ready, List.mem_cons, List.mem_cons]
      tauto
    · rw [moved_other (by decide) (by decide), h.free]
    · rw [moved_other (by decide) (by decide), h.exit]

theorem runAll_loop {s : Sched} {xs : QueueId → List Nat} (h : Queued s xs) :
    ∃ t ys, foreachEnv .new runAllRound s = .ok (false, t) ∧ RunningAll s xs [] t ys := by
  have hstart : ∃ ys, RunningAll s xs (xs .new) s ys :=
    ⟨xs, h, ⟨rfl, rfl⟩, rfl, fun _ => Iff.rfl, rfl, rfl⟩
  obtain ⟨t, hloop, ys, ht⟩ := listForeach_consume (q := .new)
    (I := fun rest t => ∃ ys, RunningAll s xs rest t ys)
    (fun e rest t ht => by
      obtain ⟨ys, ht⟩ := ht
      exact ht.placed.next_of_first ht.new)
    (fun e rest t ht => by
      obtain ⟨ys, ht⟩ := ht
      exact ht.round)
    hstart (Nat.lt_succ_of_le (h.length_le .new))
  refine ⟨t.setPtr .new none, ys, ?_, ht.placed.setPtr _ _, ht.same.trans (setPtr_sameSched _ _ _),
    ht.new, ht.ready, ht.free, ht.exit⟩
  rw [foreachEnv, (h.lists.list .new).first]
  exact hloop

/-! ## sched_kill_all -/

/-- The state between two rounds of a loop of `sched_kill_all`: the environments in `done` have been
freed in this order. -/
structure Killing (q : QueueId) (s : Sched) (xs : QueueId → List Nat) (done rest : List Nat)
    (t : Sched) (ys : QueueId → List Nat) : Prop where
  placed : Queued t ys
  same : SameSched s t
  visited : done ++ rest = xs q
  left : ys q = rest
  free : ys .free = done.reverse ++ xs .free
  other : ∀ p, p ≠ q → p ≠ .free → ys p = xs p

theorem Killing.round {q : QueueId} {s t : Sched} {xs ys : QueueId → List Nat} {e : Nat}
    {done rest : List Nat} (hq : q ≠ .free) (h : Killing q s xs done (e :: rest) t ys) :
    ∃ u, killAllRound q e (t.setPtr q rest.head?) = .ok (false, u) ∧
      (u.queues q).ptrNext = rest.head? ∧ ∃ zs, Killing q s xs (done ++ [e]) rest u zs := by
  have hplaced := h.placed.setPtr q rest.head?
  have he : e ∈ ys q := by
    rw [h.left]
    exact List.mem_cons_self
  obtain ⟨hz, hsame, hptr⟩ := hplaced.toFree he hq
  refine ⟨_, rfl, ?_, moved ys q .free e (e :: ys .free), ?_⟩
  · rw [hptr, setPtr_ptrNext]
  · refine ⟨hz, h.same.trans ((setPtr_sameSched _ _ _).trans hsame), ?_, ?_, ?_, ?_⟩
    · rw [← h.visited, List.append_assoc]
      rfl
    · rw [moved_from hq, h.left, List.erase_cons_head]
    · rw [moved_to, h.free]
      simp
    · intro p hp hpf
      rw [moved_other hp hpf, h.other p hp hpf]

theorem killQueue_spec {q : QueueId} {s : Sched} {xs : QueueId → List Nat} (h : Queued s xs)
    (hq : q ≠ .free) :
    ∃ t ys, killQueue q s = .ok t ∧ Killing q s xs (xs q) [] t ys := by
  by_cases hempty : (s.queues q).lhFirst = none
  · have hnil : xs q = [] := (h.lists.list q).first_eq_none_iff.1 hempty
    refine ⟨s, xs, by rw [killQueue, if_pos hempty], h, ⟨rfl, rfl⟩, List.append_nil _, hnil, ?_,
      fun _ _ _ => rfl⟩
    rw [hnil]
    rfl
  · have hn : (xs q).length < foreachRounds := Nat.lt_succ_of_le (h.length_le q)
    have hstart : ∃ done ys, Killing q s xs done (xs q) s ys :=
      ⟨[], xs, h, ⟨rfl, rfl⟩, rfl, rfl, rfl, fun _ _ _ => rfl⟩
    obtain ⟨t, hloop, done, ys, ht⟩ := listForeach_consume (q := q)
      (I := fun rest t => ∃ done ys, Killing q s xs done rest t ys)
      (fun e rest t ht => by
        obtain ⟨done, ys, ht⟩ := ht
        exact ht.placed.next_of_first ht.left)
      (fun e rest t ht => by
        obtain ⟨done, ys, ht⟩ := ht
        obtain ⟨u, hu, hptr, zs, hz⟩ := ht.round hq
        exact ⟨u, hu, hptr, done ++ [e], zs, hz⟩)
      hstart hn
    have hdone : done = xs q := by
      rw [← ht.visited, List.append_nil]
    rw [hdone] at ht
    refine ⟨t.setPtr q none, ys, ?_, ht.placed.setPtr _ _, ht.same.trans (setPtr_sameSched _ _ _),
      ht.visited, ht.left, ht.free, ht.other⟩
    rw [killQueue, if_neg hempty, foreachEnv, (h.lists.list q).first, hloop]
    rfl

/-- `sched_kill_all` frees the new, the ready and the exited environments one after the other. -/
theorem schedKillAll_spec {s : Sched} {xs : QueueId → List Nat} (h : Queued s xs) :
    ∃ t ys, schedKillAll s = .error (fosScheduler t) ∧ Queued t ys ∧ SameSched s t ∧
      ys .new = [] ∧ ys .ready = [] ∧ ys .exit = [] ∧
      ys .free = (xs .new ++ xs .ready ++ xs .exit).reverse ++ xs .free := by
  obtain ⟨t₁, ys₁, h₁, hk₁⟩ := killQueue_spec h (show QueueId.new ≠ .free by decide)
  obtain ⟨t₂, ys₂, h₂, hk₂⟩ := killQueue_spec hk₁.placed (show QueueId.ready ≠ .free by decide)
  obtain ⟨t₃, ys₃, h₃, hk₃⟩ := killQueue_spec hk₂.placed (show QueueId.exit ≠ .free by decide)
  refine ⟨t₃, ys₃, ?_, hk₃.placed, (hk₁.same.trans hk₂.same).trans hk₃.same, ?_, ?_, hk₃.left, ?_⟩
  · simp only [schedKillAll, bind, Except.bind, h₁, h₂, h₃]
  · rw [hk₃.other .new (by decide) (by decide), hk₂.other .new (by decide) (by decide), hk₁.left]
  · rw [hk₃.other .ready (by decide) (by decide), hk₂.left]
  · rw [hk₃.free, hk₂.free, hk₁.free, hk₂.other .exit (by decide) (by decide),
      hk₁.other .exit (by decide) (by decide), hk₁.other .ready (by decide) (by decide)]
    simp

end FosMemory
