import FosMemory.Sched.Loops

/-!
# SchedRun — runs of the scheduler

Every operation either returns, with the environments still placed and `curenv` as it was, or ends in
a pick of `fos_scheduler`.  From this every state of a run keeps the environments in their lists.
-/

namespace FosMemory

open Lib

/-! ## Invariant -/

/-- The environments are placed, and the scheduler is only stopped when nothing is ready. -/
structure SchedInv (s : Sched) (xs : QueueId → List Nat) : Prop where
  placed : Queued s xs
  idle : s.curenv = none → s.schedulerStatus = .stopped
  stopped : s.schedulerStatus = .stopped → xs .ready = []
  current : ∀ e, s.curenv = some e → e < nenv

theorem liveId_toNat {e : Nat} (he : e < nenv) : (liveId e).toNat = 4096 + e := by
  have hmod : e % 2 ^ 32 = e := Nat.mod_eq_of_lt (Nat.lt_trans he (by decide))
  have hlt : e < 2 ^ 12 := Nat.lt_trans he (by decide)
  have hor : 2 ^ 12 ||| e = 2 ^ 12 + e := by
    have := Nat.two_pow_add_eq_or_of_lt hlt 1
    simpa using this.symm
  rw [liveId, BitVec.toNat_or, BitVec.toNat_ofNat, hmod]
  exact hor

theorem liveId_inj {e x : Nat} (he : e < nenv) (hx : x < nenv) (h : liveId e = liveId x) :
    e = x := by
  have hnat := congrArg BitVec.toNat h
  rw [liveId_toNat he, liveId_toNat hx] at hnat
  exact Nat.add_left_cancel hnat

theorem liveId_ne_zero {e : Nat} (he : e < nenv) : liveId e ≠ 0#32 := by
  intro h
  have hnat := congrArg BitVec.toNat h
  rw [liveId_toNat he] at hnat
  simp at hnat

theorem Queued.envId_of_free {s : Sched} {xs : QueueId → List Nat} (h : Queued s xs) {e : Nat}
    (he : e ∈ xs .free) {x : Nat} (hx : x < nenv) : (s.envs e).envId ≠ liveId x := by
  rw [h.freeId e he]
  exact (liveId_ne_zero hx).symm

/-- An identifier of a live environment belongs to one slot. -/
theorem Queued.eq_of_envId {s : Sched} {xs : QueueId → List Nat} (h : Queued s xs) {e x : Nat}
    (he : e < nenv) (hx : x < nenv) (hid : (s.envs e).envId = liveId x) : e = x := by
  obtain ⟨q, hq⟩ := (h.cover e).1 he
  by_cases hfree : q = .free
  · subst hfree
    exact absurd hid (h.envId_of_free hq hx)
  · rw [h.envId q hfree e hq] at hid
    exact liveId_inj he hx hid

/-! ## Effects -/

/-- What an operation does: it returns, with `curenv` in the ready list as before unless it was
`killed`, or it ends in a pick. -/
inductive Effect (s : Sched) (xs : QueueId → List Nat) (killed : Prop) : Except Leave Sched → Prop where
  | returns {t : Sched} {ys : QueueId → List Nat} (placed : Queued t ys) (same : SameSched s t)
      (stopped : s.schedulerStatus = .stopped → ys .ready = [])
      (kept : ∀ c, s.curenv = some c → c ∈ xs .ready → (c ∈ ys .ready ↔ ¬ killed)) :
      Effect s xs killed (.ok t)
  | leaves {t : Sched} {ys : QueueId → List Nat} (placed : Queued t ys) (safe : ¬ killed) :
      Effect s xs killed (.error (fosScheduler t))

/-- Nothing but the saved places has changed. -/
theorem SchedInv.returns {s t : Sched} {xs : QueueId → List Nat} (h : SchedInv s xs)
    (ht : Queued t xs) (hsame : SameSched s t) {killed : Prop} (hkilled : ¬ killed) :
    Effect s xs killed (.ok t) :=
  .returns ht hsame h.stopped fun _ _ hc => iff_of_true hc hkilled

theorem schedCreate_effect {s : Sched} {xs : QueueId → List Nat} (h : SchedInv s xs)
    {program : Option Nat} (hprogram : ∀ dir, program = some dir → s.directories dir = false) :
    Effect s xs False (schedCreate program s) := by
  cases program with
  | none => exact h.returns h.placed ⟨rfl, rfl⟩ not_false
  | some dir =>
    cases hfree : xs .free with
    | nil =>
      have hfirst : (s.queues .free).lhFirst = none := by
        rw [(h.placed.lists.list .free).first, hfree]
        rfl
      have hcreate : schedCreate (some dir) s = .ok s := by
        simp only [schedCreate, schedEnvCreate, hfirst, schedNewEnv]
      rw [hcreate]
      exact h.returns h.placed ⟨rfl, rfl⟩ not_false
    | cons e free =>
      obtain ⟨t, ht, hplaced, hsame, -⟩ := h.placed.create hfree (hprogram dir rfl)
      have hready : moved xs .free .new e (xs .new ++ [e]) .ready = xs .ready :=
        moved_other (by decide) (by decide)
      rw [ht]
      refine .returns hplaced hsame ?_ fun c _ hc => iff_of_true ?_ not_false
      · rw [hready]
        exact h.stopped
      · rwa [hready]

theorem schedRunAll_effect {s : Sched} {xs : QueueId → List Nat} (h : SchedInv s xs) :
    Effect s xs False (schedRunAll s) := by
  obtain ⟨t, ys, hloop, ht⟩ := runAll_loop h.placed
  have hrun : schedRunAll s = if t.schedulerStatus = .stopped then .error (fosScheduler t)
      else .ok t := by
    simp only [schedRunAll, bind, Except.bind, hloop]
  rw [hrun]
  split
  case isTrue => exact .leaves ht.placed not_false
  case isFalse hstarted =>
    refine .returns ht.placed ht.same (fun hs => ?_) fun c _ hc => iff_of_true ?_ not_false
    · exact absurd (ht.same.status.trans hs) hstarted
    · have := (ht.ready c).2 (.inl hc)
      simpa using this

theorem schedKillAll_effect {s : Sched} {xs : QueueId → List Nat} (h : SchedInv s xs) :
    Effect s xs False (schedKillAll s) := by
  obtain ⟨t, ys, hkill, hplaced, -⟩ := schedKillAll_spec h.placed
  rw [hkill]
  exact .leaves hplaced not_false

/-! ### sched_run_env -/

theorem schedRunEnv_effect {s : Sched} {xs : QueueId → List Nat} (h : SchedInv s xs) (envId : Word) :
    Effect s xs False (schedRunEnv envId s) := by
  have hsearch := foreachEnv_search .new (runEnvRound envId) h.placed envId
    (fun e ptr hne => by rw [runEnvRound, setPtr_envs, if_neg hne])
    (fun e ptr heq t => by
      rw [runEnvRound, setPtr_envs, if_pos heq]
      simp only
      split <;> simp)
  rcases hsearch with ⟨-, hmiss⟩ | ⟨e, he, hid, ptr, hhit⟩
  · have hrun : schedRunEnv envId s = .ok (s.setPtr .new none) := by
      simp only [schedRunEnv, bind, Except.bind, hmiss]
    rw [hrun]
    exact h.returns (h.placed.setPtr _ _) (setPtr_sameSched _ _ _) not_false
  · obtain ⟨ys, hperm, hplaced, hsame, -⟩ := (h.placed.setPtr .new ptr).toReady he
    obtain ⟨t, ht⟩ : ∃ t, t = schedInsertReady (schedRemoveNew (s.setPtr .new ptr) e) e := ⟨_, rfl⟩
    rw [← ht] at hplaced hsame
    by_cases hstopped : t.schedulerStatus = .stopped
    · have hrun : schedRunEnv envId s = .error (fosScheduler t) := by
        simp only [schedRunEnv, bind, Except.bind, hhit, runEnvRound, setPtr_envs, if_pos hid, ← ht,
          if_pos hstopped]
      rw [hrun]
      exact .leaves hplaced not_false
    · have hrun : schedRunEnv envId s = .ok t := by
        simp only [schedRunEnv, bind, Except.bind, hhit, runEnvRound, setPtr_envs, if_pos hid, ← ht,
          if_neg hstopped]
      rw [hrun]
      refine .returns hplaced ((setPtr_sameSched _ _ _).trans hsame) (fun hs => ?_)
        fun c _ hc => iff_of_true ?_ not_false
      · exact absurd (hsame.status.trans hs) hstopped
      · rw [moved_to, hperm.mem_iff]
        exact List.mem_cons_of_mem _ hc

/-! ### sched_exit_env and sched_kill_env -/

theorem curenvIs_eq {s : Sched} {c : Nat} (hc : s.curenv = some c) (envId : Word) :
    curenvIs s envId = .ok (decide ((s.envs c).envId = envId)) := by
  rw [curenvIs, hc]

/-- Something is ready, so there is a current environment. -/
theorem SchedInv.curenv_of_ready {s : Sched} {xs : QueueId → List Nat} (h : SchedInv s xs) {e : Nat}
    (he : e ∈ xs .ready) : ∃ c, s.curenv = some c := by
  cases hc : s.curenv with
  | some c => exact ⟨c, rfl⟩
  | none =>
    rw [h.stopped (h.idle hc)] at he
    cases he

theorem exitEnvRound_miss {q : QueueId} {envId : Word} {e : Nat} {s : Sched}
    (h : (s.envs e).envId ≠ envId) : exitEnvRound q envId e s = .ok (false, s) := by
  rw [exitEnvRound, if_neg h]

theorem exitEnvRound_hit {q : QueueId} {envId : Word} {e : Nat} {s : Sched}
    (h : (s.envs e).envId = envId) (t : Sched) : exitEnvRound q envId e s ≠ .ok (false, t) := by
  rw [exitEnvRound, if_pos h]
  by_cases hq : q = .ready
  · simp only [if_pos hq, bind, Except.bind]
    cases hc : curenvIs (schedInsertExit (removeFrom q s e) e) envId with
    | error l => simp
    | ok b => cases b <;> simp
  · simp [if_neg hq]

theorem schedExitEnv_effect {s : Sched} {xs : QueueId → List Nat} (h : SchedInv s xs) (envId : Word) :
    Effect s xs False (schedExitEnv envId s) := by
  have hnew := foreachEnv_search .new (exitEnvRound .new envId) h.placed envId
    (fun e ptr hne => exitEnvRound_miss (s := s.setPtr .new ptr) hne)
    (fun e ptr heq t => exitEnvRound_hit (s := s.setPtr .new ptr) heq t)
  rcases hnew with ⟨-, hmiss⟩ | ⟨e, he, hid, ptr, hhit⟩
  · obtain ⟨u, hu⟩ : ∃ u, u = s.setPtr .new none := ⟨_, rfl⟩
    have hplaced : Queued u xs := hu ▸ h.placed.setPtr _ _
    have hsame : SameSched s u := hu ▸ setPtr_sameSched _ _ _
    have hready := foreachEnv_search .ready (exitEnvRound .ready envId) hplaced envId
      (fun e ptr hne => exitEnvRound_miss (s := u.setPtr .ready ptr) hne)
      (fun e ptr heq t => exitEnvRound_hit (s := u.setPtr .ready ptr) heq t)
    rcases hready with ⟨-, hmiss'⟩ | ⟨e, he, hid, ptr, hhit⟩
    · have hrun : schedExitEnv envId s = .ok (u.setPtr .ready none) := by
        simp [schedExitEnv, bind, Except.bind, hmiss, ← hu, hmiss']
      rw [hrun]
      exact h.returns (hplaced.setPtr _ _) (hsame.trans (setPtr_sameSched _ _ _)) not_false
    · -- the environment is ready
      have hlt : e < nenv := hplaced.lt he
      have hlive : envId = liveId e := hid.symm.trans (hplaced.envId .ready (by decide) e he)
      obtain ⟨hz, hsame'⟩ := (hplaced.setPtr .ready ptr).toExit he (by decide) (by decide)
      obtain ⟨t, ht⟩ : ∃ t, t = schedInsertExit (removeFrom .ready (u.setPtr .ready ptr) e) e :=
        ⟨_, rfl⟩
      rw [← ht] at hz hsame'
      have hsched : SameSched s t := (hsame.trans (setPtr_sameSched _ _ _)).trans hsame'
      obtain ⟨c, hc⟩ := h.curenv_of_ready he
      have hcur : curenvIs t envId = .ok (decide ((t.envs c).envId = envId)) :=
        curenvIs_eq (hsched.curenv.trans hc) envId
      have hys : (xs .exit ++ [e]).Perm (e :: xs .exit) := List.perm_append_singleton _ _
      by_cases hcid : (t.envs c).envId = envId
      · -- it is the current one: the scheduler takes over
        have hrun : schedExitEnv envId s = .error (fosScheduler t) := by
          simp [schedExitEnv, bind, Except.bind, hmiss, ← hu, hhit, exitEnvRound, hid, ← ht, hcur,
            hcid]
        rw [hrun]
        exact .leaves hz not_false
      · have hrun : schedExitEnv envId s = .ok t := by
          simp [schedExitEnv, bind, Except.bind, hmiss, ← hu, hhit, exitEnvRound, hid, ← ht, hcur,
            hcid]
        rw [hrun]
        refine .returns hz hsched (fun hs => ?_) fun c' hc' hready => iff_of_true ?_ not_false
        · rw [h.stopped hs] at he
          cases he
        · have hce : c' ≠ e := by
            rintro rfl
            rw [hc] at hc'
            cases hc'
            have hmem := (mem_moved_self hplaced.lists he hys (by decide) .exit).2 rfl
            exact hcid ((hz.envId .exit (by decide) c hmem).trans hlive.symm)
          exact (mem_moved_iff hys (by decide) hce .ready).2 hready
  · have hid' : ((s.setPtr .new ptr).envs e).envId = envId := hid
    obtain ⟨hz, hsame⟩ := (h.placed.setPtr .new ptr).toExit he (by decide) (by decide)
    have hrun : schedExitEnv envId s =
        .ok (schedInsertExit (removeFrom .new (s.setPtr .new ptr) e) e) := by
      simp [schedExitEnv, bind, Except.bind, hhit, exitEnvRound, hid]
    have hready : moved xs .new .exit e (xs .exit ++ [e]) .ready = xs .ready :=
      moved_other (by decide) (by decide)
    rw [hrun]
    refine .returns hz ((setPtr_sameSched _ _ _).trans hsame) ?_ fun c _ hc => iff_of_true ?_ not_false
    · rw [hready]
      exact h.stopped
    · rwa [hready]

/-- The identifier is that of the current environment, which is ready. -/
def NamesCurrent (s : Sched) (xs : QueueId → List Nat) (envId : Word) : Prop :=
  ∃ c, s.curenv = some c ∧ c ∈ xs .ready ∧ (s.envs c).envId = envId

theorem killEnvRound_miss {q : QueueId} {envId : Word} {e : Nat} {s : Sched}
    (h : (s.envs e).envId ≠ envId) : killEnvRound q envId e s = .ok (false, s) := by
  rw [killEnvRound, if_neg h]

theorem killEnvRound_hit {q : QueueId} {envId : Word} {e : Nat} {s : Sched}
    (h : (s.envs e).envId = envId) (t : Sched) : killEnvRound q envId e s ≠ .ok (false, t) := by
  rw [killEnvRound, if_pos h]
  by_cases hq : q = .ready
  · simp only [if_pos hq, bind, Except.bind]
    cases hc : curenvIs (startEnvFree (removeFrom q s e) e) envId with
    | error l => simp
    | ok b => cases b <;> simp
  · simp [if_neg hq]

/-- The freed environment has no identifier any more, so `curenv` is never found to be it. -/
theorem killEnvRound_eq {s : Sched} {xs : QueueId → List Nat} {q : QueueId} {e : Nat} {envId : Word}
    (h : Queued s xs) (hq : q ≠ .free) (he : e ∈ xs q) (hid : (s.envs e).envId = envId)
    (hcur : q = .ready → ∃ c, s.curenv = some c ∧ c < nenv) :
    killEnvRound q envId e s = .ok (true, startEnvFree (removeFrom q s e) e) := by
  by_cases hready : q = .ready
  · subst hready
    obtain ⟨c, hc, hclt⟩ := hcur rfl
    obtain ⟨hz, hsame, -⟩ := h.toFree he hq
    have hlive : envId = liveId e := hid.symm.trans (h.envId .ready hq e he)
    obtain ⟨t, ht⟩ : ∃ t, t = startEnvFree (removeFrom .ready s e) e := ⟨_, rfl⟩
    rw [← ht] at hz hsame
    have hne : (t.envs c).envId ≠ envId := by
      intro heq
      rw [hlive] at heq
      have hce : c = e := hz.eq_of_envId hclt (h.lt he) heq
      have hmem : c ∈ moved xs .ready .free e (e :: xs .free) .free := by
        rw [moved_to, hce]
        exact List.mem_cons_self
      exact hz.envId_of_free hmem (h.lt he) heq
    simp [killEnvRound, hid, ← ht, curenvIs_eq (hsame.curenv.trans hc), hne, bind, Except.bind]
  · simp [killEnvRound, hid, hready]

/-- The effect of killing an environment of list `q`, found from a state that only differs in the
saved places. -/
theorem kill_effect {s u : Sched} {xs : QueueId → List Nat} {q : QueueId} {e : Nat} {envId : Word}
    (h : SchedInv s xs) (hu : Queued u xs) (hsame : SameSched s u) (henvs : u.envs = s.envs)
    (hq : q ≠ .free) (he : e ∈ xs q) (hid : (u.envs e).envId = envId) :
    Effect s xs (NamesCurrent s xs envId) (.ok (startEnvFree (removeFrom q u e) e)) := by
  obtain ⟨hz, hsame', -⟩ := hu.toFree he hq
  have hlive : envId = liveId e := hid.symm.trans (hu.envId q hq e he)
  have hys : (e :: xs .free).Perm (e :: xs .free) := List.Perm.refl _
  refine .returns hz (hsame.trans hsame') (fun hs => ?_) fun c hc hready => ?_
  · -- nothing was ready, and nothing is
    apply List.eq_nil_iff_forall_not_mem.2
    intro x hx
    have hxe : x ≠ e := by
      rintro rfl
      have := (mem_moved_self hu.lists he hys hq .ready).1 hx
      cases this
    have := (mem_moved_iff hys hq hxe .ready).1 hx
    rw [h.stopped hs] at this
    cases this
  · have hnames : NamesCurrent s xs envId ↔ c = e := by
      constructor
      · rintro ⟨c', hc', -, hcid⟩
        rw [hc] at hc'
        cases hc'
        rw [← henvs, hlive] at hcid
        exact hu.eq_of_envId (hu.lt hready) (hu.lt he) hcid
      · rintro rfl
        exact ⟨c, hc, hready, by rw [← henvs, hid]⟩
    rw [hnames]
    by_cases hce : c = e
    · subst hce
      refine iff_of_false (fun hmem => ?_) (not_not_intro rfl)
      have := (mem_moved_self hu.lists he hys hq .ready).1 hmem
      cases this
    · exact iff_of_true ((mem_moved_iff hys hq hce .ready).2 hready) hce

theorem schedKillEnv_effect {s : Sched} {xs : QueueId → List Nat} (h : SchedInv s xs) (envId : Word) :
    Effect s xs (NamesCurrent s xs envId) (schedKillEnv envId s) := by
  have hsearch : ∀ q u, Queued u xs → _ := fun q u hu =>
    foreachEnv_search q (killEnvRound q envId) hu envId
      (fun e ptr hne => killEnvRound_miss (s := u.setPtr q ptr) hne)
      (fun e ptr heq t => killEnvRound_hit (s := u.setPtr q ptr) heq t)
  obtain ⟨u₁, hu₁⟩ : ∃ u, u = s.setPtr .new none := ⟨_, rfl⟩
  obtain ⟨u₂, hu₂⟩ : ∃ u, u = u₁.setPtr .ready none := ⟨_, rfl⟩
  have hp₁ : Queued u₁ xs := hu₁ ▸ h.placed.setPtr _ _
  have hp₂ : Queued u₂ xs := hu₂ ▸ hp₁.setPtr _ _
  have hs₁ : SameSched s u₁ := hu₁ ▸ setPtr_sameSched _ _ _
  have hs₂ : SameSched s u₂ := hs₁.trans (hu₂ ▸ setPtr_sameSched _ _ _)
  have he₁ : u₁.envs = s.envs := by rw [hu₁, setPtr_envs]
  have he₂ : u₂.envs = s.envs := by rw [hu₂, setPtr_envs, he₁]
  rcases hsearch .new s h.placed with ⟨hno, hmiss⟩ | ⟨e, he, hid, ptr, hhit⟩
  · rcases hsearch .ready u₁ hp₁ with ⟨hno', hmiss'⟩ | ⟨e, he, hid, ptr, hhit⟩
    · rcases hsearch .exit u₂ hp₂ with ⟨-, hmiss''⟩ | ⟨e, he, hid, ptr, hhit⟩
      · -- no environment has this identifier
        have hrun : schedKillEnv envId s = .ok (u₂.setPtr .exit none) := by
          simp [schedKillEnv, bind, Except.bind, hmiss, ← hu₁, hmiss', ← hu₂, hmiss'']
        rw [hrun]
        refine h.returns (hp₂.setPtr _ _) (hs₂.trans (setPtr_sameSched _ _ _)) ?_
        rintro ⟨c, -, hc, hcid⟩
        rw [← he₁] at hcid
        exact hno' c hc hcid
      · have hround := killEnvRound_eq (hp₂.setPtr .exit ptr) (by decide) he hid
          (fun hq => by cases hq)
        have hrun : schedKillEnv envId s =
            .ok (startEnvFree (removeFrom .exit (u₂.setPtr .exit ptr) e) e) := by
          simp [schedKillEnv, bind, Except.bind, hmiss, ← hu₁, hmiss', ← hu₂, hhit, hround]
        rw [hrun]
        exact kill_effect h (hp₂.setPtr _ _) (hs₂.trans (setPtr_sameSched _ _ _)) he₂ (by decide) he
          hid
    · obtain ⟨c, hc⟩ := h.curenv_of_ready he
      have hround := killEnvRound_eq (hp₁.setPtr .ready ptr) (by decide) he hid
        (fun _ => ⟨c, hs₁.curenv.trans hc, h.current c hc⟩)
      have hrun : schedKillEnv envId s =
          .ok (startEnvFree (removeFrom .ready (u₁.setPtr .ready ptr) e) e) := by
        simp [schedKillEnv, bind, Except.bind, hmiss, ← hu₁, hhit, hround]
      rw [hrun]
      exact kill_effect h (hp₁.setPtr _ _) (hs₁.trans (setPtr_sameSched _ _ _)) he₁ (by decide) he hid
  · have hround := killEnvRound_eq (h.placed.setPtr .new ptr) (by decide) he hid
      (fun hq => by cases hq)
    have hrun : schedKillEnv envId s =
        .ok (startEnvFree (removeFrom .new (s.setPtr .new ptr) e) e) := by
      simp [schedKillEnv, bind, Except.bind, hhit, hround]
    rw [hrun]
    exact kill_effect h (h.placed.setPtr _ _) (setPtr_sameSched _ _ _) rfl (by decide) he hid

/-! ## Picks -/

/-- A pick runs a ready environment, or goes to the prompt when there is none. -/
theorem Queued.pick {s : Sched} {xs : QueueId → List Nat} (h : Queued s xs) :
    ∃ t, SchedInv t xs ∧ t.directories = s.directories ∧
      ((∃ c, fosScheduler s = .user t ∧ t.curenv = some c ∧ c ∈ xs .ready) ∨
        (fosScheduler s = .prompt t ∧ t.curenv = none)) := by
  obtain ⟨r, hr⟩ := h.lists.ready
  obtain ⟨n, t, hn, hrun, ht, hcur, hstatus, hlinks, hqueues, henvs, hdirs⟩ |
    ⟨-, hnil, hrun, hq⟩ := fosScheduler_spec hr
  · have hmem : n ∈ xs .ready := hr.rotated.perm.mem_iff.1 (List.mem_of_head? hn)
    have hlists : Lists t xs := by
      refine ⟨fun q => ?_, h.lists.unique, ⟨_, ht.rotated⟩⟩
      rw [hlinks, hqueues]
      exact h.lists.list q
    have hplaced : Queued t xs := by
      refine ⟨hlists, h.cover, ?_, ?_, ?_, ?_, ?_⟩ <;> rw [henvs]
      · exact h.status
      · exact h.freeId
      · exact h.envId
      · rw [hdirs]
        exact h.directory
      · exact h.distinct
    refine ⟨t, ⟨hplaced, ?_, ?_, ?_⟩, hdirs, .inl ⟨n, hrun, hcur, hmem⟩⟩
    · intro hc
      rw [hcur] at hc
      cases hc
    · intro hs
      rw [hstatus] at hs
      cases hs
    · intro e he
      rw [hcur] at he
      cases he
      exact h.lt hmem
  · obtain ⟨t, ht⟩ : ∃ t : Sched, t = { s with
        curenv := none, schedulerStatus := .stopped, schedNext := none } := ⟨_, rfl⟩
    rw [← ht] at hrun
    have hrot : Rotated (xs .ready) t.schedNext [] := by
      rw [hnil, ht]
      exact rotated_nil
    have hplaced : Queued t xs := by
      subst ht
      exact ⟨⟨h.lists.list, h.lists.unique, ⟨[], hrot⟩⟩, h.cover, h.status, h.freeId, h.envId,
        h.directory, h.distinct⟩
    refine ⟨t, ⟨hplaced, fun _ => ?_, fun _ => hnil, fun e he => ?_⟩, ?_, .inr ⟨hrun, ?_⟩⟩
    · rw [ht]
    · rw [ht] at he
      cases he
    · rw [ht]
    · rw [ht]

/-! ## Operations -/

/-- The operations on the scheduler. -/
inductive SchedOp where
  | create (program : Option Nat)
  | runEnv (envId : Word)
  | runAll
  | exitEnv (envId : Word)
  | killEnv (envId : Word)
  | killAll
  | pick

/-- The kernel heap hands out a page directory that is not in use. -/
def SchedOp.Allowed (s : Sched) : SchedOp → Prop
  | .create (some dir) => s.directories dir = false
  | _ => True

def schedStep (s : Sched) : SchedOp → Except Leave Sched
  | .create program => schedCreate program s
  | .runEnv envId => schedRunEnv envId s
  | .runAll => schedRunAll s
  | .exitEnv envId => schedExitEnv envId s
  | .killEnv envId => schedKillEnv envId s
  | .killAll => schedKillAll s
  | .pick => .error (fosScheduler s)

/-- The state after an operation, however it ends. -/
def outcome : Except Leave Sched → Option Sched
  | .ok s => some s
  | .error l => l.state

/-- The operation kills the current environment. -/
def SchedOp.Kills (s : Sched) (xs : QueueId → List Nat) : SchedOp → Prop
  | .killEnv envId => NamesCurrent s xs envId
  | _ => False

theorem schedStep_effect {s : Sched} {xs : QueueId → List Nat} (h : SchedInv s xs) {op : SchedOp}
    (hop : op.Allowed s) : Effect s xs (op.Kills s xs) (schedStep s op) := by
  cases op with
  | create program =>
    refine schedCreate_effect h fun dir hdir => ?_
    subst hdir
    exact hop
  | runEnv envId => exact schedRunEnv_effect h envId
  | runAll => exact schedRunAll_effect h
  | exitEnv envId => exact schedExitEnv_effect h envId
  | killEnv envId => exact schedKillEnv_effect h envId
  | killAll => exact schedKillAll_effect h
  | pick => exact .leaves h.placed not_false

theorem Queued.outcome_pick {s : Sched} {xs : QueueId → List Nat} (h : Queued s xs) :
    ∃ t, outcome (.error (fosScheduler s)) = some t ∧ SchedInv t xs := by
  obtain ⟨t, ht, -, ⟨c, hrun, -⟩ | ⟨hrun, -⟩⟩ := h.pick
  · exact ⟨t, by rw [outcome, hrun, Leave.state], ht⟩
  · exact ⟨t, by rw [outcome, hrun, Leave.state], ht⟩

theorem SchedInv.of_returns {s t : Sched} {xs ys : QueueId → List Nat} (h : SchedInv s xs)
    (hplaced : Queued t ys) (hsame : SameSched s t)
    (hstopped : s.schedulerStatus = .stopped → ys .ready = []) : SchedInv t ys := by
  refine ⟨hplaced, fun hc => ?_, fun hs => hstopped (hsame.status.symm.trans hs), fun e he => ?_⟩
  · rw [hsame.status]
    exact h.idle (hsame.curenv.symm.trans hc)
  · exact h.current e (hsame.curenv.symm.trans he)

theorem Effect.inv {s : Sched} {xs : QueueId → List Nat} {killed : Prop} {r : Except Leave Sched}
    (h : SchedInv s xs) (he : Effect s xs killed r) :
    ∃ t ys, outcome r = some t ∧ SchedInv t ys := by
  cases he with
  | returns hplaced hsame hstopped _ =>
    exact ⟨_, _, rfl, h.of_returns hplaced hsame hstopped⟩
  | leaves hplaced _ =>
    obtain ⟨t, ht, hinv⟩ := hplaced.outcome_pick
    exact ⟨t, _, ht, hinv⟩

/-! ## Boot -/

/-- The loop of `env_init`, in front of a list of higher slots. -/
theorem envInit_spec {n : Nat} {s : Sched} {xs : List Nat}
    (hl : IsList s.links (s.queues .free) xs) (hxs : ∀ x ∈ xs, n ≤ x)
    (henvs : s.envs = fun _ => SchedEnv.zero) :
    IsList (envInit n s).links ((envInit n s).queues .free) (List.range n ++ xs) ∧
      (envInit n s).envs = fun _ => SchedEnv.zero := by
  induction n generalizing s xs with
  | zero => exact ⟨hl, henvs⟩
  | succ n ih =>
    have hn : n ∉ xs := fun hmem => Nat.not_succ_le_self n (hxs n hmem)
    obtain ⟨hlist, -⟩ := hl.insertHead hn
    have hzero : (Function.update (Function.update s.envs n { s.envs n with envStatus := .free }) n
        { Function.update s.envs n { s.envs n with envStatus := .free } n with envId := 0#32 }) =
        fun _ => SchedEnv.zero := by
      rw [henvs]
      funext x
      by_cases hx : x = n <;> simp [hx, SchedEnv.zero]
    rw [List.range_succ, List.append_assoc]
    refine ih ?_ ?_ hzero
    · simpa [Sched.insertHead, Sched.setQueue, Sched.setStatus] using hlist
    · intro x hx
      rcases List.mem_cons.1 hx with rfl | hx
      · exact Nat.le_refl _
      · exact Nat.le_of_succ_le (hxs x hx)

theorem envInit_same (n : Nat) (s : Sched) :
    (envInit n s).curenv = s.curenv ∧ (envInit n s).directories = s.directories := by
  induction n generalizing s with
  | zero => exact ⟨rfl, rfl⟩
  | succ n ih => exact ih _

/-- The lists after boot. -/
def bootLists : QueueId → List Nat
  | .free => List.range nenv
  | .new => []
  | .ready => []
  | .exit => []

theorem schedInit_inv {u : Sched} (hfree : IsList u.links (u.queues .free) (bootLists .free))
    (henvs : u.envs = fun _ => SchedEnv.zero) (hcur : u.curenv = none) :
    SchedInv (schedInit u) bootLists := by
  have hlive : ∀ q, q ≠ .free → ∀ e, e ∉ bootLists q := by
    intro q hq e he
    cases q with
    | free => exact hq rfl
    | new => cases he
    | ready => cases he
    | exit => cases he
  have hlists : Lists (schedInit u) bootLists := by
    constructor
    case list =>
      intro q
      cases q with
      | free => exact hfree
      | new => exact isList_init _ _
      | ready => exact isList_init _ _
      | exit => exact isList_init _ _
    case unique =>
      intro p q e hp hq
      by_cases hpf : p = .free
      · by_cases hqf : q = .free
        · rw [hpf, hqf]
        · exact absurd hq (hlive q hqf e)
      · exact absurd hp (hlive p hpf e)
    case rotated => exact ⟨[], rotated_nil⟩
  have henvs' : (schedInit u).envs = fun _ => SchedEnv.zero := henvs
  refine ⟨⟨hlists, ?_, ?_, ?_, ?_, ?_, ?_⟩, fun _ => rfl, fun _ => rfl, ?_⟩
  · intro e
    constructor
    · intro he
      exact ⟨.free, List.mem_range.2 he⟩
    · rintro ⟨q, hq⟩
      by_cases hfree : q = .free
      · subst hfree
        exact List.mem_range.1 hq
      · exact absurd hq (hlive q hfree e)
  · intro q e he
    by_cases hfree : q = .free
    · subst hfree
      rw [henvs']
      rfl
    · exact absurd he (hlive q hfree e)
  · intro e _
    rw [henvs']
    rfl
  · intro q hq e he
    exact absurd he (hlive q hq e)
  · intro q hq e he
    exact absurd he (hlive q hq e)
  · intro p q hp _ e he
    exact absurd he (hlive p hp e)
  · intro e he
    have hnone : (schedInit u).curenv = none := hcur
    rw [hnone] at he
    cases he

theorem boot_inv : SchedInv Sched.boot bootLists := by
  have hblank : IsList Sched.blank.links (Sched.blank.queues .free) [] :=
    ⟨List.nodup_nil, rfl, rfl, rfl, trivial⟩
  have hspec := envInit_spec (n := nenv) hblank (fun _ hx => absurd hx List.not_mem_nil) rfl
  rw [List.append_nil] at hspec
  exact schedInit_inv hspec.1 hspec.2 (envInit_same nenv Sched.blank).1

theorem schedInit_directories (u : Sched) : (schedInit u).directories = u.directories := rfl

theorem schedInit_curenv (u : Sched) : (schedInit u).curenv = u.curenv := rfl

theorem boot_directories (dir : Nat) : Sched.boot.directories dir = false := by
  rw [Sched.boot, schedInit_directories, (envInit_same nenv Sched.blank).2]
  rfl

/-! ## Runs -/

/-- The states reached from boot by any operations. -/
inductive SchedRun : Sched → Prop where
  | boot : SchedRun Sched.boot
  | step {s t : Sched} (op : SchedOp) (h : SchedRun s) (hop : op.Allowed s)
      (ht : outcome (schedStep s op) = some t) : SchedRun t

theorem SchedRun.inv {s : Sched} (h : SchedRun s) : ∃ xs, SchedInv s xs := by
  induction h with
  | boot => exact ⟨bootLists, boot_inv⟩
  | step op h hop ht ih =>
    obtain ⟨xs, hinv⟩ := ih
    obtain ⟨t, ys, ht', hys⟩ := (schedStep_effect hinv hop).inv hinv
    rw [ht] at ht'
    cases ht'
    exact ⟨ys, hys⟩

theorem Queued.elements {s : Sched} {xs : QueueId → List Nat} (h : Queued s xs) (q : QueueId) :
    s.elements q = xs q :=
  (h.lists.list q).elements (h.length_le q)

end FosMemory
