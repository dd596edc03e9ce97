import FosMemory.Sched.Ready

/-!
# Lists — every environment is in one list

The four lists share the links of `struct Env`.  `Queued` says which sequence each list holds, that
every slot of `envs[]` is in one of them and has the status of that list.  The functions of the
scheduler move one environment from a list to another.
-/

namespace FosMemory

open Lib

/-! ## The lists -/

/-- Each list is well formed, no environment is in two of them, and `sched_next` points into the
ready list. -/
structure Lists (s : Sched) (xs : QueueId → List Nat) : Prop where
  list : ∀ q, IsList s.links (s.queues q) (xs q)
  unique : ∀ p q e, e ∈ xs p → e ∈ xs q → p = q
  rotated : ∃ r, Rotated (xs .ready) s.schedNext r

theorem Lists.ready {s : Sched} {xs : QueueId → List Nat} (h : Lists s xs) :
    ∃ r, ReadyQueue s (xs .ready) r := by
  obtain ⟨r, hr⟩ := h.rotated
  exact ⟨r, h.list .ready, hr⟩

theorem Lists.congr {s t : Sched} {xs : QueueId → List Nat} (h : Lists s xs)
    (hlinks : t.links = s.links) (hqueues : t.queues = s.queues) (hnext : t.schedNext = s.schedNext) :
    Lists t xs := by
  refine ⟨fun q => ?_, h.unique, ?_⟩
  · rw [hlinks, hqueues]
    exact h.list q
  · rw [hnext]
    exact h.rotated

/-- A change of one list by one element. -/
theorem Lists.change {s t : Sched} {xs : QueueId → List Nat} {q : QueueId} {e : Nat} {ys : List Nat}
    (h : Lists s xs) (hys : IsList t.links (t.queues q) ys) (honly : ∀ p, p ≠ q → t.queues p = s.queues p)
    (hoff : SameOff (xs q) e s.links t.links) (he : ∀ p, p ≠ q → e ∉ xs p)
    (hmem : ∀ x ∈ ys, x = e ∨ x ∈ xs q)
    (hrot : ∃ r, Rotated (Function.update xs q ys .ready) t.schedNext r) :
    Lists t (Function.update xs q ys) := by
  constructor
  case list =>
    intro p
    by_cases hp : p = q
    · subst hp
      rwa [Function.update_self]
    · rw [Function.update_of_ne hp, honly p hp]
      refine (h.list p).of_sameOff hoff (fun y hy hyq => hp ?_) (he p hp)
      exact h.unique p q y hy hyq
  case unique =>
    -- an element of the changed list is either old or `e`, and both are in no other list
    have hother : ∀ p x, p ≠ q → x ∈ xs p → x ∈ ys → False := by
      intro p x hp hx hxy
      rcases hmem x hxy with rfl | hxq
      · exact he p hp hx
      · exact hp (h.unique p q x hx hxq)
    intro p p' x hx hx'
    by_cases hp : p = q <;> by_cases hp' : p' = q
    · rw [hp, hp']
    · subst hp
      rw [Function.update_self] at hx
      rw [Function.update_of_ne hp'] at hx'
      exact (hother p' x hp' hx' hx).elim
    · subst hp'
      rw [Function.update_self] at hx'
      rw [Function.update_of_ne hp] at hx
      exact (hother p x hp hx hx').elim
    · rw [Function.update_of_ne hp] at hx
      rw [Function.update_of_ne hp'] at hx'
      exact h.unique p p' x hx hx'
  case rotated => exact hrot

/-- `e` is in no list. -/
def Loose (xs : QueueId → List Nat) (e : Nat) : Prop :=
  ∀ q, e ∉ xs q

/-! ## Removing -/

theorem removeFrom_spec {s : Sched} {xs : QueueId → List Nat} {q : QueueId} {e : Nat}
    (h : Lists s xs) (he : e ∈ xs q) :
    Lists (removeFrom q s e) (Function.update xs q ((xs q).erase e)) ∧
      Loose (Function.update xs q ((xs q).erase e)) e ∧ OnlyList q e s (removeFrom q s e) ∧
      ((removeFrom q s e).queues q).ptrNext = (s.queues q).ptrNext := by
  have hne : ∀ p, p ≠ q → e ∉ xs p := fun p hp hep => hp (h.unique p q e hep he)
  have hloose : Loose (Function.update xs q ((xs q).erase e)) e := by
    intro p
    by_cases hp : p = q
    · subst hp
      rw [Function.update_self]
      exact (h.list p).nodup.not_mem_erase
    · rw [Function.update_of_ne hp]
      exact hne p hp
  have hsub : ∀ x ∈ (xs q).erase e, x = e ∨ x ∈ xs q := fun x hx => .inr (List.mem_of_mem_erase hx)
  by_cases hq : q = .ready
  · subst hq
    obtain ⟨r, hr⟩ := h.ready
    obtain ⟨hready, hoff, honly, hptr⟩ := schedRemoveReady_spec hr he
    refine ⟨h.change hready.list honly.queues hoff hne hsub ?_, hloose, honly, hptr⟩
    rw [Function.update_self]
    exact ⟨_, hready.rotated⟩
  · obtain ⟨hlist, hoff, hptr⟩ := (h.list q).erase he
    have hrem : removeFrom q s e = schedRemove s q e := by
      cases q <;> first | rfl | exact absurd rfl hq
    have heq : schedRemove s q e = { (s.setStatus e .unknown).setQueue q
        (listRemove s.links (s.queues q) e) with schedNext := s.schedNext } := rfl
    have honly := onlyList_setQueue s q e .unknown (listRemove s.links (s.queues q) e) s.schedNext
    rw [← heq] at honly
    rw [hrem]
    refine ⟨h.change ?_ honly.queues hoff hne hsub ?_, hloose, honly, ?_⟩
    · rw [heq]
      simpa using hlist
    · rw [Function.update_of_ne (Ne.symm hq)]
      exact h.rotated
    · rw [heq]
      simpa using hptr

/-! ## Inserting -/

/-- `sched_insert_new` and `sched_insert_exit`. -/
theorem schedInsert_spec {s : Sched} {xs : QueueId → List Nat} {q : QueueId} {e : Nat}
    (h : Lists s xs) (he : Loose xs e) (hq : q ≠ .ready) :
    Lists (schedInsert s q e) (Function.update xs q (xs q ++ [e])) ∧
      OnlyList q e s (schedInsert s q e) ∧
      ((schedInsert s q e).envs e).envStatus = q.status := by
  obtain ⟨hlist, hoff⟩ := (h.list q).insertTail (he q)
  have heq : schedInsert s q e = { (s.setStatus e q.status).setQueue q
      (listInsertTail s.links (s.queues q) e) with schedNext := s.schedNext } := rfl
  have honly := onlyList_setQueue s q e q.status (listInsertTail s.links (s.queues q) e) s.schedNext
  rw [← heq] at honly
  refine ⟨h.change ?_ honly.queues hoff (fun p _ => he p) ?_ ?_, honly, ?_⟩
  · rw [heq]
    simpa using hlist
  · intro x hx
    rcases List.mem_append.1 hx with hx | hx
    · exact .inr hx
    · exact .inl (List.mem_singleton.1 hx)
  · rw [Function.update_of_ne (Ne.symm hq)]
    exact h.rotated
  · rw [heq]
    simp [Sched.setQueue]

/-- `sched_insert_ready`. -/
theorem schedInsertReady_lists {s : Sched} {xs : QueueId → List Nat} {e : Nat}
    (h : Lists s xs) (he : Loose xs e) :
    ∃ ys, ys.Perm (e :: xs .ready) ∧ Lists (schedInsertReady s e) (Function.update xs .ready ys) ∧
      OnlyList .ready e s (schedInsertReady s e) ∧
      ((schedInsertReady s e).envs e).envStatus = .ready := by
  obtain ⟨r, hr⟩ := h.ready
  obtain ⟨ys, hready, hperm, hoff, honly, hstatus⟩ := schedInsertReady_spec hr (he .ready)
  refine ⟨ys, hperm, h.change hready.list honly.queues hoff (fun p _ => he p) ?_ ?_, honly, hstatus⟩
  · intro x hx
    exact List.mem_cons.1 (hperm.mem_iff.1 hx)
  · rw [Function.update_self]
    exact ⟨_, hready.rotated⟩

/-- The free list after `start_env_free`. -/
theorem startEnvFree_list {s : Sched} {xs : List Nat} {e : Nat}
    (h : IsList s.links (s.queues .free) xs) (he : e ∉ xs) :
    IsList (startEnvFree s e).links ((startEnvFree s e).queues .free) (e :: xs) ∧
      SameOff xs e s.links (startEnvFree s e).links := by
  obtain ⟨l, hl⟩ : ∃ l, l = (s.links.setNext e none).setPrev e none := ⟨_, rfl⟩
  -- clearing the links of `e` does not change the list
  have hclear : SameOff xs e s.links l := by
    intro y _ hy
    rw [hl]
    simp [hy]
  have hfree : IsList l (s.queues .free) xs := by
    refine h.congr (fun y hy => ?_) rfl rfl rfl
    have hye : y ≠ e := by
      rintro rfl
      exact he hy
    rw [hl]
    simp [hye]
  obtain ⟨hlist, hoff⟩ := hfree.insertHead he
  have hlinks : (startEnvFree s e).links = (listInsertHead l (s.queues .free) e).1 := by
    rw [hl]
    rfl
  have hhead : (startEnvFree s e).queues .free = (listInsertHead l (s.queues .free) e).2 := by
    rw [hl]
    simp [startEnvFree, Sched.insertHead, Sched.setQueue]
  rw [hlinks, hhead]
  refine ⟨hlist, fun y hy hye => ?_⟩
  obtain ⟨h₁, h₂⟩ := hoff y hy hye
  obtain ⟨h₃, h₄⟩ := hclear y hy hye
  exact ⟨h₁.trans h₃, h₂.trans h₄⟩

theorem startEnvFree_lists {s : Sched} {xs : QueueId → List Nat} {e : Nat}
    (h : Lists s xs) (he : Loose xs e) :
    Lists (startEnvFree s e) (Function.update xs .free (e :: xs .free)) := by
  obtain ⟨hlist, hoff⟩ := startEnvFree_list (h.list .free) (he .free)
  refine h.change hlist ?_ hoff (fun p _ => he p) (fun x hx => List.mem_cons.1 hx) ?_
  · intro p hp
    simp [startEnvFree, Sched.insertHead, Sched.setQueue, hp]
  · exact h.rotated

/-! ## Queued environments -/

/-- The identifier of a live environment. -/
def liveId (e : Nat) : Word :=
  envGeneration ||| BitVec.ofNat 32 e

/-- Every slot of `envs[]` is in one list and has its status; the live environments have their
identifier and a page directory of their own. -/
structure Queued (s : Sched) (xs : QueueId → List Nat) : Prop where
  lists : Lists s xs
  cover : ∀ e, e < nenv ↔ ∃ q, e ∈ xs q
  status : ∀ q, ∀ e ∈ xs q, (s.envs e).envStatus = q.status
  freeId : ∀ e ∈ xs .free, (s.envs e).envId = 0#32
  envId : ∀ q, q ≠ .free → ∀ e ∈ xs q, (s.envs e).envId = liveId e
  directory : ∀ q, q ≠ .free → ∀ e ∈ xs q, s.directories (s.envs e).envPageDirectory = true
  distinct : ∀ p q, p ≠ .free → q ≠ .free → ∀ e ∈ xs p, ∀ x ∈ xs q,
    (s.envs e).envPageDirectory = (s.envs x).envPageDirectory → e = x

/-- What stays the same while environments move between the lists. -/
structure SameSched (s t : Sched) : Prop where
  curenv : t.curenv = s.curenv
  status : t.schedulerStatus = s.schedulerStatus

theorem SameSched.trans {s t u : Sched} (h₁ : SameSched s t) (h₂ : SameSched t u) : SameSched s u :=
  ⟨h₂.curenv.trans h₁.curenv, h₂.status.trans h₁.status⟩

theorem OnlyList.sameSched {q : QueueId} {e : Nat} {s t : Sched} (h : OnlyList q e s t) :
    SameSched s t :=
  ⟨h.curenv, h.status⟩

/-- The lists after `e` has moved from `q` to `p`, where `ys` is the new content of `p`. -/
def moved (xs : QueueId → List Nat) (q p : QueueId) (e : Nat) (ys : List Nat) : QueueId → List Nat :=
  Function.update (Function.update xs q ((xs q).erase e)) p ys

section Moved

variable {xs : QueueId → List Nat} {q p : QueueId} {e : Nat} {ys : List Nat}

theorem moved_to : moved xs q p e ys p = ys := by
  rw [moved, Function.update_self]

theorem moved_from (hqp : q ≠ p) : moved xs q p e ys q = (xs q).erase e := by
  rw [moved, Function.update_of_ne hqp, Function.update_self]

theorem moved_other {r : QueueId} (hq : r ≠ q) (hp : r ≠ p) : moved xs q p e ys r = xs r := by
  rw [moved, Function.update_of_ne hp, Function.update_of_ne hq]

/-- Only `e` changes its list. -/
theorem mem_moved_iff (hys : ys.Perm (e :: xs p)) (hqp : q ≠ p) {x : Nat} (hx : x ≠ e) (r : QueueId) :
    x ∈ moved xs q p e ys r ↔ x ∈ xs r := by
  by_cases hp : r = p
  · subst hp
    rw [moved_to, hys.mem_iff, List.mem_cons]
    exact or_iff_right hx
  · by_cases hq : r = q
    · subst hq
      rw [moved_from hqp, List.mem_erase_of_ne hx]
    · rw [moved_other hq hp]

theorem mem_moved_self {s : Sched} (hl : Lists s xs) (he : e ∈ xs q) (hys : ys.Perm (e :: xs p))
    (hqp : q ≠ p) (r : QueueId) : e ∈ moved xs q p e ys r ↔ r = p := by
  by_cases hp : r = p
  · subst hp
    rw [moved_to, hys.mem_iff]
    simp
  · by_cases hq : r = q
    · subst hq
      rw [moved_from hqp]
      exact iff_of_false (hl.list r).nodup.not_mem_erase hp
    · rw [moved_other hq hp]
      exact iff_of_false (fun hr => hq (hl.unique r q e hr he)) hp

/-- Every slot is still in a list. -/
theorem cover_moved {s : Sched} (hl : Lists s xs) (hc : ∀ e, e < nenv ↔ ∃ q, e ∈ xs q) (he : e ∈ xs q)
    (hys : ys.Perm (e :: xs p)) (hqp : q ≠ p) (x : Nat) :
    x < nenv ↔ ∃ r, x ∈ moved xs q p e ys r := by
  by_cases hx : x = e
  · subst hx
    exact iff_of_true ((hc x).2 ⟨q, he⟩) ⟨p, (mem_moved_self hl he hys hqp p).2 rfl⟩
  · rw [hc x]
    exact exists_congr fun r => (mem_moved_iff hys hqp hx r).symm

end Moved

/-- A move between the lists of live environments. -/
theorem Queued.move {s t : Sched} {xs : QueueId → List Nat} {q p : QueueId} {e : Nat} {ys : List Nat}
    (h : Queued s xs) (he : e ∈ xs q) (hys : ys.Perm (e :: xs p)) (hqp : q ≠ p) (hq : q ≠ .free)
    (hp : p ≠ .free) (hlists : Lists t (moved xs q p e ys))
    (henvs : ∀ x, x ≠ e → t.envs x = s.envs x) (hid : (t.envs e).envId = (s.envs e).envId)
    (hdir : (t.envs e).envPageDirectory = (s.envs e).envPageDirectory)
    (hdirs : t.directories = s.directories) (hstatus : (t.envs e).envStatus = p.status) :
    Queued t (moved xs q p e ys) := by
  have hid' : ∀ x, (t.envs x).envId = (s.envs x).envId := by
    intro x
    by_cases hx : x = e
    · rw [hx, hid]
    · rw [henvs x hx]
  have hdir' : ∀ x, (t.envs x).envPageDirectory = (s.envs x).envPageDirectory := by
    intro x
    by_cases hx : x = e
    · rw [hx, hdir]
    · rw [henvs x hx]
  -- a live environment was live before
  have hlive : ∀ r, r ≠ .free → ∀ x ∈ moved xs q p e ys r, ∃ r', r' ≠ .free ∧ x ∈ xs r' := by
    intro r hr x hx
    by_cases hxe : x = e
    · exact ⟨q, hq, hxe ▸ he⟩
    · exact ⟨r, hr, (mem_moved_iff hys hqp hxe r).1 hx⟩
  constructor
  case lists => exact hlists
  case cover => exact cover_moved h.lists h.cover he hys hqp
  case status =>
    intro r x hx
    by_cases hxe : x = e
    · subst hxe
      rw [(mem_moved_self h.lists he hys hqp r).1 hx]
      exact hstatus
    · rw [henvs x hxe]
      exact h.status r x ((mem_moved_iff hys hqp hxe r).1 hx)
  case freeId =>
    intro x hx
    rw [moved_other (Ne.symm hq) (Ne.symm hp)] at hx
    rw [hid', h.freeId x hx]
  case envId =>
    intro r hr x hx
    obtain ⟨r', hr', hx'⟩ := hlive r hr x hx
    rw [hid', h.envId r' hr' x hx']
  case directory =>
    intro r hr x hx
    obtain ⟨r', hr', hx'⟩ := hlive r hr x hx
    rw [hdirs, hdir', h.directory r' hr' x hx']
  case distinct =>
    intro r₁ r₂ hr₁ hr₂ x hx y hy hxy
    obtain ⟨r₁', hr₁', hx'⟩ := hlive r₁ hr₁ x hx
    obtain ⟨r₂', hr₂', hy'⟩ := hlive r₂ hr₂ y hy
    rw [hdir', hdir'] at hxy
    exact h.distinct r₁' r₂' hr₁' hr₂' x hx' y hy' hxy

/-- `sched_remove_new` and `sched_insert_ready`. -/
theorem Queued.toReady {s : Sched} {xs : QueueId → List Nat} {e : Nat} (h : Queued s xs)
    (he : e ∈ xs .new) :
    ∃ ys, ys.Perm (e :: xs .ready) ∧
      Queued (schedInsertReady (schedRemoveNew s e) e) (moved xs .new .ready e ys) ∧
      SameSched s (schedInsertReady (schedRemoveNew s e) e) ∧
      ((schedInsertReady (schedRemoveNew s e) e).queues .new).ptrNext = (s.queues .new).ptrNext := by
  obtain ⟨hlists, hloose, honly, hptr⟩ := removeFrom_spec h.lists he
  obtain ⟨ys, hys, hlists', honly', hstatus⟩ := schedInsertReady_lists hlists hloose
  rw [Function.update_of_ne (by decide)] at hys
  refine ⟨ys, hys, ?_, honly.sameSched.trans honly'.sameSched, ?_⟩
  · refine h.move he hys (by decide) (by decide) (by decide) hlists' ?_ ?_ ?_ ?_ hstatus
    · intro x hx
      exact (honly'.envs x hx).trans (honly.envs x hx)
    · exact honly'.envId.trans honly.envId
    · exact honly'.directory.trans honly.directory
    · exact honly'.directories.trans honly.directories
  · have hnew := honly'.queues .new (by decide)
    exact (congrArg ListHead.ptrNext hnew).trans hptr

/-- `sched_remove_new` or `sched_remove_ready`, and `sched_insert_exit`. -/
theorem Queued.toExit {s : Sched} {xs : QueueId → List Nat} {q : QueueId} {e : Nat} (h : Queued s xs)
    (he : e ∈ xs q) (hq : q ≠ .free) (hqe : q ≠ .exit) :
    Queued (schedInsertExit (removeFrom q s e) e) (moved xs q .exit e (xs .exit ++ [e])) ∧
      SameSched s (schedInsertExit (removeFrom q s e) e) := by
  obtain ⟨hlists, hloose, honly, -⟩ := removeFrom_spec h.lists he
  obtain ⟨hlists', honly', hstatus⟩ := schedInsert_spec hlists hloose 
    (show QueueId.exit ≠ QueueId.ready by decide)
  rw [Function.update_of_ne (Ne.symm hqe)] at hlists'
  have hys : (xs .exit ++ [e]).Perm (e :: xs .exit) := List.perm_append_singleton _ _
  refine ⟨?_, honly.sameSched.trans honly'.sameSched⟩
  refine h.move he hys hqe hq (by decide) hlists' ?_ ?_ ?_ ?_ hstatus
  · intro x hx
    exact (honly'.envs x hx).trans (honly.envs x hx)
  · exact honly'.envId.trans honly.envId
  · exact honly'.directory.trans honly.directory
  · exact honly'.directories.trans honly.directories

/-! ## Freeing and creating -/

theorem startEnvFree_envs_same (s : Sched) (e : Nat) : (startEnvFree s e).envs e = SchedEnv.zero := by
  simp [startEnvFree, Sched.insertHead, Sched.setQueue, SchedEnv.zero]

theorem startEnvFree_envs_of_ne {s : Sched} {e x : Nat} (h : x ≠ e) :
    (startEnvFree s e).envs x = s.envs x := by
  simp [startEnvFree, Sched.insertHead, Sched.setQueue, Sched.setStatus, h]

theorem startEnvFree_directories (s : Sched) (e : Nat) : (startEnvFree s e).directories =
    Function.update s.directories (s.envs e).envPageDirectory false := rfl

theorem startEnvFree_queues_of_ne {s : Sched} {e : Nat} {q : QueueId} (h : q ≠ .free) :
    (startEnvFree s e).queues q = s.queues q := by
  simp [startEnvFree, Sched.insertHead, Sched.setQueue, h]

/-- `sched_remove_new`, `sched_remove_ready` or `sched_remove_exit`, and `start_env_free`. -/
theorem Queued.toFree {s : Sched} {xs : QueueId → List Nat} {q : QueueId} {e : Nat} (h : Queued s xs)
    (he : e ∈ xs q) (hq : q ≠ .free) :
    Queued (startEnvFree (removeFrom q s e) e) (moved xs q .free e (e :: xs .free)) ∧
      SameSched s (startEnvFree (removeFrom q s e) e) ∧
      ((startEnvFree (removeFrom q s e) e).queues q).ptrNext = (s.queues q).ptrNext := by
  obtain ⟨hlists, hloose, honly, hptr⟩ := removeFrom_spec h.lists he
  obtain ⟨t, ht⟩ : ∃ t, t = removeFrom q s e := ⟨_, rfl⟩
  rw [← ht] at hlists honly hptr ⊢
  have hlists' := startEnvFree_lists hlists hloose
  rw [Function.update_of_ne (Ne.symm hq)] at hlists'
  have hys : (e :: xs .free).Perm (e :: xs .free) := List.Perm.refl _
  have henvs : ∀ x, x ≠ e → (startEnvFree t e).envs x = s.envs x := fun x hx =>
    (startEnvFree_envs_of_ne hx).trans (honly.envs x hx)
  have hdirs : (startEnvFree t e).directories =
      Function.update s.directories (s.envs e).envPageDirectory false := by
    rw [startEnvFree_directories, honly.directories, honly.directory]
  -- an environment that is live afterwards is another one, and was live before
  have hlive : ∀ r, r ≠ .free → ∀ x ∈ moved xs q .free e (e :: xs .free) r, x ≠ e ∧ x ∈ xs r := by
    intro r hr x hx
    have hxe : x ≠ e := by
      rintro rfl
      exact hr ((mem_moved_self h.lists he hys hq r).1 hx)
    exact ⟨hxe, (mem_moved_iff hys hq hxe r).1 hx⟩
  refine ⟨?_, ⟨honly.curenv, honly.status⟩, ?_⟩
  · constructor
    case lists => exact hlists'
    case cover => exact cover_moved h.lists h.cover he hys hq
    case status =>
      intro r x hx
      by_cases hxe : x = e
      · subst hxe
        rw [(mem_moved_self h.lists he hys hq r).1 hx, startEnvFree_envs_same]
        rfl
      · rw [henvs x hxe]
        exact h.status r x ((mem_moved_iff hys hq hxe r).1 hx)
    case freeId =>
      intro x hx
      by_cases hxe : x = e
      · rw [hxe, startEnvFree_envs_same]
        rfl
      · rw [henvs x hxe]
        exact h.freeId x ((mem_moved_iff hys hq hxe .free).1 hx)
    case envId =>
      intro r hr x hx
      obtain ⟨hxe, hx'⟩ := hlive r hr x hx
      rw [henvs x hxe, h.envId r hr x hx']
    case directory =>
      intro r hr x hx
      obtain ⟨hxe, hx'⟩ := hlive r hr x hx
      have hne : (s.envs x).envPageDirectory ≠ (s.envs e).envPageDirectory := fun heq =>
        hxe (h.distinct r q hr hq x hx' e he heq)
      rw [henvs x hxe, hdirs, Function.update_of_ne hne, h.directory r hr x hx']
    case distinct =>
      intro r₁ r₂ hr₁ hr₂ x hx y hy hxy
      obtain ⟨hxe, hx'⟩ := hlive r₁ hr₁ x hx
      obtain ⟨hye, hy'⟩ := hlive r₂ hr₂ y hy
      rw [henvs x hxe, henvs y hye] at hxy
      exact h.distinct r₁ r₂ hr₁ hr₂ x hx' y hy' hxy
  · rw [startEnvFree_queues_of_ne hq]
    exact hptr

theorem newEnvId_zero (e : Nat) : newEnvId 0#32 e = liveId e := by
  have hgen : (0#32 + envGeneration) &&& ~~~envMask = envGeneration := by decide
  have hpos : ¬ (envGeneration.toInt ≤ 0) := by decide
  simp only [newEnvId, hgen, if_neg hpos]
  rfl

/-- `env_create` and `sched_new_env`, when there is a free slot. -/
theorem Queued.create {s : Sched} {xs : QueueId → List Nat} {e dir : Nat} {free : List Nat}
    (h : Queued s xs) (hfree : xs .free = e :: free) (hdir : s.directories dir = false) :
    ∃ t, schedCreate (some dir) s = .ok t ∧
      Queued t (moved xs .free .new e (xs .new ++ [e])) ∧ SameSched s t ∧
      t.directories = Function.update s.directories dir true := by
  have he : e ∈ xs .free := by
    rw [hfree]
    exact List.mem_cons_self
  have hfirst : (s.queues .free).lhFirst = some e := by
    rw [(h.lists.list .free).first, hfree]
    rfl
  -- the state before the slot leaves the free list
  obtain ⟨u, hu⟩ : ∃ u : Sched, u = { s.setStatus e .unknown with
      directories := Function.update s.directories dir true
      envs := Function.update (s.setStatus e .unknown).envs e
        { envId := newEnvId ((s.setStatus e .unknown).envs e).envId e, envStatus := .new,
          envPageDirectory := dir } } := ⟨_, rfl⟩
  have hcreate : schedEnvCreate s (some dir) = (some e, u.remove .free e) := by
    rw [hu]
    simp only [schedEnvCreate, hfirst]
    rfl
  have hstatus : schedInsert (u.remove .free e) .new e = schedInsert (removeFrom .free u e) .new e := by
    simp [schedInsert, removeFrom, schedRemove, Sched.setStatus]
  have hid : (u.envs e).envId = liveId e := by
    rw [hu]
    simp only [Function.update_self, setStatus_envs_same, h.freeId e he, newEnvId_zero]
  have hudir : (u.envs e).envPageDirectory = dir := by
    rw [hu]
    simp only [Function.update_self]
  have huenvs : ∀ x, x ≠ e → u.envs x = s.envs x := by
    intro x hx
    rw [hu]
    simp only [Function.update_of_ne hx]
    exact setStatus_envs_of_ne _ hx
  have hudirs : u.directories = Function.update s.directories dir true := by rw [hu]
  have hulists : Lists u xs := h.lists.congr (by rw [hu]; rfl) (by rw [hu]; rfl) (by rw [hu]; rfl)
  have husame : SameSched s u := ⟨by rw [hu]; rfl, by rw [hu]; rfl⟩
  clear hu
  obtain ⟨hlists, hloose, honly, -⟩ := removeFrom_spec hulists he
  obtain ⟨hlists', honly', hnew⟩ := schedInsert_spec hlists hloose
    (show QueueId.new ≠ QueueId.ready by decide)
  obtain ⟨t, ht⟩ : ∃ t, t = schedInsert (removeFrom .free u e) .new e := ⟨_, rfl⟩
  rw [← ht] at hstatus hlists' honly' hnew
  rw [Function.update_of_ne (by decide)] at hlists'
  have hys : (xs .new ++ [e]).Perm (e :: xs .new) := List.perm_append_singleton _ _
  have henvs : ∀ x, x ≠ e → t.envs x = s.envs x := fun x hx =>
    ((honly'.envs x hx).trans (honly.envs x hx)).trans (huenvs x hx)
  have htdir : (t.envs e).envPageDirectory = dir :=
    (honly'.directory.trans honly.directory).trans hudir
  have htdirs : t.directories = Function.update s.directories dir true :=
    (honly'.directories.trans honly.directories).trans hudirs
  -- a live environment other than `e` was live before
  have hlive : ∀ r, r ≠ .free → ∀ x ∈ moved xs .free .new e (xs .new ++ [e]) r, x ≠ e → x ∈ xs r :=
    fun r _ x hx hxe => (mem_moved_iff hys (by decide) hxe r).1 hx
  have hother : ∀ r, r ≠ .free → ∀ x ∈ xs r, (s.envs x).envPageDirectory ≠ dir := by
    intro r hr x hx heq
    have := h.directory r hr x hx
    rw [heq, hdir] at this
    cases this
  refine ⟨t, ?_, ?_, ?_, htdirs⟩
  · simp only [schedCreate, hcreate, schedNewEnv, schedInsertNew, hstatus]
  · constructor
    case lists => exact hlists'
    case cover => exact cover_moved h.lists h.cover he hys (by decide)
    case status =>
      intro r x hx
      by_cases hxe : x = e
      · subst hxe
        rw [(mem_moved_self h.lists he hys (by decide) r).1 hx]
        exact hnew
      · rw [henvs x hxe]
        exact h.status r x ((mem_moved_iff hys (by decide) hxe r).1 hx)
    case freeId =>
      intro x hx
      have hxe : x ≠ e := by
        rintro rfl
        have := (mem_moved_self h.lists he hys (by decide) .free).1 hx
        cases this
      rw [henvs x hxe]
      exact h.freeId x ((mem_moved_iff hys (by decide) hxe .free).1 hx)
    case envId =>
      intro r hr x hx
      by_cases hxe : x = e
      · rw [hxe, honly'.envId, honly.envId, hid]
      · rw [henvs x hxe, h.envId r hr x (hlive r hr x hx hxe)]
    case directory =>
      intro r hr x hx
      rw [htdirs]
      by_cases hxe : x = e
      · rw [hxe, htdir, Function.update_self]
      · have hx' := hlive r hr x hx hxe
        rw [henvs x hxe, Function.update_of_ne (hother r hr x hx'), h.directory r hr x hx']
    case distinct =>
      intro r₁ r₂ hr₁ hr₂ x hx y hy hxy
      by_cases hxe : x = e <;> by_cases hye : y = e
      · rw [hxe, hye]
      · rw [hxe, htdir, henvs y hye] at hxy
        exact absurd hxy.symm (hother r₂ hr₂ y (hlive r₂ hr₂ y hy hye))
      · rw [hye, htdir, henvs x hxe] at hxy
        exact absurd hxy (hother r₁ hr₁ x (hlive r₁ hr₁ x hx hxe))
      · rw [henvs x hxe, henvs y hye] at hxy
        exact h.distinct r₁ r₂ hr₁ hr₂ x (hlive r₁ hr₁ x hx hxe) y (hlive r₂ hr₂ y hy hye) hxy
  · exact (husame.trans honly.sameSched).trans honly'.sameSched

end FosMemory
