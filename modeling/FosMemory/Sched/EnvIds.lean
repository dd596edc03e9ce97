import FosMemory.Sched.SchedRun

/-!
# EnvIds — environment identifiers

`free_environment` clears the whole slot, its identifier included, so that the generation in an
identifier is always the first one: the identifier of a live environment is a function of its slot.
`NENV` is 1379, and the mask `NENV - 1` of `ENVX` does not have all the bits of a slot number.
-/

namespace FosMemory

open Lib

/-! ## Looking up an identifier -/

theorem envx_liveId {e : Nat} (he : e < nenv) : envx (liveId e) = e &&& 1378 := by
  have hgen : envGeneration &&& envMask = 0#32 := by decide
  have hand : liveId e &&& envMask = BitVec.ofNat 32 e &&& envMask := by
    rw [liveId, BitVec.and_comm, BitVec.and_or_distrib_left, BitVec.and_comm, hgen, BitVec.zero_or,
      BitVec.and_comm]
  have hmod : e % 2 ^ 32 = e := Nat.mod_eq_of_lt (Nat.lt_trans he (by decide))
  have hmask : envMask.toNat = 1378 := by decide
  rw [envx, hand, BitVec.toNat_and, BitVec.toNat_ofNat, hmod, hmask]

theorem envx_lt (envId : Word) : envx envId < nenv := by
  have hmask : envMask.toNat = 1378 := by decide
  rw [envx, BitVec.toNat_and, hmask]
  exact Nat.lt_succ_of_le Nat.and_le_right

/-- What a look-up finds for a live environment. -/
theorem Queued.envid2env_eq {s : Sched} {xs : QueueId → List Nat} (h : Queued s xs) {q : QueueId}
    {e : Nat} (hq : q ≠ .free) (he : e ∈ xs q) :
    envid2env s (liveId e) = if e &&& 1378 = e then some (some e) else none := by
  have hlt : e < nenv := h.lt he
  have hx : envx (liveId e) = e &&& 1378 := envx_liveId hlt
  rw [envid2env, if_neg (liveId_ne_zero hlt), hx]
  by_cases heq : e &&& 1378 = e
  · have hlive : ¬ ((s.envs e).envStatus = .free ∨ (s.envs e).envId ≠ liveId e) := by
      rw [h.status q e he, h.envId q hq e he]
      rintro (hfree | hne)
      · cases q <;> first | exact hq rfl | cases hfree
      · exact hne rfl
    simp only [heq, if_neg hlive, if_true]
  · -- another slot is examined, and its identifier is another one
    have hother : (s.envs (e &&& 1378)).envStatus = .free ∨
        (s.envs (e &&& 1378)).envId ≠ liveId e := by
      refine .inr fun hid => heq ?_
      exact h.eq_of_envId (Nat.lt_of_le_of_lt Nat.and_le_left hlt) hlt hid
    simp only [if_neg heq, if_pos hother]

theorem Queued.live_iff {s : Sched} {xs : QueueId → List Nat} (h : Queued s xs) {e : Nat}
    (he : e < nenv) : (s.envs e).envStatus ≠ .free ↔ ∃ q, q ≠ .free ∧ e ∈ xs q := by
  obtain ⟨q, hq⟩ := (h.cover e).1 he
  have hstatus := h.status q e hq
  constructor
  · intro hlive
    refine ⟨q, ?_, hq⟩
    rintro rfl
    exact hlive hstatus
  · rintro ⟨p, hp, hep⟩
    rw [h.status p e hep]
    intro hfree
    cases p <;> first | exact hp rfl | cases hfree

/-- In every state of a run, looking up the identifier of a live environment finds it exactly if its
slot number has no bit outside the mask; an identifier of no live environment is always rejected. -/
theorem envid2env_live_iff {s : Sched} (h : SchedRun s) :
    (∀ e, e < nenv → (s.envs e).envStatus ≠ .free →
      (envid2env s (s.envs e).envId = some (some e) ↔ e &&& 1378 = e)) ∧
    (∀ envId, envId ≠ 0#32 →
      (∀ e, e < nenv → (s.envs e).envStatus ≠ .free → (s.envs e).envId ≠ envId) →
      envid2env s envId = none) := by
  obtain ⟨xs, hinv⟩ := h.inv
  constructor
  · intro e he hlive
    obtain ⟨q, hqf, hq⟩ := (hinv.placed.live_iff he).1 hlive
    rw [hinv.placed.envId q hqf e hq, hinv.placed.envid2env_eq hqf hq]
    split <;> simp_all
  · intro envId hne hnone
    rw [envid2env, if_neg hne]
    simp only
    rw [if_pos]
    by_cases hfree : (s.envs (envx envId)).envStatus = .free
    · exact .inl hfree
    · exact .inr (hnone (envx envId) (envx_lt envId) hfree)

/-- Two environments created after boot are in slots 0 and 1. -/
theorem schedRun_two_created : ∃ s xs, SchedRun s ∧ Queued s xs ∧ xs .new = [0, 1] := by
  have hfree : bootLists .free = 0 :: 1 :: (List.range 1377).map (fun n => n + 2) := by
    rw [bootLists, nenv, List.range_succ_eq_map, List.range_succ_eq_map]
    simp [Function.comp_def]
  obtain ⟨s₁, hc₁, hp₁, -, hd₁⟩ := boot_inv.placed.create hfree (boot_directories 5)
  have hrun₁ : SchedRun s₁ := by
    refine .step (.create (some 5)) .boot (boot_directories 5) ?_
    rw [schedStep, hc₁, outcome]
  have hfree₁ : moved bootLists .free .new 0 (bootLists .new ++ [0]) .free =
      1 :: (List.range 1377).map (fun n => n + 2) := by
    rw [moved_from (by decide), hfree, List.erase_cons_head]
  have hdir : s₁.directories 6 = false := by
    rw [hd₁, Function.update_of_ne (by decide)]
    exact boot_directories 6
  obtain ⟨s₂, hc₂, hp₂, -, -⟩ := hp₁.create hfree₁ hdir
  refine ⟨s₂, _, .step (.create (some 6)) hrun₁ hdir ?_, hp₂, ?_⟩
  · rw [schedStep, hc₂, outcome]
  · rw [moved_to, moved_to]
    rfl

/-- Slot 0 is found. -/
theorem envid2env_live_iff_first :
    ∃ s, SchedRun s ∧ (s.envs 0).envStatus = .new ∧
      envid2env s (s.envs 0).envId = some (some 0) := by
  obtain ⟨s, xs, hrun, hplaced, hnew⟩ := schedRun_two_created
  have hmem : 0 ∈ xs .new := by
    rw [hnew]
    exact List.mem_cons_self
  have hstatus : (s.envs 0).envStatus = .new := hplaced.status .new 0 hmem
  refine ⟨s, hrun, hstatus, ?_⟩
  refine ((envid2env_live_iff hrun).1 0 (by decide) ?_).2 (by decide)
  rw [hstatus]
  decide

/-- Slot 1, with identifier 4097, is not found: `ENVX(4097)` is 0. -/
theorem envid2env_second_slot :
    ∃ s, SchedRun s ∧ (s.envs 1).envStatus = .new ∧ (s.envs 1).envId = 4097#32 ∧
      envid2env s 4097#32 = none := by
  obtain ⟨s, xs, hrun, hplaced, hnew⟩ := schedRun_two_created
  have hmem : 1 ∈ xs .new := by
    rw [hnew]
    decide
  have hid : (s.envs 1).envId = 4097#32 :=
    (hplaced.envId .new (by decide) 1 hmem).trans (by decide)
  refine ⟨s, hrun, hplaced.status .new 1 hmem, hid, ?_⟩
  have hlookup := hplaced.envid2env_eq (by decide) hmem
  rwa [if_neg (by decide)] at hlookup

/-! ## Issuing identifiers -/

/-- `env_create` of a known program and `env_free`. -/
inductive IdOp where
  | create (dir : Nat)
  | free (e : Nat)
  deriving DecidableEq, Repr

def IdOp.isCreate : IdOp → Bool
  | .create _ => true
  | .free _ => false

/-- A sequence of creations that find a free slot and of freed live environments.  `issued` lists the
slot and the identifier of each environment created. -/
inductive IdRun : List IdOp → List (Nat × Word) → Sched → Prop where
  | boot : IdRun [] [] Sched.boot
  | create {ops : List IdOp} {issued : List (Nat × Word)} {s t : Sched} {dir e : Nat}
      (h : IdRun ops issued s) (hdir : s.directories dir = false)
      (he : schedEnvCreate s (some dir) = (some e, t)) :
      IdRun (ops ++ [.create dir]) (issued ++ [(e, (t.envs e).envId)]) t
  | free {ops : List IdOp} {issued : List (Nat × Word)} {s : Sched} {e : Nat}
      (h : IdRun ops issued s) (he : e < nenv) (hlive : (s.envs e).envStatus ≠ .free) :
      IdRun (ops ++ [.free e]) issued (startEnvFree s e)

/-- The slots that are free, and the identifiers. -/
structure IdInv (s : Sched) (free : List Nat) (issued : List (Nat × Word)) : Prop where
  list : IsList s.links (s.queues .free) free
  lt : ∀ e ∈ free, e < nenv
  status : ∀ e, e < nenv → ((s.envs e).envStatus = .free ↔ e ∈ free)
  freeId : ∀ e ∈ free, (s.envs e).envId = 0#32
  ids : ∀ p ∈ issued, p.1 < nenv ∧ p.2 = liveId p.1
  live : ∀ e, e < nenv → e ∉ free → e ∈ issued.map Prod.fst

theorem IdInv.create {s t : Sched} {free : List Nat} {issued : List (Nat × Word)} {dir e : Nat}
    (h : IdInv s free issued) (he : schedEnvCreate s (some dir) = (some e, t)) :
    ∃ rest, free = e :: rest ∧ IdInv t rest (issued ++ [(e, (t.envs e).envId)]) := by
  cases free with
  | nil =>
    have hfirst : (s.queues .free).lhFirst = none := h.list.first
    simp [schedEnvCreate, hfirst] at he
  | cons x rest =>
    have hfirst : (s.queues .free).lhFirst = some x := h.list.first
    have hlist : IsList s.links (s.queues .free) ([] ++ x :: rest) := h.list
    obtain ⟨hnd, hnodup⟩ := List.nodup_cons.1 h.list.nodup
    simp only [schedEnvCreate, hfirst, Prod.mk.injEq, Option.some.injEq] at he
    obtain ⟨rfl, ht⟩ := he
    have henvs : ∀ y, y ≠ x → t.envs y = s.envs y := by
      intro y hy
      rw [← ht]
      simp [Sched.remove, Sched.setQueue, Sched.setStatus, hy]
    have hid : (t.envs x).envId = liveId x := by
      rw [← ht]
      simp [Sched.remove, Sched.setQueue, h.freeId x List.mem_cons_self, newEnvId_zero]
    have hstatus : (t.envs x).envStatus = .new := by
      rw [← ht]
      simp [Sched.remove, Sched.setQueue]
    refine ⟨rest, rfl, ?_⟩
    constructor
    case list =>
      rw [← ht]
      simpa [Sched.remove, Sched.setQueue] using hlist.remove.1
    case lt =>
      intro y hy
      exact h.lt y (List.mem_cons_of_mem _ hy)
    case status =>
      intro y hy
      by_cases hyx : y = x
      · subst hyx
        refine iff_of_false (fun hfree => ?_) hnd
        rw [hstatus] at hfree
        cases hfree
      · rw [henvs y hyx, h.status y hy, List.mem_cons]
        exact or_iff_right hyx
    case freeId =>
      intro y hy
      have hyx : y ≠ x := by
        rintro rfl
        exact hnd hy
      rw [henvs y hyx]
      exact h.freeId y (List.mem_cons_of_mem _ hy)
    case ids =>
      intro p hp
      rcases List.mem_append.1 hp with hp | hp
      · exact h.ids p hp
      · rw [List.mem_singleton.1 hp]
        exact ⟨h.lt x List.mem_cons_self, hid⟩
    case live =>
      intro y hy hyr
      rw [List.map_append, List.mem_append]
      by_cases hyx : y = x
      · exact .inr (by simp [hyx])
      · refine .inl (h.live y hy fun hmem => ?_)
        rcases List.mem_cons.1 hmem with hmem | hmem
        · exact hyx hmem
        · exact hyr hmem

theorem IdInv.free {s : Sched} {free : List Nat} {issued : List (Nat × Word)} {e : Nat}
    (h : IdInv s free issued) (he : e < nenv) (hlive : (s.envs e).envStatus ≠ .free) :
    IdInv (startEnvFree s e) (e :: free) issued := by
  have hnot : e ∉ free := fun hmem => hlive ((h.status e he).2 hmem)
  constructor
  case list => exact (startEnvFree_list h.list hnot).1
  case lt =>
    intro y hy
    rcases List.mem_cons.1 hy with rfl | hy
    · exact he
    · exact h.lt y hy
  case status =>
    intro y hy
    by_cases hye : y = e
    · subst hye
      rw [startEnvFree_envs_same]
      exact iff_of_true rfl List.mem_cons_self
    · rw [startEnvFree_envs_of_ne hye, h.status y hy, List.mem_cons]
      exact (or_iff_right hye).symm
  case freeId =>
    intro y hy
    by_cases hye : y = e
    · rw [hye, startEnvFree_envs_same]
      rfl
    · rw [startEnvFree_envs_of_ne hye]
      rcases List.mem_cons.1 hy with hy | hy
      · exact absurd hy hye
      · exact h.freeId y hy
  case ids => exact h.ids
  case live =>
    intro y hy hnot'
    exact h.live y hy fun hmem => hnot' (List.mem_cons_of_mem _ hmem)

/-- No environment is created after one has been freed. -/
def NoReuse (ops : List IdOp) : Prop :=
  ops.Pairwise fun a b => a.isCreate = false → b.isCreate = false

theorem noReuse_append_singleton {ops : List IdOp} {op : IdOp} :
    NoReuse (ops ++ [op]) ↔
      NoReuse ops ∧ ∀ a ∈ ops, a.isCreate = false → op.isCreate = false := by
  simp [NoReuse, List.pairwise_append]

/-- How the slots issued so far relate to the free list: none of them has been freed; or some have
been, and the next creation takes one of these; or one has been issued again. -/
inductive Issued (ops : List IdOp) (slots free : List Nat) : Prop where
  | fresh (hops : ∀ op ∈ ops, op.isCreate = true) (hall : slots ++ free = List.range nenv)
  | freed (hops : NoReuse ops) (hfree : ∃ op ∈ ops, op.isCreate = false) (hnd : slots.Nodup)
      (hnext : ∃ e rest, free = e :: rest ∧ e ∈ slots)
  | reused (hops : ¬ NoReuse ops) (hdup : ¬ slots.Nodup)

theorem noReuse_of_creates {ops : List IdOp} (h : ∀ op ∈ ops, op.isCreate = true) : NoReuse ops := by
  induction ops with
  | nil => exact List.Pairwise.nil
  | cons op ops ih =>
    refine List.Pairwise.cons (fun b _ hop => ?_) (ih fun b hb => h b (List.mem_cons_of_mem _ hb))
    rw [h op List.mem_cons_self] at hop
    cases hop

theorem Issued.nodup_iff {ops : List IdOp} {slots free : List Nat} (h : Issued ops slots free) :
    slots.Nodup ↔ NoReuse ops := by
  cases h with
  | fresh hops hall =>
    have hnd : (slots ++ free).Nodup := hall ▸ List.nodup_range
    exact iff_of_true (List.nodup_append.1 hnd).1 (noReuse_of_creates hops)
  | freed hops _ hnd _ => exact iff_of_true hnd hops
  | reused hops hdup => exact iff_of_false hdup hops

theorem Issued.create {ops : List IdOp} {slots rest : List Nat} {e : Nat} (dir : Nat)
    (h : Issued ops slots (e :: rest)) : Issued (ops ++ [.create dir]) (slots ++ [e]) rest := by
  cases h with
  | fresh hops hall =>
    refine .fresh (fun op hop => ?_) ?_
    · rcases List.mem_append.1 hop with hop | hop
      · exact hops op hop
      · rw [List.mem_singleton.1 hop]
        rfl
    · rw [← hall, List.append_assoc]
      rfl
  | freed hops hfree hnd hnext =>
    -- the slot taken is one that was issued before
    obtain ⟨op, hop, hnc⟩ := hfree
    obtain ⟨x, rest', hx, hmem⟩ := hnext
    cases hx
    refine .reused (fun h => ?_) fun hnd' => ?_
    · have := (noReuse_append_singleton.1 h).2 op hop hnc
      cases this
    · exact (List.nodup_append.1 hnd').2.2 e hmem e List.mem_cons_self rfl
  | reused hops hdup =>
    refine .reused (fun h => hops (noReuse_append_singleton.1 h).1) fun hnd' => ?_
    exact hdup (List.nodup_append.1 hnd').1

theorem Issued.free {ops : List IdOp} {slots free : List Nat} {e : Nat}
    (h : Issued ops slots free) (he : e ∈ slots) : Issued (ops ++ [.free e]) slots (e :: free) := by
  have hlast : ∀ a ∈ ops, a.isCreate = false → (IdOp.free e).isCreate = false := fun _ _ _ => rfl
  have hmem : IdOp.free e ∈ ops ++ [.free e] := List.mem_append_right _ List.mem_cons_self
  cases h with
  | fresh hops hall =>
    have hnd : (slots ++ free).Nodup := hall ▸ List.nodup_range
    exact .freed (noReuse_append_singleton.2 ⟨noReuse_of_creates hops, hlast⟩)
      ⟨.free e, hmem, rfl⟩ (List.nodup_append.1 hnd).1 ⟨e, free, rfl, he⟩
  | freed hops hfree hnd hnext =>
    exact .freed (noReuse_append_singleton.2 ⟨hops, hlast⟩) ⟨.free e, hmem, rfl⟩ hnd
      ⟨e, free, rfl, he⟩
  | reused hops hdup =>
    exact .reused (fun h => hops (noReuse_append_singleton.1 h).1) hdup

theorem IdRun.inv {ops : List IdOp} {issued : List (Nat × Word)} {s : Sched}
    (h : IdRun ops issued s) :
    ∃ free, IdInv s free issued ∧ Issued ops (issued.map Prod.fst) free := by
  induction h with
  | boot =>
    have hplaced := boot_inv.placed
    have hissued : Issued [] (List.map Prod.fst ([] : List (Nat × Word))) (bootLists .free) := by
      refine .fresh (fun _ h => by cases h) ?_
      rw [List.map_nil, List.nil_append, bootLists]
    refine ⟨bootLists .free, ?_, hissued⟩
    have hall : ∀ e, e < nenv → e ∈ bootLists .free := fun e he => List.mem_range.2 he
    constructor
    case list => exact hplaced.lists.list .free
    case lt => exact fun e he => hplaced.lt he
    case status =>
      intro e he
      exact iff_of_true (hplaced.status .free e (hall e he)) (hall e he)
    case freeId => exact hplaced.freeId
    case ids => exact fun _ hp => by cases hp
    case live => exact fun e he hnot => absurd (hall e he) hnot
  | create h hdir he ih =>
    obtain ⟨free, hinv, hissued⟩ := ih
    obtain ⟨rest, rfl, hinv'⟩ := hinv.create he
    refine ⟨rest, hinv', ?_⟩
    rw [List.map_append]
    exact hissued.create _
  | free h he hlive ih =>
    obtain ⟨free, hinv, hissued⟩ := ih
    refine ⟨_, hinv.free he hlive, hissued.free ?_⟩
    exact hinv.live _ he fun hmem => hlive ((hinv.status _ he).2 hmem)

/-- The identifiers issued in a run are distinct exactly if no environment is created after one has
been freed.  Two environments have the same identifier exactly if they had the same slot. -/
theorem idRun_distinct_iff {ops : List IdOp} {issued : List (Nat × Word)} {s : Sched}
    (h : IdRun ops issued s) :
    ((issued.map Prod.snd).Nodup ↔ NoReuse ops) ∧
    ∀ p ∈ issued, ∀ r ∈ issued, (p.2 = r.2 ↔ p.1 = r.1) := by
  obtain ⟨free, hinv, hissued⟩ := h.inv
  have hsame : ∀ p ∈ issued, ∀ r ∈ issued, (p.2 = r.2 ↔ p.1 = r.1) := by
    intro p hp r hr
    obtain ⟨hplt, hpid⟩ := hinv.ids p hp
    obtain ⟨hrlt, hrid⟩ := hinv.ids r hr
    rw [hpid, hrid]
    exact ⟨liveId_inj hplt hrlt, congrArg liveId⟩
  refine ⟨?_, hsame⟩
  have hslots : (issued.map Prod.snd) = (issued.map Prod.fst).map liveId := by
    rw [List.map_map]
    exact List.map_congr_left fun p hp => (hinv.ids p hp).2
  rw [← hissued.nodup_iff, hslots]
  refine ⟨fun hnd => hnd.of_map _, fun hnd => hnd.map_on fun x hx y hy hxy => ?_⟩
  obtain ⟨p, hp, rfl⟩ := List.mem_map.1 hx
  obtain ⟨r, hr, rfl⟩ := List.mem_map.1 hy
  exact liveId_inj (hinv.ids p hp).1 (hinv.ids r hr).1 hxy

/-- A creation when there is a free slot. -/
theorem IdInv.created {s : Sched} {e : Nat} {rest : List Nat} {issued : List (Nat × Word)}
    (h : IdInv s (e :: rest) issued) (dir : Nat) :
    ∃ t, schedEnvCreate s (some dir) = (some e, t) ∧ (t.envs e).envStatus = .new ∧
      (t.envs e).envPageDirectory = dir ∧ t.directories = Function.update s.directories dir true := by
  have hfirst : (s.queues .free).lhFirst = some e := h.list.first
  simp only [schedEnvCreate, hfirst]
  refine ⟨_, rfl, ?_, ?_, rfl⟩ <;> simp [Sched.remove, Sched.setQueue]

/-- The first creation after boot. -/
theorem idRun_first : ∃ s rest, IdRun [.create 5] [(0, liveId 0)] s ∧
    IdInv s (1 :: rest) [(0, liveId 0)] ∧ (s.envs 0).envStatus = .new ∧
    (s.envs 0).envPageDirectory = 5 ∧ s.directories = Function.update Sched.boot.directories 5 true := by
  obtain ⟨free, hinv, hissued⟩ := IdRun.boot.inv
  have hfree : free = 0 :: 1 :: (List.range 1377).map (fun n => n + 2) := by
    have hall : free = List.range nenv := by
      cases hissued with
      | fresh _ hall => exact hall
      | freed _ hop => exact absurd hop (by simp)
      | reused hops => exact absurd List.Pairwise.nil hops
    rw [hall, nenv, List.range_succ_eq_map, List.range_succ_eq_map]
    simp [Function.comp_def]
  subst hfree
  obtain ⟨s, hs, hstatus, hdir, hdirs⟩ := hinv.created 5
  have hrun := IdRun.boot.create (boot_directories 5) hs
  obtain ⟨rest, hrest, hinv'⟩ := hinv.create hs
  cases hrest
  have hid : (s.envs 0).envId = liveId 0 := (hinv'.ids _ (List.mem_singleton.2 rfl)).2
  rw [hid] at hrun hinv'
  exact ⟨s, _, hrun, hinv', hstatus, hdir, hdirs⟩

/-- Two environments created one after the other have distinct identifiers. -/
theorem idRun_distinct_iff_two :
    ∃ s, IdRun [.create 5, .create 6] [(0, liveId 0), (1, liveId 1)] s ∧
      [liveId 0, liveId 1].Nodup := by
  obtain ⟨s, rest, hrun, hinv, -, -, hdirs⟩ := idRun_first
  have hdir : s.directories 6 = false := by
    rw [hdirs, Function.update_of_ne (by decide)]
    exact boot_directories 6
  obtain ⟨t, ht, -⟩ := hinv.created 6
  have hrun' := hrun.create hdir ht
  obtain ⟨rest', -, hinv'⟩ := hinv.create ht
  have hid : (t.envs 1).envId = liveId 1 := by
    refine (hinv'.ids (1, (t.envs 1).envId) ?_).2
    exact List.mem_append_right _ List.mem_cons_self
  rw [hid] at hrun'
  refine ⟨t, hrun', (idRun_distinct_iff hrun').1.2 ?_⟩
  exact noReuse_of_creates (by decide)

/-- An environment is created, freed, and another one is created: both have identifier 4096. -/
theorem idRun_create_free_create :
    ∃ s, IdRun [.create 5, .free 0, .create 5] [(0, 4096#32), (0, 4096#32)] s ∧
      ¬ [4096#32, 4096#32].Nodup := by
  obtain ⟨s, rest, hrun, hinv, hstatus, hdirectory, hdirs⟩ := idRun_first
  have hlive : (s.envs 0).envStatus ≠ .free := by
    rw [hstatus]
    decide
  have hfreed := hrun.free (by decide) hlive
  have hinv' := hinv.free (by decide) hlive
  have hdir : (startEnvFree s 0).directories 5 = false := by
    rw [startEnvFree_directories, hdirectory, Function.update_self]
  obtain ⟨t, ht, -⟩ := hinv'.created 5
  have hrun' := hfreed.create hdir ht
  obtain ⟨rest', -, hinv''⟩ := hinv'.create ht
  have hid : (t.envs 0).envId = liveId 0 := by
    refine (hinv''.ids (0, (t.envs 0).envId) ?_).2
    exact List.mem_append_right _ List.mem_cons_self
  have hval : liveId 0 = 4096#32 := by decide
  rw [hid, hval] at hrun'
  exact ⟨t, hrun', by decide⟩

end FosMemory
