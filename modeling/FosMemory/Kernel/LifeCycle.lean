import FosMemory.Kernel.EnvFree
import FosMemory.Kernel.System

/-!
# LifeCycle — runs in which environments are also freed

`LifeRun` adds two steps to the runs of `SysStep`: `fos_scheduler` finds nothing to run, and an
environment that is not running is freed.  The set `lost` collects the frames that `env_free` has
not given back; `LifeRun.inv` says that these are the only ones missing.
-/

namespace FosMemory

open Lib

variable {c : Boot} {s t u : Kernel} {G H I : Ghost} {e : Nat} {lost : Nat → Prop}

/-! ## Steps -/

/-- The branch of `fos_scheduler` without an environment to run. -/
def stopRunning (s : Kernel) : Kernel :=
  { s with curenv := none, cr3 := s.physPageDirectory }

inductive LifeOp where
  | sys (op : SysOp)
  | stop
  | free (e : Nat)

inductive LifeStep (s : Kernel) : LifeOp → Kernel → Prop
  | sys {op : SysOp} {t : Kernel} (step : SysStep s op t) : LifeStep s (.sys op) t
  | stop : LifeStep s .stop (stopRunning s)
  | free {e : Nat} {t : Kernel} (live : s.Live e) (idle : s.curenv ≠ some e)
      (done : envFree s e = .ok t) : LifeStep s (.free e) t

/-- Frame `f` holds a page of `e` that shares a page table with the window. -/
def Kernel.Mislaid (s : Kernel) (e f : Nat) : Prop :=
  ∃ va < userTop, s.present e va = true ∧ (s.pteWord e va).frame = f ∧ ¬ s.inWindow e va ∧
    BesideWindow (s.windowTables e) va

/-- The frames an operation loses. -/
def LifeOp.Loses (s : Kernel) : LifeOp → Nat → Prop
  | .free e, f => s.Mislaid e f
  | .sys _, _ | .stop, _ => False

/-- The states of the runs from the boot state, with the frames lost so far. -/
inductive LifeRun (c : Boot) : Kernel → (Nat → Prop) → Prop
  | boot : LifeRun c c.state fun _ => False
  | step {s t : Kernel} {lost : Nat → Prop} {op : LifeOp} (run : LifeRun c s lost)
      (next : LifeStep s op t) : LifeRun c t fun f => lost f ∨ op.Loses s f

/-! ## The invariant -/

/-- `SysInv`, and nothing belongs to a number that is no environment's. -/
structure LifeInv (c : Boot) (s : Kernel) (G : Ghost) : Prop extends SysInv c s G where
  beyond : ∀ e, nenv ≤ e → Unused G e

/-- A step on behalf of an environment keeps what lies beyond the environments. -/
theorem LifeInv.beyond_of_local (h : LifeInv c s G) (hlt : e < nenv) (hst : Local e s G t H) :
    ∀ e', nenv ≤ e' → Unused H e' := by
  intro e' he'
  exact (h.beyond e' he').of_local hst (by omega)

/-- Every step of `SysStep` keeps the invariant and loses no frame. -/
theorem LifeInv.sysStep (h : LifeInv c s G) {op : SysOp} (hstep : SysStep s op t) :
    ∃ H, LifeInv c t H ∧ H.lost = G.lost := by
  cases hstep with
  | create hn hwrap hprog hdone =>
    obtain ⟨hmem, H, hcr⟩ := h.created hn hwrap hprog hdone
    exact ⟨H, ⟨h.create hmem hcr, h.beyond_of_local (h.unused _ hmem).1 hcr.others⟩, hcr.lost⟩
  | run live => exact ⟨G, ⟨h.envRun live, h.beyond⟩, rfl⟩
  | select policy => exact ⟨G, ⟨h.select policy, h.beyond⟩, rfl⟩
  | user running act =>
    obtain ⟨H, ha⟩ := h.userStep running act
    have hlive := (h.running _ running).1
    exact ⟨H, ⟨h.acts hlive ha, h.beyond_of_local hlive.1 ha.others⟩, ha.lost⟩
  | idle nobody done =>
    rw [onTrap_idle nobody] at done
    cases done
    exact ⟨G, h, rfl⟩

theorem LifeInv.stop (h : LifeInv c s G) : LifeInv c (stopRunning s) G :=
  ⟨h.withRun (p := s.pageRepAlgoType) (fun _ hx => nomatch hx), h.beyond⟩

/-- Which environments live after an `env_free`. -/
theorem Destroyed.live (h : Destroyed c e s G t H) (e' : Nat) : t.Live e' ↔ s.Live e' ∧ e' ≠ e := by
  rw [Kernel.Live, Kernel.Live, h.envFreeList, List.mem_cons]
  tauto

/-- After an `env_free` of an environment that is not running. -/
theorem LifeInv.destroyed (h : LifeInv c s G) (hlive : s.Live e) (hidle : s.curenv ≠ some e)
    (hfree : Destroyed c e s G t H) : LifeInv c t H := by
  have hst := hfree.others
  refine ⟨⟨hfree.owned, hfree.frames, ?_, ?_, ?_, ?_, ?_, hst.zeroPage.trans h.zeroPage⟩,
    h.beyond_of_local hlive.1 hst⟩
  · intro f e' hf
    by_cases he : e' = e
    · subst he
      exact hfree.unused.own f _ hf
    · exact h.held f e' (((hst.keeps e' he).own f _ rfl).1 hf)
  · rw [hfree.envFreeList]
    exact List.nodup_cons.2 ⟨hlive.2, h.nodup⟩
  · intro e' he'
    rw [hfree.envFreeList] at he'
    rcases List.mem_cons.1 he' with rfl | hmem
    · exact ⟨hlive.1, hfree.unused, hfree.ddir⟩
    · obtain ⟨hlt, hun, hdd⟩ := h.unused e' hmem
      have hne : e' ≠ e := by
        rintro rfl
        exact hlive.2 hmem
      exact ⟨hlt, hun.of_local hst hne, by rw [hst.envs e' hne]; exact hdd⟩
  · intro e' he'
    obtain ⟨hold, hne⟩ := (hfree.live e').1 he'
    exact (h.alive e' hold).of_local h.owned hfree.owned hst hne
  · intro e' hcur
    rw [hfree.curenv] at hcur
    obtain ⟨hl, hcr3⟩ := h.running e' hcur
    have hne : e' ≠ e := by
      rintro rfl
      exact hidle hcur
    exact ⟨(hfree.live e').2 ⟨hl, hne⟩, by rw [hfree.cr3, hst.envs e' hne]; exact hcr3⟩

/-- `env_free` of a live environment returns. -/
theorem LifeInv.envFree_spec (h : LifeInv c s G) (hlive : s.Live e) :
    ∃ t H, envFree s e = .ok t ∧ Destroyed c e s G t H :=
  (h.alive e hlive).envFree_spec h.owned h.frames h.held

/-! ## What the processor sees and what the record says -/

section View

variable (ha : Alive c s G e)
include ha

/-- A page of `e` outside the window, as the processor finds it. -/
theorem Alive.page_iff {va f : Nat} (hva : va < userTop) :
    (s.present e va = true ∧ (s.pteWord e va).frame = f ∧ ¬ s.inWindow e va) ↔
      G.own f = some ⟨e, .page (roundDown va 4096)⟩ := by
  have hs := ha.base.space
  constructor
  · rintro ⟨hp, rfl, hw⟩
    obtain ⟨g, b, ht⟩ := (hs.present_iff hva).1 hp
    cases b with
    | true => exact absurd (ha.base.array.window_iff.1 ⟨g, ht⟩) hw
    | false =>
      obtain ⟨-, -, tb, htb, hentry⟩ := hs.target _ g false ht
      rw [← pteWord_roundDown, hs.pteWord_eq htb, entryFor_frame hentry]
      exact ht
  · intro hf
    obtain ⟨-, -, tb, htb, hentry⟩ := hs.target _ f false hf
    refine ⟨(hs.present_iff hva).2 ⟨f, false, hf⟩, ?_, fun hw => ?_⟩
    · rw [← pteWord_roundDown, hs.pteWord_eq htb, entryFor_frame hentry]
    · obtain ⟨g, hg⟩ := ha.base.array.window_iff.2 hw
      have := (hs.target_unique (a := false) hf hg).2
      cases this

/-- Page `k` of the window, as the processor finds it. -/
theorem Alive.window_page {k f : Nat} (hf : G.own f = some ⟨e, .ws k⟩) :
    userPagesWSStart + 4096 * k < userTop ∧ s.present e (userPagesWSStart + 4096 * k) = true ∧
      (s.pteWord e (userPagesWSStart + 4096 * k)).frame = f := by
  have hs := ha.base.space
  have hwin : G.win e k = true := by
    rw [ha.base.array.win]
    exact decide_eq_true (ha.base.array.at_page f k hf).1
  have ht : G.Target e (userPagesWSStart + 4096 * k) f true := ⟨k, hf, hwin, rfl⟩
  obtain ⟨hal, hlt, tb, htb, hentry⟩ := hs.target _ f true ht
  refine ⟨hlt, (hs.present_iff hlt).2 ⟨f, true, ?_⟩, ?_⟩
  · rw [roundDown_eq hal]
    exact ht
  · rw [hs.pteWord_eq htb, entryFor_frame hentry]

theorem Alive.mislaid_iff {f : Nat} : s.Mislaid e f ↔
    ∃ v, G.own f = some ⟨e, .page v⟩ ∧ BesideWindow (s.windowTables e) v := by
  have hpdx : ∀ n va, BesideWindow n (roundDown va 4096) ↔ BesideWindow n va := by
    intro n va
    simp only [BesideWindow, pdx_roundDown]
  constructor
  · rintro ⟨va, hva, hp, hf, hw, hbeside⟩
    exact ⟨_, (ha.page_iff hva).1 ⟨hp, hf, hw⟩, (hpdx _ _).2 hbeside⟩
  · rintro ⟨v, hf, hbeside⟩
    obtain ⟨hal, hlt, -⟩ := ha.base.space.target _ f false hf
    rw [← roundDown_eq hal] at hf
    obtain ⟨hp, hfr, hw⟩ := (ha.page_iff hlt).2 hf
    exact ⟨v, hlt, hp, hfr, hw, hbeside⟩

end View

/-! ## Runs -/

/-- Every step keeps the invariant and loses the frames it says. -/
theorem LifeInv.step (h : LifeInv c s G) {op : LifeOp} (hstep : LifeStep s op t) :
    ∃ H, LifeInv c t H ∧ ∀ f, H.lost f ↔ G.lost f ∨ op.Loses s f := by
  cases hstep with
  | sys step =>
    obtain ⟨H, hinv, hlost⟩ := h.sysStep step
    exact ⟨H, hinv, fun f => by rw [hlost]; exact (or_iff_left id).symm⟩
  | stop => exact ⟨G, h.stop, fun f => (or_iff_left id).symm⟩
  | free live idle done =>
    obtain ⟨t', H, hdone, hfree⟩ := h.envFree_spec live
    rw [done] at hdone
    cases hdone
    refine ⟨H, h.destroyed live idle hfree, fun f => ?_⟩
    rw [hfree.lost]
    exact or_congr_right (h.alive _ live).mislaid_iff.symm

theorem LifeRun.inv (h : LifeRun c s lost) :
    ∃ G, LifeInv c s G ∧ ∀ f, G.lost f ↔ lost f := by
  induction h with
  | boot =>
    refine ⟨bootGhost, ⟨sysInv_boot c, fun e _ => ⟨fun f r hf => ?_, fun _ => rfl, fun _ => rfl⟩⟩,
      fun f => Iff.rfl⟩
    cases hf
  | step run next ih =>
    obtain ⟨G, hinv, hlost⟩ := ih
    obtain ⟨H, hinv', hlost'⟩ := hinv.step next
    exact ⟨H, hinv', fun f => by rw [hlost', hlost]⟩

/-- The runs of `SysStep` are runs. -/
theorem SysRun.life (h : SysRun c s) : LifeRun c s fun _ => False := by
  induction h with
  | boot => exact .boot
  | @step s t op run next ih =>
    have hrun := LifeRun.step ih (.sys next)
    have hset : (fun f => False ∨ LifeOp.Loses s (.sys op) f) = fun _ => False := by
      funext f
      simp [LifeOp.Loses]
    rw [← hset]
    exact hrun

end FosMemory
