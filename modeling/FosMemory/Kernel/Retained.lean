import FosMemory.Kernel.Untouched

/-!
# Retained — bytes through the steps of the system

A byte of a page of `e` is kept by everything but a write of `e` to it and a `freeMem` of `e` on its
page: faults evict and reload it, other environments fault and are created, time stamps are updated,
the policy is changed.  `SysInv.step_holds` is one step, `SysInv.spared_holds` a run.
-/

namespace FosMemory

open Lib

variable {c : Boot} {s t u : Kernel} {G H I : Ghost} {e a : Nat}

/-! ## Sparing a byte -/

/-- An operation that neither writes byte `a` of `e` nor frees its page. -/
def Spares (e a : Nat) (s : Kernel) : SysOp → Prop
  | .user (.write va _) => s.curenv = some e → va ≠ a
  | .user (.freeMem va size) => s.curenv = some e →
    ¬ (roundDown va 4096 ≤ a ∧ a < roundDown va 4096 + roundUp size 4096)
  | .user (.fault _) | .user .tick | .user (.read _) | .user (.allocateMem _ _) => True
  | .create _ _ | .run _ | .select _ | .idle => True

/-- Runs from `s` that spare byte `a` of `e`. -/
inductive Spared (e a : Nat) (s : Kernel) : Kernel → Prop
  | refl : Spared e a s s
  | step {t u : Kernel} {op : SysOp} (run : Spared e a s t) (spares : Spares e a t op)
      (next : SysStep t op u) : Spared e a s u

theorem Spared.trans (h : Spared e a s t) (h' : Spared e a t u) : Spared e a s u := by
  induction h' with
  | refl => exact h
  | step _ hsp hnext ih => exact ih.step hsp hnext

theorem SysRun.spared (h : SysRun c s) (h' : Spared e a s t) : SysRun c t := by
  induction h' with
  | refl => exact h
  | step _ _ hnext ih => exact ih.step hnext

/-- A page outside the range of a `freeMem`. -/
theorem page_ne_pageAt {va size k : Nat}
    (hout : ¬ (roundDown va 4096 ≤ a ∧ a < roundDown va 4096 + roundUp size 4096))
    (hk : k < roundUp size 4096 / 4096) :
    roundDown a 4096 ≠ pageAt (roundDown va 4096) k := by
  intro heq
  have hal := roundUp_mod size
  rw [pageAt] at heq
  apply hout
  generalize roundUp size 4096 = n at *
  simp only [roundDown] at heq ⊢
  omega

/-! ## The running environment -/

section User

variable (h : SysInv c s G) (hcur : s.curenv = some e) {b : BitVec 8}
include h hcur

/-- A fault evicts and reloads; the byte is kept. -/
theorem SysInv.fault_holds {p : (Nat → Word) → Prop} {v va : Nat} (hp : Holds s G e v p)
    (hva : va < userTop) (habs : s.present e va = false) (hdone : trapPageFault s e va = .ok t) :
    ∃ H, Acts c e s G t H ∧ Holds t H e v p := by
  obtain ⟨w, H, -, haged, -, hf⟩ := h.trapPageFault_spec hcur hva habs hdone
  have hacts := haged.acts (h.current hcur)
  have hp' := hp.same (haged.same v)
  rcases hf with hq | hf
  · exact ⟨H, hacts.trans (hq.toQuiet.acts hacts.alive), hq.toQuiet.holds hp'⟩
  · exact ⟨H, hacts.trans (hf.acts hacts.alive), hf.holds hp'⟩

/-- Everything else the environment does. -/
theorem SysInv.user_holds {op : UserOp} (hact : UserStep s e op t)
    (hsp : Spares e a s (.user op))
    (hp : Holds s G e (roundDown a 4096) fun page => pageByte page a = b) :
    ∃ H, Acts c e s G t H ∧ Holds t H e (roundDown a 4096) fun page => pageByte page a = b := by
  have ha := h.current hcur
  have hcr3 := (h.isRunning hcur).cr3
  cases hact with
  | fault hva habs hdone => exact h.fault_holds hcur hp hva habs hdone
  | tick hdone =>
    obtain ⟨w, hw, haged⟩ := h.onTrap_eq hcur
    obtain rfl : t = w := Except.ok.inj (hdone.symm.trans hw)
    exact ⟨G, haged.acts ha, hp.same (haged.same _)⟩
  | read hva hdone =>
    -- only the accessed bit moves
    obtain ⟨f, k, -, -, hset⟩ := ha.base.space.readByte_some hcr3 hva hdone
    have hq := hset.quiet (unmarked_or _) h.owned ha.base h.frames
    exact ⟨G, h.read hcur hva hdone, hq.holds hp⟩
  | write hva hdone =>
    exact ⟨G, h.write hcur hva hdone,
      hp.write_of_ne ha.base.space hcr3 hva hdone (Ne.symm (hsp hcur))⟩
  | allocateMem hrange hdone =>
    obtain ⟨H, hl⟩ := h.allocateMem_listed hcur hrange hdone
    exact ⟨H, hl.acts h.owned ha, hl.holds ha.base hp⟩
  | freeMem hpos hrange hdone =>
    obtain ⟨H, hret⟩ := h.freeMem_returned hcur hpos hrange hdone
    exact ⟨H, hret.acts, hret.holds hp fun k hk => page_ne_pageAt (hsp hcur) hk⟩

end User

/-! ## Every step -/

/-- One step of the system keeps a byte that it spares. -/
theorem SysInv.step_holds (h : SysInv c s G) (hlive : s.Live e) {op : SysOp} {b : BitVec 8}
    (hsp : Spares e a s op) (hstep : SysStep s op t)
    (hp : Holds s G e (roundDown a 4096) fun page => pageByte page a = b) :
    ∃ H, SysInv c t H ∧ t.Live e ∧ t.wsMax e = s.wsMax e ∧
      Holds t H e (roundDown a 4096) fun page => pageByte page a = b := by
  have hspace := (h.alive e hlive).base.space
  cases hstep with
  | @create _ _ e' _ hn hwrap hprog hdone =>
    obtain ⟨hmem, H, hcr⟩ := h.created hn hwrap hprog hdone
    have hne : e ≠ e' := by
      rintro rfl
      exact hlive.2 hmem
    have hlt := (h.unused e' hmem).1
    exact ⟨H, h.create hmem hcr, (hcr.live h.nodup hlt e).2 (.inr hlive),
      by rw [Kernel.wsMax, hcr.others.envs e hne], hp.of_local hcr.others hspace hne⟩
  | run hlive' =>
    refine ⟨G, h.envRun hlive', ?_⟩
    rw [FosMemory.envRun]
    split
    · exact ⟨hlive, rfl, hp⟩
    · exact ⟨hlive, rfl, hp.slot, hp.resident, hp.stored⟩
  | select policy => exact ⟨G, h.select policy, hlive, rfl, hp.slot, hp.resident, hp.stored⟩
  | @user e' act _ hcur hact =>
    by_cases heq : e' = e
    · subst heq
      obtain ⟨H, ha, hp'⟩ := h.user_holds hcur hact hsp hp
      have hlist : t.envFreeList = s.envFreeList := ha.run.envFreeList
      exact ⟨H, h.acts hlive ha, ⟨hlive.1, by rw [hlist]; exact hlive.2⟩, ha.env.pageWSMaxSize, hp'⟩
    · obtain ⟨H, ha⟩ := h.userStep hcur hact
      have hlist : t.envFreeList = s.envFreeList := ha.run.envFreeList
      exact ⟨H, h.acts (h.running _ hcur).1 ha, ⟨hlive.1, by rw [hlist]; exact hlive.2⟩,
        by rw [Kernel.wsMax, ha.others.envs e (Ne.symm heq)],
        hp.of_local ha.others hspace (Ne.symm heq)⟩
  | idle hnone hdone =>
    rw [onTrap_idle hnone] at hdone
    cases hdone
    exact ⟨G, h, hlive, rfl, hp⟩

end FosMemory
