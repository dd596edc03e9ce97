import FosMemory.Kernel.Create
import FosMemory.Kernel.FrameRun

/-!
# System — runs of the memory management of FOS

From the state `FOS_initialize` leaves, environments are created and run, the replacement policy is
selected, and the running environment reads, writes, faults, is interrupted by the clock and calls
`allocateMem` and `freeMem`.  `SysInv` is what holds in every state of such a run.
-/

namespace FosMemory

open Lib

variable {c : Boot} {s t u : Kernel} {G H I : Ghost} {e : Nat}

/-! ## Operations -/

/-- What `trap_dispatch` and `clock_interrupt_handler` do first. -/
def onTrap (s : Kernel) : Except Stop Kernel :=
  if s.pageRepAlgoType = .lru then updateWSTimeStamps s else .ok s

/-- The page fault branch of `trap_dispatch`. -/
def trapPageFault (s : Kernel) (e faultVa : Nat) : Except Stop Kernel := do
  let s ← onTrap s
  faultHandler s e faultVa

/-- What happens while an environment is running. -/
inductive UserOp where
  | fault (va : Nat)
  | tick
  | read (va : Nat)
  | write (va : Nat) (b : BitVec 8)
  | allocateMem (va size : Nat)
  | freeMem (va size : Nat)

inductive SysOp where
  | create (prog : UserProgram) (pageWSSize : Nat)
  | run (e : Nat)
  | select (policy : PageRepAlgo)
  | user (op : UserOp)
  | idle

/-- A live environment. -/
def Kernel.Live (s : Kernel) (e : Nat) : Prop :=
  e < nenv ∧ e ∉ s.envFreeList

/-- An operation on behalf of `e`.  The ranges of `allocateMem` and `freeMem` lie in user memory, as
those of `malloc` and `free` do. -/
inductive UserStep (s : Kernel) (e : Nat) : UserOp → Kernel → Prop
  | fault {va : Nat} {t : Kernel} (user : va < userTop) (absent : s.present e va = false)
      (done : trapPageFault s e va = .ok t) : UserStep s e (.fault va) t
  | tick {t : Kernel} (done : onTrap s = .ok t) : UserStep s e .tick t
  | read {va : Nat} {b : BitVec 8} {t : Kernel} (user : va < userTop)
      (done : s.readByte true va = some (b, t)) : UserStep s e (.read va) t
  | write {va : Nat} {b : BitVec 8} {t : Kernel} (user : va < userTop)
      (done : s.writeByte true va b = some t) : UserStep s e (.write va b) t
  | allocateMem {va size : Nat} {t : Kernel} (range : va + size + 4096 < userTop)
      (done : allocateMem s e va size = .ok t) : UserStep s e (.allocateMem va size) t
  | freeMem {va size : Nat} {t : Kernel} (positive : 4096 ≤ va) (range : va + size + 4096 < userTop)
      (done : freeMem s e va size = .ok t) : UserStep s e (.freeMem va size) t

/-- One step of the system.  The size of a working set array does not wrap around. -/
inductive SysStep (s : Kernel) : SysOp → Kernel → Prop
  | create {prog : UserProgram} {n e : Nat} {t : Kernel} (size : 1 ≤ n)
      (wrap : n * 12 + 4095 < wordMod) (program : Loadable n prog)
      (done : envCreate s prog n = .ok (some e, t)) : SysStep s (.create prog n) t
  | run {e : Nat} (live : s.Live e) : SysStep s (.run e) (envRun s e)
  | select (policy : PageRepAlgo) : SysStep s (.select policy) { s with pageRepAlgoType := policy }
  | user {e : Nat} {op : UserOp} {t : Kernel} (running : s.curenv = some e)
      (act : UserStep s e op t) : SysStep s (.user op) t
  | idle {t : Kernel} (nobody : s.curenv = none) (done : onTrap s = .ok t) : SysStep s .idle t

/-! ## The invariant -/

structure SysInv (c : Boot) (s : Kernel) (G : Ghost) : Prop where
  owned : Owned c s G
  frames : DiskFrames s G
  held : NoHeld G
  nodup : s.envFreeList.Nodup
  unused : ∀ e ∈ s.envFreeList, e < nenv ∧ Unused G e ∧ (s.envs e).diskEnvPgdir = 0
  alive : ∀ e, s.Live e → Alive c s G e
  running : ∀ e, s.curenv = some e → s.Live e ∧ s.cr3 = (s.envs e).envCr3
  zeroPage : s.mem 1 = c.state.mem 1

theorem SysInv.isRunning (h : SysInv c s G) (hcur : s.curenv = some e) : Running s e :=
  ⟨hcur, (h.running e hcur).2⟩

theorem SysInv.current (h : SysInv c s G) (hcur : s.curenv = some e) : Alive c s G e :=
  h.alive e (h.running e hcur).1

/-- Another environment does not lose or gain anything. -/
theorem Unused.of_local {e' : Nat} (h : Unused G e') (hst : Local e s G t H) (hne : e' ≠ e) :
    Unused H e' :=
  ⟨fun f r hf => h.own f r (((hst.keeps e' hne).own f r rfl).1 hf),
    fun k => by rw [hst.win e' hne]; exact h.win k,
    fun v => by rw [hst.slots e' hne]; exact h.slots v⟩

/-- An operation on behalf of a live environment. -/
theorem SysInv.acts (h : SysInv c s G) (hlive : s.Live e) (ha : Acts c e s G t H) :
    SysInv c t H := by
  have hrun := ha.run
  have hlist : t.envFreeList = s.envFreeList := hrun.envFreeList
  have hsame : ∀ e', t.Live e' ↔ s.Live e' := fun e' => by rw [Kernel.Live, hlist, Kernel.Live]
  constructor
  case owned => exact ha.owned
  case frames => exact ha.frames
  case held => exact ha.held h.held
  case nodup =>
    rw [hlist]
    exact h.nodup
  case unused =>
    intro e' he'
    rw [hlist] at he'
    obtain ⟨hlt, hun, hdd⟩ := h.unused e' he'
    have hne : e' ≠ e := by
      rintro rfl
      exact hlive.2 he'
    exact ⟨hlt, hun.of_local ha.others hne, by rw [ha.others.envs e' hne]; exact hdd⟩
  case alive =>
    intro e' he'
    rw [hsame] at he'
    by_cases heq : e' = e
    · rw [heq]
      exact ha.alive
    · exact (h.alive e' he').of_local h.owned ha.owned ha.others heq
  case running =>
    intro e' hcur
    rw [hrun.curenv] at hcur
    obtain ⟨hl, hcr3⟩ := h.running e' hcur
    refine ⟨(hsame e').2 hl, ?_⟩
    by_cases heq : e' = e
    · subst heq
      rw [hrun.cr3, ha.env.envCr3, hcr3]
    · rw [hrun.cr3, ha.others.envs e' heq, hcr3]
  case zeroPage => exact ha.others.zeroPage.trans h.zeroPage

/-- The record of the boot state: no frame and no slot is in use. -/
def bootGhost : Ghost where
  own := fun _ => none
  lost := fun _ => False
  win := fun _ _ => false
  slots := fun _ _ => none

theorem sysInv_boot (c : Boot) : SysInv c c.state bootGhost := by
  have hown : ∀ f o, bootGhost.own f ≠ some o := fun _ _ h => Option.some_ne_none _ h.symm
  have hslot : ∀ e v d, bootGhost.slots e v ≠ some d := fun _ _ _ h => Option.some_ne_none _ h.symm
  have henv : c.state.envFreeList = List.range nenv := by rw [Boot.state]
  obtain ⟨m, hm⟩ : ∃ m, m = nenv := ⟨_, rfl⟩
  rw [← hm] at henv
  constructor
  case owned =>
    refine ⟨c.state_inv, fun f => ?_, fun f hf => absurd rfl hf,
      fun f o hf => absurd hf (hown f o)⟩
    refine c.mem_freeFrameList.trans ⟨fun h => ⟨h.1, h.2, rfl, id⟩, fun h => ⟨h.1, h.2.1⟩⟩
  case frames =>
    have hlist : c.state.diskFreeFrameList = (List.range' 1 (pagesPerFile - 1)).reverse := by
      rw [Boot.state]
    refine ⟨?_, fun d => ?_, fun e v d hd => absurd hd (hslot e v d),
      fun e v e' v' d hd => absurd hd (hslot e v d)⟩
    · rw [hlist]
      exact List.nodup_reverse.2 List.nodup_range'
    · rw [hlist, List.mem_reverse, List.mem_range'_1]
      have hpos : 1 < pagesPerFile := by decide
      refine ⟨fun h => ⟨h.1, by omega, fun e v => hslot e v d⟩, fun h => ⟨h.1, by omega⟩⟩
  case held => exact fun f e => hown f _
  case nodup =>
    rw [henv]
    exact List.nodup_range
  case unused =>
    intro e he
    rw [henv, List.mem_range, hm] at he
    exact ⟨he, ⟨fun f r => hown f _, fun _ => rfl, fun _ => rfl⟩, rfl⟩
  case alive =>
    rintro e ⟨hlt, hnot⟩
    rw [henv, List.mem_range, hm] at hnot
    exact absurd hlt hnot
  case running => exact fun e he => absurd he.symm (Option.some_ne_none e)
  case zeroPage => rfl

/-- The scheduler's fields: the structures of memory management do not depend on them. -/
theorem SysInv.withRun (h : SysInv c s G) {cur : Option Nat} {x : Nat} {p : PageRepAlgo}
    (hcur : ∀ e, cur = some e → s.Live e ∧ x = (s.envs e).envCr3) :
    SysInv c (s.withRun s.envFreeList cur x p) G where
  owned := h.owned.withRun
  frames := h.frames.withRun
  held := h.held
  nodup := h.nodup
  unused := h.unused
  alive := fun e he => (h.alive e he).withRun
  running := hcur
  zeroPage := h.zeroPage

theorem SysInv.envRun (h : SysInv c s G) (hlive : s.Live e) : SysInv c (envRun s e) G := by
  rw [FosMemory.envRun]
  split
  · exact h
  · refine SysInv.withRun h ?_
    rintro e' he'
    cases he'
    exact ⟨hlive, rfl⟩

theorem SysInv.select (h : SysInv c s G) (policy : PageRepAlgo) :
    SysInv c { s with pageRepAlgoType := policy } G :=
  SysInv.withRun h h.running

section Create

variable {n : Nat} {prog : UserProgram} (h : SysInv c s G)
include h

/-- A successful `env_create` has made an environment out of an unused one. -/
theorem SysInv.created (hn : 1 ≤ n) (hwrap : n * 12 + 4095 < wordMod) (hprog : Loadable n prog)
    (hdone : envCreate s prog n = .ok (some e, t)) :
    e ∈ s.envFreeList ∧ ∃ H, Created c e n prog s G t H := by
  cases hlist : s.envFreeList with
  | nil =>
    rw [envCreate, hlist] at hdone
    cases hdone
  | cons e' rest =>
    have hmem : e' ∈ s.envFreeList := by
      rw [hlist]
      exact List.mem_cons_self
    obtain ⟨-, hun, hdd⟩ := h.unused e' hmem
    have hspec := hun.envCreate_spec h.owned h.frames hlist hdd hn hwrap hprog
    obtain ⟨heq, H, hcr⟩ := hspec.of_ok hdone
    cases heq
    exact ⟨List.mem_cons_self, H, hcr⟩

omit h in
theorem Created.live (hcr : Created c e n prog s G t H) (hnd : s.envFreeList.Nodup)
    (hlt : e < nenv) (e' : Nat) : t.Live e' ↔ e' = e ∨ s.Live e' := by
  rw [Kernel.Live, hcr.envFreeList, hnd.mem_erase_iff, Kernel.Live]
  constructor
  · rintro ⟨hlt', hnot⟩
    by_cases heq : e' = e
    · exact .inl heq
    · exact .inr ⟨hlt', fun hmem => hnot ⟨heq, hmem⟩⟩
  · rintro (rfl | ⟨hlt', hnot⟩)
    · exact ⟨hlt, fun hx => hx.1 rfl⟩
    · exact ⟨hlt', fun hx => hnot hx.2⟩

theorem SysInv.create (hmem : e ∈ s.envFreeList) (hcr : Created c e n prog s G t H) :
    SysInv c t H := by
  obtain ⟨hlt, -, -⟩ := h.unused e hmem
  have hlive := hcr.live h.nodup hlt
  have hother : ∀ e', s.Live e' → e' ≠ e := by
    rintro e' ⟨-, hnot⟩ rfl
    exact hnot hmem
  constructor
  case owned => exact hcr.owned
  case frames => exact hcr.frames
  case held => exact hcr.held h.held
  case nodup =>
    rw [hcr.envFreeList]
    exact h.nodup.erase e
  case unused =>
    intro e' he'
    rw [hcr.envFreeList, h.nodup.mem_erase_iff] at he'
    obtain ⟨hlt', hun, hdd⟩ := h.unused e' he'.2
    exact ⟨hlt', hun.of_local hcr.others he'.1, by rw [hcr.others.envs e' he'.1]; exact hdd⟩
  case alive =>
    intro e' he'
    rcases (hlive e').1 he' with rfl | hold
    · exact hcr.alive
    · exact (h.alive e' hold).of_local h.owned hcr.owned hcr.others (hother e' hold)
  case running =>
    intro e' hcur
    rw [hcr.curenv] at hcur
    obtain ⟨hl, hcr3⟩ := h.running e' hcur
    exact ⟨(hlive e').2 (.inr hl), by rw [hcr.cr3, hcr.others.envs e' (hother e' hl)]; exact hcr3⟩
  case zeroPage => exact hcr.others.zeroPage.trans h.zeroPage

end Create

/-- With enough room an `env_create` succeeds. -/
theorem SysInv.envCreate_exists (h : SysInv c s G) {rest : List Nat}
    (hlist : s.envFreeList = e :: rest) {n : Nat} {prog : UserProgram} (hn : 1 ≤ n)
    (hwrap : n * 12 + 4095 < wordMod) (hprog : Loadable n prog) (hroom : ¬ StopsCreate s prog n) :
    ∃ t H, envCreate s prog n = .ok (some e, t) ∧ Created c e n prog s G t H := by
  obtain ⟨-, hun, hdd⟩ := h.unused e (by rw [hlist]; exact List.mem_cons_self)
  have hspec := (hun.envCreate_spec h.owned h.frames hlist hdd hn hwrap hprog).mono
    (F := fun _ => False) (fun _ hx => hroom hx) fun _ hr => hr
  obtain ⟨⟨r, t⟩, hdone, hr, H, hcr⟩ := hspec.exists_ok
  cases hr
  exact ⟨t, H, hdone, hcr⟩

/-- The first environment. -/
theorem Boot.envCreate_first (c : Boot) {n : Nat} {prog : UserProgram} (hn : 1 ≤ n) (hmax : n ≤ 50)
    (hprog : Loadable n prog)
    (hframes : 1 + 2 * pagesOf (n * 12) + 2 * createCost prog n ≤ c.freeFrameList.length)
    (hheap : 1 + 2 * pagesOf (n * 12) + 2 * createCost prog n < 40000) :
    ∃ t H, envCreate c.state prog n = .ok (some 0, t) ∧
      Created c 0 n prog c.state bootGhost t H := by
  have hinv := sysInv_boot c
  obtain ⟨m, hm⟩ : ∃ m, nenv = m + 1 := ⟨nenv - 1, by decide⟩
  have hlist : c.state.envFreeList = 0 :: (List.range m).map Nat.succ := by
    have henv : c.state.envFreeList = List.range nenv := by rw [Boot.state]
    rw [henv, hm, List.range_succ_eq_map]
  have hwrap : n * 12 + 4095 < wordMod := by
    simp only [wordMod]
    omega
  have hdisk : c.state.diskFreeFrameList.length = pagesPerFile - 1 := by
    rw [Boot.state, List.length_reverse, List.length_range']
  have hfile : 50000 < pagesPerFile := by decide
  refine hinv.envCreate_exists hlist hn hwrap hprog ?_
  rintro (hx | hx | hx)
  · refine hx ⟨hframes, ?_⟩
    have htop : c.state.firstFreeVAInKHeap = kernelHeapStart := rfl
    rw [htop]
    simp only [kernelHeapStart, kernelHeapMax]
    omega
  · omega
  · omega

/-! ## What the operations do -/

section Ops

variable (h : SysInv c s G)
include h

/-- Under LRU every trap is a tick. -/
theorem SysInv.onTrap_lru (hcur : s.curenv = some e) (hlru : s.pageRepAlgoType = .lru) :
    ∃ t, onTrap s = .ok t ∧ Ticked c e (s.wsMax e) s G t := by
  rw [onTrap, if_pos hlru]
  exact (h.current hcur).updateWSTimeStamps_spec h.owned h.frames hcur

theorem SysInv.onTrap_eq (hcur : s.curenv = some e) :
    ∃ t, onTrap s = .ok t ∧ Aged c e s G t := by
  by_cases hlru : s.pageRepAlgoType = .lru
  · obtain ⟨t, ht, hticked⟩ := h.onTrap_lru hcur hlru
    exact ⟨t, ht, hticked.toAged⟩
  · exact ⟨s, by rw [onTrap, if_neg hlru], Aged.refl h.owned (h.current hcur).base h.frames⟩

omit h in
/-- Nothing happens while no environment is running. -/
theorem onTrap_idle (hcur : s.curenv = none) : onTrap s = .ok s := by
  rw [onTrap, updateWSTimeStamps, hcur]
  split <;> rfl

/-- A page fault: the stamps are updated, then the fault is handled. -/
theorem SysInv.trapPageFault_spec (hcur : s.curenv = some e) {va : Nat} (hva : va < userTop)
    (habs : s.present e va = false) (hdone : trapPageFault s e va = .ok t) :
    ∃ u H, onTrap s = .ok u ∧ Aged c e s G u ∧ faultHandler u e va = .ok t ∧
      (Still c e 1 u G t H ∨ Faulted c e va u G t H) := by
  have ha := h.current hcur
  obtain ⟨u, hu, haged⟩ := h.onTrap_eq hcur
  have hacts := haged.acts ha
  have habs' := ha.base.absent_of_present hva habs
  rw [trapPageFault, hu, ok_bind] at hdone
  have hrun : Running u e := (h.isRunning hcur).of_same hacts.run hacts.env
  have hspec := hacts.alive.base.faultHandler_spec haged.step.owned haged.step.frames hrun hva
    habs' hacts.alive.entries
  obtain ⟨H, hH⟩ := hspec.of_ok hdone
  exact ⟨u, H, hu, haged, hdone, hH⟩

theorem SysInv.fault (hcur : s.curenv = some e) {va : Nat} (hva : va < userTop)
    (habs : s.present e va = false) (hdone : trapPageFault s e va = .ok t) :
    ∃ H, Acts c e s G t H := by
  have ha := h.current hcur
  obtain ⟨u, H, -, haged, -, hf⟩ := h.trapPageFault_spec hcur hva habs hdone
  have hacts := haged.acts ha
  rcases hf with hq | hf
  · exact ⟨H, hacts.trans (hq.acts hacts.alive)⟩
  · exact ⟨H, hacts.trans (hf.acts hacts.alive)⟩

theorem SysInv.read (hcur : s.curenv = some e) {va : Nat} {b : BitVec 8} (hva : va < userTop)
    (hdone : s.readByte true va = some (b, t)) : Acts c e s G t G := by
  have ha := h.current hcur
  obtain ⟨f, k, -, -, hset⟩ := ha.base.space.readByte_some (h.isRunning hcur).cr3 hva hdone
  exact hset.toWalkOnly.alive h.owned h.frames ha

theorem SysInv.write (hcur : s.curenv = some e) {va : Nat} {b : BitVec 8} (hva : va < userTop)
    (hdone : s.writeByte true va b = some t) : Acts c e s G t G := by
  have ha := h.current hcur
  obtain ⟨f, hf, hset⟩ := ha.base.space.writeByte_some (h.isRunning hcur).cr3 hva hdone
  exact hset.alive hf h.owned h.frames ha

theorem SysInv.allocateMem_listed (hcur : s.curenv = some e) {va size : Nat}
    (hrange : va + size + 4096 < userTop) (hdone : allocateMem s e va size = .ok t) :
    ∃ H, Listed c e va ((size + 4095) % wordMod / 4096) s G t H := by
  have ha := h.current hcur
  refine (SlotTable.allocateMem_spec h.owned ha.base.slots h.frames rfl (.inr ?_)).of_ok hdone
  simp only [userTop, wordMod] at hrange ⊢
  omega

theorem SysInv.freeMem_returned (hcur : s.curenv = some e) {va size : Nat} (hpos : 4096 ≤ va)
    (hrange : va + size + 4096 < userTop) (hdone : freeMem s e va size = .ok t) :
    ∃ H, Returned c e (roundDown va 4096) (roundUp size 4096 / 4096) s G t H := by
  have ha := h.current hcur
  have hsize : roundUp size 4096 = (size + 4095) / 4096 * 4096 := roundUp_eq (by omega)
  have hdown : roundDown va 4096 = va - va % 4096 := rfl
  have hlow : 0 < roundDown va 4096 := by omega
  have hhigh : roundDown va 4096 + 4096 * (roundUp size 4096 / 4096) < userTop := by
    rw [hsize]
    omega
  obtain ⟨t', H, ht', hret⟩ := ha.freeMem_spec h.owned h.frames rfl hlow hhigh
  obtain rfl : t = t' := Except.ok.inj (hdone.symm.trans ht')
  exact ⟨H, hret⟩

end Ops

/-! ## Runs -/

/-- Everything a running environment does keeps its invariant. -/
theorem SysInv.userStep (h : SysInv c s G) (hcur : s.curenv = some e) {op : UserOp}
    (hact : UserStep s e op t) : ∃ H, Acts c e s G t H := by
  cases hact with
  | fault hva habs hdone => exact h.fault hcur hva habs hdone
  | tick hdone =>
    obtain ⟨u, hu, haged⟩ := h.onTrap_eq hcur
    obtain rfl : t = u := Except.ok.inj (hdone.symm.trans hu)
    exact ⟨G, haged.acts (h.current hcur)⟩
  | read hva hdone => exact ⟨G, h.read hcur hva hdone⟩
  | write hva hdone => exact ⟨G, h.write hcur hva hdone⟩
  | allocateMem hrange hdone =>
    obtain ⟨H, hl⟩ := h.allocateMem_listed hcur hrange hdone
    exact ⟨H, hl.acts h.owned (h.current hcur)⟩
  | freeMem hpos hrange hdone =>
    obtain ⟨H, hret⟩ := h.freeMem_returned hcur hpos hrange hdone
    exact ⟨H, hret.acts⟩

/-- Every step keeps the invariant. -/
theorem SysInv.step (h : SysInv c s G) {op : SysOp} (hstep : SysStep s op t) :
    ∃ H, SysInv c t H := by
  cases hstep with
  | create hn hwrap hprog hdone =>
    obtain ⟨hmem, H, hcr⟩ := h.created hn hwrap hprog hdone
    exact ⟨H, h.create hmem hcr⟩
  | run hlive => exact ⟨G, h.envRun hlive⟩
  | select policy => exact ⟨G, h.select policy⟩
  | user hcur hact =>
    obtain ⟨H, ha⟩ := h.userStep hcur hact
    exact ⟨H, h.acts (h.running _ hcur).1 ha⟩
  | idle hnone hdone =>
    rw [onTrap_idle hnone] at hdone
    cases hdone
    exact ⟨G, h⟩

/-- The states of the runs from the boot state. -/
inductive SysRun (c : Boot) : Kernel → Prop
  | boot : SysRun c c.state
  | step {s t : Kernel} {op : SysOp} (run : SysRun c s) (next : SysStep s op t) : SysRun c t

theorem SysRun.inv (h : SysRun c s) : ∃ G, SysInv c s G := by
  induction h with
  | boot => exact ⟨bootGhost, sysInv_boot c⟩
  | step _ hnext ih =>
    obtain ⟨G, hG⟩ := ih
    exact hG.step hnext

/-- The first environment has been created and run, then a policy has been selected. -/
structure FirstRun (c : Boot) (n : Nat) (prog : UserProgram) (policy : PageRepAlgo) (t : Kernel)
    (H : Ghost) (u : Kernel) : Prop where
  done : envCreate c.state prog n = .ok (some 0, t)
  created : Created c 0 n prog c.state bootGhost t H
  live : t.Live 0
  next : u = { envRun t 0 with pageRepAlgoType := policy }
  state : u = t.withRun t.envFreeList (some 0) (t.envs 0).envCr3 policy
  run : SysRun c u
  inv : SysInv c u H

theorem Boot.run_first (c : Boot) {n : Nat} {prog : UserProgram} (hn : 1 ≤ n) (hmax : n ≤ 50)
    (hprog : Loadable n prog)
    (hframes : 1 + 2 * pagesOf (n * 12) + 2 * createCost prog n ≤ c.freeFrameList.length)
    (hheap : 1 + 2 * pagesOf (n * 12) + 2 * createCost prog n < 40000) (policy : PageRepAlgo) :
    ∃ t H u, FirstRun c n prog policy t H u := by
  obtain ⟨t, H, hdone, hcr⟩ := c.envCreate_first hn hmax hprog hframes hheap
  have hwrap : n * 12 + 4095 < wordMod := by
    simp only [wordMod]
    omega
  have hboot := sysInv_boot c
  obtain ⟨hmem, -⟩ := hboot.created hn hwrap hprog hdone
  have hinv := hboot.create hmem hcr
  have hlive : t.Live 0 := (hcr.live hboot.nodup (hboot.unused 0 hmem).1 0).2 (.inl rfl)
  have hcur : t.curenv = none := hcr.curenv
  have hrun : SysRun c t := .step .boot (.create hn hwrap hprog hdone)
  refine ⟨t, H, _, hdone, hcr, hlive, rfl, ?_, (hrun.step (.run hlive)).step (.select policy),
    (hinv.envRun hlive).select policy⟩
  rw [FosMemory.envRun, hcur, if_neg (Option.some_ne_none 0).symm]
  rfl

/-- A program without segments: its environment starts with the stack page alone. -/
def bareProgram : UserProgram where
  name := ""
  segments := []

theorem bareProgram_loadable (n : Nat) : Loadable n bareProgram :=
  ⟨fun _ hseg => (List.not_mem_nil hseg).elim, List.Pairwise.nil⟩

theorem initialPages_bareProgram (n : Nat) : initialPages bareProgram n = [stackPage] :=
  rfl

theorem Boot.run_bare (c : Boot) {n k : Nat} (hn : 1 ≤ n) (hmax : n ≤ 50)
    (hframes : 7 + k ≤ c.freeFrameList.length) (hk : k < 10000) (policy : PageRepAlgo) :
    ∃ t H u, FirstRun c n bareProgram policy t H u ∧ Enough u k := by
  have hcost : 1 + 2 * pagesOf (n * 12) + 2 * createCost bareProgram n = 7 := by
    have hbare : createCost bareProgram n = 2 := rfl
    rw [hbare, pagesOf]
    omega
  obtain ⟨t, H, u, hfirst⟩ := c.run_first hn hmax (bareProgram_loadable n)
    (by rw [hcost]; omega) (by rw [hcost]; decide) policy
  have hspent := hfirst.created.spent
  rw [hcost] at hspent
  have hen : Enough c.state (7 + k) := by
    refine ⟨hframes, ?_⟩
    have htop : c.state.firstFreeVAInKHeap = kernelHeapStart := rfl
    rw [htop]
    simp only [kernelHeapStart, kernelHeapMax]
    omega
  refine ⟨t, H, u, hfirst, ?_⟩
  rw [hfirst.state]
  exact hen.after hspent

section FirstRun

variable {n : Nat} {prog : UserProgram} {p : PageRepAlgo} (h : FirstRun c n prog p t H u)
include h

theorem FirstRun.curenv : u.curenv = some 0 := by
  rw [h.state]
  rfl

theorem FirstRun.policy : u.pageRepAlgoType = p := by
  rw [h.state]
  rfl

theorem FirstRun.size : u.wsMax 0 = n := by
  rw [h.state]
  exact h.created.size

theorem FirstRun.element {i : Nat} (hi : i < n) : u.wsPage 0 i = (initialPages prog n)[i]? := by
  rw [h.state]
  exact h.created.element i hi

end FirstRun

end FosMemory
