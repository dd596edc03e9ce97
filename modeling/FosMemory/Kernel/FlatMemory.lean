import FosMemory.Kernel.Residence

/-!
# FlatMemory — the memory an environment thinks it has

To an environment its user memory is an array of bytes that it alone writes.  `Cells` is that array
for all environments, a byte being there once it is known; `LifeOp.commits` is what an operation does
to it.  The pages that move between frames and the page file represent the cells in every reachable
state, so that a read returns the cell.
-/

namespace FosMemory

open Lib

variable {c : Boot} {s t u : Kernel} {G H I : Ghost} {e a : Nat} {b : BitVec 8}
  {lost : Nat → Prop}

/-! ## Cells -/

/-- The byte each environment has at each address, as far as it is known. -/
abbrev Cells := Nat → Nat → Option (BitVec 8)

/-- An operation of `e`: a write to a page with a slot stores the byte, a fault fetches the page as
its slot has it, `freeMem` forgets the pages of its range. -/
def UserOp.commits (s : Kernel) (e : Nat) (row : Nat → Option (BitVec 8)) :
    UserOp → Nat → Option (BitVec 8)
  | .write va b, a => if a = va ∧ (s.fileByte e va).isSome then some b else row a
  | .fault va, a => if roundDown a 4096 = roundDown va 4096 then s.fileByte e a else row a
  | .freeMem va size, a =>
    if roundDown va 4096 ≤ a ∧ a < roundDown va 4096 + roundUp size 4096 then none else row a
  | .tick, a | .read _, a | .allocateMem _ _, a => row a

def LifeOp.commits (s : Kernel) (m : Cells) : LifeOp → Cells
  | .sys (.user op) => fun e => if s.curenv = some e then op.commits s e (m e) else m e
  | .free e => Function.update m e fun _ => none
  | .sys (.create _ _) | .sys (.run _) | .sys (.select _) | .sys .idle | .stop => m

section Row

variable {m : Cells} {op : UserOp}

theorem commits_of_running (h : s.curenv = some e) :
    (LifeOp.sys (.user op)).commits s m e = op.commits s e (m e) := by
  simp only [LifeOp.commits, if_pos h]

theorem commits_of_not_running (h : s.curenv ≠ some e) :
    (LifeOp.sys (.user op)).commits s m e = m e := by
  simp only [LifeOp.commits, if_neg h]

end Row

/-- Runs from the boot state with the cells they commit. -/
inductive FlatRun (c : Boot) : Kernel → Cells → Prop
  | boot : FlatRun c c.state fun _ _ => none
  | step {s t : Kernel} {m : Cells} {op : LifeOp} (run : FlatRun c s m) (next : LifeStep s op t) :
      FlatRun c t (op.commits s m)

/-! ## Settled bytes -/

/-- Wherever the page of `a` is, its byte is `b`: in memory, and then also in the page file unless
the page will be written back, or in the page file alone. -/
structure Kernel.Settled (s : Kernel) (e a : Nat) (b : BitVec 8) : Prop where
  slot : (s.fileByte e a).isSome = true
  memory : s.present e a = true → pageByte (s.mem (s.pteWord e a).frame) a = b ∧
    (s.Dirty e a ∨ s.fileByte e a = some b)
  file : s.present e a = false → s.fileByte e a = some b

/-- `Settled` says in the words of the code what `Holds` says of the record. -/
theorem Alive.settled_iff (ha : Alive c s G e) (ho : Owned c s G) (hd : DiskFrames s G)
    (hva : a < userTop) (hwin : ¬ s.inWindow e a) :
    s.Settled e a b ↔ Holds s G e (roundDown a 4096) fun page => pageByte page a = b := by
  have hfile := ha.fileByte_eq ho hd hva
  have hdisk : s.fileByte e a = some b ↔ G.slots e (roundDown a 4096) ≠ none ∧
      ∀ d, G.slots e (roundDown a 4096) = some d → pageByte (s.disk d) a = b := by
    rw [hfile]
    cases G.slots e (roundDown a 4096) with
    | none => simp
    | some d => simp
  constructor
  · intro h
    constructor
    case slot =>
      have hslot := h.slot
      rw [hfile, Option.isSome_map] at hslot
      exact Option.isSome_iff_exists.1 hslot
    case resident =>
      intro f hf
      obtain ⟨hp, hframe, -⟩ := (ha.page_iff hva).2 hf
      obtain ⟨hbyte, hback⟩ := h.memory hp
      rw [← hframe]
      refine ⟨hbyte, hback.imp (fun hdirty => hdirty.2) fun hx => (hdisk.1 hx).2⟩
    case stored =>
      intro hno
      refine (hdisk.1 (h.file ?_)).2
      rw [Bool.eq_false_iff]
      intro hp
      obtain ⟨f, hf⟩ := ha.base.present_page hva hwin hp
      exact hno f hf
  · intro h
    have hne : G.slots e (roundDown a 4096) ≠ none := by
      obtain ⟨d, hd⟩ := h.slot
      rw [hd]
      exact Option.some_ne_none d
    constructor
    case slot =>
      rw [hfile, Option.isSome_map]
      exact Option.isSome_iff_ne_none.2 hne
    case memory =>
      intro hp
      obtain ⟨hbyte, hback⟩ := h.resident _ ((ha.page_iff hva).1 ⟨hp, rfl, hwin⟩)
      exact ⟨hbyte, hback.imp (fun hmod => ⟨hp, hmod⟩) fun hx => hdisk.2 ⟨hne, hx⟩⟩
    case file =>
      intro hp
      refine hdisk.2 ⟨hne, h.stored fun f hf => ?_⟩
      rw [((ha.page_iff hva).2 hf).1] at hp
      cases hp

/-! ## One step keeps what is settled -/

/-- An operation that neither writes byte `a` of `e`, nor frees its page, nor frees `e`. -/
def LifeOp.SparesByte (e a : Nat) (s : Kernel) : LifeOp → Prop
  | .sys op => Spares e a s op
  | .free e' => e' ≠ e
  | .stop => True

/-- The pages of an environment that keeps everything. -/
theorem Kept.samePage (h : Kept e s G t H) (ha : Alive c s G e) (ha' : Alive c t H e) (v : Nat) :
    SamePage e v s G t H := by
  refine ⟨fun f => h.keeps.own f _ rfl, fun f hf => h.keeps.mem f _ rfl hf, fun f hf => ?_,
    by rw [h.slots], h.disk v⟩
  obtain ⟨hal, hlt, -⟩ := ha.base.space.target v f false hf
  have hp : s.present e v = true := by
    refine (ha.base.space.present_iff hlt).2 ⟨f, false, ?_⟩
    rw [roundDown_eq hal]
    exact hf
  rw [h.pteWord_eq ha ha' hlt hp]

theorem LifeInv.step_settled (h : LifeInv c s G) {op : LifeOp} (hstep : LifeStep s op t)
    (hlive : s.Live e) (hva : a < userTop) (hwin : ¬ s.inWindow e a) (hsp : op.SparesByte e a s)
    (hset : s.Settled e a b) : t.Live e ∧ ¬ t.inWindow e a ∧ t.Settled e a b := by
  have ha := h.alive e hlive
  have hp := (ha.settled_iff h.owned h.frames hva hwin).1 hset
  -- after the step the same byte is held, for whatever record the step has
  have hafter : ∀ {H}, SysInv c t H → t.Live e → t.wsMax e = s.wsMax e →
      Holds t H e (roundDown a 4096) (fun page => pageByte page a = b) →
      t.Live e ∧ ¬ t.inWindow e a ∧ t.Settled e a b := by
    intro H hinv hl hmax hp'
    have hwin' : ¬ t.inWindow e a := by
      have hpages : t.wsPages e = s.wsPages e := congrArg (fun n => pagesOf (n * 12)) hmax
      rw [Kernel.inWindow, hpages]
      exact hwin
    exact ⟨hl, hwin', ((hinv.alive e hl).settled_iff hinv.owned hinv.frames hva hwin').2 hp'⟩
  have hidle : ¬ op.By s e → t.Live e ∧ ¬ t.inWindow e a ∧ t.Settled e a b := by
    intro hby
    obtain ⟨H, hinv, -, hkept⟩ := h.step_kept hstep
    obtain ⟨hl, hk⟩ := hkept e hlive hby
    exact hafter hinv.toSysInv hl (congrArg Env.pageWSMaxSize hk.env)
      (hp.same (hk.samePage ha (hinv.alive e hl) _))
  cases op with
  | sys op =>
    cases hstep with
    | sys step =>
      obtain ⟨H, hinv, hl, hmax, hp'⟩ := h.toSysInv.step_holds hlive hsp step hp
      exact hafter hinv hl hmax hp'
  | stop => exact hidle id
  | free e' => exact hidle hsp

/-! ## What an operation commits is settled -/

/-- A byte written to a page that has a slot. -/
theorem SysInv.write_settled (h : SysInv c s G) (hcur : s.curenv = some e) (hva : a < userTop)
    (hslot : (s.fileByte e a).isSome = true) (hdone : s.writeByte true a b = some t) :
    ¬ t.inWindow e a ∧ t.Settled e a b := by
  have ha := h.current hcur
  have hacts := h.write hcur hva hdone
  obtain ⟨f, hf, hpage⟩ := ha.base.space.writeByte_some (h.isRunning hcur).cr3 hva hdone
  have hwin : ¬ t.inWindow e a := by
    rw [inWindow_congr hacts.env]
    exact ((ha.page_iff hva).2 hf).2.2
  refine ⟨hwin, (hacts.alive.settled_iff hacts.owned hacts.frames hva hwin).2 ?_⟩
  refine hpage.holds hf (has_mono (has_or_self _ _) (by decide)) ?_ (pageByte_set_self _ _ _)
  rw [ha.fileByte_eq h.owned h.frames hva, Option.isSome_map] at hslot
  exact Option.isSome_iff_exists.1 hslot

/-- The bytes of a page that is in the page file alone. -/
theorem Base.file_settled (hb : Base c s G e) {va : Nat} (hva : va < userTop)
    (habs : s.present e va = false) (hpage : roundDown a 4096 = roundDown va 4096)
    (hbyte : s.fileByte e a = some b) :
    a < userTop ∧ ¬ s.inWindow e a ∧ s.Settled e a b := by
  have hlt : a < userTop := by
    simp only [userTop, roundDown] at hva hpage ⊢
    omega
  have hnone := hb.absent_of_present hva habs
  rw [← hpage] at hnone
  refine ⟨hlt, (hb.absent_iff.1 hnone).2, by rw [hbyte]; rfl, fun hp => ?_, fun _ => hbyte⟩
  obtain ⟨f, k, hf⟩ := (hb.space.present_iff hlt).1 hp
  exact absurd hf (hnone f k)

/-! ## Every run -/

/-- The two operations that commit bytes, as steps of the running environment. -/
theorem SysInv.written (h : SysInv c s G) {va : Nat}
    (hstep : LifeStep s (.sys (.user (.write va b))) t) (hcur : s.curenv = some e) :
    va < userTop ∧ s.writeByte true va b = some t ∧ Acts c e s G t G := by
  cases hstep with
  | sys step =>
    cases step with
    | user running act =>
      obtain rfl := Option.some.inj (hcur.symm.trans running)
      cases act with
      | write huser hdone => exact ⟨huser, hdone, h.write hcur huser hdone⟩

theorem faulted {va : Nat} (hstep : LifeStep s (.sys (.user (.fault va))) t)
    (hcur : s.curenv = some e) : va < userTop ∧ s.present e va = false := by
  cases hstep with
  | sys step =>
    cases step with
    | user running act =>
      obtain rfl := Option.some.inj (hcur.symm.trans running)
      cases act with
      | fault huser habs hdone => exact ⟨huser, habs⟩

/-- The cells are settled bytes of live environments. -/
def Represents (s : Kernel) (m : Cells) : Prop :=
  ∀ e a b, m e a = some b → s.Live e ∧ a < userTop ∧ ¬ s.inWindow e a ∧ s.Settled e a b

theorem LifeInv.step_represents (h : LifeInv c s G) {m : Cells} {op : LifeOp}
    (hm : Represents s m) (hstep : LifeStep s op t) : Represents t (op.commits s m) := by
  intro e a b hcell
  -- a cell that was there before and is spared
  have hold : m e a = some b → op.SparesByte e a s →
      t.Live e ∧ a < userTop ∧ ¬ t.inWindow e a ∧ t.Settled e a b := by
    intro hbefore hsp
    obtain ⟨hlive, hva, hwin, hset⟩ := hm e a b hbefore
    obtain ⟨hlive', hwin', hset'⟩ := h.step_settled hstep hlive hva hwin hsp hset
    exact ⟨hlive', hva, hwin', hset'⟩
  cases op with
  | stop => exact hold hcell trivial
  | free e' =>
    by_cases heq : e = e'
    · subst heq
      rw [LifeOp.commits, Function.update_self] at hcell
      cases hcell
    · rw [LifeOp.commits, Function.update_of_ne heq] at hcell
      exact hold hcell (Ne.symm heq)
  | sys op =>
    cases op with
    | create prog n => exact hold hcell trivial
    | run e' => exact hold hcell trivial
    | select policy => exact hold hcell trivial
    | idle => exact hold hcell trivial
    | user op =>
      by_cases hcur : s.curenv = some e
      case neg =>
        rw [commits_of_not_running hcur] at hcell
        refine hold hcell ?_
        cases op with
        | write va x => exact fun hx => absurd hx hcur
        | freeMem va size => exact fun hx => absurd hx hcur
        | fault va => trivial
        | tick => trivial
        | read va => trivial
        | allocateMem va size => trivial
      case pos =>
        rw [commits_of_running hcur] at hcell
        have hlive := (h.running e hcur).1
        cases op with
        | tick => exact hold hcell trivial
        | read va => exact hold hcell trivial
        | allocateMem va size => exact hold hcell trivial
        | freeMem va size =>
          rw [UserOp.commits] at hcell
          split at hcell
          · cases hcell
          · rename_i hout
            exact hold hcell fun _ => hout
        | write va x =>
          rw [UserOp.commits] at hcell
          split at hcell
          · -- the byte that is written
            rename_i hwrite
            obtain ⟨rfl, hslot⟩ := hwrite
            cases hcell
            obtain ⟨huser, hdone, hacts⟩ := h.written hstep hcur
            obtain ⟨hwin, hset⟩ := h.write_settled hcur huser hslot hdone
            refine ⟨?_, huser, hwin, hset⟩
            rw [Kernel.Live, hacts.run.envFreeList]
            exact hlive
          · rename_i hno
            refine hold hcell fun _ heq => ?_
            subst heq
            exact hno ⟨rfl, (hm e va b hcell).2.2.2.slot⟩
        | fault va =>
          rw [UserOp.commits] at hcell
          split at hcell
          · -- the page is in the page file alone
            rename_i hpage
            obtain ⟨huser, habs⟩ := faulted hstep hcur
            obtain ⟨hva, hwin, hset⟩ := (h.current hcur).base.file_settled huser habs hpage hcell
            obtain ⟨hlive', hwin', hset'⟩ := h.step_settled hstep hlive hva hwin trivial hset
            exact ⟨hlive', hva, hwin', hset'⟩
          · exact hold hcell trivial

theorem FlatRun.inv {m : Cells} (h : FlatRun c s m) : ∃ G, LifeInv c s G ∧ Represents s m := by
  induction h with
  | boot =>
    obtain ⟨G, hinv, -⟩ := (LifeRun.boot (c := c)).inv
    exact ⟨G, hinv, fun _ _ _ hx => nomatch hx⟩
  | step _ next ih =>
    obtain ⟨G, hinv, hm⟩ := ih
    obtain ⟨H, hinv', -⟩ := hinv.step next
    exact ⟨H, hinv', hinv.step_represents hm next⟩

section Mapped

variable (h : SysInv c s G) (hcur : s.curenv = some e) (hva : a < userTop) {f : Nat}
  (hf : G.own f = some ⟨e, .page (roundDown a 4096)⟩)
include h hcur hva hf

end Mapped

end FosMemory
