import FosMemory.Kernel.LifeCycle
import FosMemory.Kernel.FrameResults

/-!
# Isolation — whose a frame is

In every state of every run a frame is free, reserved, lost by an `env_free`, or serves exactly one
environment in exactly one way.  So environments do not share memory, and what one of them does
another one does not see.
-/

namespace FosMemory

open Lib

variable {c : Boot} {s t u : Kernel} {G H I : Ghost} {e : Nat} {lost : Nat → Prop}

/-! ## Frames of an environment -/

/-- Frame `f` is the page directory of `e`, one of its page tables, its disk directory or one of its
disk tables. -/
inductive Kernel.WalkFrame (s : Kernel) (e : Nat) : Nat → Prop
  | dir : WalkFrame s e (s.dirFrame e)
  | table {i : Nat} (user : i < 955) (used : s.mem (s.dirFrame e) i ≠ 0#32) :
      WalkFrame s e (s.mem (s.dirFrame e) i).frame
  | diskDir {f : Nat} (pointer : s.virtualAddresses f = (s.envs e).diskEnvPgdir) : WalkFrame s e f
  | diskTable {f i : Nat} (pointer : s.virtualAddresses f = (s.envs e).diskEnvPgdir)
      (user : i < 955) (used : s.mem f i ≠ 0#32) : WalkFrame s e (s.mem f i).frame

/-- Frame `f` serves `e`: it is part of the walk, or the processor finds it at an address of the
user half.  The working set array is there too, in the window. -/
def Kernel.FrameOf (s : Kernel) (e f : Nat) : Prop :=
  s.WalkFrame e f ∨ ∃ va < userTop, s.present e va = true ∧ (s.pteWord e va).frame = f

/-- The disk directory of a live environment has one frame. -/
theorem Alive.diskDir_iff (ha : Alive c s G e) (ho : Owned c s G) {f : Nat} :
    s.virtualAddresses f = (s.envs e).diskEnvPgdir ↔ G.own f = some ⟨e, .ddir⟩ := by
  constructor
  · intro hf
    obtain ⟨g, hg⟩ := ha.base.slots.dir_exists ha.ddir
    have hva := ha.base.slots.dir_at g hg
    have hfg : f = g :=
      ho.inv.map.virtualAddresses_inj (by rw [hf]; exact ha.ddir) (hf.trans hva.symm)
    rw [hfg]
    exact hg
  · exact ha.base.slots.dir_at f

theorem Alive.walkFrame_iff (ha : Alive c s G e) (ho : Owned c s G) {f : Nat} :
    s.WalkFrame e f ↔ ∃ r, r.isTable = true ∧ G.own f = some ⟨e, r⟩ := by
  have hs := ha.base.space
  have hd := ha.base.slots
  constructor
  · intro hf
    cases hf with
    | dir => exact ⟨.dir, rfl, hs.dir_own⟩
    | @table i user used =>
      obtain ⟨tb, hn, htb⟩ := (hs.pde i user).resolve_left used
      rw [hn.frame_eq]
      exact ⟨_, rfl, htb⟩
    | diskDir pointer => exact ⟨.ddir, rfl, (ha.diskDir_iff ho).1 pointer⟩
    | @diskTable g i pointer user used =>
      obtain ⟨tb, hn, htb⟩ :=
        (hd.pde g ((ha.diskDir_iff ho).1 pointer) i user).resolve_left used
      rw [hn.frame_eq]
      exact ⟨_, rfl, htb⟩
  · rintro ⟨r, hr, hf⟩
    cases r with
    | dir =>
      rw [hs.dir_unique f hf]
      exact .dir
    | table i =>
      obtain ⟨hi, hn⟩ := hs.table f i hf
      rw [← hn.frame_eq]
      exact .table hi hn.ne_zero
    | ddir => exact .diskDir ((ha.diskDir_iff ho).2 hf)
    | dtable i =>
      obtain ⟨hi, g, hg, hn⟩ := hd.table f i hf
      rw [← hn.frame_eq]
      exact .diskTable ((ha.diskDir_iff ho).2 hg) hi (names_present_ne_zero hn)
    | ws _ => cases hr
    | page _ => cases hr
    | held => cases hr

/-- What the processor finds at an address of the user half. -/
theorem Alive.mapped_iff (ha : Alive c s G e) {va f : Nat} (hva : va < userTop) :
    (s.present e va = true ∧ (s.pteWord e va).frame = f) ↔
      ∃ b, G.Target e (roundDown va 4096) f b := by
  have hs := ha.base.space
  constructor
  · rintro ⟨hp, rfl⟩
    obtain ⟨g, b, ht⟩ := (hs.present_iff hva).1 hp
    obtain ⟨-, -, tb, htb, hentry⟩ := hs.target _ g b ht
    rw [← pteWord_roundDown, hs.pteWord_eq htb, entryFor_frame hentry]
    exact ⟨b, ht⟩
  · rintro ⟨b, ht⟩
    obtain ⟨-, -, tb, htb, hentry⟩ := hs.target _ f b ht
    refine ⟨(hs.present_iff hva).2 ⟨f, b, ht⟩, ?_⟩
    rw [← pteWord_roundDown, hs.pteWord_eq htb, entryFor_frame hentry]

/-- The frames of a live environment are those the record gives it. -/
theorem Alive.frameOf_iff (ha : Alive c s G e) (ho : Owned c s G) (hno : NoHeld G) {f : Nat} :
    s.FrameOf e f ↔ ∃ r, G.own f = some ⟨e, r⟩ := by
  constructor
  · rintro (hw | ⟨va, hva, hmap⟩)
    · obtain ⟨r, -, hf⟩ := (ha.walkFrame_iff ho).1 hw
      exact ⟨r, hf⟩
    · obtain ⟨b, ht⟩ := (ha.mapped_iff hva).1 hmap
      cases b with
      | false => exact ⟨_, ht⟩
      | true =>
        obtain ⟨k, hk, -⟩ := ht
        exact ⟨_, hk⟩
  · rintro ⟨r, hf⟩
    cases r with
    | dir => exact .inl ((ha.walkFrame_iff ho).2 ⟨_, rfl, hf⟩)
    | table i => exact .inl ((ha.walkFrame_iff ho).2 ⟨_, rfl, hf⟩)
    | ddir => exact .inl ((ha.walkFrame_iff ho).2 ⟨_, rfl, hf⟩)
    | dtable i => exact .inl ((ha.walkFrame_iff ho).2 ⟨_, rfl, hf⟩)
    | ws k => exact .inr ⟨_, ha.window_page hf⟩
    | page v =>
      obtain ⟨hal, hlt, -⟩ := ha.base.space.target _ f false hf
      refine .inr ⟨v, hlt, (ha.mapped_iff hlt).2 ⟨false, ?_⟩⟩
      rw [roundDown_eq hal]
      exact hf
    | held => exact absurd hf (hno f e)

/-- Every owner is a live environment. -/
theorem LifeInv.live_of_own (h : LifeInv c s G) {f : Nat} {r : Role} (hf : G.own f = some ⟨e, r⟩) :
    s.Live e := by
  constructor
  · by_contra hge
    exact (h.beyond e (by omega)).own f r hf
  · intro hmem
    exact (h.unused e hmem).2.1.own f r hf

/-- So is everyone with a slot. -/
theorem LifeInv.live_of_slot (h : LifeInv c s G) {v d : Nat} (hv : G.slots e v = some d) :
    s.Live e := by
  constructor
  · by_contra hge
    rw [(h.beyond e (by omega)).slots v] at hv
    cases hv
  · intro hmem
    rw [(h.unused e hmem).2.1.slots v] at hv
    cases hv

/-- The free frames, in the words of the code. -/
theorem LifeInv.free_iff (h : LifeInv c s G) (f : Nat) : f ∈ s.freeFrameList ↔
    f < c.numberOfFrames ∧ ¬ c.Reserved f ∧ ¬ G.lost f ∧ ∀ e, s.Live e → ¬ s.FrameOf e f := by
  rw [h.owned.free_iff]
  refine and_congr_right fun _ => and_congr_right fun _ => ?_
  constructor
  · rintro ⟨hnone, hl⟩
    refine ⟨hl, fun e he hf => ?_⟩
    obtain ⟨r, hr⟩ := ((h.alive e he).frameOf_iff h.owned h.held).1 hf
    rw [hnone] at hr
    cases hr
  · rintro ⟨hl, hno⟩
    refine ⟨?_, hl⟩
    cases hf : G.own f with
    | none => rfl
    | some o =>
      obtain ⟨e, r⟩ := o
      have he := h.live_of_own hf
      exact absurd (((h.alive e he).frameOf_iff h.owned h.held).2 ⟨r, hf⟩) (hno e he)

/-- The lookup of `pf_read_env_page` finds the slots of the record. -/
theorem Alive.pfLookup_iff (ha : Alive c s G e) (ho : Owned c s G) (hd : DiskFrames s G)
    {va d : Nat} (hva : va < userTop) :
    (pfLookup s e va = .ok d ∧ d ≠ 0) ↔ G.slots e (roundDown va 4096) = some d := by
  rw [ha.base.slots.pfLookup_eq ho hd ha.ddir hva]
  cases hs : G.slots e (roundDown va 4096) with
  | none =>
    simp only [Option.getD_none, Except.ok.injEq, reduceCtorEq, iff_false, not_and, not_not]
    exact fun hx => hx.symm
  | some d' =>
    have hpos := (hd.range _ _ _ hs).1
    simp only [Option.getD_some, Except.ok.injEq, Option.some.injEq]
    constructor
    · exact fun hx => hx.1
    · rintro rfl
      exact ⟨rfl, by omega⟩

/-! ## Environments that are not at work -/

/-- Everything of `e` is as it was. -/
structure Kept (e : Nat) (s : Kernel) (G : Ghost) (t : Kernel) (H : Ghost) : Prop where
  keeps : Keeps e (fun _ => true) s G t H
  win : H.win e = G.win e
  slots : H.slots e = G.slots e
  env : t.envs e = s.envs e
  disk : ∀ v d, G.slots e v = some d → t.disk d = s.disk d

theorem Kept.refl (e : Nat) (s : Kernel) (G : Ghost) : Kept e s G s G :=
  ⟨Keeps.refl e _ s G, rfl, rfl, rfl, fun _ _ _ => rfl⟩

theorem Kept.trans (h : Kept e s G t H) (h' : Kept e t H u I) : Kept e s G u I where
  keeps := h.keeps.trans h'.keeps
  win := h'.win.trans h.win
  slots := h'.slots.trans h.slots
  env := h'.env.trans h.env
  disk := fun v d hd => (h'.disk v d (by rw [h.slots]; exact hd)).trans (h.disk v d hd)

theorem Kept.of_local {e' : Nat} (h : Local e s G t H) (hne : e' ≠ e) : Kept e' s G t H :=
  ⟨h.keeps e' hne, h.win e' hne, h.slots e' hne, h.envs e' hne, fun v d hd => h.disk e' v d hne hd⟩

/-- What environment `e` has, as the processor, the kernel and the page file see it. -/
structure SameView (e : Nat) (s t : Kernel) : Prop where
  env : t.envs e = s.envs e
  present : ∀ va < userTop, t.present e va = s.present e va
  page : ∀ va < userTop, s.present e va = true → t.pteWord e va = s.pteWord e va ∧
    t.mem (s.pteWord e va).frame = s.mem (s.pteWord e va).frame
  file : ∀ va < userTop, pfLookup t e va = pfLookup s e va
  disk : ∀ va d, va < userTop → pfLookup s e va = .ok d → d ≠ 0 → t.disk d = s.disk d

section Kept

variable (h : Kept e s G t H)
include h

theorem Kept.target_iff {v f : Nat} {b : Bool} : H.Target e v f b ↔ G.Target e v f b :=
  Ghost.Target.congr (fun f r _ => h.keeps.own f r rfl) h.win

variable (ha : Alive c s G e) (ho : Owned c s G) (ha' : Alive c t H e) (ho' : Owned c t H)
include ha ha'

theorem Kept.present_eq {va : Nat} (hva : va < userTop) : t.present e va = s.present e va := by
  rw [Bool.eq_iff_iff, ha'.base.space.present_iff hva, ha.base.space.present_iff hva]
  exact exists_congr fun f => exists_congr fun b => h.target_iff

theorem Kept.pteWord_eq {va : Nat} (hva : va < userTop) (hp : s.present e va = true) :
    t.pteWord e va = s.pteWord e va := by
  obtain ⟨f, b, ht⟩ := (ha.base.space.present_iff hva).1 hp
  obtain ⟨-, -, tb, htb, -⟩ := ha.base.space.target _ f b ht
  rw [← pteWord_roundDown t, ← pteWord_roundDown s, ha.base.space.pteWord_eq htb,
    ha'.base.space.pteWord_eq ((h.keeps.own tb _ rfl).2 htb), h.keeps.mem tb _ rfl htb]

include ho ho'

/-- The walk of an environment that keeps everything. -/
theorem Kept.frameOf_iff (hno : NoHeld G) (hno' : NoHeld H) {f : Nat} :
    t.FrameOf e f ↔ s.FrameOf e f := by
  rw [ha'.frameOf_iff ho' hno', ha.frameOf_iff ho hno]
  exact exists_congr fun r => h.keeps.own f r rfl

theorem Kept.view (hd : DiskFrames s G) (hd' : DiskFrames t H) : SameView e s t := by
  have hfile : ∀ va < userTop, pfLookup t e va = pfLookup s e va := by
    intro va hva
    rw [ha'.base.slots.pfLookup_eq ho' hd' ha'.ddir hva,
      ha.base.slots.pfLookup_eq ho hd ha.ddir hva, h.slots]
  refine ⟨h.env, fun va hva => h.present_eq ha ha' hva, fun va hva hp => ⟨?_, ?_⟩, hfile,
    fun va d hva hlook hne => ?_⟩
  · exact h.pteWord_eq ha ha' hva hp
  · obtain ⟨b, ht⟩ := (ha.mapped_iff hva).1 ⟨hp, rfl⟩
    cases b with
    | false => exact h.keeps.mem _ _ rfl ht
    | true =>
      obtain ⟨k, hk, -⟩ := ht
      exact h.keeps.mem _ _ rfl hk
  · exact h.disk _ d ((ha.pfLookup_iff ho hd hva).1 ⟨hlook, hne⟩)

end Kept

/-! ## Paths -/

/-- The operation is one of environment `e`, or frees it. -/
def LifeOp.By (s : Kernel) (e : Nat) : LifeOp → Prop
  | .sys (.user _) => s.curenv = some e
  | .free e' => e' = e
  | .sys (.create _ _) | .sys (.run _) | .sys (.select _) | .sys .idle | .stop => False

/-- Runs from `s` whose steps satisfy `P`, with the frames lost on the way. -/
inductive LifePath (P : Kernel → LifeOp → Prop) (s : Kernel) : Kernel → (Nat → Prop) → Prop
  | refl : LifePath P s s fun _ => False
  | step {t u : Kernel} {lost : Nat → Prop} {op : LifeOp} (path : LifePath P s t lost)
      (ok : P t op) (next : LifeStep t op u) : LifePath P s u fun f => lost f ∨ op.Loses t f

/-- A step leaves every environment alone but the one that acts. -/
theorem LifeInv.step_kept (h : LifeInv c s G) {op : LifeOp} (hstep : LifeStep s op t) :
    ∃ H, LifeInv c t H ∧ (∀ f, H.lost f ↔ G.lost f ∨ op.Loses s f) ∧
      ∀ e, s.Live e → ¬ op.By s e → t.Live e ∧ Kept e s G t H := by
  cases hstep with
  | sys step =>
    cases step with
    | create hn hwrap hprog hdone =>
      obtain ⟨hmem, H, hcr⟩ := h.created hn hwrap hprog hdone
      have hlt := (h.unused _ hmem).1
      refine ⟨H, ⟨h.create hmem hcr, h.beyond_of_local hlt hcr.others⟩, fun f => ?_,
        fun e he _ => ⟨(hcr.live h.nodup hlt e).2 (.inr he), Kept.of_local hcr.others ?_⟩⟩
      · rw [hcr.lost]
        exact (or_iff_left id).symm
      · rintro rfl
        exact he.2 hmem
    | @run e₀ live =>
      refine ⟨G, ⟨h.envRun live, h.beyond⟩, fun f => (or_iff_left id).symm, fun e he _ => ?_⟩
      rw [envRun]
      split
      · exact ⟨he, Kept.refl e s G⟩
      · exact ⟨he, Kept.of_local (Local.withRun (e + 1) s G) (by omega)⟩
    | select policy =>
      exact ⟨G, ⟨h.select policy, h.beyond⟩, fun f => (or_iff_left id).symm,
        fun e he _ => ⟨he, Kept.of_local (Local.withRun (e + 1) s G) (by omega)⟩⟩
    | @user e₀ op t running act =>
      obtain ⟨H, ha⟩ := h.userStep running act
      have hlive := (h.running _ running).1
      refine ⟨H, ⟨h.acts hlive ha, h.beyond_of_local hlive.1 ha.others⟩, fun f => ?_,
        fun e he hby => ⟨?_, Kept.of_local ha.others ?_⟩⟩
      · rw [ha.lost]
        exact (or_iff_left id).symm
      · rw [Kernel.Live, ha.run.envFreeList]
        exact he
      · rintro rfl
        exact hby running
    | idle nobody done =>
      rw [onTrap_idle nobody] at done
      cases done
      exact ⟨G, h, fun f => (or_iff_left id).symm, fun e he _ => ⟨he, Kept.refl e s G⟩⟩
  | stop =>
    exact ⟨G, h.stop, fun f => (or_iff_left id).symm,
      fun e he _ => ⟨he, Kept.of_local (Local.withRun (e + 1) s G) (by omega)⟩⟩
  | @free e₀ t live idle done =>
    obtain ⟨t', H, hdone, hfree⟩ := h.envFree_spec live
    rw [done] at hdone
    cases hdone
    refine ⟨H, h.destroyed live idle hfree, fun f => ?_, fun e he hby => ?_⟩
    · rw [hfree.lost]
      exact or_congr_right (h.alive _ live).mislaid_iff.symm
    · have hne : e ≠ e₀ := fun heq => hby heq.symm
      exact ⟨(hfree.live e).2 ⟨he, hne⟩, Kept.of_local hfree.others hne⟩

/-- Along a path the environments that do not act keep everything. -/
theorem LifeInv.path_kept {P : Kernel → LifeOp → Prop} (h : LifeInv c s G)
    (hpath : LifePath P s t lost) :
    ∃ H, LifeInv c t H ∧ (∀ f, H.lost f ↔ G.lost f ∨ lost f) ∧
      ∀ e, s.Live e → (∀ t op, P t op → ¬ op.By t e) → t.Live e ∧ Kept e s G t H := by
  induction hpath with
  | refl => exact ⟨G, h, fun f => (or_iff_left id).symm, fun e he _ => ⟨he, Kept.refl e s G⟩⟩
  | step path ok next ih =>
    obtain ⟨H, hinv, hlost, hkept⟩ := ih
    obtain ⟨I, hinv', hlost', hkept'⟩ := hinv.step_kept next
    refine ⟨I, hinv', fun f => by rw [hlost', hlost, or_assoc], fun e he haway => ?_⟩
    obtain ⟨hl, hk⟩ := hkept e he haway
    obtain ⟨hl', hk'⟩ := hkept' e hl (haway _ _ ok)
    exact ⟨hl', hk.trans hk'⟩

/-! ## Every frame is accounted for -/

theorem FirstRun.present {n : Nat} {prog : UserProgram} {p : PageRepAlgo}
    (h : FirstRun c n prog p t H u) : u.present 0 stackPage = true := by
  have ha := h.inv.current h.curenv
  obtain ⟨f, hf⟩ := (h.created.pages stackPage).2
    (List.mem_append_right _ (List.mem_singleton_self stackPage))
  refine ((ha.mapped_iff (f := f) (by decide)).2 ⟨false, ?_⟩).1
  rw [roundDown_eq (by decide)]
  exact hf

/-- A run of `smallBoot` that ends with environment 0 running. -/
theorem exists_firstRun : ∃ u, LifeRun smallBoot u (fun _ => False) ∧ u.Live 0 ∧
    u.curenv = some 0 ∧ u.present 0 stackPage = true := by
  have hframes : 7 + 0 ≤ smallBoot.freeFrameList.length := by
    rw [smallBoot_frames]
    decide
  obtain ⟨t, H, u, hfirst, -⟩ := smallBoot.run_bare (Nat.le_refl 1) (by decide) hframes (by decide)
    .fifo
  exact ⟨u, hfirst.run.life, (hfirst.inv.running 0 hfirst.curenv).1, hfirst.curenv, hfirst.present⟩

theorem Destroyed.free_iff (h : Destroyed c e s G t H) (ho : Owned c s G) {f : Nat} :
    f ∈ t.freeFrameList ↔ f ∈ s.freeFrameList ∨ (∃ r, G.own f = some ⟨e, r⟩) ∧
      ¬ ∃ v, G.own f = some ⟨e, .page v⟩ ∧ BesideWindow (s.windowTables e) v := by
  have hown : ∀ e' r, H.own f = some ⟨e', r⟩ ↔ e' ≠ e ∧ G.own f = some ⟨e', r⟩ := by
    intro e' r
    by_cases he : e' = e
    · subst he
      exact ⟨fun hx => absurd hx (h.unused.own f r), fun hx => absurd rfl hx.1⟩
    · rw [(h.others.keeps e' he).own f r rfl]
      exact ⟨fun hx => ⟨he, hx⟩, fun hx => hx.2⟩
  rw [h.owned.free_iff, ho.free_iff, h.lost]
  constructor
  · rintro ⟨hlt, hres, hnone, hl⟩
    cases hf : G.own f with
    | none => exact .inl ⟨hlt, hres, rfl, fun hx => hl (.inl hx)⟩
    | some o =>
      obtain ⟨e', r⟩ := o
      have he : e' = e := by
        by_contra hne
        rw [(hown e' r).2 ⟨hne, hf⟩] at hnone
        cases hnone
      subst he
      refine .inr ⟨⟨r, rfl⟩, fun hx => hl (.inr ?_)⟩
      rw [hf]
      exact hx
  · rintro (⟨hlt, hres, hnone, hl⟩ | ⟨⟨r, hf⟩, hl⟩)
    · refine ⟨hlt, hres, ?_, ?_⟩
      · cases hf : H.own f with
        | none => rfl
        | some o =>
          rw [((hown o.env o.role).1 hf).2] at hnone
          cases hnone
      · rintro (hx | ⟨v, hf, -⟩)
        · exact hl hx
        · rw [hnone] at hf
          cases hf
    · obtain ⟨hlt, hres, hl'⟩ := ho.in_ram f (by simp [hf])
      refine ⟨hlt, hres, ?_, not_or.2 ⟨hl', hl⟩⟩
      cases hf' : H.own f with
      | none => rfl
      | some o =>
        obtain ⟨hne, hx⟩ := (hown o.env o.role).1 hf'
        rw [hf] at hx
        cases hx
        exact absurd rfl hne

theorem Destroyed.diskFree_iff (h : Destroyed c e s G t H) (hd : DiskFrames s G) {d : Nat} :
    d ∈ t.diskFreeFrameList ↔ d ∈ s.diskFreeFrameList ∨ ∃ v, G.slots e v = some d := by
  rw [h.frames.free_iff, hd.free_iff]
  constructor
  · rintro ⟨hpos, hlt, hno⟩
    by_cases hex : ∃ v, G.slots e v = some d
    · exact .inr hex
    · refine .inl ⟨hpos, hlt, fun e' v hv => ?_⟩
      by_cases he : e' = e
      · subst he
        exact hex ⟨v, hv⟩
      · refine hno e' v ?_
        rw [h.others.slots e' he]
        exact hv
  · rintro (⟨hpos, hlt, hno⟩ | ⟨v, hv⟩)
    · refine ⟨hpos, hlt, fun e' v hv => ?_⟩
      by_cases he : e' = e
      · subst he
        rw [h.unused.slots v] at hv
        cases hv
      · rw [h.others.slots e' he] at hv
        exact hno e' v hv
    · obtain ⟨hpos, hlt⟩ := hd.range e v d hv
      refine ⟨hpos, hlt, fun e' v' hv' => ?_⟩
      by_cases he : e' = e
      · subst he
        rw [h.unused.slots v'] at hv'
        cases hv'
      · rw [h.others.slots e' he] at hv'
        exact he (hd.inj e' v' e v d hv' hv).1

/-- The slots of a live environment, in the words of the code. -/
theorem LifeInv.slots_iff (h : LifeInv c s G) (he : s.Live e) {d : Nat} :
    (∃ v, G.slots e v = some d) ↔ ∃ va < userTop, pfLookup s e va = .ok d ∧ d ≠ 0 := by
  have ha := h.alive e he
  constructor
  · rintro ⟨v, hv⟩
    obtain ⟨hal, hlt, -⟩ := ha.base.slots.slot v d hv
    refine ⟨v, hlt, (ha.pfLookup_iff h.owned h.frames hlt).2 ?_⟩
    rw [roundDown_eq hal]
    exact hv
  · rintro ⟨va, hva, hlook⟩
    exact ⟨_, (ha.pfLookup_iff h.owned h.frames hva).1 hlook⟩

/-- `env_free` gives back exactly the frames of the environment, those of pages that share a page
table with the window apart, and exactly its disk frames; nobody else notices. -/
theorem LifeRun.envFree_exact (h : LifeRun c s lost) (he : s.Live e) :
    ∃ t, envFree s e = .ok t ∧ t.envFreeList = e :: s.envFreeList ∧
      (∀ f, f ∈ t.freeFrameList ↔ f ∈ s.freeFrameList ∨ s.FrameOf e f ∧ ¬ s.Mislaid e f) ∧
      (∀ d, d ∈ t.diskFreeFrameList ↔ d ∈ s.diskFreeFrameList ∨
        ∃ va < userTop, pfLookup s e va = .ok d ∧ d ≠ 0) ∧
      ∀ e', s.Live e' → e' ≠ e → t.Live e' ∧ SameView e' s t := by
  obtain ⟨G, hinv, -⟩ := h.inv
  have ha := hinv.alive e he
  obtain ⟨t, H, hdone, hfree⟩ := hinv.envFree_spec he
  refine ⟨t, hdone, hfree.envFreeList, fun f => ?_, fun d => ?_, fun e' he' hne => ?_⟩
  · rw [hfree.free_iff hinv.owned, ha.frameOf_iff hinv.owned hinv.held, ha.mislaid_iff]
  · rw [hfree.diskFree_iff hinv.frames, hinv.slots_iff he]
  · have ha' := (hinv.alive e' he').of_local hinv.owned hfree.owned hfree.others hne
    exact ⟨(hfree.live e').2 ⟨he', hne⟩, (Kept.of_local hfree.others hne).view (hinv.alive e' he')
      hinv.owned ha' hfree.owned hinv.frames hfree.frames⟩

theorem envFree_exact_first : ∃ u t, u.Live 0 ∧ envFree u 0 = .ok t ∧
    t.envFreeList = 0 :: u.envFreeList := by
  obtain ⟨u, hrun, hlive, -, -⟩ := exists_firstRun
  obtain ⟨t, hdone, hlist, -⟩ := LifeRun.envFree_exact hrun hlive
  exact ⟨u, t, hlive, hdone, hlist⟩

/-- Along a path at whose end no more environments live than at its beginning, and in which those
have not acted, the free frames and the free disk frames are the same but for the frames that
`env_free` has lost: the life cycles of all other environments conserve memory. -/
theorem LifeRun.lifeCycles_conserve (h : LifeRun c s lost) {gone : Nat → Prop}
    (hpath : LifePath (fun u op => ∀ e, s.Live e → ¬ op.By u e) s t gone)
    (hlive : ∀ e, t.Live e → s.Live e) :
    (∀ f, f ∈ t.freeFrameList ↔ f ∈ s.freeFrameList ∧ ¬ gone f) ∧
      ∀ d, d ∈ t.diskFreeFrameList ↔ d ∈ s.diskFreeFrameList := by
  obtain ⟨G, hinv, -⟩ := h.inv
  obtain ⟨H, hinv', hlost, hall⟩ := hinv.path_kept hpath
  have hkept : ∀ e, s.Live e → t.Live e ∧ Kept e s G t H := fun e he =>
    hall e he fun _ _ hx => hx e he
  refine ⟨fun f => ?_, fun d => ?_⟩
  · have hframe : ∀ e, s.Live e → (t.FrameOf e f ↔ s.FrameOf e f) := by
      intro e he
      obtain ⟨hl, hk⟩ := hkept e he
      exact hk.frameOf_iff (hinv.alive e he) hinv.owned (hinv'.alive e hl) hinv'.owned hinv.held
        hinv'.held
    rw [hinv'.free_iff, hinv.free_iff, hlost, not_or]
    constructor
    · rintro ⟨hlt, hres, ⟨hl, hg⟩, hno⟩
      exact ⟨⟨hlt, hres, hl, fun e he hf => hno e (hkept e he).1 ((hframe e he).2 hf)⟩, hg⟩
    · rintro ⟨⟨hlt, hres, hl, hno⟩, hg⟩
      exact ⟨hlt, hres, ⟨hl, hg⟩, fun e he hf => hno e (hlive e he) ((hframe e (hlive e he)).1 hf)⟩
  · rw [hinv'.frames.free_iff, hinv.frames.free_iff]
    refine and_congr_right fun _ => and_congr_right fun _ => forall_congr' fun e => ?_
    refine forall_congr' fun v => not_congr ⟨fun hv => ?_, fun hv => ?_⟩
    · rw [← (hkept e (hlive e (hinv'.live_of_slot hv))).2.slots]
      exact hv
    · rw [(hkept e (hinv.live_of_slot hv)).2.slots]
      exact hv

/-- An environment is created and freed at once. -/
theorem lifeCycles_conserve_first : ∃ t v,
    envCreate smallBoot.state bareProgram 1 = .ok (some 0, t) ∧
    envFree t 0 = .ok v ∧ ∀ d, d ∈ v.diskFreeFrameList ↔ d ∈ smallBoot.state.diskFreeFrameList := by
  have hframes : 7 + 0 ≤ smallBoot.freeFrameList.length := by
    rw [smallBoot_frames]
    decide
  obtain ⟨t, H, _, hfirst, -⟩ := smallBoot.run_bare (Nat.le_refl 1) (by decide) hframes (by decide)
    .fifo
  have hcreate : SysStep smallBoot.state (.create bareProgram 1) t :=
    .create (Nat.le_refl 1) (by decide) (bareProgram_loadable 1) hfirst.done
  obtain ⟨G, hinv, -⟩ := (LifeRun.step (.boot (c := smallBoot)) (.sys hcreate)).inv
  obtain ⟨v, I, hdone, hfree⟩ := hinv.envFree_spec hfirst.live
  have hidle : t.curenv ≠ some 0 := by
    have hcur : smallBoot.state.curenv = none := by rw [Boot.state]
    rw [hfirst.created.curenv, hcur]
    simp
  have hboot : ∀ e, ¬ smallBoot.state.Live e := by
    rintro e ⟨hlt, hnot⟩
    have hlist : smallBoot.state.envFreeList = List.range nenv := by rw [Boot.state]
    rw [hlist] at hnot
    exact hnot (List.mem_range.2 hlt)
  have hpath := (LifePath.refl (P := fun u op => ∀ e, smallBoot.state.Live e → ¬ op.By u e)
    (s := smallBoot.state)).step (fun e he => absurd he (hboot e)) (.sys hcreate)
  have hpath' := hpath.step (fun e he => absurd he (hboot e)) (.free hfirst.live hidle hdone)
  refine ⟨t, v, hfirst.done, hdone,
    (LifeRun.lifeCycles_conserve .boot hpath' fun e he => ?_).2⟩
  obtain ⟨hl, hne⟩ := (hfree.live e).1 he
  exact ((hfirst.created.live (sysInv_boot smallBoot).nodup (by decide) e).1 hl).resolve_left hne

end FosMemory
