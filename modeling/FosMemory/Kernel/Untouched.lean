import FosMemory.Kernel.System

/-!
# Untouched — steps that leave a working set alone

Whatever another environment does, and whatever the kernel does for no environment, the elements of
`e`, its hand and the entries of its pages stay as they are.  `SysInv.step_live` splits the steps of
the system into these and the steps `e` makes itself.
-/

namespace FosMemory

open Lib

variable {c : Boot} {s t u : Kernel} {G H I : Ghost} {e : Nat}

/-! ## Elements and entries -/

/-- Elements and hand of `e` are as they were. -/
structure Steady (e : Nat) (s t : Kernel) : Prop where
  size : t.wsMax e = s.wsMax e
  last : (t.envs e).pageLastWSIndex = (s.envs e).pageLastWSIndex
  page : ∀ i < s.wsMax e, t.wsPage e i = s.wsPage e i

/-- So are time stamps and entries. -/
structure Untouched (e : Nat) (s t : Kernel) : Prop extends Steady e s t where
  stamp : ∀ i < s.wsMax e, t.wsStamp e i = s.wsStamp e i
  pte : ∀ i < s.wsMax e, ∀ v, s.wsPage e i = some v → t.pteWord e v = s.pteWord e v

theorem Steady.refl (e : Nat) (s : Kernel) : Steady e s s :=
  ⟨rfl, rfl, fun _ _ => rfl⟩

theorem Steady.trans (h : Steady e s t) (h' : Steady e t u) : Steady e s u :=
  ⟨h'.size.trans h.size, h'.last.trans h.last, fun i hi =>
    (h'.page i (by rw [h.size]; exact hi)).trans (h.page i hi)⟩

theorem Untouched.refl (e : Nat) (s : Kernel) : Untouched e s s :=
  ⟨Steady.refl e s, fun _ _ => rfl, fun _ _ _ _ => rfl⟩

/-- An array with the same words. -/
theorem SameWs.steady (h : SameWs e s t) (hsize : t.wsMax e = s.wsMax e)
    (hlast : (t.envs e).pageLastWSIndex = (s.envs e).pageLastWSIndex) : Steady e s t :=
  ⟨hsize, hlast, fun _ hi => h.page hi⟩

theorem SameWs.untouched (h : SameWs e s t) (hsize : t.wsMax e = s.wsMax e)
    (hlast : (t.envs e).pageLastWSIndex = (s.envs e).pageLastWSIndex)
    (hpte : ∀ i < s.wsMax e, ∀ v, s.wsPage e i = some v → t.pteWord e v = s.pteWord e v) :
    Untouched e s t :=
  ⟨h.steady hsize hlast, fun _ hi => h.stamp hi, hpte⟩

/-! ## Other environments -/

/-- The entries of an environment that is not at work. -/
theorem Space.pteWord_of_local {e' v f : Nat} {b : Bool} (hs : Space c s G e)
    (hst : Local e' s G t H) (hne : e ≠ e') (hv : G.Target e v f b) :
    t.pteWord e v = s.pteWord e v := by
  obtain ⟨-, -, tb, htb, -⟩ := hs.target v f b hv
  have hk := hst.keeps e hne
  have hdir : t.dirFrame e = s.dirFrame e := by
    rw [Kernel.dirFrame, hst.envs e hne]
    rfl
  rw [Kernel.pteWord, Kernel.pteWord, hdir, hk.mem _ .dir rfl hs.dir_own,
    (hs.table tb _ htb).2.frame_eq, hk.mem tb _ rfl htb]

theorem Alive.untouched {e' : Nat} (h : Alive c s G e) (ho : Owned c s G) (ho' : Owned c t H)
    (hst : Local e' s G t H) (hne : e ≠ e') : Untouched e s t := by
  have hbase := h.base.of_local hst hne
  have henv := hst.envs e hne
  have hws : SameWs e s t :=
    SameWs.of_keeps h.base.array hbase.array ho ho' (hst.keeps e hne) fun _ => rfl
  refine hws.untouched (by rw [Kernel.wsMax, henv]) (by rw [henv]) fun i hi v hv => ?_
  obtain ⟨f, hf⟩ := h.entries.page i hi v hv
  exact h.base.space.pteWord_of_local hst hne (b := false) hf

/-! ## Operations of the environment itself -/

/-- Reads and the window: the array is not written. -/
theorem WalkOnly.steady (h : WalkOnly c e s G t) (ho : Owned c s G) (hb : Base c s G e)
    (hd : DiskFrames s G) : Steady e s t :=
  (h.sameWs ho hb hd).steady (h.envStep ho hb hd).env.pageWSMaxSize (by rw [h.rest.envs])

theorem PageSet.steady {v f : Nat} {page : Nat → Word} {w : Word} (h : PageSet c e v f page w s G t)
    (hf : G.own f = some ⟨e, .page v⟩) (ho : Owned c s G) (hb : Base c s G e)
    (hd : DiskFrames s G) : Steady e s t :=
  (h.sameWs hf ho hb hd).steady (h.envStep hf ho hb hd).env.pageWSMaxSize (by rw [h.rest.envs])

theorem Aged.steady (h : Aged c e s G t) : Steady e s t :=
  ⟨h.step.env.pageWSMaxSize, h.last, fun _ hi => h.page hi⟩

theorem Listed.untouched {va n : Nat} (h : Listed c e va n s G t H) (ho : Owned c s G)
    (ha : Alive c s G e) : Untouched e s t := by
  have hws := h.filed.sameWs ha.base ho
  refine hws.untouched (h.filed.envStep ha.base h.ddir).env.pageWSMaxSize h.filed.last ?_
  intro i hi v hv
  obtain ⟨f, hf⟩ := ha.entries.page i hi v hv
  exact h.filed.pteWord ha.base.space (b := false) hf

/-- A fault at an address without a page table only creates the table. -/
theorem Still.untouched {k : Nat} (h : Still c e k s G t H) (hent : Entries s G e) :
    Untouched e s t := by
  refine h.ws.untouched h.step.env.pageWSMaxSize h.last fun i hi v hv => ?_
  obtain ⟨f, hf⟩ := hent.page i hi v hv
  exact h.pte v f hf

/-! ## Steps of the system -/

/-- A live environment stays alive; unless it is running and acts itself it is left untouched. -/
theorem SysInv.step_live (h : SysInv c s G) (hlive : s.Live e) {op : SysOp}
    (hstep : SysStep s op t) : ∃ H, SysInv c t H ∧ t.Live e ∧
      ((Untouched e s t ∧ ∀ act, op = .user act → s.curenv ≠ some e) ∨
        ∃ act, op = .user act ∧ s.curenv = some e ∧ UserStep s e act t) := by
  cases hstep with
  | @create _ _ e' _ hn hwrap hprog hdone =>
    obtain ⟨hmem, H, hcr⟩ := h.created hn hwrap hprog hdone
    have hne : e ≠ e' := by
      rintro rfl
      exact hlive.2 hmem
    have hlt := (h.unused e' hmem).1
    exact ⟨H, h.create hmem hcr, (hcr.live h.nodup hlt e).2 (.inr hlive),
      .inl ⟨(h.alive e hlive).untouched h.owned hcr.owned hcr.others hne, fun _ hx => by cases hx⟩⟩
  | run hlive' =>
    refine ⟨G, h.envRun hlive', ?_, .inl ⟨?_, fun _ hx => by cases hx⟩⟩
    · rw [FosMemory.envRun]
      split <;> exact hlive
    · rw [FosMemory.envRun]
      split
      · exact Untouched.refl e s
      · exact ⟨⟨rfl, rfl, fun _ _ => rfl⟩, fun _ _ => rfl, fun _ _ _ _ => rfl⟩
  | select policy =>
    exact ⟨G, h.select policy, hlive,
      .inl ⟨⟨⟨rfl, rfl, fun _ _ => rfl⟩, fun _ _ => rfl, fun _ _ _ _ => rfl⟩,
        fun _ hx => by cases hx⟩⟩
  | @user e' act _ hcur hact =>
    obtain ⟨H, ha⟩ := h.userStep hcur hact
    have hlist : t.envFreeList = s.envFreeList := ha.run.envFreeList
    refine ⟨H, h.acts (h.running _ hcur).1 ha, ⟨hlive.1, by rw [hlist]; exact hlive.2⟩, ?_⟩
    by_cases heq : e' = e
    · subst heq
      exact .inr ⟨act, rfl, hcur, hact⟩
    · refine .inl ⟨(h.alive e hlive).untouched h.owned ha.owned ha.others (Ne.symm heq), ?_⟩
      rintro _ - hx
      rw [hcur] at hx
      exact heq (Option.some.inj hx)
  | idle hnone hdone =>
    rw [onTrap_idle hnone] at hdone
    cases hdone
    exact ⟨G, h, hlive, .inl ⟨Untouched.refl e s, fun _ hx => by cases hx⟩⟩

end FosMemory
