import FosMemory.Kernel.Place

/-!
# Handler — the fault handlers

`page_fault_handler` as a whole: it makes room and then brings the page in or refuses it.
`fault_handler` in front of it creates a page table where the directory has none.  Both are
specified for an address at which nothing is mapped, which is what a user's access to a page
outside the window raises.
-/

namespace FosMemory

open Lib

variable {c : Boot} {s t u : Kernel} {G H I : Ghost} {e : Nat}

/-! ## Present pages and the window -/

/-- The walk from the directory of `e` ends at a present entry. -/
def Kernel.present (s : Kernel) (e va : Nat) : Bool :=
  (s.mem (s.dirFrame e) (pdx va)).has permPresent && (s.pteWord e va).has permPresent

/-- `va` lies in a page of the window of `e`. -/
def Kernel.inWindow (s : Kernel) (e va : Nat) : Prop :=
  userPagesWSStart ≤ va ∧ va < userPagesWSStart + 4096 * s.wsPages e

instance (s : Kernel) (e va : Nat) : Decidable (s.inWindow e va) :=
  inferInstanceAs (Decidable (_ ∧ _))

/-- Nothing is mapped at page `v` of `e`. -/
def Absent (G : Ghost) (e v : Nat) : Prop :=
  ∀ f b, ¬ G.Target e v f b

theorem pteWord_roundDown (s : Kernel) (e va : Nat) :
    s.pteWord e (roundDown va 4096) = s.pteWord e va := by
  simp only [Kernel.pteWord, pdx_roundDown, ptx_roundDown]

theorem pteWord_congr {v : Nat} (hdir : t.dirFrame e = s.dirFrame e)
    (hmem : ∀ f, t.mem f = s.mem f) : t.pteWord e v = s.pteWord e v := by
  simp only [Kernel.pteWord, hdir, hmem]

/-- What the processor finds present is what the record has mapped. -/
theorem Space.present_iff (h : Space c s G e) {va : Nat} (hva : va < userTop) :
    s.present e va = true ↔ ∃ f b, G.Target e (roundDown va 4096) f b := by
  have hle := roundDown_le va
  constructor
  · intro hp
    simp only [Kernel.present, Bool.and_eq_true] at hp
    rcases h.lookup hva with hzero | ⟨tb, hpde, htb⟩
    · rw [hzero] at hp
      exact absurd hp.1 (by decide)
    · -- the entry is not zero, so something is mapped
      by_contra hno
      have hnone : ∀ f b, ¬ G.Target e (roundDown va 4096) f b := fun f b ht => hno ⟨f, b, ht⟩
      have htb' : G.own tb = some ⟨e, .table (pdx (roundDown va 4096))⟩ := by
        rw [pdx_roundDown]
        exact htb
      have hz := (h.pte_eq_zero_iff (roundDown_aligned va) (by omega) htb').2 hnone
      rw [← pteWord_roundDown, h.pteWord_eq htb', hz] at hp
      exact absurd hp.2 (by decide)
  · rintro ⟨f, b, ht⟩
    obtain ⟨-, -, tb, htb, hentry⟩ := h.target _ _ _ ht
    have hword := h.pteWord_eq htb
    have htb' : G.own tb = some ⟨e, .table (pdx va)⟩ := by
      rw [← pdx_roundDown]
      exact htb
    have hpde := (h.table tb _ htb').2
    simp only [Kernel.present, Bool.and_eq_true]
    constructor
    · exact Names.present (p := permUser ||| permWriteable) hpde
    · rw [← pteWord_roundDown, hword]
      exact entryFor_present hentry

/-- The pages of the window are always mapped. -/
theorem WsArray.window_iff (h : WsArray s G e) {va : Nat} :
    (∃ f, G.Target e (roundDown va 4096) f true) ↔ s.inWindow e va := by
  have hdown : roundDown va 4096 = va - va % 4096 := rfl
  constructor
  · rintro ⟨f, k, hf, -, hv⟩
    have hk := (h.at_page f k hf).1
    simp only [Kernel.inWindow, userPagesWSStart] at hv ⊢
    omega
  · rintro ⟨hlo, hhi⟩
    simp only [userPagesWSStart] at hlo hhi
    have hk : (va - 0xA0000000) / 4096 < s.wsPages e := by omega
    obtain ⟨f, hf⟩ := h.frame _ hk
    refine ⟨f, _, hf, ?_, ?_⟩
    · rw [h.win]
      exact decide_eq_true hk
    · simp only [userPagesWSStart]
      omega

theorem inWindow_congr {va : Nat} (h : SameEnv (s.envs e) (t.envs e)) :
    t.inWindow e va ↔ s.inWindow e va := by
  simp only [Kernel.inWindow, Kernel.wsPages, h.pageWSMaxSize]

/-- Outside the window a present page is one of the environment's own. -/
theorem Base.absent_iff (hb : Base c s G e) {va : Nat} :
    Absent G e (roundDown va 4096) ↔
      (∀ f, G.own f ≠ some ⟨e, .page (roundDown va 4096)⟩) ∧ ¬ s.inWindow e va := by
  constructor
  · intro h
    refine ⟨fun f hf => h f false hf, fun hw => ?_⟩
    obtain ⟨f, hf⟩ := hb.array.window_iff.2 hw
    exact h f true hf
  · rintro ⟨hpage, hwin⟩ f b ht
    cases b with
    | false => exact hpage f ht
    | true => exact hwin (hb.array.window_iff.1 ⟨f, ht⟩)

theorem Base.absent_of_present (hb : Base c s G e) {va : Nat} (hva : va < userTop)
    (hp : s.present e va = false) : Absent G e (roundDown va 4096) := by
  intro f b ht
  rw [(hb.space.present_iff hva).2 ⟨f, b, ht⟩] at hp
  cases hp

/-! ## Making room keeps absent pages absent -/

theorem Room.page_own {i v f : Nat} (h : Room c e i s G t H)
    (hf : H.own f = some ⟨e, .page v⟩) : G.own f = some ⟨e, .page v⟩ := by
  rcases h.pages with ⟨-, -, hsame⟩ | ⟨-, v₀, f₀, -, hev⟩
  · exact ((hsame v).own f).1 hf
  · by_cases hv : v = v₀
    · subst hv
      exact absurd hf (hev.gone f)
    · exact ((hev.other v hv).own f).1 hf

theorem Room.absent {i va : Nat} (h : Room c e i s G t H) (hb : Base c s G e)
    (habs : Absent G e (roundDown va 4096)) : Absent H e (roundDown va 4096) := by
  obtain ⟨hpage, hwin⟩ := hb.absent_iff.1 habs
  refine h.step.base.absent_iff.2 ⟨fun f hf => hpage f (h.page_own hf), ?_⟩
  rw [inWindow_congr h.step.env]
  exact hwin

/-- Slots are not touched while room is made. -/
theorem Room.slots {i v : Nat} (h : Room c e i s G t H) : H.slots e v = G.slots e v := by
  rcases h.pages with ⟨-, -, hsame⟩ | ⟨-, v₀, f₀, -, hev⟩
  · exact (hsame v).slot
  · by_cases hv : v = v₀
    · subst hv
      exact hev.slot
    · exact (hev.other v hv).slot

/-! ## page_fault_handler -/

/-- What a page fault at `va` has done: room was made, the page was brought in. -/
structure Faulted (c : Boot) (e va : Nat) (s : Kernel) (G : Ghost) (t : Kernel) (H : Ghost) :
    Prop where
  parts : ∃ i u I, Room c e i s G u I ∧ Brought c e (roundDown va 4096) i u I t H
  granted : G.slots e (roundDown va 4096) = none → inStackArea va

/-- A page fault that ends in the panic "NOT STACK". -/
structure Rejected (c : Boot) (e va : Nat) (s : Kernel) (G : Ghost) (t : Kernel) (H : Ghost) :
    Prop where
  parts : ∃ i u I, Room c e i s G u I ∧ Quiet c e 2 u I t H
  noSlot : G.slots e (roundDown va 4096) = none
  outside : ¬ inStackArea va

/-- How `page_fault_handler` can fail to return. -/
def StopsFault (c : Boot) (e va : Nat) (s : Kernel) (G : Ghost) (x : Stop) : Prop :=
  ¬ Enough s 5 ∨ ∃ t H, x = .panic .notStack t ∧ Rejected c e va s G t H

/-- `page_fault_handler` at an address at which nothing is mapped. -/
theorem Base.pageFaultHandler_spec (ho : Owned c s G) (hb : Base c s G e) (hd : DiskFrames s G)
    (hrun : Running s e) {va : Nat} (hva : va < userTop)
    (habs : Absent G e (roundDown va 4096)) (hent : Entries s G e) :
    Ensures (StopsFault c e va s G) (fun t => ∃ H, Faulted c e va s G t H)
      (pageFaultHandler s e va) := by
  have hroom := (hb.makeRoom_spec ho hd hent hrun.cr3).mono (F := StopsFault c e va s G)
    (fun _ hx => .inl fun hen => hx (hen.mono (by omega))) fun _ hr => hr
  rw [pageFaultHandler]
  refine hroom.bind ?_
  rintro ⟨i, u⟩ ⟨I, hroom⟩
  simp only at hroom
  have hidx : i < u.wsMax e := by
    have hsize : u.wsMax e = s.wsMax e := hroom.step.env.pageWSMaxSize
    rw [hsize]
    exact hroom.index
  have hrun' : Running u e := hrun.of_same hroom.step.run hroom.step.env
  have hplace := hroom.step.base.placePage_spec hroom.step.owned hroom.step.frames hrun' hva
    (hroom.absent hb habs) hroom.entries hidx hroom.empty
  rw [hroom.slots] at hplace
  refine hplace.mono ?_ ?_
  · rintro x (hx | ⟨t, H, rfl, href, hslot, hout⟩)
    · refine .inl fun hen => hx ?_
      exact hen.after (k := 1) (m := 4) hroom.step.spent
    · rw [hroom.slots] at hslot
      exact .inr ⟨t, H, rfl, ⟨i, u, I, hroom, href⟩, hslot, hout⟩
  · rintro t ⟨H, hbr, hgrant⟩
    exact ⟨H, ⟨i, u, I, hroom, hbr⟩, hgrant⟩

section Faulted

variable {va : Nat}

theorem Faulted.step (h : Faulted c e va s G t H) : EnvStep c e 5 s G t H := by
  obtain ⟨i, u, I, hroom, hbr⟩ := h.parts
  exact hroom.step.trans hbr.step

theorem Faulted.held (h : Faulted c e va s G t H) (hno : NoHeld G) : NoHeld H := by
  obtain ⟨i, u, I, hroom, hbr⟩ := h.parts
  exact hbr.held (hroom.held hno)

theorem Faulted.entries (h : Faulted c e va s G t H) : Entries t H e := by
  obtain ⟨i, u, I, hroom, hbr⟩ := h.parts
  exact hbr.entries

theorem Faulted.covered (h : Faulted c e va s G t H) (hcov : Covered s G e) : Covered t H e := by
  obtain ⟨i, u, I, hroom, hbr⟩ := h.parts
  exact hbr.covered (hroom.covered hcov)

theorem Rejected.step (h : Rejected c e va s G t H) : EnvStep c e 3 s G t H := by
  obtain ⟨i, u, I, hroom, href⟩ := h.parts
  exact hroom.step.trans href.step

theorem Rejected.held (h : Rejected c e va s G t H) (hno : NoHeld G) : NoHeld H := by
  obtain ⟨i, u, I, hroom, href⟩ := h.parts
  exact href.held (hroom.held hno)

theorem Quiet.entries {k : Nat} (h : Quiet c e k s G t H) (hent : Entries s G e) : Entries t H e :=
  hent.congr h.ws h.step.env.pageWSMaxSize h.last fun f v => (h.same v).own f

theorem Quiet.covered {k : Nat} (h : Quiet c e k s G t H) (hcov : Covered s G e) : Covered t H e :=
  hcov.congr h.ws h.step.env.pageWSMaxSize fun f v => (h.same v).own f

theorem Rejected.entries (h : Rejected c e va s G t H) : Entries t H e := by
  obtain ⟨i, u, I, hroom, href⟩ := h.parts
  exact href.entries hroom.entries

theorem Rejected.covered (h : Rejected c e va s G t H) (hcov : Covered s G e) :
    Covered t H e := by
  obtain ⟨i, u, I, hroom, href⟩ := h.parts
  exact href.covered (hroom.covered hcov)

end Faulted

/-! ## fault_handler -/

theorem Role.offWalk_of_inDisk {r : Role} (h : r.inDisk = true) : r.offWalk = true := by
  cases r <;> first | rfl | cases h

/-- `table_fault_handler`: the new table is empty, the pages stay as they are. -/
theorem Base.tableFault_spec (ho : Owned c s G) (hb : Base c s G e) (hd : DiskFrames s G)
    {va : Nat} (hva : va < userTop) (hzero : s.mem (s.dirFrame e) (pdx va) = 0#32) :
    Ensures (fun _ => ¬ Enough s 1) (fun r => ∃ H, Still c e 1 s G r.2 H)
      (createPageTable s (s.envs e).envPageDirectory va) := by
  refine (hb.space.createPageTable_spec ho va).imp ?_
  rintro ⟨p, t⟩ (⟨-, hr⟩ | ⟨g, hg, hnew, -⟩)
  · cases hr
    exact ⟨G, (Still.refl ho hb hd).mono (by omega)⟩
  · simp only at hnew
    obtain ⟨hmoves, hrest⟩ := hb.space.createTable ho (pdx_user hva) hzero hnew
    have hst := hmoves.envStep hb hd (fun _ => rfl) (fun r => Role.offWalk_of_inDisk) rfl hrest
    have hpte : ∀ v f, G.own f = some ⟨e, .page v⟩ → t.pteWord e v = s.pteWord e v :=
      fun v f hf => hb.space.pteWord_createTable (b := false) ho hzero hnew hf
    refine ⟨_, ⟨hst, ?_, ?_, by rw [hrest.envs], ?_, hrest.diskFreeFrameList⟩, hpte⟩
    · intro hno
      exact hno.of_iff fun f e' hf => by
        rcases Ghost.setOwn_eq_some.1 hf with ⟨-, hx⟩ | ⟨-, hx⟩
        · cases hx
        · exact hx
    · exact SameWs.of_keeps hb.array hst.base.array ho hst.owned hmoves.keeps fun _ => rfl
    · intro v
      refine ⟨fun f => hmoves.keeps.own f _ rfl, fun f hf => hmoves.keeps.mem f _ rfl hf,
        fun f hf => by rw [hpte v f hf], rfl, fun d _ => by rw [hrest.disk]⟩

/-- What `fault_handler` does at an address at which nothing is mapped: it creates the page table,
or it handles a page fault. -/
theorem Base.faultHandler_spec (ho : Owned c s G) (hb : Base c s G e) (hd : DiskFrames s G)
    (hrun : Running s e) {va : Nat} (hva : va < userTop)
    (habs : Absent G e (roundDown va 4096)) (hent : Entries s G e) :
    Ensures (StopsFault c e va s G)
      (fun t => ∃ H, Still c e 1 s G t H ∨ Faulted c e va s G t H) (faultHandler s e va) := by
  rw [faultHandler, load_pde ho.inv.map (hb.space.dirAt ho) va, ok_bind]
  rcases hb.space.lookup hva with hzero | ⟨tb, hpde, htb⟩
  · have hnot : ¬ (s.mem (s.dirFrame e) (pdx va)).has permPresent = true := by
      rw [hzero]
      decide
    rw [if_neg hnot]
    refine ((hb.tableFault_spec ho hd hva hzero).mono (F := StopsFault c e va s G)
      (fun _ hx => .inl fun hen => hx (hen.mono (by omega))) fun _ hr => hr).bind ?_
    rintro ⟨p, t⟩ ⟨H, hq⟩
    exact ⟨H, .inl hq⟩
  · have hhas : (s.mem (s.dirFrame e) (pdx va)).has permPresent = true :=
      Names.present (p := permUser ||| permWriteable) hpde
    rw [if_pos hhas]
    refine (hb.pageFaultHandler_spec ho hd hrun hva habs hent).imp ?_
    rintro t ⟨H, hf⟩
    exact ⟨H, .inr hf⟩

end FosMemory
