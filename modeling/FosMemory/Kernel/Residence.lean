import FosMemory.Kernel.InitialZeros
import FosMemory.Kernel.Isolation
import FosMemory.Lib.Count

/-!
# Residence — working sets and faults in reachable states

In every state of every run the working set of a live environment lists exactly its pages in
memory.  A fault of the running environment is served at the latest when it is repeated, or it is
refused because the page has no slot and lies outside the stack area.
-/

namespace FosMemory

open Lib

variable {c : Boot} {s t u : Kernel} {G H I : Ghost} {e : Nat} {lost : Nat → Prop}

/-! ## The working set lists the pages in memory -/

section Entries

variable (ha : Alive c s G e)
include ha

/-- The elements in use are the pages in memory. -/
theorem Alive.wsPage_iff {v : Nat} : (∃ i < s.wsMax e, s.wsPage e i = some v) ↔
    v % 4096 = 0 ∧ v < userTop ∧ s.present e v = true ∧ ¬ s.inWindow e v := by
  constructor
  · rintro ⟨i, hi, hv⟩
    obtain ⟨f, hf⟩ := ha.entries.page i hi v hv
    obtain ⟨hal, hlt, -⟩ := ha.base.space.target v f false hf
    have hpage : G.own f = some ⟨e, .page (roundDown v 4096)⟩ := by
      rw [roundDown_eq hal]
      exact hf
    obtain ⟨hp, -, hwin⟩ := (ha.page_iff hlt).2 hpage
    exact ⟨hal, hlt, hp, hwin⟩
  · rintro ⟨hal, hlt, hp, hwin⟩
    have hpage := (ha.page_iff hlt).1 ⟨hp, rfl, hwin⟩
    rw [roundDown_eq hal] at hpage
    exact ha.covered v _ hpage

/-- What the accessors of an element return. -/
theorem Alive.element_eq (ho : Owned c s G) {i : Nat} (hi : i < s.wsMax e) :
    wsEmpty s e i = .ok (if (s.wsPage e i).isSome then 0 else 1) ∧
      envPageWSGetVirtualAddress s e i = .ok ((s.wsPage e i).getD 0) := by
  rw [ha.base.array.wsEmpty_eq ho hi, ha.base.array.envPageWSGetVirtualAddress_eq ho hi]
  rcases ha.entries.flag i hi with hused | ⟨hempty, hzero⟩
  · have hpage : s.wsPage e i = some (s.wsVa e i) := by rw [Kernel.wsPage, if_pos hused]
    obtain ⟨hal, -⟩ := ha.wsPage_iff.1 ⟨i, hi, hpage⟩
    rw [hpage, hused, roundDown_eq hal]
    exact ⟨rfl, rfl⟩
  · have hpage : s.wsPage e i = none := by
      rw [Kernel.wsPage, hempty]
      rfl
    rw [hpage, hempty, hzero]
    exact ⟨rfl, rfl⟩

end Entries

/-- The pages of `e` that the processor finds outside the window, by number. -/
def Kernel.residentPages (s : Kernel) (e : Nat) : Finset Nat :=
  (Finset.range (userTop / 4096)).filter fun k =>
    s.present e (4096 * k) = true ∧ ¬ s.inWindow e (4096 * k)

theorem Kernel.mem_residentPages {k : Nat} : k ∈ s.residentPages e ↔
    4096 * k < userTop ∧ s.present e (4096 * k) = true ∧ ¬ s.inWindow e (4096 * k) := by
  rw [Kernel.residentPages, Finset.mem_filter, Finset.mem_range]
  refine and_congr_left fun _ => ?_
  simp only [userTop]
  omega

-- the range is far too long to be looked into
attribute [irreducible] Kernel.residentPages

/-- `env_page_ws_get_size` counts the pages in memory. -/
theorem Alive.wsCount_eq (ha : Alive c s G e) :
    s.wsCount e (s.wsMax e) = (s.residentPages e).card := by
  have hbij : hits (Finset.range (s.wsMax e))
      (fun i => ((s.wsPage e i).map (· / 4096)).isSome = true) = (s.residentPages e).card := by
    refine hits_isSome ?_ fun k => ?_
    · intro i hi j hj k hik hjk
      have hi := Finset.mem_range.1 hi
      have hj := Finset.mem_range.1 hj
      obtain ⟨v, hv, hvk⟩ := Option.map_eq_some_iff.1 hik
      obtain ⟨w, hw, hwk⟩ := Option.map_eq_some_iff.1 hjk
      obtain ⟨hal, -⟩ := ha.wsPage_iff.1 ⟨i, hi, hv⟩
      obtain ⟨hal', -⟩ := ha.wsPage_iff.1 ⟨j, hj, hw⟩
      obtain rfl : v = w := by omega
      exact ha.entries.inj i hi j hj v hv hw
    · rw [Kernel.mem_residentPages]
      constructor
      · rintro ⟨hlt, hp, hwin⟩
        obtain ⟨i, hi, hv⟩ := ha.wsPage_iff.2 ⟨by omega, hlt, hp, hwin⟩
        exact ⟨i, Finset.mem_range.2 hi, by rw [hv, Option.map_some]; congr 1; omega⟩
      · rintro ⟨i, hi, hk⟩
        obtain ⟨v, hv, rfl⟩ := Option.map_eq_some_iff.1 hk
        obtain ⟨hal, hlt, hp, hwin⟩ := ha.wsPage_iff.1 ⟨i, Finset.mem_range.1 hi, hv⟩
        have hback : 4096 * (v / 4096) = v := by omega
        rw [hback]
        exact ⟨hlt, hp, hwin⟩
  rw [Kernel.wsCount, ← hbij, hits_range]
  congr 1
  funext i
  rw [Option.isSome_map, Bool.decide_eq_true]

/-- In every reachable state the elements of a live environment's working set that are not empty
are its pages in memory, each once; an empty element reads as address 0, the last index lies in the
array, and `env_page_ws_get_size` is the number of pages in memory. -/
theorem LifeRun.workingSet_exact (h : LifeRun c s lost) (he : s.Live e) :
    (s.envs e).pageLastWSIndex < (s.envs e).pageWSMaxSize ∧
    ∃ entry : Nat → Option Nat,
      (∀ i < (s.envs e).pageWSMaxSize,
        wsEmpty s e i = .ok (if (entry i).isSome then 0 else 1) ∧
        envPageWSGetVirtualAddress s e i = .ok ((entry i).getD 0)) ∧
      (∀ i < (s.envs e).pageWSMaxSize, ∀ j < (s.envs e).pageWSMaxSize, ∀ v,
        entry i = some v → entry j = some v → i = j) ∧
      (∀ v, (∃ i < (s.envs e).pageWSMaxSize, entry i = some v) ↔
        v % 4096 = 0 ∧ v < userTop ∧ s.present e v = true ∧ ¬ s.inWindow e v) ∧
      envPageWSGetSize s e = .ok (s.residentPages e).card ∧
      (s.residentPages e).card ≤ (s.envs e).pageWSMaxSize := by
  obtain ⟨G, hinv, -⟩ := h.inv
  have ha := hinv.alive e he
  refine ⟨ha.entries.last, s.wsPage e, fun i hi => ha.element_eq hinv.owned hi, ha.entries.inj,
    fun v => ha.wsPage_iff, ?_, ?_⟩
  · rw [ha.base.array.envPageWSGetSize_eq hinv.owned, ha.wsCount_eq]
  · rw [← ha.wsCount_eq]
    exact s.wsCount_le e _

theorem workingSet_exact_first : ∃ u : Kernel, u.Live 0 ∧ u.present 0 stackPage = true ∧
    envPageWSGetSize u 0 = .ok (u.residentPages 0).card ∧
    (u.residentPages 0).card ≤ (u.envs 0).pageWSMaxSize := by
  obtain ⟨u, hrun, hlive, -, hp⟩ := exists_firstRun
  obtain ⟨-, entry, -, -, -, hsize, hle⟩ := LifeRun.workingSet_exact hrun hlive
  exact ⟨u, hlive, hp, hsize, hle⟩

/-! ## One fault -/

/-- `e` has a page table for `va`. -/
def HasTable (G : Ghost) (e va : Nat) : Prop :=
  ∃ tb, G.own tb = some ⟨e, .table (pdx va)⟩

section Fault

variable {va : Nat} (hva : va < userTop)
include hva

theorem Space.hasTable_iff (h : Space c s G e) :
    HasTable G e va ↔ s.mem (s.dirFrame e) (pdx va) ≠ 0#32 := by
  constructor
  · rintro ⟨tb, htb⟩
    exact (h.table tb _ htb).2.ne_zero
  · intro hne
    obtain ⟨tb, -, htb⟩ := (h.lookup hva).resolve_left hne
    exact ⟨tb, htb⟩

/-- A table fault creates the table. -/
theorem Base.tableFault_creates (ho : Owned c s G) (hb : Base c s G e) (hd : DiskFrames s G)
    (hno : ¬ HasTable G e va) (hen : Enough s 1) :
    ∃ r H, createPageTable s (s.envs e).envPageDirectory va = .ok r ∧ Still c e 1 s G r.2 H ∧
      HasTable H e va := by
  have hzero : s.mem (s.dirFrame e) (pdx va) = 0#32 := by
    by_contra hne
    exact hno ((hb.space.hasTable_iff hva).2 hne)
  have hstill := hb.tableFault_spec ho hd hva hzero
  have hspec := hb.space.createPageTable_spec ho va
  cases hr : createPageTable s (s.envs e).envPageDirectory va with
  | error x =>
    rw [hr] at hstill
    exact absurd hen hstill
  | ok r =>
    obtain ⟨H, hq⟩ := hstill.of_ok hr
    obtain ⟨hnot, -⟩ | ⟨g, -, hnew, -⟩ := hspec.of_ok hr
    · exact absurd hen hnot
    · refine ⟨r, H, rfl, hq, (hq.toQuiet.step.base.space.hasTable_iff hva).2 ?_⟩
      have hdir : r.2.dirFrame e = s.dirFrame e := by
        rw [Kernel.dirFrame, hq.toQuiet.step.env.envCr3, Kernel.dirFrame]
      have hheap := (hb.space.dirAt ho).ne
      rw [hdir]
      exact (hnew.names ho.inv (ho.inv.map.not_kernelFrame hheap)).ne_zero

/-- `fault_handler` while memory lasts. -/
theorem Base.faultHandler_cases (ho : Owned c s G) (hb : Base c s G e) (hd : DiskFrames s G)
    (hrun : Running s e) (habs : Absent G e (roundDown va 4096)) (hent : Entries s G e)
    (hen : Enough s 5) :
    (¬ HasTable G e va ∧ ∃ t H, faultHandler s e va = .ok t ∧ Still c e 1 s G t H ∧
      HasTable H e va) ∨
    HasTable G e va ∧ ((∃ t H, faultHandler s e va = .ok t ∧ Faulted c e va s G t H) ∨
      ∃ t H, faultHandler s e va = .error (.panic .notStack t) ∧ Rejected c e va s G t H) := by
  rw [faultHandler, load_pde ho.inv.map (hb.space.dirAt ho) va, ok_bind]
  by_cases htab : HasTable G e va
  · refine .inr ⟨htab, ?_⟩
    have hpde := (hb.space.lookup hva).resolve_left ((hb.space.hasTable_iff hva).1 htab)
    obtain ⟨tb, hnames, -⟩ := hpde
    rw [if_pos (Names.present (p := permUser ||| permWriteable) hnames)]
    have hspec := hb.pageFaultHandler_spec ho hd hrun hva habs hent
    cases hr : pageFaultHandler s e va with
    | ok t =>
      obtain ⟨H, hf⟩ := hspec.of_ok hr
      exact .inl ⟨t, H, rfl, hf⟩
    | error x =>
      rw [hr] at hspec
      obtain hnot | ⟨t, H, rfl, hrej⟩ := hspec
      · exact absurd hen hnot
      · exact .inr ⟨t, H, rfl, hrej⟩
  · have hzero : s.mem (s.dirFrame e) (pdx va) = 0#32 := by
      by_contra hne
      exact htab ((hb.space.hasTable_iff hva).2 hne)
    have hnot : ¬ (s.mem (s.dirFrame e) (pdx va)).has permPresent = true := by
      rw [hzero]
      decide
    obtain ⟨r, H, hr, hq, hnow⟩ := hb.tableFault_creates hva ho hd htab (hen.mono (by omega))
    rw [if_neg hnot, hr, ok_bind]
    exact .inl ⟨htab, r.2, H, rfl, hq, hnow⟩

end Fault

/-! ## The instruction that faults -/

/-- The instruction at `va` is started again after each of at most `n` faults. -/
def retryAccess (e va : Nat) : Nat → Kernel → Except Stop Kernel
  | 0, s => .ok s
  | n + 1, s =>
    if s.present e va then .ok s
    else do
      let s ← trapPageFault s e va
      retryAccess e va n s

/-- The page of `va` has a slot in the page file. -/
def Kernel.HasSlot (s : Kernel) (e va : Nat) : Prop :=
  ∃ d, pfLookup s e va = .ok d ∧ d ≠ 0

theorem retryAccess_present {va n : Nat} (h : s.present e va = true) :
    retryAccess e va n s = .ok s := by
  cases n with
  | zero => rfl
  | succ n => rw [retryAccess, if_pos h]

theorem retryAccess_absent {va n : Nat} (h : s.present e va = false) :
    retryAccess e va (n + 1) s = trapPageFault s e va >>= retryAccess e va n := by
  rw [retryAccess, if_neg (by simp [h])]

theorem Alive.hasSlot_iff (ha : Alive c s G e) (ho : Owned c s G) (hd : DiskFrames s G) {va : Nat}
    (hva : va < userTop) : s.HasSlot e va ↔ G.slots e (roundDown va 4096) ≠ none := by
  rw [Option.ne_none_iff_exists']
  exact exists_congr fun d => ha.pfLookup_iff ho hd hva

/-- What has become of the page that faulted. -/
theorem Faulted.slot {va : Nat} (h : Faulted c e va s G t H) :
    H.slots e (roundDown va 4096) ≠ none ↔
      G.slots e (roundDown va 4096) ≠ none ∨ s.diskFreeFrameList ≠ [] := by
  obtain ⟨i, u, I, hroom, hbr⟩ := h.parts
  obtain ⟨f, rest, -, harr⟩ := hbr.page
  rw [← hroom.slots, ← hroom.diskList]
  rcases harr with ⟨d, hin, -⟩ | hnew
  · simp [hin.before, hin.slot]
  · rcases hnew.slot with ⟨hnil, hnone⟩ | ⟨d, hcons, hsome⟩
    · simp [hnew.before, hnone, hnil]
    · simp [hsome, hcons]

theorem Faulted.mapped {va : Nat} (h : Faulted c e va s G t H) :
    ∃ f, H.own f = some ⟨e, .page (roundDown va 4096)⟩ := by
  obtain ⟨i, u, I, -, hbr⟩ := h.parts
  obtain ⟨f, rest, -, harr⟩ := hbr.page
  rcases harr with ⟨d, hin, -⟩ | hnew
  · exact ⟨f, hin.page⟩
  · exact ⟨f, hnew.page⟩

section Trap

variable (h : LifeInv c s G) (hcur : s.curenv = some e) {va : Nat} (hva : va < userTop)
  (habs : s.present e va = false)
include h hcur hva habs

/-- A page fault: the stamps are updated first. -/
theorem LifeInv.trapPageFault_cases (hen : Enough s 5) :
    (¬ HasTable G e va ∧ ∃ t H, trapPageFault s e va = .ok t ∧ LifeInv c t H ∧
      t.curenv = some e ∧ t.present e va = false ∧ HasTable H e va ∧ Spent s t 1 ∧
      H.slots e (roundDown va 4096) = G.slots e (roundDown va 4096) ∧
      t.diskFreeFrameList = s.diskFreeFrameList) ∨
    HasTable G e va ∧ ((∃ t H, trapPageFault s e va = .ok t ∧ LifeInv c t H ∧
        t.curenv = some e ∧ t.present e va = true ∧
        (G.slots e (roundDown va 4096) = none → inStackArea va) ∧
        (H.slots e (roundDown va 4096) ≠ none ↔
          G.slots e (roundDown va 4096) ≠ none ∨ s.diskFreeFrameList ≠ [])) ∨
      ∃ t, trapPageFault s e va = .error (.panic .notStack t) ∧
        G.slots e (roundDown va 4096) = none ∧ ¬ inStackArea va) := by
  have ha := h.current hcur
  have hlive := (h.running e hcur).1
  obtain ⟨u, hu, haged⟩ := h.onTrap_eq hcur
  have hau : Acts c e s G u G := haged.acts ha
  have hru : Running u e := (h.acts hlive hau).isRunning (by rw [hau.run.curenv]; exact hcur)
  have habs' := ha.base.absent_of_present hva habs
  have hspent : Enough u 5 := Enough.after (k := 0) (by simpa using hen) haged.step.spent
  have htrap : trapPageFault s e va = faultHandler u e va := by
    rw [trapPageFault, hu, ok_bind]
  -- whatever the handler has done to `u`
  have hlife : ∀ {t H}, Acts c e u G t H → LifeInv c t H ∧ t.curenv = some e := by
    intro t H hact
    have hall := hau.trans hact
    exact ⟨⟨h.acts hlive hall, h.beyond_of_local hlive.1 hall.others⟩,
      hall.run.curenv.trans hcur⟩
  rw [htrap]
  rcases Base.faultHandler_cases hva hau.owned hau.alive.base hau.frames hru habs'
    hau.alive.entries hspent with
    ⟨hno, t, H, hdone, hq, hnow⟩ | ⟨htab, ⟨t, H, hdone, hf⟩ | ⟨t, H, hdone, hrej⟩⟩
  · have hact := hq.toQuiet.acts hau.alive
    obtain ⟨hinv, hcur'⟩ := hlife hact
    refine .inl ⟨hno, t, H, hdone, hinv, hcur', ?_, hnow, ?_, (hq.toQuiet.same _).slot,
      hq.toQuiet.diskList.trans haged.diskList⟩
    · rw [Bool.eq_false_iff]
      intro hp
      have hwin : ¬ t.inWindow e va := by
        rw [inWindow_congr (hau.trans hact).env]
        exact ((ha.base.absent_iff).1 habs').2
      obtain ⟨f, hf⟩ := hact.alive.base.present_page hva hwin hp
      exact habs' f false (((hq.toQuiet.same _).own f).1 hf)
    · have := haged.step.spent.trans hq.toQuiet.step.spent
      simpa using this
  · have hact := hf.acts hau.alive
    obtain ⟨hinv, hcur'⟩ := hlife hact
    obtain ⟨f, hpage⟩ := hf.mapped
    refine .inr ⟨htab, .inl ⟨t, H, hdone, hinv, hcur', hact.alive.base.page_present hva hpage,
      hf.granted, ?_⟩⟩
    rw [← haged.diskList]
    exact hf.slot
  · exact .inr ⟨htab, .inr ⟨t, hdone, hrej.noSlot, hrej.outside⟩⟩

end Trap

/-- What the running environment does loses no frame. -/
theorem LifeRun.user_next (h : LifeRun c s lost) (hcur : s.curenv = some e) {op : UserOp}
    (hact : UserStep s e op t) : LifeRun c t lost := by
  have hnext := h.step (.sys (.user hcur hact))
  have hlost : (fun f => lost f ∨ (LifeOp.sys (.user op)).Loses s f) = lost := by
    funext f
    simp [LifeOp.Loses]
  rw [← hlost]
  exact hnext

/-- A fault of the running environment while memory lasts: if the page has a slot or lies in the
stack area, the instruction finds the page after one fault, or after two if the table was missing,
and the page has a slot then unless it had none and the page file is full; otherwise the handler
panics, on the first or the second fault. -/
theorem LifeRun.fault_served (h : LifeRun c s lost) (hcur : s.curenv = some e) {va n : Nat}
    (hva : va < userTop) (habs : s.present e va = false) (hroom : Enough s 6) (hn : 2 ≤ n) :
    (s.HasSlot e va ∨ inStackArea va → ∃ t, retryAccess e va n s = .ok t ∧ LifeRun c t lost ∧
      t.curenv = some e ∧ t.present e va = true ∧
      (t.HasSlot e va ↔ s.HasSlot e va ∨ s.diskFreeFrameList ≠ [])) ∧
    (¬ (s.HasSlot e va ∨ inStackArea va) →
      ∃ t, retryAccess e va n s = .error (.panic .notStack t)) := by
  obtain ⟨G, hinv, -⟩ := h.inv
  obtain ⟨k, rfl⟩ : ∃ k, n = k + 1 + 1 := ⟨n - 2, by omega⟩
  have hslot : ∀ {x K}, LifeInv c x K → x.curenv = some e →
      (x.HasSlot e va ↔ K.slots e (roundDown va 4096) ≠ none) := fun hx hcur' =>
    (hx.current hcur').hasSlot_iff hx.owned hx.frames hva
  -- the fault that brings the page in, wherever it comes
  have hlast : ∀ {x K m}, LifeInv c x K → LifeRun c x lost → x.curenv = some e →
      x.present e va = false → HasTable K e va → Enough x 5 →
      (x.HasSlot e va ∨ inStackArea va → ∃ t, retryAccess e va (m + 1) x = .ok t ∧
        LifeRun c t lost ∧ t.curenv = some e ∧ t.present e va = true ∧
        (t.HasSlot e va ↔ x.HasSlot e va ∨ x.diskFreeFrameList ≠ [])) ∧
      (¬ (x.HasSlot e va ∨ inStackArea va) →
        ∃ t, retryAccess e va (m + 1) x = .error (.panic .notStack t)) := by
    intro x K m hx hrun hcurx habsx htab hen
    rw [retryAccess_absent habsx, hslot hx hcurx]
    rcases hx.trapPageFault_cases hcurx hva habsx hen with ⟨hno, -⟩ | ⟨-, hserved | hrefused⟩
    · exact absurd htab hno
    · obtain ⟨t, H, hdone, hinv', hcur', hp, hgranted, hiff⟩ := hserved
      rw [hdone, ok_bind, retryAccess_present hp]
      refine ⟨fun _ => ⟨t, rfl, hrun.user_next hcurx (.fault hva habsx hdone), hcur', hp, ?_⟩, fun hno => ?_⟩
      · rw [hslot hinv' hcur']
        exact hiff
      · obtain ⟨hnone, hout⟩ := not_or.1 hno
        exact absurd (hgranted (not_not.1 hnone)) hout
    · obtain ⟨t, hdone, hnone, hout⟩ := hrefused
      rw [hdone]
      exact ⟨fun hyes => absurd (hyes.resolve_left (not_not.2 hnone)) hout, fun _ => ⟨t, rfl⟩⟩
  rcases hinv.trapPageFault_cases hcur hva habs (hroom.mono (by omega)) with hcase | ⟨htab, -⟩
  · -- the table first, then the page
    obtain ⟨-, t, H, hdone, hinv', hcur', habs', htab', hspent, hslots, hlist⟩ := hcase
    have hsame : t.HasSlot e va ↔ s.HasSlot e va := by
      rw [hslot hinv' hcur', hslot hinv hcur, hslots]
    rw [retryAccess_absent habs, hdone, ok_bind, ← hsame, ← hlist]
    exact hlast hinv' (h.user_next hcur (.fault hva habs hdone)) hcur' habs' htab'
      (Enough.after hroom hspent)
  · exact hlast hinv h hcur habs htab (hroom.mono (by omega))

/-- A page that the program does not start with is absent. -/
theorem FirstRun.absent {n va : Nat} {prog : UserProgram} {p : PageRepAlgo}
    (h : FirstRun c n prog p t H u) (hva : va < userTop) (hwin : ¬ u.inWindow 0 va)
    (hno : roundDown va 4096 ∉ initialPages prog n) : u.present 0 va = false := by
  rw [Bool.eq_false_iff]
  intro hp
  have ha := h.inv.current h.curenv
  obtain ⟨f, hf⟩ := ha.base.present_page hva hwin hp
  exact hno ((h.created.pages _).1 ⟨f, hf⟩)

/-- The page below the first stack page is granted. -/
theorem fault_served_first : ∃ u v : Kernel, retryAccess 0 0xEEBFC000 2 u = .ok v ∧
    u.present 0 0xEEBFC000 = false ∧ v.present 0 0xEEBFC000 = true := by
  have hframes : 7 + 6 ≤ smallBoot.freeFrameList.length := by
    rw [smallBoot_frames]
    decide
  obtain ⟨t, H, u, hfirst, hroom⟩ := smallBoot.run_bare (Nat.le_refl 1) (by decide) hframes
    (by decide) .fifo
  have hsize := hfirst.size
  have hwin : ¬ u.inWindow 0 0xEEBFC000 := by
    rintro ⟨-, hlt⟩
    rw [Kernel.wsPages, show (u.envs 0).pageWSMaxSize = 1 from hsize] at hlt
    exact absurd hlt (by decide)
  have habs : u.present 0 0xEEBFC000 = false := by
    refine hfirst.absent (by decide) hwin ?_
    rw [initialPages_bareProgram]
    decide
  obtain ⟨v, hdone, -, -, hp, -⟩ := (LifeRun.fault_served hfirst.run.life hfirst.curenv
    (by decide) habs hroom (Nat.le_refl 2)).1 (.inr ⟨by decide, by decide⟩)
  exact ⟨u, v, hdone, habs, hp⟩

end FosMemory
