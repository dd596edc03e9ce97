import FosMemory.Kernel.Fault

/-!
# Place — bringing a page in

The second half of `page_fault_handler`: a frame is mapped at the faulting address and filled from
the page's slot.  A page without a slot is granted if it lies in the stack area, and refused with a
panic otherwise; then the frame has been given back.
-/

namespace FosMemory

open Lib

variable {c : Boot} {s t u : Kernel} {G H I : Ghost} {e : Nat}

/-! ## The two outcomes -/

/-- The part of user memory in which new pages are granted on a fault. -/
def inStackArea (va : Nat) : Prop :=
  va < userStackTop ∧ userStackBottom ≤ va

/-- Page `p` is in memory in frame `f`, read from its slot or granted. -/
def Arrival (e p f : Nat) (s : Kernel) (G : Ghost) (t : Kernel) (H : Ghost) : Prop :=
  (∃ d, PageIn e p f d s G t H ∧ t.diskFreeFrameList = s.diskFreeFrameList) ∨
    PageNew e p f s G t H

/-- The page is in memory; its element is not stored yet. -/
structure Arrived (c : Boot) (e p f : Nat) (s : Kernel) (G : Ghost) (t : Kernel) (H : Ghost) :
    Prop where
  step : EnvStep c e 4 s G t H
  held : NoHeld G → NoHeld H
  ws : SameWs e s t
  last : (t.envs e).pageLastWSIndex = (s.envs e).pageLastWSIndex
  other : ∀ v, v ≠ p → SamePage e v s G t H
  absent : ∀ g, G.own g ≠ some ⟨e, .page p⟩
  page : H.own f = some ⟨e, .page p⟩
  arrival : Arrival e p f s G t H
  pte : ∀ v g, v ≠ p → G.own g = some ⟨e, .page v⟩ → t.pteWord e v = s.pteWord e v
  used : (t.pteWord e p).has permUsed = true

/-- Page `p` has been brought in and has element `i`. -/
structure Brought (c : Boot) (e p i : Nat) (s : Kernel) (G : Ghost) (t : Kernel) (H : Ghost) :
    Prop where
  step : EnvStep c e 4 s G t H
  held : NoHeld G → NoHeld H
  entries : Entries t H e
  covered : Covered s G e → Covered t H e
  va : t.wsVa e i = p
  flag : t.wsFlag e i = 0#8
  stamp : t.wsStamp e i = 0x80000000#32
  rest : ∀ k < s.wsMax e, k ≠ i → t.wsVa e k = s.wsVa e k ∧ t.wsFlag e k = s.wsFlag e k ∧
    t.wsStamp e k = s.wsStamp e k
  last : (t.envs e).pageLastWSIndex = (i + 1) % s.wsMax e
  other : ∀ v, v ≠ p → SamePage e v s G t H
  page : ∃ f rest, s.freeFrameList = f :: rest ∧ Arrival e p f s G t H
  pte : ∀ v g, v ≠ p → G.own g = some ⟨e, .page v⟩ → t.pteWord e v = s.pteWord e v
  used : (t.pteWord e p).has permUsed = true

/-- Pages and elements are as they were. -/
structure Quiet (c : Boot) (e k : Nat) (s : Kernel) (G : Ghost) (t : Kernel) (H : Ghost) :
    Prop where
  step : EnvStep c e k s G t H
  held : NoHeld G → NoHeld H
  ws : SameWs e s t
  last : (t.envs e).pageLastWSIndex = (s.envs e).pageLastWSIndex
  same : ∀ v, SamePage e v s G t H
  diskList : t.diskFreeFrameList = s.diskFreeFrameList

theorem Quiet.trans {k m : Nat} (h : Quiet c e k s G t H) (h' : Quiet c e m t H u I) :
    Quiet c e (k + m) s G u I :=
  ⟨h.step.trans h'.step, fun hno => h'.held (h.held hno),
    h.ws.trans h'.ws h.step.env.pageWSMaxSize, h'.last.trans h.last,
    fun v => (h.same v).trans (h'.same v), h'.diskList.trans h.diskList⟩

theorem Quiet.refl (ho : Owned c s G) (hb : Base c s G e) (hd : DiskFrames s G) :
    Quiet c e 0 s G s G :=
  ⟨EnvStep.refl ho hb hd, id, SameWs.refl e s, rfl, fun v => SamePage.refl e v s G, rfl⟩

theorem Quiet.mono {k m : Nat} (h : Quiet c e k s G t H) (hkm : k ≤ m) : Quiet c e m s G t H :=
  ⟨h.step.mono hkm, h.held, h.ws, h.last, h.same, h.diskList⟩

/-- So are the accessed bits. -/
structure Still (c : Boot) (e k : Nat) (s : Kernel) (G : Ghost) (t : Kernel) (H : Ghost) : Prop
    extends Quiet c e k s G t H where
  pte : ∀ v f, G.own f = some ⟨e, .page v⟩ → t.pteWord e v = s.pteWord e v

theorem Still.refl (ho : Owned c s G) (hb : Base c s G e) (hd : DiskFrames s G) :
    Still c e 0 s G s G :=
  ⟨Quiet.refl ho hb hd, fun _ _ _ => rfl⟩

theorem Still.trans {k m : Nat} (h : Still c e k s G t H) (h' : Still c e m t H u I) :
    Still c e (k + m) s G u I :=
  ⟨h.toQuiet.trans h'.toQuiet, fun v f hf =>
    (h'.pte v f (((h.same v).own f).2 hf)).trans (h.pte v f hf)⟩

theorem Still.mono {k m : Nat} (h : Still c e k s G t H) (hkm : k ≤ m) : Still c e m s G t H :=
  ⟨h.toQuiet.mono hkm, h.pte⟩

/-- What arrived stays through changes of the array and of the last index. -/
theorem Arrival.after {p f : Nat} (h : Arrival e p f s G t H) (hpage : H.own f = some ⟨e, .page p⟩)
    (hsame : SamePage e p t H u H) (hdisk : u.disk = t.disk)
    (hlist : u.diskFreeFrameList = t.diskFreeFrameList) : Arrival e p f s G u H := by
  have hmem := hsame.mem f hpage
  have hmod := unmarked_modified (hsame.pte f hpage)
  rcases h with ⟨d, hin, hl⟩ | hnew
  · refine .inl ⟨d, ⟨hin.absent, hin.page, hin.before, hin.slot, ?_, ?_, ?_⟩, hlist.trans hl⟩
    · rw [hmem, hin.mem]
    · rw [hdisk, hin.disk]
    · rw [hmod, hin.clean]
  · refine .inr ⟨hnew.absent, hnew.page, hnew.before, ?_, ?_, ?_, ?_⟩
    · rw [hlist]
      exact hnew.slot
    · rw [hmem, hnew.mem]
    · rw [hdisk, hnew.disk]
    · rw [hmod, hnew.clean]

/-- `env_page_ws_set_entry` and the new last index. -/
theorem Arrived.finish {va i f : Nat} {rest : List Nat} (h : Arrived c e (roundDown va 4096) f s G t H)
    (hent : Entries s G e) (hi : i < s.wsMax e) (hempty : s.wsPage e i = none)
    (hva : va < userTop) (hfree : s.freeFrameList = f :: rest) :
    ∃ t₁, envPageWSSetEntry t e i va = .ok t₁ ∧
      Brought c e (roundDown va 4096) i s G (setLastIndex t₁ e (nextIndex t₁ e i)) H := by
  have hmax : t.wsMax e = s.wsMax e := h.step.env.pageWSMaxSize
  have hpos : 0 < s.wsMax e := by omega
  obtain ⟨t₁, hset, hw⟩ := h.step.base.array.envPageWSSetEntry_spec h.step.owned (i := i)
    (by rw [hmax]; exact hi) hva
  have hst₁ := hw.only.envStep h.step.owned h.step.base h.step.frames
  have hmax₁ : t₁.wsMax e = s.wsMax e := hst₁.env.pageWSMaxSize.trans hmax
  obtain ⟨k, hk⟩ : ∃ k, k = nextIndex t₁ e i := ⟨_, rfl⟩
  have hkval : k = (i + 1) % s.wsMax e := by
    have hsize : (t₁.envs e).pageWSMaxSize = s.wsMax e := hmax₁
    rw [hk, nextIndex, hsize]
  have hst₂ := hst₁.base.setLastIndex_step hst₁.owned hst₁.frames k
  have hws₂ : SameWs e t₁ (setLastIndex t₁ e k) := setLastIndex_sameWs k
  have hi₁ : i < t₁.wsMax e := by
    rw [hmax₁]
    exact hi
  have hmax₂ : (setLastIndex t₁ e k).wsMax e = s.wsMax e :=
    hst₂.env.pageWSMaxSize.trans hmax₁
  have hlast : ((setLastIndex t₁ e k).envs e).pageLastWSIndex = k := by
    rw [setLastIndex_env]
  have hsame : ∀ v, SamePage e v t H (setLastIndex t₁ e k) H :=
    fun v => (hw.only.samePage h.step.base.space v).trans (setLastIndex_samePage k v)
  have hvaSet : (setLastIndex t₁ e k).wsVa e i = roundDown va 4096 := by
    rw [hws₂.va hi₁, hw.va]
  have hflagSet : (setLastIndex t₁ e k).wsFlag e i = 0#8 := by
    rw [hws₂.flag hi₁, hw.flag]
  have hrest : ∀ j < s.wsMax e, j ≠ i → (setLastIndex t₁ e k).wsVa e j = s.wsVa e j ∧
      (setLastIndex t₁ e k).wsFlag e j = s.wsFlag e j ∧
      (setLastIndex t₁ e k).wsStamp e j = s.wsStamp e j := by
    intro j hj hne
    have hj₁ : j < t₁.wsMax e := by
      rw [hmax₁]
      exact hj
    obtain ⟨h₁, h₂, h₃⟩ := hw.rest j (by rw [hmax]; exact hj) hne
    rw [hws₂.va hj₁, hws₂.flag hj₁, hws₂.stamp hj₁, h₁, h₂, h₃]
    exact ⟨h.ws.va hj, h.ws.flag hj, h.ws.stamp hj⟩
  have hown : ∀ v, v ≠ roundDown va 4096 → ∀ g,
      H.own g = some ⟨e, .page v⟩ ↔ G.own g = some ⟨e, .page v⟩ :=
    fun v hne g => (h.other v hne).own g
  refine ⟨t₁, hset, ?_⟩
  rw [← hk]
  constructor
  case step => exact (h.step.trans hst₁).trans hst₂
  case held => exact h.held
  case entries =>
    refine hent.insert hmax₂ ?_ (fun j hj hne => ⟨(hrest j hj hne).1, (hrest j hj hne).2.1⟩) hown
      hflagSet hvaSet h.absent ⟨f, h.page⟩
    rw [hlast, hkval]
    exact Nat.mod_lt _ hpos
  case covered =>
    intro hcov
    exact hcov.insert hmax₂ hi (fun j hj hne => ⟨(hrest j hj hne).1, (hrest j hj hne).2.1⟩) hown
      hempty hflagSet hvaSet
  case va => exact hvaSet
  case flag => exact hflagSet
  case stamp => rw [hws₂.stamp hi₁, hw.stamp]
  case rest => exact hrest
  case last => rw [hlast, hkval]
  case other => exact fun v hne => (h.other v hne).trans (hsame v)
  case page =>
    refine ⟨f, rest, hfree, h.arrival.after h.page (hsame _) ?_ ?_⟩
    · exact hw.only.rest.disk
    · exact hw.only.rest.diskFreeFrameList
  case pte =>
    intro v g hne hg
    rw [setLastIndex_pteWord, hw.only.pteWord (b := false) h.step.base.space ((hown v hne g).2 hg)]
    exact h.pte v g hne hg
  case used =>
    rw [setLastIndex_pteWord, hw.only.pteWord (b := false) h.step.base.space h.page]
    exact h.used

/-! ## placePage -/

theorem permFaultPage_lt : permFaultPage.toNat < 4096 := by
  decide

theorem permFaultPage_has : (permFaultPage ||| permPresent).has permUserPage = true := by
  decide

/-- A new page is not modified. -/
theorem frameEntry_clean (f : Nat) :
    (frameEntry f permFaultPage).has permModified = false := by
  rw [← and_permModified, frameEntry, constructEntry_and f (by decide)]
  decide

/-- A new page counts as used. -/
theorem frameEntry_used (f : Nat) : (frameEntry f permFaultPage).has permUsed = true := by
  have hall : (frameEntry f permFaultPage).has (permFaultPage ||| permPresent) = true :=
    has_constructEntry _ _
  exact has_mono hall (by decide)

/-- A page the kernel has written and marked clean counts as used. -/
theorem touched_used (w : Word) :
    ((w ||| accessMark true) &&& ~~~permModified).has permUsed = true := by
  have hone : ~~~permModified &&& permUsed = permUsed := by decide
  have hmark : accessMark true &&& permUsed = permUsed := by decide
  rw [has_iff, BitVec.and_assoc, hone]
  apply BitVec.eq_of_getLsbD_eq
  intro i hi
  have hbit : (accessMark true &&& permUsed).getLsbD i = permUsed.getLsbD i := by rw [hmark]
  rw [BitVec.getLsbD_and] at hbit
  rw [BitVec.getLsbD_and, BitVec.getLsbD_or]
  revert hbit
  cases w.getLsbD i <;> cases (accessMark true).getLsbD i <;> cases permUsed.getLsbD i <;> decide

theorem clear_modified (w : Word) : (w &&& ~~~permModified).has permModified = false := by
  rw [← and_permModified, BitVec.and_assoc]
  have hzero : ~~~permModified &&& permModified = 0#32 := by decide
  rw [hzero, BitVec.and_zero]

section Place

variable (ho : Owned c s G) (hb : Base c s G e) (hd : DiskFrames s G) (hrun : Running s e)
  {va : Nat} (hva : va < userTop) (hnone : ∀ f b, ¬ G.Target e (roundDown va 4096) f b)
include ho hb hd hva hnone

omit hd in
/-- `allocate_frame` and `map_frame`. -/
theorem Base.mapNew_spec :
    Ensures (fun _ => ¬ Enough s 4)
      (fun r => ∃ H rest, s.freeFrameList = r.1 :: rest ∧
        Placed c e r.1 (roundDown va 4096) permFaultPage 2 s G r.2 H)
      (do
        let (f, t) ← allocateFrame s
        let t ← mapFrame t (s.envs e).envPageDirectory f va permFaultPage
        .ok (f, t)) := by
  refine ((hb.space.allocateFrame_spec ho).mono (F := fun _ => ¬ Enough s 4)
    (fun _ hx hen => hx (hen.mono (by omega))) fun _ hr => hr).bind ?_
  rintro ⟨f, t⟩ ⟨-, hrest, hmem, hfree, hmoves⟩
  simp only at hrest hmem hfree hmoves
  have hnone' : ∀ g b, ¬ (G.setOwn f (some ⟨e, .held⟩)).Target e (roundDown va 4096) g b := by
    intro g b ht
    refine hnone g b ?_
    cases b with
    | false => exact (hmoves.keeps.own g _ rfl).1 ht
    | true =>
      obtain ⟨k, hk, hw⟩ := ht
      exact ⟨k, (hmoves.keeps.own g _ rfl).1 hk, hw⟩
  have hdir : (t.envs e).envPageDirectory = (s.envs e).envPageDirectory := by rw [hrest.envs]
  have hmap := hmoves.space.mapFrame_held hmoves.owned (G.setOwn_self _ _) hva hnone'
    permFaultPage_lt permFaultPage_has
  rw [hdir] at hmap
  refine (hmap.mono (F := fun _ => ¬ Enough s 4)
    (fun _ hx hen => hx ((hen.after (k := 1) (m := 3) hmoves.spent).mono (by omega)))
    fun _ hr => hr).bind ?_
  rintro u ⟨H, hp⟩
  exact ⟨H, t.freeFrameList, hfree, hp.afterAllocate hrest hmem hmoves⟩

variable {f : Nat} {t : Kernel} {H : Ghost}
  (hp : Placed c e f (roundDown va 4096) permFaultPage 2 s G t H)
include hp

omit hva hnone in
/-- The state in which `page_fault_handler` asks for the page's slot. -/
theorem Placed.before_read : EnvStep c e 2 s G t H ∧ SameWs e s t ∧
    (∀ v, v ≠ roundDown va 4096 → SamePage e v s G t H) ∧
    (t.pteWord e (roundDown va 4096)).has permModified = false := by
  refine ⟨hp.envStep hb hd, hp.sameWs hb ho hd, fun v hne => hp.samePage hne, ?_⟩
  rw [hp.pte_self]
  exact frameEntry_clean f

include hrun

/-- The page has a slot. -/
theorem Placed.arrive {d : Nat} (hslot : G.slots e (roundDown va 4096) = some d) :
    ∃ u, pfReadEnvPage t e va = .ok (.ok, u) ∧
      Arrived c e (roundDown va 4096) f s G u H := by
  obtain ⟨hst, hws, hother, -⟩ := hp.before_read ho hb hd
  have hrun' : Running t e := hrun.of_same hst.run hst.env
  have hslot' : H.slots e (roundDown va 4096) = some d := by
    rw [hp.slots]
    exact hslot
  obtain ⟨u, hread, hpage⟩ := hst.base.pfReadEnvPage_some hst.owned hst.frames hrun' hva hp.page
    hslot'
  have hst' := hpage.envStep hp.page hst.owned hst.base hst.frames
  have habsent : ∀ g, G.own g ≠ some ⟨e, .page (roundDown va 4096)⟩ := fun g hg => hnone g false hg
  refine ⟨u, hread, ?_⟩
  constructor
  case step => exact (hst.trans hst').mono (by omega)
  case held => exact hp.noHeld
  case ws =>
    exact hws.trans (hpage.sameWs hp.page hst.owned hst.base hst.frames) hst.env.pageWSMaxSize
  case last => rw [hpage.rest.envs, hp.rest.envs]
  case other => exact fun v hne => (hother v hne).trans (hpage.samePage hp.page hne)
  case absent => exact habsent
  case page => exact hp.page
  case arrival =>
    refine .inl ⟨d, ⟨habsent, hp.page, hslot, hslot', ?_, ?_, ?_⟩, ?_⟩
    · rw [hpage.page, hp.rest.disk]
    · rw [hpage.rest.disk, hp.rest.disk]
    · rw [hpage.pte_self]
      exact clear_modified _
    · rw [hpage.rest.diskFreeFrameList, hp.rest.diskFreeFrameList]
  case pte =>
    intro v g hne hg
    rw [hpage.pte v g false hne (((hother v hne).own g).2 hg), hp.pte v g hg]
  case used =>
    rw [hpage.pte_self]
    exact touched_used _

omit hrun in
/-- The page has none, and is granted one. -/
theorem Placed.grant (hslot : G.slots e (roundDown va 4096) = none) :
    Ensures (fun _ => ¬ Enough s 4)
      (fun r => ∃ I, Arrived c e (roundDown va 4096) f s G r.2 I)
      (pfAddEmptyEnvPage t e va false) := by
  obtain ⟨hst, hws, hother, hclean⟩ := hp.before_read ho hb hd
  have habsent : ∀ g, G.own g ≠ some ⟨e, .page (roundDown va 4096)⟩ := fun g hg => hnone g false hg
  have hslot' : H.slots e (roundDown va 4096) = none := by
    rw [hp.slots]
    exact hslot
  have hadd := SlotTable.pfAddEmptyEnvPage_spec hst.owned hst.base.slots hst.frames hva false
  refine hadd.mono (fun _ hx hen => hx (hen.after (k := 2) (m := 2) hst.spent)) ?_
  -- both answers leave the page in memory; a full page file leaves it without a slot
  have hboth : ∀ u I, Filed c e 2 t H u I → (u.envs e).diskEnvPgdir ≠ 0 → u.disk = t.disk →
      (∀ v, v ≠ roundDown va 4096 → I.slots e v = H.slots e v) →
      ((s.diskFreeFrameList = [] ∧ I.slots e (roundDown va 4096) = none) ∨
        ∃ d, s.diskFreeFrameList = d :: u.diskFreeFrameList ∧
          I.slots e (roundDown va 4096) = some d) →
      Arrived c e (roundDown va 4096) f s G u I := by
    intro u I hfile hdir hdisk hslots hself
    have hst' := hfile.envStep hst.base fun _ => hdir
    have hpage : I.own f = some ⟨e, .page (roundDown va 4096)⟩ :=
      (hfile.keeps.own f _ rfl).2 hp.page
    constructor
    case step => exact (hst.trans hst').mono (by omega)
    case held => exact fun hno => hfile.held (hp.noHeld hno)
    case ws => exact hws.trans (hfile.sameWs hst.base hst.owned) hst.env.pageWSMaxSize
    case last => rw [hfile.last, hp.rest.envs]
    case other =>
      intro v hne
      exact (hother v hne).trans
        (hfile.samePage hst.base (hslots v hne) fun d _ => by rw [hdisk])
    case absent => exact habsent
    case page => exact hpage
    case arrival =>
      refine .inr ⟨habsent, hpage, hslot, hself, ?_, ?_, ?_⟩
      · rw [hfile.keeps.mem f _ rfl hp.page, hp.mem_self]
      · rw [hdisk, hp.rest.disk]
      · rw [hfile.pteWord (b := false) hst.base.space hp.page]
        exact hclean
    case pte =>
      intro v g hne hg
      rw [hfile.pteWord (b := false) hst.base.space (((hother v hne).own g).2 hg), hp.pte v g hg]
    case used =>
      rw [hfile.pteWord (b := false) hst.base.space hp.page, hp.pte_self]
      exact frameEntry_used f
  rintro ⟨r, u⟩ ⟨I, ⟨-, hfull, hdisk⟩ | ⟨-, d, hsl, hdisk⟩⟩
  · refine ⟨I, hboth u I hfull.filed hfull.ddir hdisk (fun v _ => by rw [hfull.slots]) ?_⟩
    refine .inl ⟨?_, by rw [hfull.slots]; exact hslot'⟩
    rw [← hp.rest.diskFreeFrameList]
    exact hfull.empty
  · refine ⟨I, hboth u I hsl.filed hsl.ddir (by simpa using hdisk) (fun v hne => ?_) ?_⟩
    · rw [hsl.slots, H.setSlot_slots, if_neg fun hx => hne hx.2]
    · refine .inr ⟨d, ?_, hsl.self⟩
      rw [← hp.rest.diskFreeFrameList]
      rcases hsl.list with ⟨hx, -⟩ | ⟨-, hx⟩
      · rw [hslot'] at hx
        cases hx
      · exact hx

omit hrun hva in
/-- The page has none, and is refused. -/
theorem Placed.refuse :
    ∃ u I, unmapFrame t (s.envs e).envPageDirectory va = .ok u ∧ Quiet c e 2 s G u I := by
  obtain ⟨hst, hws, hother, -⟩ := hp.before_read ho hb hd
  obtain ⟨u, hun, hrem⟩ := hst.base.space.unmapFrame_page hst.owned hp.page
  rw [hp.rest.envs] at hun
  have hst' := hrem.envStep hst.base hst.frames
  refine ⟨u, H.setOwn f none, hun, ?_⟩
  constructor
  case step => exact (hst.trans hst').mono (by omega)
  case held => exact fun hno => (hp.noHeld hno).setOwn_none f
  case ws => exact hws.trans (hrem.sameWs hst.base hst.owned hst.frames) hst.env.pageWSMaxSize
  case last => rw [hrem.rest.envs, hp.rest.envs]
  case same =>
    intro v
    by_cases hv : v = roundDown va 4096
    · subst hv
      have hgone := hst.base.space.page_gone hp.page
      refine ⟨fun g => ⟨fun hg => absurd hg (hgone g), fun hg => absurd hg (hnone g false)⟩,
        fun g hg => absurd hg (hnone g false), fun g hg => absurd hg (hnone g false), ?_, ?_⟩
      · show H.slots e _ = _
        rw [hp.slots]
      · exact fun d _ => by rw [hrem.rest.disk, hp.rest.disk]
    · exact (hother v hv).trans (hrem.samePage hv)
  case diskList => rw [hrem.rest.diskFreeFrameList, hp.rest.diskFreeFrameList]

end Place

/-- Why the second half of the handler can stop: resources, or an address it refuses. -/
def StopsPlace (c : Boot) (e va : Nat) (s : Kernel) (G : Ghost) (x : Stop) : Prop :=
  ¬ Enough s 4 ∨ ∃ t H, x = .panic .notStack t ∧ Quiet c e 2 s G t H ∧
    G.slots e (roundDown va 4096) = none ∧ ¬ inStackArea va

/-- The second half of `page_fault_handler`. -/
theorem Base.placePage_spec (ho : Owned c s G) (hb : Base c s G e) (hd : DiskFrames s G)
    (hrun : Running s e) {va i : Nat} (hva : va < userTop)
    (hnone : ∀ f b, ¬ G.Target e (roundDown va 4096) f b) (hent : Entries s G e)
    (hi : i < s.wsMax e) (hempty : s.wsPage e i = none) :
    Ensures (StopsPlace c e va s G)
      (fun t => ∃ H, Brought c e (roundDown va 4096) i s G t H ∧
        (G.slots e (roundDown va 4096) = none → inStackArea va))
      (placePage s e va i) := by
  have hmap := (hb.mapNew_spec ho hva hnone).mono (F := StopsPlace c e va s G)
    (fun _ hx => .inl hx) fun _ hr => hr
  rw [ensures_bind] at hmap
  rw [placePage, ensures_bind]
  refine hmap.imp ?_
  rintro ⟨f, t₀⟩ hmap
  rw [ensures_bind] at hmap
  simp only [ensures_bind]
  refine hmap.imp ?_
  rintro t ⟨H, rest, hfree, hp⟩
  obtain ⟨hst, -⟩ := hp.before_read ho hb hd
  cases hslot : G.slots e (roundDown va 4096) with
  | some d =>
    obtain ⟨u, hread, harr⟩ := hp.arrive ho hb hd hrun hva hnone hslot
    obtain ⟨u₁, hset, hbr⟩ := harr.finish hent hi hempty hva hfree
    simp only [hread, ensures_ok, hset]
    exact ⟨H, hbr, fun hx => by cases hx⟩
  | none =>
    have hslot' : H.slots e (roundDown va 4096) = none := by
      rw [hp.slots]
      exact hslot
    have hread := hst.base.pfReadEnvPage_none hst.owned hst.frames hva hslot'
    simp only [hread, ensures_ok]
    by_cases hstack : va < userStackTop ∧ userStackBottom ≤ va
    · rw [if_pos hstack, ensures_bind]
      refine ((hp.grant ho hb hd hva hnone hslot).mono (F := StopsPlace c e va s G)
        (fun _ hx => .inl hx) fun _ hr => hr).imp ?_
      rintro ⟨r, u⟩ ⟨I, harr⟩
      obtain ⟨u₁, hset, hbr⟩ := harr.finish hent hi hempty hva hfree
      simp only [hset]
      exact ⟨I, hbr, fun _ => hstack⟩
    · obtain ⟨u, I, hun, href⟩ := hp.refuse ho hb hd hnone
      rw [if_neg hstack, ensures_bind]
      simp only [hun, ensures_ok]
      exact .inr ⟨u, I, rfl, href, hslot, hstack⟩

end FosMemory
