import FosMemory.Kernel.Loading

/-!
# Create — `env_create`

After the segment loop the modified bits are cleared, so that a page that has not been written since
is not written back, and the stack page is set up.  `Created` is what `env_create` leaves: the
loaded pages and the stack page are the elements of the working set in this order.
-/

namespace FosMemory

open Lib

variable {c : Boot} {s t u : Kernel} {G H I : Ghost} {e : Nat}

/-! ## Clearing the modified bits -/

/-- The pages of the first `i` elements are not modified. -/
def Clean (e i : Nat) (s t : Kernel) : Prop :=
  ∀ k < i, ∀ v, s.wsPage e k = some v → (t.pteWord e v).has permModified = false

theorem clear_modified_used {w : Word} (h : w.has permUsed = true) :
    (w &&& ~~~permModified).has permUsed = true := by
  rw [Word.has, beq_iff_eq] at h ⊢
  rw [BitVec.and_assoc, BitVec.and_comm (~~~permModified), ← BitVec.and_assoc, h]
  decide

section Clear

variable (ho : Owned c s G) (hb : Base c s G e) (hd : DiskFrames s G) (hent : Entries s G e)
include ho hb hd hent

/-- One round of the loop that clears the modified bits. -/
theorem Base.clearModified_spec {i : Nat} (hi : i < s.wsMax e) :
    Ensures (fun _ => False)
      (fun t => Settles c e (fun _ => none) (fun _ => none) 0 s G t G ∧
        (∀ v, s.wsPage e i = some v → (t.pteWord e v).has permModified = false) ∧
        ∀ v f, G.own f = some ⟨e, .page v⟩ → (s.pteWord e v).has permModified = false →
          (t.pteWord e v).has permModified = false)
      (clearModified e i s) := by
  rw [clearModified, hb.array.wsEmpty_eq ho hi, ok_bind]
  by_cases hflag : s.wsFlag e i = 0#8
  · have hv : s.wsPage e i = some (s.wsVa e i) := wsPage_eq_some hflag
    obtain ⟨v, hveq⟩ : ∃ v, v = s.wsVa e i := ⟨_, rfl⟩
    rw [← hveq] at hv
    obtain ⟨hal, hvt, f, tb, hf, htb⟩ := hent.target hb hi hv
    have hsp := hb.space
    have hget := getPageTable_user ho.inv.map (hsp.dirAt ho) hvt (hsp.table tb _ htb).2
    have hload := hsp.load_entry ho htb
    rw [roundDown_eq hal] at hload
    have hentry : EntryFor f (s.pteWord e v) false := by
      obtain ⟨-, -, tb', htb', hw⟩ := hsp.target v f false hf
      rw [hsp.pteWord_eq htb']
      exact hw
    have hset := hsp.pteSet (b := false) hf htb (entryFor_clear hentry permModified_isMark)
    rw [if_pos (by rw [hflag]; rfl), hb.array.wsVirtualAddress_eq ho hi, ok_bind, ← hveq, hget,
      ok_bind]
    simp only [hload, ok_bind, Space.store_entry ho htb]
    refine ⟨hset.settles hf clear_modified_used ho hb hd, fun v' hv' => ?_, fun v' g hg hx => ?_⟩
    · obtain rfl : v = v' := Option.some.inj (hv.symm.trans hv')
      rw [hset.pte_self]
      exact clear_modified _
    · by_cases hvv : v' = v
      · subst hvv
        rw [hset.pte_self]
        exact clear_modified _
      · rw [hset.pte v' g false hvv hg]
        exact hx
  · have hne : ¬ (s.wsFlag e i).toNat = 0 := fun hx => hflag (BitVec.eq_of_toNat_eq hx)
    rw [if_neg hne]
    refine ⟨Settles.refl ho hb hd, fun v hv => ?_, fun _ _ _ hx => hx⟩
    rw [wsPage_eq_none hflag] at hv
    cases hv

/-- The loop that clears the modified bits. -/
theorem Base.clearAll_spec :
    Ensures (fun _ => False)
      (fun t => Settles c e (fun _ => none) (fun _ => none) 0 s G t G ∧ Clean e (s.wsMax e) s t)
      (forRange (clearModified e) 0 (s.wsMax e) s) := by
  have hloop := forRange_ensures (E := fun _ : Stop => False) (a := 0) (n := s.wsMax e) (s := s)
    (I := fun i t => Settles c e (fun _ => none) (fun _ => none) 0 s G t G ∧ Clean e i s t)
    (b := clearModified e) ?_ ⟨Settles.refl ho hb hd, fun k hk => absurd hk (by omega)⟩
  · rw [Nat.zero_add] at hloop
    exact hloop
  · rintro i t - hi ⟨h, hclean⟩
    rw [Nat.zero_add] at hi
    have hi' : i < t.wsMax e := by
      rw [h.max]
      exact hi
    refine (h.step.base.clearModified_spec h.step.owned h.step.frames (h.entries hent) hi').imp ?_
    rintro u ⟨h', hthis, hkeep⟩
    have htwo := h.trans h'
    refine ⟨htwo.of_eq (fun _ => rfl) fun _ => rfl, fun k hk v hv => ?_⟩
    by_cases hki : k = i
    · subst hki
      exact hthis v (by rw [h.ws.page hi]; exact hv)
    · obtain ⟨f, hf⟩ := hent.page k (by omega) v hv
      exact hkeep v f hf (hclean k (by omega) v hv)

end Clear

/-! ## The stack page -/

/-- The stack page has been set up. -/
structure Stacked (c : Boot) (e : Nat) (s : Kernel) (G : Ghost) (t : Kernel) (H : Ghost) :
    Prop where
  step : EnvStep c e 4 s G t H
  held : NoHeld G → NoHeld H
  entries : Entries t H e
  covered : Covered s G e → Covered t H e
  last : (t.envs e).pageLastWSIndex = ((s.envs e).pageLastWSIndex + 1) % s.wsMax e
  page : ∃ f, H.own f = some ⟨e, .page stackPage⟩
  other : ∀ v, v ≠ stackPage → SamePage e v s G t H
  pte : ∀ v g, v ≠ stackPage → G.own g = some ⟨e, .page v⟩ → t.pteWord e v = s.pteWord e v
  element : ∀ k < s.wsMax e, t.wsPage e k =
    if k = (s.envs e).pageLastWSIndex then some stackPage else s.wsPage e k
  stamp : ∀ k < s.wsMax e, t.wsStamp e k =
    if k = (s.envs e).pageLastWSIndex then 0x80000000#32 else s.wsStamp e k
  zero : ∀ f, H.own f = some ⟨e, .page stackPage⟩ → ∀ j, t.mem f j = 0#32
  used : (t.pteWord e stackPage).has permUsed = true
  modified : (t.pteWord e stackPage).has permModified = true
  slot : (t.diskFreeFrameList = [] ∧ H.slots e stackPage = none) ∨
    ∃ d, H.slots e stackPage = some d ∧ PageIs (t.disk d) (pageByte (s.mem 1))
  diskList : s.diskFreeFrameList.length ≤ t.diskFreeFrameList.length + 1
  ddir : (t.envs e).diskEnvPgdir ≠ 0

/-- The page is in memory and has its element; then it is given a slot. -/
theorem Pushed.stacked {k : Nat} (h : Pushed c e stackPage 0x80000000#32 s G t H)
    (hfiled : Filed c e k t H u I) (hk : k ≤ 2) (hddir : (u.envs e).diskEnvPgdir ≠ 0)
    (hother : ∀ v, v ≠ stackPage → I.slots e v = H.slots e v ∧
      ∀ d, H.slots e v = some d → u.disk d = t.disk d)
    (hslot : (u.diskFreeFrameList = [] ∧ I.slots e stackPage = none) ∨
      ∃ d, I.slots e stackPage = some d ∧ PageIs (u.disk d) (pageByte (s.mem 1)))
    (hlist : s.diskFreeFrameList.length ≤ u.diskFreeFrameList.length + 1)
    (hzero : ∀ f, H.own f = some ⟨e, .page stackPage⟩ → ∀ j, t.mem f j = 0#32)
    (hmark : (t.pteWord e stackPage).has permUsed = true ∧
      (t.pteWord e stackPage).has permModified = true) : Stacked c e s G u I := by
  have hst := hfiled.envStep h.step.base fun _ => hddir
  have hws := hfiled.sameWs h.step.base h.step.owned
  have hmax : t.wsMax e = s.wsMax e := h.step.env.pageWSMaxSize
  have hmaxu : u.wsMax e = t.wsMax e := hst.env.pageWSMaxSize
  have hown : ∀ f v, I.own f = some ⟨e, .page v⟩ ↔ H.own f = some ⟨e, .page v⟩ :=
    fun f v => hfiled.keeps.own f _ rfl
  have hpte : ∀ v f, H.own f = some ⟨e, .page v⟩ → u.pteWord e v = t.pteWord e v :=
    fun v f hf => hfiled.pteWord (b := false) h.step.base.space hf
  obtain ⟨f, hf⟩ := h.page
  constructor
  case step => exact (h.step.trans hst).mono (by omega)
  case held => exact fun hno => hfiled.held (h.held hno)
  case entries => exact h.entries.congr hws hmaxu hfiled.last hown
  case covered => exact fun hcov => (h.covered hcov).congr hws hmaxu hown
  case last => rw [hfiled.last, h.last]
  case page => exact ⟨f, (hown f _).2 hf⟩
  case other =>
    intro v hne
    obtain ⟨hs, hd⟩ := hother v hne
    exact (h.other v hne).trans (hfiled.samePage h.step.base hs hd)
  case pte =>
    intro v g hne hg
    rw [hpte v g (((h.other v hne).own g).2 hg), h.pte v g hne hg]
  case element =>
    intro i hi
    rw [hws.page (by rw [hmax]; exact hi)]
    exact h.element i hi
  case stamp =>
    intro i hi
    rw [hws.stamp (by rw [hmax]; exact hi)]
    exact h.stamp i hi
  case zero =>
    intro g hg j
    have hg' := (hown g _).1 hg
    rw [hfiled.keeps.mem g _ rfl hg']
    exact hzero g hg' j
  case used =>
    rw [hpte _ f hf]
    exact hmark.1
  case modified =>
    rw [hpte _ f hf]
    exact hmark.2
  case slot => exact hslot
  case diskList => exact hlist
  case ddir => exact hddir

/-- Step 9 of `env_create`. -/
theorem Base.createStack_spec (ho : Owned c s G) (hb : Base c s G e) (hd : DiskFrames s G)
    (hent : Entries s G e) (hcr3 : s.cr3 = (s.envs e).envCr3) (hnone : Absent G e stackPage)
    (hempty : s.wsPage e (s.envs e).pageLastWSIndex = none) :
    Ensures (fun _ => ¬ Enough s 4) (fun t => ∃ H, Stacked c e s G t H) (createStack s e) := by
  have hal : roundDown stackPage 4096 = stackPage := roundDown_eq (by decide)
  have hframe := (hb.loadFrame_spec ho hd (v := stackPage) (by decide) (by decide) hnone).mono
    (F := fun _ => ¬ Enough s 4) (fun _ hx hen => hx (hen.mono (by decide))) fun _ hr => hr
  rw [ensures_bind] at hframe
  rw [createStack]
  refine hframe.bind ?_
  rintro ⟨f₀, t₀⟩ hframe
  refine hframe.bind ?_
  rintro t ⟨f, H, hm⟩
  -- the page is cleared through its user address
  have hcr3' : t.cr3 = (t.envs e).envCr3 := by
    rw [hm.step.run.cr3, hm.step.env.envCr3, hcr3]
  have hpage := hm.page
  rw [← hal] at hpage
  obtain ⟨t₁, htouch, hset⟩ := hm.step.base.space.touch_some (b := false) hcr3'
    (show stackPage < userTop by decide) false true hpage (Or.inl rfl)
  rw [hal] at hpage hset
  have hzero := hset.thenPage (hset.space.setPage hpage fun _ => 0#32)
  have hm₂ := hm.set hzero
  obtain ⟨t₂, ht₂⟩ : ∃ t₂, t₂ = t₁.setPage f fun _ => 0#32 := ⟨_, rfl⟩
  rw [Kernel.kernelTouch, htouch]
  simp only [ok_bind]
  rw [← ht₂] at hzero hm₂ ⊢
  -- the element
  have hi : (s.envs e).pageLastWSIndex < t₂.wsMax e := by
    have hmax : t₂.wsMax e = s.wsMax e := hm₂.step.env.pageWSMaxSize
    rw [hmax]
    exact hent.last
  obtain ⟨t₃, hentry, hw⟩ := hm₂.step.base.array.envPageWSSetEntry_spec hm₂.step.owned hi
    (show stackPage < userTop by decide)
  rw [hal] at hw
  rw [hm₂.last, hentry, ok_bind]
  obtain ⟨t₄, ht₄, hpush, hmem, hpte⟩ := hm₂.push hent hempty hw
  rw [← ht₄]
  have hcontents : ∀ g, H.own g = some ⟨e, .page stackPage⟩ → ∀ j, t₄.mem g j = 0#32 := by
    intro g hg j
    rw [hpush.step.base.space.page_unique hm₂.page hg, hmem, hzero.page]
  have hmark : (t₄.pteWord e stackPage).has permUsed = true ∧
      (t₄.pteWord e stackPage).has permModified = true := by
    rw [hpte, hzero.pte_self, hset.pte_self]
    exact ⟨has_mono (has_or_self _ _) (by decide), has_mono (has_or_self _ _) (by decide)⟩
  -- the slot
  have hzeropage : t₄.mem 1 = s.mem 1 := hpush.step.others.zeroPage
  refine ((SlotTable.pfAddEmptyEnvPage_spec hpush.step.owned hpush.step.base.slots
    hpush.step.frames (v := stackPage) (by decide) true).mono (F := fun _ => ¬ Enough s 4)
    (fun _ hx hen => hx (Enough.after hen hpush.step.spent)) fun _ hr => hr).bind ?_
  rintro ⟨r, u⟩ ⟨I, ⟨-, hfull, hdisk⟩ | ⟨-, d, hsl, hdisk⟩⟩
  · simp only at hfull hdisk
    rw [hal] at hfull
    refine ⟨I, hpush.stacked hfull.filed (Nat.le_refl _) hfull.ddir (fun v _ => ?_)
      (.inl ⟨?_, ?_⟩) ?_ hcontents hmark⟩
    · rw [hfull.slots, hdisk]
      exact ⟨rfl, fun _ _ => rfl⟩
    · rw [hfull.list]
      exact hfull.empty
    · rw [hfull.slots]
      exact hfull.none
    · rw [hfull.list, hpush.diskList]
      exact Nat.le_succ _
  · simp only at hsl hdisk
    rw [hal] at hsl
    rw [if_true, hsl.filed.low 1 (by decide), hzeropage] at hdisk
    refine ⟨I, hpush.stacked hsl.filed (Nat.le_refl _) hsl.ddir (fun v hne => ?_)
      (.inr ⟨d, hsl.self, ?_⟩) ?_ hcontents hmark⟩
    · have hslot : I.slots e v = H.slots e v := by
        rw [hsl.slots, H.setSlot_slots, if_neg fun hx => hne hx.2]
      refine ⟨hslot, fun d' hd' => ?_⟩
      have hdd : d' ≠ d := by
        rintro rfl
        exact hne (hsl.filed.frames.inj e v e stackPage d' (by rw [hslot]; exact hd') hsl.self).2
      rw [hdisk, Function.update_of_ne hdd]
    · rw [hdisk, Function.update_self]
      exact fun _ _ => rfl
    · rw [← hpush.diskList]
      rcases hsl.list with ⟨-, hl⟩ | ⟨-, hl⟩
      · rw [hl]
        exact Nat.le_succ _
      · rw [hl, List.length_cons]

/-! ## env_create -/

/-- The elements of the working set of a new environment, in order. -/
def initialPages (prog : UserProgram) (n : Nat) : List Nat :=
  loadedPages prog.name prog.segments (n - 1) ++ [stackPage]

/-- The number of pages that are mapped or written for a new environment. -/
def createCost (prog : UserProgram) (n : Nat) : Nat :=
  programCost prog.name prog.segments (n - 1) + 2

/-- What `env_create` leaves. -/
structure Created (c : Boot) (e n : Nat) (prog : UserProgram) (s : Kernel) (G : Ghost) (t : Kernel)
    (H : Ghost) : Prop where
  owned : Owned c t H
  frames : DiskFrames t H
  others : Local e s G t H
  lost : H.lost = G.lost
  held : NoHeld G → NoHeld H
  alive : Alive c t H e
  size : t.wsMax e = n
  envFreeList : t.envFreeList = s.envFreeList.erase e
  curenv : t.curenv = s.curenv
  cr3 : t.cr3 = s.cr3
  policy : t.pageRepAlgoType = s.pageRepAlgoType
  pages : ∀ v, (∃ f, H.own f = some ⟨e, .page v⟩) ↔ v ∈ initialPages prog n
  element : ∀ i < n, t.wsPage e i = (initialPages prog n)[i]?
  stamp : ∀ i < (initialPages prog n).length, t.wsStamp e i =
    if i + 1 = (initialPages prog n).length then 0x80000000#32 else 0#32
  last : (t.envs e).pageLastWSIndex = (initialPages prog n).length % n
  file : ∀ v b, v ≠ stackPage →
    programFile (pageByte (s.mem 1)) prog.segments (fun _ => none) v = some b →
    ∃ d, H.slots e v = some d ∧ PageIs (t.disk d) b
  rest : ∀ v, v ≠ stackPage →
    programFile (pageByte (s.mem 1)) prog.segments (fun _ => none) v = none → H.slots e v = none
  byte : ∀ a f b, programMemory prog.name prog.segments (n - 1) (fun _ => none) a = some b →
    H.own f = some ⟨e, .page (roundDown a 4096)⟩ → pageByte (t.mem f) a = b
  used : ∀ v f, H.own f = some ⟨e, .page v⟩ → (t.pteWord e v).has permUsed = true
  clean : ∀ v f, v ≠ stackPage → H.own f = some ⟨e, .page v⟩ →
    (t.pteWord e v).has permModified = false
  stackZero : ∀ f, H.own f = some ⟨e, .page stackPage⟩ → ∀ j, t.mem f j = 0#32
  stackModified : (t.pteWord e stackPage).has permModified = true
  stackSlot : (t.diskFreeFrameList = [] ∧ H.slots e stackPage = none) ∨
    ∃ d, H.slots e stackPage = some d ∧ PageIs (t.disk d) (pageByte (s.mem 1))
  diskList : s.diskFreeFrameList.length ≤ t.diskFreeFrameList.length + createCost prog n
  spent : Spent s t (1 + 2 * pagesOf (n * 12) + 2 * createCost prog n)

theorem initialPages_length_le (prog : UserProgram) {n : Nat} (hn : 1 ≤ n) :
    (initialPages prog n).length ≤ n := by
  have h := loadedPages_length_le prog.name prog.segments (n - 1)
  rw [initialPages, List.length_append, List.length_singleton]
  omega

/-- Frames, heap pages, disk frames or entries of the table working set may be missing. -/
def StopsCreate (s : Kernel) (prog : UserProgram) (n : Nat) : Prop :=
  ¬ Enough s (1 + 2 * pagesOf (n * 12) + 2 * createCost prog n) ∨
    s.diskFreeFrameList.length < createCost prog n ∨ 50 < n

section Created

variable {n : Nat} {prog : UserProgram}

/-- A fresh environment is at the start of the segment loop. -/
theorem Fresh.loading (h : Fresh c e n s G t H) (hn : 1 ≤ n) (x : Nat) {u : Kernel}
    (hu : u = t.withRun t.envFreeList t.curenv x t.pageRepAlgoType) :
    Loading c e [] (fun _ => none) (fun _ => none) 0 u H u H := by
  have howned : Owned c u H := by
    rw [hu]
    exact h.owned.withRun
  have hbase : Base c u H e := by
    rw [hu]
    exact h.base.withRun
  have hframes : DiskFrames u H := by
    rw [hu]
    exact h.frames.withRun
  have hmax : u.wsMax e = n := by
    rw [hu]
    exact h.size
  have hlast : (u.envs e).pageLastWSIndex = 0 := by
    rw [hu]
    exact h.last
  have hempty : ∀ i < n, u.wsVa e i = 0 ∧ u.wsFlag e i = 1#8 := by
    rw [hu]
    exact h.empty
  have hpage : ∀ i < n, u.wsPage e i = none := fun i hi =>
    wsPage_eq_none (by rw [(hempty i hi).2]; decide)
  constructor
  case step => exact EnvStep.refl howned hbase hframes
  case held => exact id
  case entries =>
    constructor
    case last =>
      rw [hlast, hmax]
      exact hn
    case flag =>
      intro i hi
      rw [hmax] at hi
      exact .inr ⟨(hempty i hi).2, (hempty i hi).1⟩
    case page =>
      intro i hi v hv
      rw [hmax] at hi
      rw [hpage i hi] at hv
      cases hv
    case inj =>
      intro i hi j _ v hv
      rw [hmax] at hi
      rw [hpage i hi] at hv
      cases hv
  case covered => exact fun v f hf => absurd hf (h.pages f v)
  case pages =>
    intro v
    constructor
    · rintro ⟨f, hf⟩
      exact absurd hf (h.pages f v)
    · intro hv
      cases hv
  case element =>
    intro i hi
    rw [hmax] at hi
    rw [hpage i hi, List.getElem?_nil]
  case stamp => exact fun i hi => absurd hi (Nat.not_lt_zero i)
  case last => exact hlast
  case room =>
    rw [hmax]
    exact hn
  case files => exact Files.of_disk e H rfl
  case known => exact fun a ha => absurd rfl ha
  case byte =>
    intro a f b hb
    cases hb
  case used => exact fun a f ha => absurd rfl ha
  case diskList => exact Nat.le_refl _
  case tables =>
    rw [hu]
    exact Nat.le_of_eq h.tables

/-- No segment has the stack page. -/
theorem Loadable.off_stack (h : Loadable n prog) : ∀ seg ∈ prog.segments, ¬ seg.HasPage stackPage := by
  rintro seg hmem ⟨-, hlo, hhi⟩
  rcases (h.ok seg hmem).stack with hx | hx <;> omega

theorem Loadable.bounds (h : Loadable n prog) : ∀ seg ∈ prog.segments, Bounds seg :=
  fun seg hmem => (h.ok seg hmem).bounds

theorem Loadable.stack_not_mem (h : Loadable n prog) (name : String) (remaining : Nat) :
    stackPage ∉ loadedPages name prog.segments remaining := by
  intro hx
  obtain ⟨seg, hmem, hpage⟩ := mem_loadedPages h.bounds hx
  exact h.off_stack seg hmem hpage

/-- The stack page lies behind the window. -/
theorem WsArray.window_below_stack (h : WsArray s G e) (ho : Owned c s G) :
    userPagesWSStart + 4096 * pagesOf (s.wsMax e * 12) ≤ stackPage := by
  obtain ⟨-, hlow, hhigh⟩ := h.bounds ho
  rw [Kernel.wsPages] at hhigh
  simp only [userPagesWSStart, stackPage, Kernel.wsMax]
  omega

/-- From the end of the segment loop to the end of `env_create`. -/
theorem Loading.finish {order : List Nat} {W : Nat → Option (Nat → BitVec 8)}
    {M : Nat → Option (BitVec 8)} {k : Nat} (h : Loading c e order W M k s G t H)
    (hcr3 : s.cr3 = (s.envs e).envCr3) (hstack : stackPage ∉ order)
    (hbelow : userPagesWSStart + 4096 * pagesOf (s.wsMax e * 12) ≤ stackPage) :
    Ensures (fun _ => ¬ Enough s (2 * (k + 2)))
      (fun u => ∃ w I, Settles c e (fun _ => none) (fun _ => none) 0 t H w H ∧
        Clean e (t.wsMax e) t w ∧ Stacked c e w H u I)
      (forRange (clearModified e) 0 (t.wsMax e) t >>= fun s => createStack s e) := by
  refine ((h.step.base.clearAll_spec h.step.owned h.step.frames h.entries).mono
    (F := fun _ => ¬ Enough s (2 * (k + 2))) (fun _ hx => hx.elim) fun _ hr => hr).bind ?_
  rintro w ⟨hset, hclean⟩
  have habs : Absent H e stackPage := h.absent (by decide) hstack (.inr hbelow)
  have hempty : w.wsPage e (w.envs e).pageLastWSIndex = none := by
    rw [hset.last, hset.ws.page (by rw [h.last, h.max]; exact h.room)]
    exact h.next_empty
  have hen : Enough s (2 * (k + 2)) → Enough w 4 := by
    intro hx
    rw [Nat.mul_add] at hx
    exact (hx.after (h.step.trans hset.step).spent)
  refine (hset.step.base.createStack_spec hset.step.owned hset.step.frames
    (hset.entries h.entries) (hset.cr3 (h.cr3 hcr3)) habs hempty).mono
    (fun _ hx hs => hx (hen hs)) ?_
  rintro u ⟨I, hst⟩
  exact ⟨w, I, hset, hclean, hst⟩

/-- The parts of `env_create` put together. -/
theorem Fresh.created {x k : Nat} {s₁ t₁ t₂ t₃ t₄ : Kernel} {H₀ H₁ H₂ : Ghost} {order : List Nat}
    {W : Nat → Option (Nat → BitVec 8)} {M : Nat → Option (BitVec 8)}
    (hprog : Local e s G s₁ G) (hrun : SameRun s s₁) (hdisk : s₁.diskFreeFrameList = s.diskFreeFrameList)
    (hspent : Spent s s₁ 0) (hf : Fresh c e n s₁ G t H₀)
    (ht₁ : t₁ = t.withRun t.envFreeList t.curenv x t.pageRepAlgoType)
    (hl : Loading c e order W M k t₁ H₀ t₂ H₁)
    (hset : Settles c e (fun _ => none) (fun _ => none) 0 t₂ H₁ t₃ H₁)
    (hclean : Clean e (t₂.wsMax e) t₂ t₃) (hst : Stacked c e t₃ H₁ t₄ H₂)
    (horder : order = loadedPages prog.name prog.segments (n - 1)) (hno : stackPage ∉ order)
    (hW : W = programFile (pageByte (s.mem 1)) prog.segments fun _ => none)
    (hM : M = programMemory prog.name prog.segments (n - 1) fun _ => none)
    (htouch : ∀ v ∈ order, ∃ a, roundDown a 4096 = v ∧ M a ≠ none)
    (hk : k + 2 ≤ createCost prog n) (hu : u = { t₄ with cr3 := t.cr3 }) :
    Created c e n prog s G u H₂ := by
  have hu' : u = t₄.withRun t₄.envFreeList t₄.curenv t.cr3 t₄.pageRepAlgoType := hu
  have hsize : t₁.wsMax e = n := by
    rw [ht₁]
    exact hf.size
  have hlen : (initialPages prog n).length = order.length + 1 := by
    rw [initialPages, ← horder, List.length_append, List.length_singleton]
  have hroom := hl.room
  rw [hsize] at hroom
  have hmax₂ : t₂.wsMax e = n := hl.max.trans hsize
  have hmax₃ : t₃.wsMax e = n := hset.max.trans hmax₂
  have hmax₄ : t₄.wsMax e = n := hst.step.env.pageWSMaxSize.trans hmax₃
  have hlast₃ : (t₃.envs e).pageLastWSIndex = order.length := by rw [hset.last, hl.last]
  -- the zero page is the same throughout
  have hlocal₁ : Local e s G t₁ H₀ := by
    rw [ht₁]
    exact (hprog.trans hf.others).trans (Local.withRun e t H₀)
  have hlocal₃ : Local e s G t₃ H₁ := (hlocal₁.trans hl.step.others).trans hset.step.others
  have hrun₄ : SameRun t₁ t₄ := (hl.step.run.trans hset.step.run).trans hst.step.run
  -- pages of segments
  have hpages : ∀ v f, v ≠ stackPage → (H₂.own f = some ⟨e, .page v⟩ ↔ H₁.own f = some ⟨e, .page v⟩) :=
    fun v f hne => (hst.other v hne).own f
  have hunused : ∀ v ∈ order, v ≠ stackPage := by
    rintro v hv rfl
    exact hno hv
  subst hu'
  constructor
  case owned => exact hst.step.owned.withRun
  case frames => exact hst.step.frames.withRun
  case others => exact (hlocal₃.trans hst.step.others).trans (Local.withRun e t₄ H₂)
  case lost => rw [hst.step.lost, hset.step.lost, hl.step.lost, hf.lost]
  case held => exact fun hx => hst.held (hset.held (hl.held (hf.held hx)))
  case alive =>
    exact (show Alive c t₄ H₂ e from ⟨hst.step.base, hst.entries,
      hst.covered (hset.covered hl.covered), hst.ddir⟩).withRun
  case size => exact hmax₄
  case envFreeList =>
    show t₄.envFreeList = _
    rw [hrun₄.envFreeList, ht₁]
    show t.envFreeList = _
    rw [hf.envFreeList, hrun.envFreeList]
  case curenv =>
    show t₄.curenv = _
    rw [hrun₄.curenv, ht₁]
    show t.curenv = _
    rw [hf.curenv, hrun.curenv]
  case cr3 =>
    show t.cr3 = _
    rw [hf.cr3, hrun.cr3]
  case policy =>
    show t₄.pageRepAlgoType = _
    rw [hrun₄.pageRepAlgoType, ht₁]
    show t.pageRepAlgoType = _
    rw [hf.policy, hrun.pageRepAlgoType]
  case pages =>
    intro v
    rw [initialPages, ← horder, List.mem_append, List.mem_singleton]
    by_cases hv : v = stackPage
    · rw [hv]
      exact ⟨fun _ => .inr rfl, fun _ => hst.page⟩
    · rw [← hl.pages v]
      constructor
      · rintro ⟨f, hx⟩
        exact .inl ⟨f, (hpages v f hv).1 hx⟩
      · rintro (⟨f, hx⟩ | hx)
        · exact ⟨f, (hpages v f hv).2 hx⟩
        · exact absurd hx hv
  case element =>
    intro i hi
    show t₄.wsPage e i = _
    rw [hst.element i (by rw [hmax₃]; exact hi), hlast₃, initialPages, ← horder]
    by_cases hx : i = order.length
    · rw [if_pos hx, hx, List.getElem?_concat_length]
    · rw [if_neg hx, hset.ws.page (by rw [hmax₂]; exact hi), hl.element i (by rw [hsize]; exact hi)]
      by_cases hlt : i < order.length
      · rw [List.getElem?_append_left hlt]
      · rw [List.getElem?_eq_none (by omega), List.getElem?_eq_none (by
          rw [List.length_append, List.length_singleton]
          omega)]
  case stamp =>
    intro i hi
    rw [hlen] at hi ⊢
    show t₄.wsStamp e i = _
    rw [hst.stamp i (by rw [hmax₃]; omega), hlast₃]
    by_cases hx : i = order.length
    · rw [if_pos hx, if_pos (by omega)]
    · rw [if_neg hx, if_neg (by omega), hset.ws.stamp (by rw [hmax₂]; omega)]
      exact hl.stamp i (by omega)
  case last =>
    show (t₄.envs e).pageLastWSIndex = _
    rw [hst.last, hlast₃, hmax₃, hlen]
  case file =>
    intro v b hne hw
    rw [← hW] at hw
    obtain ⟨d, hd, hpage⟩ := hl.files.written v b hw
    obtain ⟨hslot, hkeep⟩ := hset.files.kept v rfl
    have hd₃ : H₁.slots e v = some d := hd
    refine ⟨d, ?_, ?_⟩
    · rw [(hst.other v hne).slot, hd₃]
    · show PageIs (t₄.disk d) b
      rw [(hst.other v hne).disk d hd₃, hkeep d hd]
      exact hpage
  case rest =>
    intro v hne hw
    rw [← hW] at hw
    rw [(hst.other v hne).slot, (hl.files.kept v hw).1]
    exact hf.slots v
  case byte =>
    intro a f b ha hown
    rw [← hM] at ha
    have hmem := hl.known a (by rw [ha]; simp)
    have hne := hunused _ hmem
    have hown₁ := (hpages _ f hne).1 hown
    show pageByte (t₄.mem f) a = b
    rw [(hst.other _ hne).mem f hown₁, hset.byte a f hown₁, Option.getD_none,
      hl.byte a f b ha hown₁]
  case used =>
    intro v f hown
    show (t₄.pteWord e v).has permUsed = true
    by_cases hv : v = stackPage
    · rw [hv]
      exact hst.used
    · have hown₁ := (hpages v f hv).1 hown
      obtain ⟨a, rfl, ha⟩ := htouch v ((hl.pages v).1 ⟨f, hown₁⟩)
      rw [hst.pte _ f hv hown₁]
      exact hset.used _ f hown₁ (hl.used a f ha hown₁)
  case clean =>
    intro v f hv hown
    show (t₄.pteWord e v).has permModified = false
    have hown₁ := (hpages v f hv).1 hown
    obtain ⟨i, hi, hpage⟩ := hl.covered v f hown₁
    rw [hst.pte v f hv hown₁]
    exact hclean i hi v hpage
  case stackZero => exact hst.zero
  case stackModified => exact hst.modified
  case stackSlot =>
    have hslot := hst.slot
    rw [hlocal₃.zeroPage] at hslot
    exact hslot
  case diskList =>
    have h₁ : t₁.diskFreeFrameList = s.diskFreeFrameList := by
      rw [ht₁]
      show t.diskFreeFrameList = _
      rw [hf.diskList, hdisk]
    have h₂ := hl.diskList
    have h₃ := hset.diskList
    have h₄ := hst.diskList
    show _ ≤ t₄.diskFreeFrameList.length + _
    rw [h₁] at h₂
    omega
  case spent =>
    have h₁ : Spent s t₁ (1 + 2 * pagesOf (n * 12)) := by
      rw [ht₁]
      exact (hspent.trans hf.spent).mono (by omega)
    exact (((h₁.trans hl.step.spent).trans hset.step.spent).trans hst.step.spent).mono (by omega)

/-- `env_create`. -/
theorem Unused.envCreate_spec {rest : List Nat} (ho : Owned c s G) (hd : DiskFrames s G)
    (hlist : s.envFreeList = e :: rest) (hun : Unused G e) (hddir : (s.envs e).diskEnvPgdir = 0)
    (hn : 1 ≤ n) (hwrap : n * 12 + 4095 < wordMod) (hprog : Loadable n prog) :
    Ensures (fun _ => StopsCreate s prog n)
      (fun r => r.1 = some e ∧ ∃ H, Created c e n prog s G r.2 H) (envCreate s prog n) := by
  obtain ⟨s₁, hs₁⟩ : ∃ s₁, s₁ = s.setEnv e { s.envs e with progName := prog.name } := ⟨_, rfl⟩
  have henv₁ : s₁.envs e = { s.envs e with progName := prog.name } := by
    rw [hs₁, setEnv_envs_self]
  have hb₁ : Builds c e s G s₁ G := by
    rw [hs₁]
    exact (Builds.refl ho hd).setEnv _
  have hsame₁ : SameFrames s s₁ := by
    rw [hs₁]
    exact SameFrames.setEnv s e _
  have hfree : Spent s s₁ 0 := by
    rw [hs₁]
    exact Spent.refl s
  have hen₁ : ∀ k, Enough s k → Enough s₁ k := by
    rintro k ⟨h₁, h₂⟩
    exact ⟨by rw [hsame₁.freeFrameList]; exact h₁, by rw [hsame₁.firstFreeVAInKHeap]; exact h₂⟩
  have hinit := hun.initialize_spec hb₁.owned hb₁.frames (by rw [henv₁]; exact hddir) hn hwrap
  rw [envCreate, hlist]
  simp only
  rw [← hs₁]
  -- up to the end of `initialize_environment`
  have hinit' : Ensures (fun _ => StopsCreate s prog n) _ _ :=
    hinit.mono (fun _ hx => .inl fun hen => hx (hen₁ _ (hen.mono (Nat.le_add_right _ _))))
      fun _ hr => hr
  rw [ensures_bind] at hinit'
  refine hinit'.bind ?_
  rintro ⟨dir, u₁⟩ hinit'
  rw [ensures_bind] at hinit'
  refine hinit'.bind ?_
  rintro phys hinit'
  refine hinit'.bind ?_
  rintro t ⟨H₀, hf⟩
  -- the segments, in the new address space
  obtain ⟨t₁, ht₁⟩ : ∃ t₁, t₁ = { t with cr3 := (t.envs e).envCr3 } := ⟨_, rfl⟩
  have hl₀ := hf.loading hn (t.envs e).envCr3 (u := t₁) (by rw [ht₁]; rfl)
  have hcr3 : t₁.cr3 = (t₁.envs e).envCr3 := by
    rw [ht₁]
  have hmax₁ : t₁.wsMax e = n := by
    rw [ht₁]
    exact hf.size
  have hname : (t₁.envs e).progName = prog.name := by
    rw [ht₁]
    show (t.envs e).progName = _
    rw [hf.program, henv₁]
  have hzero : t₁.mem 1 = s.mem 1 := by
    rw [ht₁]
    show t.mem 1 = _
    rw [hf.others.zeroPage, hb₁.others.zeroPage]
  have hsize : (t.envs e).pageWSMaxSize = n := hf.size
  rw [← ht₁, hsize]
  have hbelow := hl₀.step.base.array.window_below_stack hl₀.step.owned
  have hok : ∀ seg ∈ prog.segments, SegmentOk (t₁.wsMax e) seg := by
    rw [hmax₁]
    exact hprog.ok
  obtain ⟨k, hk⟩ : ∃ k, k = programCost prog.name prog.segments (n - 1) := ⟨_, rfl⟩
  have hcost : createCost prog n = k + 2 := by rw [createCost, hk]
  have hafter : Enough s (1 + 2 * pagesOf (n * 12) + 2 * createCost prog n) →
      Enough t₁ (2 * (k + 2)) := by
    intro hen
    have hen₂ := (hen₁ _ hen).after hf.spent
    rw [hcost] at hen₂
    rw [ht₁]
    exact hen₂
  have hrem : ([] : List Nat).length + (n - 1) < t₁.wsMax e := by
    rw [hmax₁, List.length_nil]
    omega
  have hloop := hl₀.loadSegments_spec hcr3 hok hprog.apart (fun v hv => by cases hv) hrem 0xFFFFFFFF
  rw [hname, hzero, ← hk, Nat.zero_add, List.nil_append] at hloop
  refine (hloop.mono (F := fun _ => StopsCreate s prog n) ?_ fun _ hr => hr).bind ?_
  · rintro x ((hx | hx) | hx)
    · exact .inl fun hen => hx ((hafter hen).mono (by omega))
    · have hdisk : t₁.diskFreeFrameList = s.diskFreeFrameList := by
        rw [ht₁]
        show t.diskFreeFrameList = _
        rw [hf.diskList, hb₁.diskList]
      rw [hdisk] at hx
      exact .inr (.inl (by omega))
    · rw [hmax₁] at hx
      exact .inr (.inr hx)
  rintro ⟨remaining, lastTable, t₂⟩ ⟨H₁, hl⟩
  simp only at hl ⊢
  -- the rest
  have hno := hprog.stack_not_mem prog.name (n - 1)
  have hfinish := (hl.finish hcr3 hno hbelow).mono
    (F := fun _ => StopsCreate s prog n) (fun _ hx => .inl fun hen => hx (hafter hen))
    fun _ hr => hr
  rw [ensures_bind] at hfinish
  refine hfinish.bind ?_
  rintro t₃ hfinish
  refine hfinish.bind ?_
  rintro t₄ ⟨t₃', H₂, hset, hclean, hst⟩
  exact ⟨rfl, H₂, hf.created hb₁.others hb₁.run hb₁.diskList hfree (by rw [ht₁]; rfl) hl hset hclean
    hst rfl hno rfl rfl (fun v hv => loadedPages_written hprog.bounds hv) (by omega) rfl⟩

end Created

end FosMemory
