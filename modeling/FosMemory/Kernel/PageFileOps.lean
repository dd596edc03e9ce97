import FosMemory.Kernel.PageFileSpec

/-!
# PageFileOps — adding and removing pages of the page file

A slot is one word of a disk table.  `pf_add_env_page` fills it with the first frame of
`disk_free_frame_list`, `pf_remove_env_page` clears it and gives the frame back, and `pf_free_env`
does so for every entry of every table before it releases the tables themselves.
-/

namespace FosMemory

open Lib

variable {c : Boot} {s t u : Kernel} {G H I : Ghost} {e : Nat}

/-! ## One slot changes -/

theorem Ghost.setSlot_slots (G : Ghost) (e v : Nat) (x : Option Nat) (e' v' : Nat) :
    (G.setSlot e v x).slots e' v' = if e' = e ∧ v' = v then x else G.slots e' v' := by
  by_cases he : e' = e
  · subst he
    by_cases hv : v' = v <;> simp [Ghost.setSlot, hv]
  · simp [Ghost.setSlot, he]

/-- Setting a slot to what it holds changes nothing. -/
theorem Ghost.setSlot_eq_self {v : Nat} {x : Option Nat} (h : G.slots e v = x) :
    G.setSlot e v x = G := by
  subst h
  simp [Ghost.setSlot]

theorem DiskFrames.take (hd : DiskFrames s G) {d v : Nat} {rest : List Nat}
    (hlist : s.diskFreeFrameList = d :: rest) (hnone : G.slots e v = none)
    (ht : t.diskFreeFrameList = rest) : DiskFrames t (G.setSlot e v (some d)) := by
  have hnodup := hd.nodup
  rw [hlist, List.nodup_cons] at hnodup
  have hfree := (hd.free_iff d).1 (by rw [hlist]; exact List.mem_cons_self)
  constructor
  case nodup =>
    rw [ht]
    exact hnodup.2
  case free_iff =>
    intro x
    rw [ht]
    have hold := hd.free_iff x
    rw [hlist, List.mem_cons] at hold
    constructor
    · intro hx
      obtain ⟨h1, h2, h3⟩ := hold.1 (.inr hx)
      refine ⟨h1, h2, fun e' v' => ?_⟩
      rw [G.setSlot_slots]
      split
      · rintro ⟨⟩
        exact hnodup.1 hx
      · exact h3 e' v'
    · rintro ⟨h1, h2, h3⟩
      have hother : ∀ e' v', G.slots e' v' ≠ some x := by
        intro e' v' hx
        refine h3 e' v' ?_
        rw [G.setSlot_slots, if_neg]
        · exact hx
        · rintro ⟨rfl, rfl⟩
          rw [hnone] at hx
          cases hx
      refine (hold.2 ⟨h1, h2, hother⟩).resolve_left ?_
      rintro rfl
      exact h3 e v (by rw [G.setSlot_slots, if_pos ⟨rfl, rfl⟩])
  case range =>
    intro e' v' x hx
    rw [G.setSlot_slots] at hx
    split at hx
    · cases hx
      exact ⟨hfree.1, hfree.2.1⟩
    · exact hd.range e' v' x hx
  case inj =>
    intro e₁ v₁ e₂ v₂ x h₁ h₂
    rw [G.setSlot_slots] at h₁ h₂
    split at h₁
    · rename_i hx
      cases h₁
      split at h₂
      · rename_i hy
        exact ⟨hx.1.trans hy.1.symm, hx.2.trans hy.2.symm⟩
      · exact absurd h₂ (hfree.2.2 e₂ v₂)
    · split at h₂
      · cases h₂
        exact absurd h₁ (hfree.2.2 e₁ v₁)
      · exact hd.inj e₁ v₁ e₂ v₂ x h₁ h₂

theorem DiskFrames.give (hd : DiskFrames s G) {d v : Nat} (hslot : G.slots e v = some d)
    (ht : t.diskFreeFrameList = d :: s.diskFreeFrameList) :
    DiskFrames t (G.setSlot e v none) := by
  have hnot : d ∉ s.diskFreeFrameList := fun hx => ((hd.free_iff d).1 hx).2.2 e v hslot
  obtain ⟨hpos, hlt⟩ := hd.range e v d hslot
  have hkept : ∀ e' v' x, (G.setSlot e v none).slots e' v' = some x →
      G.slots e' v' = some x ∧ ¬ (e' = e ∧ v' = v) := by
    intro e' v' x hx
    rw [G.setSlot_slots] at hx
    split at hx
    · cases hx
    · rename_i hne
      exact ⟨hx, hne⟩
  constructor
  case nodup =>
    rw [ht]
    exact List.nodup_cons.2 ⟨hnot, hd.nodup⟩
  case free_iff =>
    intro x
    rw [ht, List.mem_cons, hd.free_iff]
    constructor
    · rintro (rfl | ⟨h1, h2, h3⟩)
      · refine ⟨hpos, hlt, fun e' v' hx => ?_⟩
        obtain ⟨hold, hne⟩ := hkept e' v' x hx
        exact hne (hd.inj e' v' e v x hold hslot)
      · exact ⟨h1, h2, fun e' v' hx => h3 e' v' (hkept e' v' x hx).1⟩
    · rintro ⟨h1, h2, h3⟩
      by_cases hx : x = d
      · exact .inl hx
      · refine .inr ⟨h1, h2, fun e' v' hold => h3 e' v' ?_⟩
        rw [G.setSlot_slots, if_neg]
        · exact hold
        · rintro ⟨rfl, rfl⟩
          rw [hslot] at hold
          cases hold
          exact hx rfl
  case range => exact fun e' v' x hx => hd.range e' v' x (hkept e' v' x hx).1
  case inj =>
    exact fun e₁ v₁ e₂ v₂ x h₁ h₂ =>
      hd.inj e₁ v₁ e₂ v₂ x (hkept e₁ v₁ x h₁).1 (hkept e₂ v₂ x h₂).1

/-- One word of a disk table changes with its slot. -/
theorem SlotTable.setSlot (h : SlotTable s G e) (ho : Owned c s G) {tb v : Nat} {x : Option Nat}
    (hal : v % 4096 = 0) (hv : v < userTop) (htb : G.own tb = some ⟨e, .dtable (pdx v)⟩)
    (l : List Nat) :
    SlotTable { s.setWord tb (ptx v) (slotWord x) with diskFreeFrameList := l }
      (G.setSlot e v x) e := by
  have hlt : v < 4294967296 := by
    simp only [userTop] at hv
    omega
  have hne : ∀ fd, G.own fd = some ⟨e, .ddir⟩ →
      (s.setWord tb (ptx v) (slotWord x)).mem fd = s.mem fd := by
    intro fd hfd
    refine Kernel.setWord_mem_frame ?_
    rintro rfl
    rw [htb] at hfd
    cases hfd
  constructor
  case dir_at => exact h.dir_at
  case dir_exists => exact h.dir_exists
  case pde =>
    intro fd hfd i hi
    show (s.setWord tb (ptx v) (slotWord x)).mem fd i = 0#32 ∨ _
    rw [hne fd hfd]
    exact h.pde fd hfd i hi
  case table =>
    intro tb' i htb'
    obtain ⟨hi, fd, hfd, hn⟩ := h.table tb' i htb'
    refine ⟨hi, fd, hfd, ?_⟩
    show Names ((s.setWord tb (ptx v) (slotWord x)).mem fd i) _ _
    rw [hne fd hfd]
    exact hn
  case entry =>
    intro tb' i (htb' : G.own tb' = _) j hj
    have hi := (h.table tb' i htb').1
    show (s.setWord tb (ptx v) (slotWord x)).mem tb' j = _
    rw [s.setWord_mem, G.setSlot_slots]
    -- the word that changes is the one of the slot that changes
    have hiff : (tb' = tb ∧ j = ptx v) ↔ (e = e ∧ entryAddress i j = v) := by
      constructor
      · rintro ⟨rfl, rfl⟩
        rw [htb] at htb'
        cases htb'
        exact ⟨rfl, entryAddress_eq hal hlt⟩
      · rintro ⟨-, hx⟩
        have hpdx : pdx v = i := by rw [← hx, pdx_entryAddress (by omega) hj]
        have hptx : ptx v = j := by rw [← hx, ptx_entryAddress hj]
        rw [hpdx] at htb
        exact ⟨h.table_unique ho htb' htb, hptx.symm⟩
    by_cases hx : tb' = tb ∧ j = ptx v
    · rw [if_pos hx, if_pos (hiff.1 hx)]
    · rw [if_neg hx, if_neg (fun hy => hx (hiff.2 hy))]
      exact h.entry tb' i htb' j hj
  case slot =>
    intro v' d hd
    rw [G.setSlot_slots] at hd
    split at hd
    · rename_i hx
      rw [hx.2]
      exact ⟨hal, hv, tb, htb⟩
    · exact h.slot v' d hd

/-- The step that changes one slot. -/
theorem SlotTable.fileSlot (h : SlotTable s G e) (ho : Owned c s G) {tb v : Nat} {x : Option Nat}
    (hal : v % 4096 = 0) (hv : v < userTop) (htb : G.own tb = some ⟨e, .dtable (pdx v)⟩)
    {l : List Nat}
    (hd : DiskFrames { s.setWord tb (ptx v) (slotWord x) with diskFreeFrameList := l }
      (G.setSlot e v x)) :
    Filed c e 0 s G { s.setWord tb (ptx v) (slotWord x) with diskFreeFrameList := l }
      (G.setSlot e v x) := by
  have hne : ∀ g o, o ≠ ⟨e, .dtable (pdx v)⟩ → G.own g = some o →
      (s.setWord tb (ptx v) (slotWord x)).mem g = s.mem g := by
    intro g o hne hg
    refine Kernel.setWord_mem_frame ?_
    rintro rfl
    rw [htb] at hg
    cases hg
    exact hne rfl
  have hlow : ∀ f < 3, (s.setWord tb (ptx v) (slotWord x)).mem f = s.mem f :=
    fun f hf => Kernel.setWord_mem_frame (ho.low_ne hf (by simp [htb]))
  constructor
  case owned =>
    refine (ho.setWord (f := tb) (by simp [htb]) (ptx v) (slotWord x)).congr
      ⟨rfl, rfl, rfl, rfl, rfl, rfl, rfl, rfl⟩ (fun _ _ => rfl) rfl rfl rfl
  case others =>
    refine Local.of_change (f := tb) (fun _ _ => rfl) (fun e' he => ?_) (fun _ _ => rfl)
      (fun _ _ _ _ _ => rfl) (fun _ _ => rfl) (fun o ho' => ?_) (fun o ho' => ?_)
      (fun g o hg he => hne g o (by rintro rfl; exact he rfl) hg) (fun _ _ _ _ => rfl)
      (fun _ _ _ _ hb => hb) (hlow 1 (by decide))
    · simp [Ghost.setSlot, he]
    · rw [htb] at ho'
      cases ho'
      rfl
    · rw [show (G.setSlot e v x).own tb = G.own tb from rfl, htb] at ho'
      cases ho'
      rfl
  case keeps =>
    refine ⟨fun _ _ _ => Iff.rfl, fun g r hr hg => hne g _ ?_ hg, fun _ _ _ _ => rfl⟩
    intro hx
    cases hx
    cases hr
  case block => exact fun _ _ hb => hb
  case table => exact h.setSlot ho hal hv htb l
  case frames => exact hd
  case win => rfl
  case lost => rfl
  case spent => exact ⟨Nat.le_refl _, Nat.le_refl _⟩
  case env => rfl
  case run => exact ⟨rfl, rfl, rfl, rfl⟩
  case low => exact hlow

/-! ## Finding or making a slot -/

/-- Page `v` of `e` has slot `d`; nothing else in the page file has changed. -/
structure Slotted (c : Boot) (e v d k : Nat) (s : Kernel) (G : Ghost) (t : Kernel) (H : Ghost) :
    Prop where
  filed : Filed c e k s G t H
  slots : H.slots = (G.setSlot e v (some d)).slots
  list : (G.slots e v = some d ∧ t.diskFreeFrameList = s.diskFreeFrameList) ∨
    (G.slots e v = none ∧ s.diskFreeFrameList = d :: t.diskFreeFrameList)
  ddir : (t.envs e).diskEnvPgdir ≠ 0

theorem Slotted.self {v d k : Nat} (h : Slotted c e v d k s G t H) : H.slots e v = some d := by
  rw [h.slots, G.setSlot_slots, if_pos ⟨rfl, rfl⟩]

/-- The page file is full and the page has no slot. -/
structure Full (c : Boot) (e v k : Nat) (s : Kernel) (G : Ghost) (t : Kernel) (H : Ghost) :
    Prop where
  filed : Filed c e k s G t H
  slots : H.slots = G.slots
  none : G.slots e v = none
  empty : s.diskFreeFrameList = []
  list : t.diskFreeFrameList = s.diskFreeFrameList
  ddir : (t.envs e).diskEnvPgdir ≠ 0

theorem slotWord_eq_zero_iff {a : Option Nat} (ha : ∀ d, a = some d → 1 ≤ d ∧ d < pagesPerFile) :
    slotWord a = 0#32 ↔ a = none := by
  cases a with
  | none => exact ⟨fun _ => rfl, fun _ => rfl⟩
  | some d =>
    have hnat := slotWord_toNat ha
    have hpos := (ha d rfl).1
    constructor
    · intro hx
      rw [hx] at hnat
      simp only [Option.getD_some, BitVec.toNat_ofNat] at hnat
      omega
    · rintro ⟨⟩

/-- The first half of `pf_add_env_page`. -/
theorem SlotTable.pfSlot_spec (ho : Owned c s G) (h : SlotTable s G e) (hd : DiskFrames s G)
    {v : Nat} (hv : v < userTop) :
    Ensures (fun _ => ¬ Enough s 2)
      (fun r => r.2.disk = s.disk ∧ ∃ H,
        (r.1 = none ∧ Full c e (roundDown v 4096) 2 s G r.2 H) ∨
        (∃ d, r.1 = some d ∧ Slotted c e (roundDown v 4096) d 2 s G r.2 H))
      (pfSlot s e v) := by
  have hbase : ¬ kernelBase ≤ v := by
    simp only [userTop, kernelBase] at hv ⊢
    omega
  rw [pfSlot, if_neg hbase]
  refine ((SlotTable.getDiskPageDirectory_spec ho h hd).mono (F := fun _ => ¬ Enough s 2)
    (fun _ hx hen => hx (hen.mono (by omega))) (fun _ hr => hr)).bind ?_
  rintro t (⟨hno, hdir, hinv⟩ | ⟨H, hf, hslots, hdisk, hlist, hdir⟩)
  · -- no directory: the table is looked up through `NULL`
    have hlt := pdx_user hv
    have hload := hinv.map.load_null (a := 0 + 4 * pdx v) (by omega)
    simp only [hdir, getDiskPageTable, hload, error_bind, ensures_error]
    exact fun hen => hno (hen.mono (by omega))
  · obtain ⟨fd, hfd⟩ := hf.table.dir_exists hdir
    refine ((SlotTable.getDiskPageTable_create hf.owned hf.table hf.frames hfd hv).mono
      (F := fun _ => ¬ Enough s 2) (fun _ hx hen => hx (hen.after (k := 1) hf.spent))
      (fun _ hr => hr)).bind ?_
    rintro ⟨p, w⟩ (⟨hno, hr⟩ | ⟨I, tb, hf', hslots', hrest, htb, hp⟩)
    · cases hr
      have hlt := ptx_lt v
      have hload := hf.owned.inv.map.load_null (a := 0 + 4 * ptx v) (by omega)
      simp only [hload, error_bind, ensures_error]
      exact fun hen => hno (hen.after (k := 1) hf.spent)
    · simp only at hf' hrest hp
      subst hp
      have hall := hf.trans hf'
      have hsame : I.slots = G.slots := hslots'.trans hslots
      have hdisk' : w.disk = s.disk := hrest.disk.trans hdisk
      have hlist' : w.diskFreeFrameList = s.diskFreeFrameList :=
        hrest.diskFreeFrameList.trans hlist
      have hddir : (w.envs e).diskEnvPgdir ≠ 0 := by
        rw [hrest.envs]
        exact hdir
      have hload := hf'.table.load_slot hf'.owned hv htb
      have hrange : ∀ d, I.slots e (roundDown v 4096) = some d → 1 ≤ d ∧ d < pagesPerFile :=
        fun d hx => hf'.frames.range e _ d hx
      have hle := roundDown_le v
      simp only [hload, ok_bind, slotWord_eq_zero_iff hrange]
      cases hslot : I.slots e (roundDown v 4096) with
      | none =>
        have hnone : G.slots e (roundDown v 4096) = none := by rw [← hsame, hslot]
        rw [if_pos rfl]
        cases hfree : w.diskFreeFrameList with
        | nil =>
          simp only [allocateDiskFrame, hfree]
          exact ⟨hdisk', I, .inl ⟨rfl, hall, hsame, hnone, by rw [← hlist', hfree], hlist',
            hddir⟩⟩
        | cons d rest =>
          have hmapw : KernelMap c { w with diskFreeFrameList := rest } :=
            hf'.owned.inv.map.congr (fun _ _ => rfl) rfl rfl rfl rfl rfl rfl
          have hne := (hf'.owned.heap htb rfl).1
          have hstore := store_pte hmapw hne v
            (BitVec.ofNat 32 d)
          simp only [allocateDiskFrame, hfree, hstore, ok_bind]
          have htb' : I.own tb = some ⟨e, .dtable (pdx (roundDown v 4096))⟩ := by
            rw [pdx_roundDown]
            exact htb
          have hfile := hf'.table.fileSlot hf'.owned (x := some d) (l := rest)
            (roundDown_aligned v) (by omega) htb' (hf'.frames.take hfree hslot rfl)
          rw [ptx_roundDown] at hfile
          refine ⟨hdisk', I.setSlot e (roundDown v 4096) (some d), .inr ⟨d, rfl, ?_, ?_, ?_, hddir⟩⟩
          · exact hall.trans hfile
          · simp [Ghost.setSlot, hsame]
          · exact .inr ⟨hnone, by rw [← hlist', hfree]; rfl⟩
      | some d =>
        rw [if_neg (by simp)]
        have hnat := slotWord_toNat hrange
        rw [hslot, Option.getD_some] at hnat
        simp only [ensures_ok, hnat]
        refine ⟨hdisk', I, .inr ⟨d, rfl, hall, ?_, .inl ⟨by rw [← hsame, hslot], hlist'⟩,
          hddir⟩⟩
        rw [G.setSlot_eq_self (by rw [← hsame, hslot]), hsame]

/-! ## pf_add_env_page and pf_add_empty_env_page -/

/-- The disk frame of a slot of `e` is written. -/
theorem Filed.write {k v d : Nat} (h : Filed c e k s G t H) (hd : H.slots e v = some d)
    (page : Nat → Word) : Filed c e k s G (writeDiskPage t d page) H := by
  constructor
  case owned =>
    exact h.owned.congr ⟨rfl, rfl, rfl, rfl, rfl, rfl, rfl, rfl⟩ (fun _ _ => rfl) rfl rfl rfl
  case others =>
    refine ⟨fun e' he => ?_, h.others.win, h.others.slots, h.others.envs, ?_, h.others.block,
      h.others.zeroPage⟩
    · have hk := h.others.keeps e' he
      exact ⟨hk.own, hk.mem, hk.va⟩
    · intro e' v' d' he hd'
      have hne : d' ≠ d := by
        rintro rfl
        rw [← h.others.slots e' he] at hd'
        exact he (h.frames.inj e' v' e v d' hd' hd).1
      rw [← h.others.disk e' v' d' he hd']
      exact Function.update_of_ne hne _ _
  case keeps => exact ⟨h.keeps.own, h.keeps.mem, h.keeps.va⟩
  case block => exact h.block
  case table =>
    exact h.table.congr (fun _ _ _ => Iff.rfl) (fun _ _ _ _ => rfl) (fun _ _ _ _ => rfl) rfl rfl
  case frames => exact h.frames.congr rfl rfl
  case win => exact h.win
  case lost => exact h.lost
  case spent => exact h.spent
  case env => exact h.env
  case run => exact ⟨h.run.envFreeList, h.run.curenv, h.run.cr3, h.run.pageRepAlgoType⟩
  case low => exact h.low

/-- A page of the kernel does not depend on the disk. -/
theorem DataSrc.read_writeDiskPage (src : DataSrc) (d : Nat) (page : Nat → Word) :
    src.read (writeDiskPage s d page) = src.read s := by
  cases src <;> rfl

/-- `pf_add_env_page`. -/
theorem SlotTable.pfAddEnvPage_spec (ho : Owned c s G) (h : SlotTable s G e) (hd : DiskFrames s G)
    {v : Nat} (hv : v < userTop) {src : DataSrc} {E : Stop → Prop}
    (hE : ∀ x, ¬ Enough s 2 → E x)
    (hread : ∀ t H, Filed c e 2 s G t H → Ensures E (fun _ => True) (src.read t)) :
    Ensures E
      (fun r => ∃ H,
        (r.1 = .noPageFileSpace ∧ Full c e (roundDown v 4096) 2 s G r.2 H ∧ r.2.disk = s.disk) ∨
        (r.1 = .ok ∧ ∃ d page, Slotted c e (roundDown v 4096) d 2 s G r.2 H ∧
          src.read r.2 = .ok page ∧ r.2.disk = Function.update s.disk d page))
      (pfAddEnvPage s e v src) := by
  rw [pfAddEnvPage]
  refine ((h.pfSlot_spec ho hd hv).mono hE (fun _ hr => hr)).bind ?_
  rintro ⟨r, t⟩ ⟨hdisk, H, ⟨hr, hfull⟩ | ⟨d, hr, hslot⟩⟩
  · simp only at hr
    subst hr
    exact ⟨H, .inl ⟨rfl, hfull, hdisk⟩⟩
  · simp only at hr hdisk hslot
    subst hr
    have hok := hread t H hslot.filed
    refine Ensures.bind (P := fun page => src.read t = .ok page) ?_ ?_
    · cases hx : src.read t with
      | ok page => rfl
      | error x =>
        rw [hx] at hok
        exact hok
    · intro page hpage
      refine ⟨H, .inr ⟨rfl, d, page, ⟨hslot.filed.write hslot.self page, hslot.slots, hslot.list,
        hslot.ddir⟩, ?_, ?_⟩⟩
      · rw [DataSrc.read_writeDiskPage, hpage]
      · rw [← hdisk]
        rfl

/-- The zero page and the temporary page are always mapped. -/
theorem loadPage_static (h : StaticMap c s) {f : Nat} (hf : f < c.kernelEnd) :
    s.loadPage (kernelBase + f * 4096) = .ok (s.mem f) := by
  have hb := h.backed_static hf
  rw [Kernel.loadPage, if_pos hb.present, hb.frame_eq]

theorem Boot.low_lt_kernelEnd (c : Boot) {f : Nat} (hf : f ≤ 256) : f < c.kernelEnd := by
  have := c.le_dirFrame
  have := c.dirFrame_lt
  omega

theorem read_zeroPage (h : StaticMap c s) :
    (DataSrc.pointer ptrZeroPage).read s = .ok (s.mem 1) := by
  have haddr : ptrZeroPage = kernelBase + 1 * 4096 := by decide
  rw [DataSrc.read, haddr]
  exact loadPage_static h (c.low_lt_kernelEnd (by omega))

theorem read_tempPage (h : StaticMap c s) :
    (DataSrc.pointer ptrTempPage).read s = .ok (s.mem 2) := by
  have haddr : ptrTempPage = kernelBase + 2 * 4096 := by decide
  rw [DataSrc.read, haddr]
  exact loadPage_static h (c.low_lt_kernelEnd (by omega))

/-- `pf_add_empty_env_page`: the stored data are those of the zero page, or whatever the disk
frame held. -/
theorem SlotTable.pfAddEmptyEnvPage_spec (ho : Owned c s G) (h : SlotTable s G e)
    (hd : DiskFrames s G) {v : Nat} (hv : v < userTop) (zero : Bool) :
    Ensures (fun _ => ¬ Enough s 2)
      (fun r => ∃ H,
        (r.1 = .noPageFileSpace ∧ Full c e (roundDown v 4096) 2 s G r.2 H ∧ r.2.disk = s.disk) ∨
        (r.1 = .ok ∧ ∃ d, Slotted c e (roundDown v 4096) d 2 s G r.2 H ∧
          r.2.disk = if zero then Function.update s.disk d (r.2.mem 1) else s.disk))
      (pfAddEmptyEnvPage s e v zero) := by
  rw [pfAddEmptyEnvPage]
  cases zero with
  | true =>
    simp only [if_true]
    refine (h.pfAddEnvPage_spec ho hd hv (E := fun _ => ¬ Enough s 2) (fun _ hx => hx) ?_).imp ?_
    · intro t H hf
      rw [read_zeroPage hf.owned.inv.map.toStaticMap]
      trivial
    · rintro ⟨r, t⟩ ⟨H, hfull | ⟨hr, d, page, hslot, hread, hdisk⟩⟩
      · exact ⟨H, .inl hfull⟩
      · simp only at hr hslot hread hdisk
        rw [read_zeroPage hslot.filed.owned.inv.map.toStaticMap] at hread
        cases hread
        exact ⟨H, .inr ⟨hr, d, hslot, hdisk⟩⟩
  | false =>
    simp only [Bool.false_eq_true, if_false]
    refine (h.pfSlot_spec ho hd hv).bind ?_
    rintro ⟨r, t⟩ ⟨hdisk, H, ⟨hr, hfull⟩ | ⟨d, hr, hslot⟩⟩
    · simp only at hr
      subst hr
      exact ⟨H, .inl ⟨rfl, hfull, hdisk⟩⟩
    · simp only at hr
      subst hr
      exact ⟨H, .inr ⟨rfl, d, hslot, hdisk⟩⟩

/-! ## pf_remove_env_page -/

/-- A disk frame goes back to the list. -/
def giveDisk : Option Nat → List Nat → List Nat
  | none, l => l
  | some d, l => d :: l

/-- The slot of page `v` of `e` is empty; its disk frame is on the list again. -/
structure Unslotted (c : Boot) (e v : Nat) (s : Kernel) (G : Ghost) (t : Kernel) (H : Ghost) :
    Prop where
  filed : Filed c e 0 s G t H
  slots : H.slots = (G.setSlot e v none).slots
  disk : t.disk = s.disk
  list : t.diskFreeFrameList = giveDisk (G.slots e v) s.diskFreeFrameList
  own : H.own = G.own
  va : t.virtualAddresses = s.virtualAddresses
  envs : t.envs = s.envs

theorem freeDiskFrame_eq {x : Option Nat} (hx : ∀ d, x = some d → 1 ≤ d ∧ d < pagesPerFile)
    (t : Kernel) : freeDiskFrame t (slotWord x).toNat =
      { t with diskFreeFrameList := giveDisk x t.diskFreeFrameList } := by
  rw [slotWord_toNat hx]
  cases x with
  | none => rfl
  | some d =>
    have hne : d ≠ 0 := by
      have := (hx d rfl).1
      omega
    simp only [freeDiskFrame, Option.getD_some, if_neg hne]
    rfl

/-- Clearing the word of a slot and freeing the disk frame it held. -/
theorem SlotTable.clearSlot (h : SlotTable s G e) (ho : Owned c s G) (hd : DiskFrames s G)
    {tb v : Nat} (hv : v < userTop) (htb : G.own tb = some ⟨e, .dtable (pdx v)⟩) :
    Unslotted c e (roundDown v 4096) s G
      (freeDiskFrame (s.setWord tb (ptx v) 0#32) (slotWord (G.slots e (roundDown v 4096))).toNat)
      (G.setSlot e (roundDown v 4096) none) := by
  have hle := roundDown_le v
  have hrange : ∀ d, G.slots e (roundDown v 4096) = some d → 1 ≤ d ∧ d < pagesPerFile :=
    fun d hx => hd.range e _ d hx
  have htb' : G.own tb = some ⟨e, .dtable (pdx (roundDown v 4096))⟩ := by
    rw [pdx_roundDown]
    exact htb
  obtain ⟨l, hl⟩ : ∃ l, l = giveDisk (G.slots e (roundDown v 4096)) s.diskFreeFrameList :=
    ⟨_, rfl⟩
  have hframes : DiskFrames
      { s.setWord tb (ptx (roundDown v 4096)) (slotWord none) with diskFreeFrameList := l }
      (G.setSlot e (roundDown v 4096) none) := by
    cases hslot : G.slots e (roundDown v 4096) with
    | none =>
      rw [G.setSlot_eq_self hslot]
      rw [hslot] at hl
      exact hd.congr hl rfl
    | some d =>
      rw [hslot] at hl
      exact hd.give hslot hl
  have hfile := h.fileSlot ho (roundDown_aligned v) (by omega) htb' hframes
  rw [ptx_roundDown] at hfile
  rw [freeDiskFrame_eq hrange]
  have hlist : (s.setWord tb (ptx v) 0#32).diskFreeFrameList = s.diskFreeFrameList := rfl
  rw [hlist, ← hl]
  exact ⟨hfile, rfl, rfl, hl, rfl, rfl, rfl⟩

/-- An environment without a disk directory has no slots. -/
theorem SlotTable.no_slots (h : SlotTable s G e) (ho : Owned c s G)
    (hdir : (s.envs e).diskEnvPgdir = 0) (v : Nat) : G.slots e v = none := by
  cases hs : G.slots e v with
  | none => rfl
  | some d =>
    obtain ⟨-, -, tb, htb⟩ := h.slot v d hs
    obtain ⟨-, fd, hfd, -⟩ := h.table tb _ htb
    exact absurd ((h.dir_at fd hfd).trans hdir) (ho.heap hfd rfl).1

theorem Unslotted.none (ho : Owned c s G) (h : SlotTable s G e) (hd : DiskFrames s G) {v : Nat}
    (hnone : G.slots e v = none) : Unslotted c e v s G s G :=
  ⟨Filed.refl ho h hd, by rw [G.setSlot_eq_self hnone], rfl, by rw [hnone]; rfl, rfl, rfl, rfl⟩

/-- `pf_remove_env_page`. -/
theorem SlotTable.pfRemoveEnvPage_spec (ho : Owned c s G) (h : SlotTable s G e)
    (hd : DiskFrames s G) {v : Nat} (hv : v < userTop) :
    ∃ t H, pfRemoveEnvPage s e v = .ok t ∧ Unslotted c e (roundDown v 4096) s G t H := by
  rw [pfRemoveEnvPage]
  by_cases hdir : (s.envs e).diskEnvPgdir = 0
  · rw [if_pos hdir]
    exact ⟨s, G, rfl, Unslotted.none ho h hd (h.no_slots ho hdir _)⟩
  · rw [if_neg hdir]
    obtain ⟨fd, hfd⟩ := h.dir_exists hdir
    rcases h.getDiskPageTable_find ho hfd hv with ⟨tb, htb, hget⟩ | ⟨hno, hget⟩
    · have hne := (ho.heap htb rfl).1
      have hstore := store_pte ho.inv.map hne v 0#32
      refine ⟨_, _, ?_, h.clearSlot ho hd hv htb⟩
      simp only [hget, ok_bind, if_neg hne, h.load_slot ho hv htb, hstore]
    · refine ⟨s, G, ?_, Unslotted.none ho h hd (h.slot_none hno)⟩
      simp only [hget, ok_bind, if_true]

end FosMemory
