import FosMemory.Kernel.SlotTable

/-!
# PageFileSpec — what the page file functions do

`Filed` is a step that touches only the disk tables of one environment.  `pf_add_env_page` fills a
slot, `pf_remove_env_page` clears one, `pf_update_env_page` and `pf_read_env_page` copy a page to
and from the disk frame of a slot.
-/

namespace FosMemory

open Lib

variable {c : Boot} {s t u : Kernel} {G H I : Ghost} {e : Nat}

/-! ## Steps on the disk tables -/

/-- What the scheduler and the processor see is the same. -/
structure SameRun (s t : Kernel) : Prop where
  envFreeList : t.envFreeList = s.envFreeList
  curenv : t.curenv = s.curenv
  cr3 : t.cr3 = s.cr3
  pageRepAlgoType : t.pageRepAlgoType = s.pageRepAlgoType

theorem SameRun.refl (s : Kernel) : SameRun s s :=
  ⟨rfl, rfl, rfl, rfl⟩

theorem SameRun.trans (h : SameRun s t) (h' : SameRun t u) : SameRun s u :=
  ⟨h'.1.trans h.1, h'.2.trans h.2, h'.3.trans h.3, h'.4.trans h.4⟩

theorem SameRest.run (h : SameRest s t) : SameRun s t :=
  ⟨h.envFreeList, h.curenv, h.cr3, h.pageRepAlgoType⟩

/-- Only the disk tables of `e` have changed. -/
structure Filed (c : Boot) (e k : Nat) (s : Kernel) (G : Ghost) (t : Kernel) (H : Ghost) :
    Prop where
  owned : Owned c t H
  others : Local e s G t H
  keeps : Keeps e Role.offDisk s G t H
  block : KeepsBlock e s G t
  table : SlotTable t H e
  frames : DiskFrames t H
  win : H.win = G.win
  lost : H.lost = G.lost
  spent : Spent s t k
  env : t.envs e = { s.envs e with diskEnvPgdir := (t.envs e).diskEnvPgdir }
  run : SameRun s t
  /-- the zero page and the temporary page -/
  low : ∀ f < 3, t.mem f = s.mem f

theorem Filed.refl (ho : Owned c s G) (h : SlotTable s G e) (hd : DiskFrames s G) :
    Filed c e 0 s G s G :=
  ⟨ho, Local.refl e s G, Keeps.refl e _ s G, fun _ _ hb => hb, h, hd, rfl, rfl, Spent.refl s, rfl,
    SameRun.refl s, fun _ _ => rfl⟩

theorem Filed.trans {k m : Nat} (h : Filed c e k s G t H) (h' : Filed c e m t H u I) :
    Filed c e (k + m) s G u I := by
  have henv : (t.envs e).ptrPageWorkingSet = (s.envs e).ptrPageWorkingSet := by rw [h.env]
  exact ⟨h'.owned, h.others.trans h'.others, h.keeps.trans h'.keeps,
    h.block.trans h'.block (h.keeps.wsAt rfl henv) henv, h'.table, h'.frames,
    h'.win.trans h.win, h'.lost.trans h.lost, h.spent.trans h'.spent, by rw [h'.env, h.env],
    h.run.trans h'.run, fun f hf => (h'.low f hf).trans (h.low f hf)⟩

theorem Filed.mono {k m : Nat} (h : Filed c e k s G t H) (hkm : k ≤ m) : Filed c e m s G t H :=
  { h with spent := h.spent.mono hkm }

/-- The address space does not see the disk tables. -/
theorem Filed.space {k : Nat} (h : Filed c e k s G t H) (hs : Space c s G e) : Space c t H e := by
  refine hs.congr (fun f r hr => h.keeps.own f r ?_) (by rw [h.win])
    (fun f r hr hf => h.keeps.mem f r ?_ hf) (h.keeps.va _ .dir rfl hs.dir_own) (by rw [h.env])
    (by rw [h.env])
  · cases r <;> first | rfl | cases hr
  · cases r <;> first | rfl | cases hr

/-- Entries of the address space stay. -/
theorem Filed.pteWord {k : Nat} (h : Filed c e k s G t H) (hs : Space c s G e) {v f : Nat}
    {b : Bool} (hv : G.Target e v f b) : t.pteWord e v = s.pteWord e v := by
  obtain ⟨-, -, tb, htb, -⟩ := hs.target v f b hv
  have hdir : t.dirFrame e = s.dirFrame e := by
    rw [Kernel.dirFrame, h.env]
    rfl
  rw [Kernel.pteWord, Kernel.pteWord, hdir, h.keeps.mem _ .dir rfl hs.dir_own,
    (hs.table tb _ htb).2.frame_eq, h.keeps.mem tb _ rfl htb]

/-! ## Creating directory and tables -/

section Create

variable (ho : Owned c s G) (h : SlotTable s G e) (hd : DiskFrames s G)
include ho h hd

/-- `get_disk_page_directory`. -/
theorem SlotTable.getDiskPageDirectory_spec :
    Ensures (fun _ => ¬ Enough s 1)
      (fun t => (¬ Enough s 1 ∧ (t.envs e).diskEnvPgdir = 0 ∧ KernelInv c t) ∨
        (∃ H, Filed c e 1 s G t H ∧ H.slots = G.slots ∧ t.disk = s.disk ∧
          t.diskFreeFrameList = s.diskFreeFrameList ∧ (t.envs e).diskEnvPgdir ≠ 0))
      (getDiskPageDirectory s e) := by
  rw [getDiskPageDirectory]
  by_cases hdir : (s.envs e).diskEnvPgdir = 0
  · simp only [hdir, if_true]
    -- nobody has a disk directory or a disk table for `e` yet
    have hnodir : ∀ f, G.own f ≠ some ⟨e, .ddir⟩ := by
      intro f hf
      have hva := h.dir_at f hf
      exact (ho.heap hf rfl).1 (hva.trans hdir)
    have hnotab : ∀ f i, G.own f ≠ some ⟨e, .dtable i⟩ := by
      intro f i hf
      obtain ⟨-, fd, hfd, -⟩ := h.table f i hf
      exact hnodir fd hfd
    have hnoslot : ∀ v, G.slots e v = none := by
      intro v
      cases hs : G.slots e v with
      | none => rfl
      | some d =>
        obtain ⟨-, -, tb, htb⟩ := h.slot v d hs
        exact absurd htb (hnotab tb _)
    refine ((kmalloc_page ho.inv).mono (F := fun _ => ¬ Enough s 1) ?_ (fun _ hr => hr)).bind ?_
    · rintro x ⟨hnil, -⟩ hen
      have := hen.1
      rw [hnil] at this
      simp at this
    rintro ⟨p, t⟩ (⟨hp, ht, hfull⟩ | ⟨g, hnew⟩)
    · simp only at hp ht
      subst hp ht
      simp only [if_true, ensures_ok]
      refine .inl ⟨fun hen => ?_, ?_, ?_⟩
      · have := hen.2
        omega
      · simp [Kernel.setEnv]
      · exact (ho.setEnv e _).inv
    · simp only at hnew
      have hp := hnew.p_ne
      have hgnone := ho.own_free hnew.mem_free
      obtain ⟨v, hv⟩ : ∃ v, v = t.setEnv e { t.envs e with diskEnvPgdir := p } := ⟨_, rfl⟩
      have hvinv : KernelInv c v := by
        rw [hv]
        exact hnew.inv.congr (SameFrames.setEnv t e _) (fun _ _ => rfl)
      have hvva : v.virtualAddresses g = p := by
        rw [hv]
        exact hnew.va_self
      have hvne : v.virtualAddresses g ≠ 0 := by
        rw [hvva]
        exact hp
      have hphys : ∃ pa, kheapPhysicalAddress v p = .ok pa := by
        refine ⟨_, kheapPhysicalAddress_eq hvinv.map.toStaticMap ?_⟩
        rw [← hvva]
        exact hvinv.map.heapPage g hvne
      obtain ⟨pa, hpa⟩ := hphys
      have hzero := zeroPage_eq hvinv.map hvne
      rw [hvva] at hzero
      simp only [hp, if_false, ← hv, hpa, ok_bind, hzero, ensures_ok]
      have hownedt : Owned c t (G.setOwn g (some ⟨e, .ddir⟩)) := ho.newPage hnew rfl e
      have hgn : (G.setOwn g (some ⟨e, .ddir⟩)).own g ≠ none := by simp
      have howned : Owned c (v.zeroFrame g) (G.setOwn g (some ⟨e, .ddir⟩)) := by
        refine hownedt.congr ?_ ?_ rfl rfl rfl
        · rw [hv]
          exact ⟨rfl, rfl, rfl, rfl, rfl, rfl, rfl, rfl⟩
        · intro f hf
          rw [v.zeroFrame_mem_frame (by rintro rfl; exact hownedt.not_kernelFrame hgn hf), hv]
          rfl
      have hmem : ∀ f, G.own f ≠ none → (v.zeroFrame g).mem f = s.mem f := by
        intro f hf
        have hfg := hnew.ne_of_not_mem (ho.not_free hf)
        rw [v.zeroFrame_mem_frame hfg, hv]
        exact hnew.mem_eq f (ho.not_kernelFrame hf)
      have hlow : ∀ f < 3, (v.zeroFrame g).mem f = s.mem f := by
        intro f hf
        rw [v.zeroFrame_mem_frame (ho.low_ne_free hf hnew.mem_free), hv]
        exact hnew.mem_eq f (c.low_not_kernelFrame hf)
      have hva : ∀ f, G.own f ≠ none → (v.zeroFrame g).virtualAddresses f = s.virtualAddresses f := by
        intro f hf
        have hfg := hnew.ne_of_not_mem (ho.not_free hf)
        show v.virtualAddresses f = _
        rw [hv]
        exact hnew.va_of_ne hfg
      have hown : ∀ f o, o ≠ ⟨e, .ddir⟩ →
          ((G.setOwn g (some ⟨e, .ddir⟩)).own f = some o ↔ G.own f = some o) := by
        intro f o hne
        rw [Ghost.setOwn_eq_some]
        constructor
        · rintro (⟨-, hx⟩ | ⟨-, hx⟩)
          · cases hx
            exact absurd rfl hne
          · exact hx
        · intro hx
          exact .inr ⟨hnew.ne_of_not_mem (ho.not_free (by simp [hx])), hx⟩
      have hself : ∀ f, (G.setOwn g (some ⟨e, .ddir⟩)).own f = some ⟨e, .ddir⟩ → f = g := by
        intro f hx
        rcases Ghost.setOwn_eq_some.1 hx with ⟨hfg, -⟩ | ⟨-, hx⟩
        · exact hfg
        · exact absurd hx (hnodir f)
      have henvs : ∀ e', e' ≠ e → (v.zeroFrame g).envs e' = s.envs e' := by
        intro e' he
        show v.envs e' = _
        rw [hv, Kernel.setEnv, ← hnew.same.envs]
        simp [he]
      have henv : (v.zeroFrame g).envs e = { s.envs e with diskEnvPgdir := p } := by
        show v.envs e = _
        rw [hv, Kernel.setEnv, ← hnew.same.envs]
        simp
      have hkeep : ∀ e', KeepsBlock e' s G (v.zeroFrame g) := by
        intro e' n _ hb
        have := hnew.kmalloced.block hb
        rw [hv]
        exact this
      have hvrest : (v.zeroFrame g).disk = s.disk ∧
          (v.zeroFrame g).diskFreeFrameList = s.diskFreeFrameList ∧ SameRun s (v.zeroFrame g) := by
        rw [hv]
        exact ⟨hnew.same.disk, hnew.same.diskFreeFrameList, hnew.same.envFreeList,
          hnew.same.curenv, hnew.same.cr3, hnew.same.pageRepAlgoType⟩
      obtain ⟨hdisk, hlist, hrun⟩ := hvrest
      refine .inr ⟨G.setOwn g (some ⟨e, .ddir⟩), ?_, rfl, hdisk, hlist, ?_⟩
      · refine ⟨howned, ?_, ⟨?_, ?_, ?_⟩, hkeep e, ?_, ?_, rfl, rfl, ?_, ?_, hrun, hlow⟩
        · refine Local.of_change (f := g) (fun _ _ => rfl) (fun _ _ => rfl) henvs
            (fun _ _ _ _ _ => by rw [hdisk]) (fun f hf => G.setOwn_of_ne _ hf)
            (by simp [hgnone]) ?_ (fun f o hf _ => hmem f (by simp [hf]))
            (fun f o hf _ => hva f (by simp [hf])) (fun e' _ => hkeep e') (hlow 1 (by decide))
          intro o hx
          rw [G.setOwn_self] at hx
          cases hx
          rfl
        · intro f r hr
          refine hown f _ ?_
          intro hx
          cases hx
          cases hr
        · exact fun f r _ hf => hmem f (by simp [hf])
        · exact fun f r _ hf => hva f (by simp [hf])
        · -- the new directory is empty
          constructor
          case dir_at =>
            intro f hf
            rw [hself f hf, henv]
            exact hvva
          case dir_exists => exact fun _ => ⟨g, by simp⟩
          case pde =>
            intro fd hfd i hi
            rw [hself fd hfd]
            exact .inl (v.zeroFrame_mem_self g (by omega))
          case table =>
            intro tb i htb
            exact absurd ((hown tb _ (by simp)).1 htb) (hnotab tb i)
          case entry =>
            intro tb i htb
            exact absurd ((hown tb _ (by simp)).1 htb) (hnotab tb i)
          case slot =>
            intro x d hx
            have := hnoslot x
            rw [show (G.setOwn g (some ⟨e, .ddir⟩)).slots e x = G.slots e x from rfl, this] at hx
            cases hx
        · exact hd.congr hlist rfl
        · have hs := hnew.kmalloced.spent
          rw [hv]
          exact hs
        · rw [henv]
      · rw [henv]
        exact hp
  · rw [if_neg hdir]
    exact .inr ⟨G, (Filed.refl ho h hd).mono (by omega), rfl, rfl, rfl, hdir⟩

/-- `get_disk_page_table` with creation. -/
theorem SlotTable.getDiskPageTable_create {fd v : Nat} (hfd : G.own fd = some ⟨e, .ddir⟩)
    (hv : v < userTop) :
    Ensures (fun _ => ¬ Enough s 1)
      (fun r => (¬ Enough s 1 ∧ r = (0, s)) ∨
        (∃ H tb, Filed c e 1 s G r.2 H ∧ H.slots = G.slots ∧ SameRest s r.2 ∧
          H.own tb = some ⟨e, .dtable (pdx v)⟩ ∧ r.1 = r.2.virtualAddresses tb))
      (getDiskPageTable s (s.envs e).diskEnvPgdir v true) := by
  have hat := h.dirAt ho hfd
  have hload := load_pde ho.inv.map hat v
  have hfdn : G.own fd ≠ none := by simp [hfd]
  rcases h.lookup hfd hv with hzero | ⟨tb, hn, htb⟩
  · simp only [getDiskPageTable, hload, ok_bind, tablePointer_user hv, hzero, if_true]
    have hnotab : ∀ tb, G.own tb ≠ some ⟨e, .dtable (pdx v)⟩ := by
      intro tb htb
      obtain ⟨-, fd', hfd', hn⟩ := h.table tb _ htb
      rw [h.dir_unique ho hfd' hfd] at hn
      exact names_present_ne_zero hn hzero
    refine ((kmalloc_page ho.inv).mono (F := fun _ => ¬ Enough s 1) ?_ (fun _ hr => hr)).bind ?_
    · rintro x ⟨hnil, -⟩ hen
      have := hen.1
      rw [hnil] at this
      simp at this
    rintro ⟨p, t⟩ (⟨hp, ht, hfull⟩ | ⟨g, hnew⟩)
    · simp only at hp ht
      subst hp ht
      simp only [if_true, ensures_ok]
      refine .inl ⟨fun hen => ?_, trivial⟩
      have := hen.2
      omega
    · simp only at hnew
      have hp := hnew.p_ne
      have hgnone := ho.own_free hnew.mem_free
      have hfg := hnew.ne_of_not_mem (ho.not_free hfdn)
      have hglt : g < 1048576 :=
        Nat.lt_of_lt_of_le (ho.inv.list.lt g hnew.mem_free) c.numberOfFrames_le
      have hatt : DirAt t (s.envs e).diskEnvPgdir fd :=
        ⟨by rw [hnew.va_of_ne hfg]; exact hat.va_eq, hat.ne_zero⟩
      have hstore := store_pde hnew.inv.map hatt v (constructEntry (g * 4096) permPresent)
      obtain ⟨w, hw⟩ : ∃ w, w = t.setWord fd (pdx v) (constructEntry (g * 4096) permPresent) :=
        ⟨_, rfl⟩
      rw [← hw] at hstore
      have hownedt : Owned c t (G.setOwn g (some ⟨e, .dtable (pdx v)⟩)) := ho.newPage hnew rfl e
      have hgn : (G.setOwn g (some ⟨e, .dtable (pdx v)⟩)).own g ≠ none := by simp
      have hownedw : Owned c w (G.setOwn g (some ⟨e, .dtable (pdx v)⟩)) := by
        rw [hw]
        refine hownedt.setWord ?_ _ _
        rw [G.setOwn_of_ne _ hfg]
        exact hfdn
      have hwva : w.virtualAddresses g = p := by
        rw [hw]
        exact hnew.va_self
      have hzero' := zeroPage_eq hownedw.inv.map (f := g) (by rw [hwva]; exact hp)
      rw [hwva] at hzero'
      have howned : Owned c (w.zeroFrame g) (G.setOwn g (some ⟨e, .dtable (pdx v)⟩)) := by
        refine hownedw.congr ⟨rfl, rfl, rfl, rfl, rfl, rfl, rfl, rfl⟩ (fun f hf => ?_) rfl rfl rfl
        exact w.zeroFrame_mem_frame (by rintro rfl; exact hownedw.not_kernelFrame hgn hf)
      simp only [hp, if_false, hnew.physical, ok_bind, hstore, hzero', ensures_ok]
      have hmem : ∀ f, G.own f ≠ none → f ≠ fd → (w.zeroFrame g).mem f = s.mem f := by
        intro f hf hff
        have hfg' := hnew.ne_of_not_mem (ho.not_free hf)
        rw [w.zeroFrame_mem_frame hfg', hw, Kernel.setWord_mem_frame hff]
        exact hnew.mem_eq f (ho.not_kernelFrame hf)
      have hlow : ∀ f < 3, (w.zeroFrame g).mem f = s.mem f := by
        intro f hf
        rw [w.zeroFrame_mem_frame (ho.low_ne_free hf hnew.mem_free), hw,
          Kernel.setWord_mem_frame (ho.low_ne hf hfdn)]
        exact hnew.mem_eq f (c.low_not_kernelFrame hf)
      have hmemd : ∀ k, (w.zeroFrame g).mem fd k =
          if k = pdx v then constructEntry (g * 4096) permPresent else s.mem fd k := by
        intro k
        rw [w.zeroFrame_mem_frame hfg, hw, t.setWord_mem, hnew.mem_eq fd (ho.not_kernelFrame hfdn)]
        simp
      have hva : ∀ f, G.own f ≠ none → (w.zeroFrame g).virtualAddresses f = s.virtualAddresses f := by
        intro f hf
        show w.virtualAddresses f = _
        rw [hw]
        exact hnew.va_of_ne (hnew.ne_of_not_mem (ho.not_free hf))
      have hown : ∀ f o, o ≠ ⟨e, .dtable (pdx v)⟩ →
          ((G.setOwn g (some ⟨e, .dtable (pdx v)⟩)).own f = some o ↔ G.own f = some o) := by
        intro f o hne
        rw [Ghost.setOwn_eq_some]
        constructor
        · rintro (⟨-, hx⟩ | ⟨-, hx⟩)
          · cases hx
            exact absurd rfl hne
          · exact hx
        · intro hx
          exact .inr ⟨hnew.ne_of_not_mem (ho.not_free (by simp [hx])), hx⟩
      have hself : ∀ f, (G.setOwn g (some ⟨e, .dtable (pdx v)⟩)).own f =
          some ⟨e, .dtable (pdx v)⟩ → f = g := by
        intro f hx
        rcases Ghost.setOwn_eq_some.1 hx with ⟨hx, -⟩ | ⟨-, hx⟩
        · exact hx
        · exact absurd hx (hnotab f)
      have hrest : SameRest s (w.zeroFrame g) := by
        rw [hw]
        exact ⟨hnew.same.disk, hnew.same.diskFreeFrameList, hnew.same.envs, hnew.same.envFreeList,
          hnew.same.curenv, hnew.same.cr3, hnew.same.pageRepAlgoType⟩
      have hkeep : ∀ e', KeepsBlock e' s G (w.zeroFrame g) := by
        intro e' n _ hb
        have := hnew.kmalloced.block hb
        rw [hw]
        exact this
      refine .inr ⟨G.setOwn g (some ⟨e, .dtable (pdx v)⟩), g, ?_, rfl, hrest, G.setOwn_self _ _,
        hwva.symm⟩
      refine ⟨howned, ?_, ⟨?_, ?_, ?_⟩, hkeep e, ?_, hd.congr hrest.diskFreeFrameList rfl, rfl, rfl,
        ?_, ?_, hrest.run, hlow⟩
      · refine Local.of_frame (f := g) hrest (fun _ _ => rfl) rfl (fun f hf => G.setOwn_of_ne _ hf)
          (by simp [hgnone]) ?_ ?_ (fun f o hf _ => hva f (by simp [hf])) (fun e' _ => hkeep e')
          (hlow 1 (by decide))
        · intro o hx
          rw [G.setOwn_self] at hx
          cases hx
          rfl
        · intro f o hf he
          refine hmem f (by simp [hf]) ?_
          rintro rfl
          rw [hfd] at hf
          cases hf
          exact he rfl
      · intro f r hr
        refine hown f _ ?_
        intro hx
        cases hx
        cases hr
      · intro f r hr hf
        refine hmem f (by simp [hf]) ?_
        rintro rfl
        rw [hfd] at hf
        cases hf
        cases hr
      · exact fun f r _ hf => hva f (by simp [hf])
      · -- the new table has no slot
        have hnames : Names ((w.zeroFrame g).mem fd (pdx v)) g permPresent := by
          rw [hmemd, if_pos rfl]
          exact names_constructEntry hglt (by decide)
        have htabne : ∀ tb k, G.own tb = some ⟨e, .dtable k⟩ → k ≠ pdx v := by
          rintro tb k htb rfl
          exact hnotab tb htb
        constructor
        case dir_at =>
          intro f hf
          have hf := (hown f _ (by simp)).1 hf
          rw [hva f (by simp [hf]), hrest.envs]
          exact h.dir_at f hf
        case dir_exists => exact fun _ => ⟨fd, (hown fd _ (by simp)).2 hfd⟩
        case pde =>
          intro fd' hfd' k hk
          have hfd' := (hown fd' _ (by simp)).1 hfd'
          rw [h.dir_unique ho hfd' hfd]
          by_cases hkv : k = pdx v
          · subst hkv
            exact .inr ⟨g, hnames, by simp⟩
          · rw [hmemd, if_neg hkv]
            refine (h.pde fd hfd k hk).imp id ?_
            rintro ⟨tb, hn, htb⟩
            exact ⟨tb, hn, (hown tb _ (by simpa using hkv)).2 htb⟩
        case table =>
          intro tb k htb
          by_cases hkv : k = pdx v
          · subst hkv
            rw [hself tb htb]
            exact ⟨pdx_user hv, fd, (hown fd _ (by simp)).2 hfd, hnames⟩
          · have htb := (hown tb _ (by simpa using hkv)).1 htb
            obtain ⟨hk, fd', hfd', hn⟩ := h.table tb k htb
            refine ⟨hk, fd', (hown fd' _ (by simp)).2 hfd', ?_⟩
            rw [h.dir_unique ho hfd' hfd] at hn ⊢
            rw [hmemd, if_neg hkv]
            exact hn
        case entry =>
          intro tb k htb j hj
          by_cases hkv : k = pdx v
          · subst hkv
            have hk := pdx_user hv
            have hslot : G.slots e (entryAddress (pdx v) j) = none := by
              cases hs : G.slots e (entryAddress (pdx v) j) with
              | none => rfl
              | some d =>
                obtain ⟨-, -, tb', htb'⟩ := h.slot _ d hs
                rw [pdx_entryAddress (by omega) hj] at htb'
                exact absurd htb' (hnotab tb')
            rw [hself tb htb, w.zeroFrame_mem_self g hj]
            show _ = slotWord (G.slots e (entryAddress (pdx v) j))
            rw [hslot]
            rfl
          · have htb := (hown tb _ (by simpa using hkv)).1 htb
            rw [hmem tb (by simp [htb])]
            · exact h.entry tb k htb j hj
            · rintro rfl
              rw [hfd] at htb
              cases htb
        case slot =>
          intro x d hx
          obtain ⟨hal, hlt, tb, htb⟩ := h.slot x d hx
          refine ⟨hal, hlt, tb, (hown tb _ ?_).2 htb⟩
          intro hx'
          rw [hx'] at htb
          exact hnotab tb htb
      · have hs := hnew.kmalloced.spent
        rw [hw]
        exact hs
      · rw [hrest.envs]
  · simp only [getDiskPageTable, hload, ok_bind, tablePointer_user hv,
      names_present_ne_zero hn, if_false, hn.frame_eq, ensures_ok]
    exact .inr ⟨G, tb, (Filed.refl ho h hd).mono (by omega), rfl, SameRest.refl s, htb, rfl⟩

end Create

end FosMemory
