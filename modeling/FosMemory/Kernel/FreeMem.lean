import FosMemory.Kernel.HeapCalls

/-!
# FreeMem — what `freeMem` does

Three loops: the slots of the range go back to the page file, the resident pages of the range leave
the working set and memory, and page tables without an entry go back to the kernel heap.  Every
page outside the range keeps its frame, its contents and its slot.
-/

namespace FosMemory

open Lib

variable {c : Boot} {s t u : Kernel} {G H I : Ghost} {e : Nat}

/-! ## What stays -/

/-- Frames are only given up: a frame that still has a purpose has its old one.  The tables that
stay keep the entries of the pages outside `P`, and the directory those of the tables that stay. -/
structure Sheds (e : Nat) (P : Nat → Prop) (s : Kernel) (G : Ghost) (t : Kernel) (H : Ghost) :
    Prop where
  own : ∀ f o, H.own f = some o → G.own f = some o
  entry : ∀ tb i, H.own tb = some ⟨e, .table i⟩ → ∀ j < 1024, ¬ P (entryAddress i j) →
    t.mem tb j = s.mem tb j
  dir : ∀ i < 955, t.mem (t.dirFrame e) i = 0#32 ∨
    t.mem (t.dirFrame e) i = s.mem (s.dirFrame e) i

theorem Sheds.refl (e : Nat) (P : Nat → Prop) (s : Kernel) (G : Ghost) : Sheds e P s G s G :=
  ⟨fun _ _ hf => hf, fun _ _ _ _ _ _ => rfl, fun _ _ => .inr rfl⟩

theorem Sheds.mono {P Q : Nat → Prop} (h : Sheds e P s G t H) (hPQ : ∀ v, P v → Q v) :
    Sheds e Q s G t H :=
  ⟨h.own, fun tb i htb j hj hq => h.entry tb i htb j hj fun hp => hq (hPQ _ hp), h.dir⟩

theorem Sheds.trans {P : Nat → Prop} (h : Sheds e P s G t H) (h' : Sheds e P t H u I) :
    Sheds e P s G u I := by
  refine ⟨fun f o hf => h.own f o (h'.own f o hf), fun tb i htb j hj hp => ?_, fun i hi => ?_⟩
  · rw [h'.entry tb i htb j hj hp, h.entry tb i (h'.own _ _ htb) j hj hp]
  · rcases h'.dir i hi with hz | hsame
    · exact .inl hz
    · rw [hsame]
      exact h.dir i hi

/-! ## The slots of the range -/

/-- The slots of the first `n` pages from `va` on are empty. -/
structure Unlisted (c : Boot) (e va n : Nat) (s : Kernel) (G : Ghost) (t : Kernel) (H : Ghost) :
    Prop where
  filed : Filed c e 0 s G t H
  own : H.own = G.own
  disk : t.disk = s.disk
  envs : t.envs = s.envs
  gone : ∀ k < n, H.slots e (pageAt va k) = none
  other : ∀ v, (∀ k < n, v ≠ pageAt va k) → H.slots e v = G.slots e v

theorem Unlisted.step {va n : Nat} (h : Unlisted c e va n s G t H)
    (hu : Unslotted c e (pageAt va n) t H u I) : Unlisted c e va (n + 1) s G u I := by
  constructor
  case filed => exact h.filed.trans hu.filed
  case own => exact hu.own.trans h.own
  case disk => exact hu.disk.trans h.disk
  case envs => exact hu.envs.trans h.envs
  case gone =>
    intro k hk
    rw [hu.slots, H.setSlot_slots]
    split
    · rfl
    · rename_i hne
      have hkn : k ≠ n := by
        rintro rfl
        exact hne ⟨rfl, rfl⟩
      exact h.gone k (by omega)
  case other =>
    intro v hv
    rw [hu.slots, H.setSlot_slots, if_neg fun hx => hv n (by omega) hx.2]
    exact h.other v fun k hk => hv k (by omega)

/-- The tables are not touched. -/
theorem Unlisted.sheds {va n : Nat} {P : Nat → Prop} (h : Unlisted c e va n s G t H)
    (hs : Space c s G e) : Sheds e P s G t H := by
  have hdir : t.dirFrame e = s.dirFrame e := by
    rw [Kernel.dirFrame, h.envs, Kernel.dirFrame]
  refine ⟨fun f o hf => by rwa [h.own] at hf, fun tb i htb j _ _ => ?_, fun i _ => .inr ?_⟩
  · rw [h.own] at htb
    rw [h.filed.keeps.mem tb _ rfl htb]
  · rw [hdir, h.filed.keeps.mem _ _ rfl hs.dir_own]

/-- The first loop of `freeMem`. -/
theorem SlotTable.removeRange (ho : Owned c s G) (h : SlotTable s G e) (hd : DiskFrames s G)
    {va n : Nat} (hva : va + 4096 * n < userTop) :
    Ensures (fun _ => False) (fun t => ∃ H, Unlisted c e va n s G t H)
      (forRange (fun i s => pfRemoveEnvPage s e ((va + 4096 * i) % wordMod)) 0 n s) := by
  have hzero : Unlisted c e va 0 s G s G :=
    ⟨Filed.refl ho h hd, rfl, rfl, rfl, fun k hk => absurd hk (by omega), fun _ _ => rfl⟩
  have hloop := forRange_ensures (E := fun _ : Stop => False) (a := 0) (n := n) (s := s)
    (I := fun i t => ∃ H, Unlisted c e va i s G t H)
    (b := fun i s => pfRemoveEnvPage s e ((va + 4096 * i) % wordMod)) ?_ ⟨G, hzero⟩
  · rw [Nat.zero_add] at hloop
    exact hloop
  · rintro i t - hi ⟨H, hl⟩
    rw [Nat.zero_add] at hi
    have hmod : (va + 4096 * i) % wordMod = va + 4096 * i := by
      simp only [userTop, wordMod] at hva ⊢
      omega
    have hlt : va + 4096 * i < userTop := by
      simp only [userTop] at hva ⊢
      omega
    obtain ⟨u, I, hrem, hu⟩ := SlotTable.pfRemoveEnvPage_spec hl.filed.owned hl.filed.table
      hl.filed.frames hlt
    rw [hmod, hrem]
    exact ⟨I, hl.step hu⟩

/-! ## The resident pages of the range -/

/-- Page `v` is neither in memory nor in the working set; the others are as before. -/
structure Vacates (c : Boot) (e v : Nat) (s : Kernel) (G : Ghost) (t : Kernel) (H : Ghost) :
    Prop where
  step : EnvStep c e 0 s G t H
  held : NoHeld G → NoHeld H
  entries : Entries t H e
  covered : Covered t H e
  slots : H.slots = G.slots
  gone : ∀ f, H.own f ≠ some ⟨e, .page v⟩
  shrinks : ∀ f v', H.own f = some ⟨e, .page v'⟩ → G.own f = some ⟨e, .page v'⟩
  other : ∀ v', v' ≠ v → SamePage e v' s G t H
  element : ∀ k < s.wsMax e, ∀ v', t.wsPage e k = some v' →
    s.wsPage e k = some v' ∧ t.wsStamp e k = s.wsStamp e k
  pte : ∀ v' f, v' ≠ v → G.own f = some ⟨e, .page v'⟩ → t.pteWord e v' = s.pteWord e v'

section Resident

variable (ho : Owned c s G) (hb : Base c s G e) (hd : DiskFrames s G) (hent : Entries s G e)
  (hcov : Covered s G e) {v : Nat} (hv : v < userTop) (hpos : 0 < v)
include ho hb hd hent hcov hpos

/-- Element `i` names the page: it is emptied and the page is unmapped. -/
theorem Base.vacate {i : Nat} (hi : i < s.wsMax e) (hva : s.wsVa e i = v) :
    ∃ t u H, envPageWSClearEntry s e i = .ok t ∧
      unmapFrame t (t.envs e).envPageDirectory v = .ok u ∧ Vacates c e v s G u H ∧
      Sheds e (· = v) s G u H := by
  -- an empty element has address zero, so this one is in use
  have hflag : s.wsFlag e i = 0#8 := by
    rcases hent.flag i hi with hx | ⟨-, hx⟩
    · exact hx
    · omega
  have hpage : s.wsPage e i = some v := by
    rw [wsPage_eq_some hflag, hva]
  obtain ⟨hal, hlt, f, tb, hf, htb⟩ := Entries.target hb hent hi hpage
  obtain ⟨t, hclear, hw⟩ := hb.array.envPageWSClearEntry_spec ho hi
  have hst := hw.only.envStep ho hb hd
  have hf' : G.own f = some ⟨e, .page (roundDown v 4096)⟩ := by
    rw [roundDown_eq hal]
    exact hf
  obtain ⟨tb', u, htb', hun, hmem, hrem⟩ := hst.base.space.unmapFrame_page_eq hst.owned hf'
  rw [roundDown_eq hal] at hrem
  have hst' := hrem.envStep hst.base hst.frames
  have hws := hrem.sameWs hst.base hst.owned hst.frames
  have hmax : t.wsMax e = s.wsMax e := hst.env.pageWSMaxSize
  have hmax' : u.wsMax e = s.wsMax e := hst'.env.pageWSMaxSize.trans hmax
  have hi' : i < t.wsMax e := by
    rw [hmax]
    exact hi
  have hgone := hst.base.space.page_gone hf
  have hrest : ∀ k < s.wsMax e, k ≠ i → u.wsVa e k = s.wsVa e k ∧ u.wsFlag e k = s.wsFlag e k := by
    intro k hk hne
    obtain ⟨h₁, h₂, -⟩ := hw.rest k hk hne
    have hk' : k < t.wsMax e := by
      rw [hmax]
      exact hk
    rw [hws.va hk', hws.flag hk', h₁, h₂]
    exact ⟨rfl, rfl⟩
  have hempty : u.wsPage e i = none := by
    rw [hws.page hi', Kernel.wsPage, hw.flag]
    rfl
  have hother : ∀ v', v' ≠ v → SamePage e v' s G u (G.setOwn f none) := fun v' hne =>
    (hw.only.samePage hb.space v').trans (hrem.samePage hne)
  have hlast : (u.envs e).pageLastWSIndex < s.wsMax e := by
    rw [hrem.rest.envs, hw.only.rest.envs]
    exact hent.last
  -- the elements are not in tables, and of the tables one entry has changed
  have hwalk : ∀ g r, G.own g = some ⟨e, r⟩ → (∀ k, r ≠ .ws k) → t.mem g = s.mem g := by
    intro g r hg hr
    refine hw.only.mem g fun k hx => hr k ?_
    rw [hg] at hx
    exact congrArg Owner.role (Option.some.inj hx)
  have hsheds : Sheds e (· = v) s G u (G.setOwn f none) := by
    have hdir : u.dirFrame e = s.dirFrame e := by
      rw [Kernel.dirFrame, hrem.rest.envs, hw.only.rest.envs, Kernel.dirFrame]
    refine ⟨fun g o hg => ?_, fun tb'' j htb'' k hk hkv => ?_, fun j _ => .inr ?_⟩
    · rcases Ghost.setOwn_eq_some.1 hg with ⟨-, hx⟩ | ⟨-, hx⟩
      · cases hx
      · exact hx
    · have hold : G.own tb'' = some ⟨e, .table j⟩ := by
        rcases Ghost.setOwn_eq_some.1 htb'' with ⟨-, hx⟩ | ⟨-, hx⟩
        · cases hx
        · exact hx
      rw [hmem, Kernel.setWord_mem, if_neg, hwalk tb'' _ hold fun k => by simp]
      rintro ⟨rfl, rfl⟩
      rw [htb'] at hold
      cases hold
      exact hkv (entryAddress_eq hal (by simp only [userTop] at hlt; omega))
    · have hne : s.dirFrame e ≠ tb' := by
        intro heq
        rw [← heq, hb.space.dir_own] at htb'
        cases htb'
      rw [hdir, hmem, Kernel.setWord_mem_frame hne,
        hwalk _ _ hb.space.dir_own fun k => by simp]
  refine ⟨t, u, G.setOwn f none, hclear, hun, ?_, hsheds⟩
  constructor
  case step => exact hst.trans hst'
  case held => exact fun hno => hno.setOwn_none f
  case entries =>
    refine hent.erase hmax' hlast hi hrest (fun v' hne g => (hother v' hne).own g) hpage ?_ ?_
    · rw [hws.flag hi', hw.flag]
    · rw [hws.va hi', hw.va]
  case covered =>
    exact hcov.erase hmax' hrest (fun v' hne g => (hother v' hne).own g) hpage hgone
  case slots => rfl
  case gone => exact hgone
  case shrinks =>
    intro g v' hg
    rcases Ghost.setOwn_eq_some.1 hg with ⟨-, hx⟩ | ⟨-, hx⟩
    · cases hx
    · exact hx
  case other => exact hother
  case element =>
    intro k hk v' hv'
    by_cases hki : k = i
    · subst hki
      rw [hempty] at hv'
      cases hv'
    · obtain ⟨h₁, h₂⟩ := hrest k hk hki
      rw [wsPage_of_rest h₁ h₂] at hv'
      exact ⟨hv', (hws.stamp (by rw [hmax]; exact hk)).trans (hw.rest k hk hki).2.2⟩
  case pte =>
    intro v' g hne hg
    rw [hrem.pte v' g hne hg, hw.only.pteWord hb.space (b := false) hg]

/-- The inner loop of `freeMem`, from index `i` on. -/
theorem Base.freeResident_from (n : Nat) : ∀ i, i + n = s.wsMax e →
    (∀ k < i, s.wsVa e k ≠ v) →
    ∃ t H, freeResident e v n i s = .ok t ∧ Vacates c e v s G t H ∧
      Sheds e (· = v) s G t H := by
  induction n with
  | zero =>
    intro i hin hno
    refine ⟨s, G, rfl, ⟨EnvStep.refl ho hb hd, id, hent, hcov, rfl, ?_, fun _ _ hx => hx,
      fun v' _ => SamePage.refl e v' s G, fun _ _ _ hx => ⟨hx, rfl⟩, fun _ _ _ _ => rfl⟩,
      Sheds.refl e _ s G⟩
    -- a page in memory would have an element
    intro f hf
    obtain ⟨k, hk, hkv⟩ := hcov v f hf
    exact hno k (by omega) (Kernel.wsVa_of_page hkv)
  | succ n ih =>
    intro i hin hno
    have hi : i < s.wsMax e := by omega
    by_cases hva : s.wsVa e i = v
    · obtain ⟨t, u, H, hclear, hun, hvac⟩ := hb.vacate ho hd hent hcov hpos hi hva
      refine ⟨u, H, ?_, hvac⟩
      rw [freeResident, hb.array.wsVirtualAddress_eq ho hi, ok_bind, if_pos hva, hclear, ok_bind,
        hun]
    · obtain ⟨t, H, hfree, hvac⟩ := ih (i + 1) (by omega) fun k hk => by
        by_cases hki : k = i
        · subst hki
          exact hva
        · exact hno k (by omega)
      refine ⟨t, H, ?_, hvac⟩
      rw [freeResident, hb.array.wsVirtualAddress_eq ho hi, ok_bind, if_neg hva, hfree]

end Resident

/-- The first `n` pages from `va` on have left memory and the working set. -/
structure Vacated (c : Boot) (e va n : Nat) (s : Kernel) (G : Ghost) (t : Kernel) (H : Ghost) :
    Prop where
  step : EnvStep c e 0 s G t H
  held : NoHeld G → NoHeld H
  entries : Entries t H e
  covered : Covered t H e
  slots : H.slots = G.slots
  gone : ∀ k < n, ∀ f, H.own f ≠ some ⟨e, .page (pageAt va k)⟩
  other : ∀ v, (∀ k < n, v ≠ pageAt va k) → SamePage e v s G t H
  element : ∀ k < s.wsMax e, ∀ v, t.wsPage e k = some v →
    s.wsPage e k = some v ∧ t.wsStamp e k = s.wsStamp e k
  pte : ∀ v f, (∀ k < n, v ≠ pageAt va k) → G.own f = some ⟨e, .page v⟩ →
    t.pteWord e v = s.pteWord e v

theorem Vacated.next {va n : Nat} (h : Vacated c e va n s G t H)
    (hv : Vacates c e (pageAt va n) t H u I) : Vacated c e va (n + 1) s G u I := by
  constructor
  case step => exact h.step.trans hv.step
  case held => exact fun hno => hv.held (h.held hno)
  case entries => exact hv.entries
  case covered => exact hv.covered
  case slots => exact hv.slots.trans h.slots
  case gone =>
    intro k hk f hf
    by_cases hkn : k = n
    · subst hkn
      exact hv.gone f hf
    · exact h.gone k (by omega) f (hv.shrinks f _ hf)
  case other =>
    intro v hne
    exact (h.other v fun k hk => hne k (by omega)).trans (hv.other v (hne n (by omega)))
  case element =>
    intro k hk v hu
    obtain ⟨ht, hstamp⟩ := hv.element k (by
      rw [show t.wsMax e = s.wsMax e from h.step.env.pageWSMaxSize]
      exact hk) v hu
    obtain ⟨hs, hstamp'⟩ := h.element k hk v ht
    exact ⟨hs, hstamp.trans hstamp'⟩
  case pte =>
    intro v f hne hf
    have hsame := h.other v fun k hk => hne k (by omega)
    rw [hv.pte v f (hne n (by omega)) ((hsame.own f).2 hf), h.pte v f (fun k hk => hne k (by omega)) hf]

/-- The second loop of `freeMem`. -/
theorem Base.freeRange (ho : Owned c s G) (hb : Base c s G e) (hd : DiskFrames s G)
    (hent : Entries s G e) (hcov : Covered s G e) {va n : Nat} (hal : va % 4096 = 0)
    (hva : va + 4096 * n < userTop) (hpos : 0 < va) :
    Ensures (fun _ => False) (fun t => ∃ H, Vacated c e va n s G t H ∧
        Sheds e (fun v => ∃ k < n, v = pageAt va k) s G t H)
      (forRange (fun j s =>
        freeResident e ((va + 4096 * j) % wordMod) (s.envs e).pageWSMaxSize 0 s) 0 n s) := by
  have hzero : Vacated c e va 0 s G s G :=
    ⟨EnvStep.refl ho hb hd, id, hent, hcov, rfl, fun k hk => absurd hk (by omega),
      fun v _ => SamePage.refl e v s G, fun _ _ _ hx => ⟨hx, rfl⟩, fun _ _ _ _ => rfl⟩
  have hloop := forRange_ensures (E := fun _ : Stop => False) (a := 0) (n := n) (s := s)
    (I := fun i t => ∃ H, Vacated c e va i s G t H ∧
      Sheds e (fun v => ∃ k < i, v = pageAt va k) s G t H)
    (b := fun j s => freeResident e ((va + 4096 * j) % wordMod) (s.envs e).pageWSMaxSize 0 s)
    ?_ ⟨G, hzero, Sheds.refl e _ s G⟩
  · rw [Nat.zero_add] at hloop
    exact hloop
  · rintro j t - hj ⟨H, hl, hsh⟩
    rw [Nat.zero_add] at hj
    have hmod : (va + 4096 * j) % wordMod = pageAt va j := by
      rw [pageAt_eq hal]
      simp only [userTop, wordMod] at hva ⊢
      omega
    have hpage : 0 < pageAt va j := by
      rw [pageAt_eq hal]
      omega
    obtain ⟨u, I, hfree, hvac, hsh'⟩ := hl.step.base.freeResident_from hl.step.owned hl.step.frames
      hl.entries hl.covered hpage (t.wsMax e) 0 (Nat.zero_add _) fun k hk => absurd hk (by omega)
    rw [hmod, hfree]
    refine ⟨I, hl.next hvac, (hsh.mono fun v => ?_).trans (hsh'.mono fun v hv => ?_)⟩
    · rintro ⟨k, hk, heq⟩
      exact ⟨k, Nat.lt_succ_of_lt hk, heq⟩
    · exact ⟨j, Nat.lt_succ_self j, hv⟩

/-! ## Empty page tables -/

/-- The scan of a page table. -/
theorem tableEmpty_eq {p tb : Nat} (hd : DirAt s p tb) (hm : KernelMap c s) (n : Nat) :
    ∀ j, j + n = 1024 → ∃ b, tableEmpty s p n j = .ok b ∧
      (b = true ↔ ∀ k, j ≤ k → k < 1024 → s.mem tb k = 0#32) := by
  induction n with
  | zero =>
    intro j hj
    exact ⟨true, rfl, fun _ k hk hlt => by omega, fun _ => rfl⟩
  | succ n ih =>
    intro j hj
    rw [tableEmpty, hd.load hm (by omega), ok_bind]
    by_cases hw : s.mem tb j ≠ 0#32
    · refine ⟨false, if_pos hw, ?_⟩
      exact ⟨fun hx => absurd hx (by decide),
        fun hall => absurd (hall j (Nat.le_refl j) (by omega)) hw⟩
    · rw [if_neg hw]
      obtain ⟨b, hb, hiff⟩ := ih (j + 1) (by omega)
      refine ⟨b, hb, hiff.trans ⟨fun hall k hk hlt => ?_, fun hall k hk hlt => ?_⟩⟩
      · by_cases hkj : k = j
        · subst hkj
          exact not_not.1 hw
        · exact hall k (by omega) hlt
      · exact hall k (by omega) hlt

/-- A table without entries maps nothing. -/
theorem Space.table_unused (h : Space c s G e) {tb i : Nat} (htb : G.own tb = some ⟨e, .table i⟩)
    (hempty : ∀ k < 1024, s.mem tb k = 0#32) {v f : Nat} {b : Bool} (ht : G.Target e v f b) :
    pdx v ≠ i := by
  rintro rfl
  obtain ⟨-, -, tb', htb', hentry⟩ := h.target v f b ht
  rw [h.table_unique htb' htb, hempty _ (ptx_lt v)] at hentry
  exact entryFor_ne_zero hentry rfl

/-- An empty table is released and its directory entry cleared. -/
theorem Base.dropTable (ho : Owned c s G) (hb : Base c s G e) (hd : DiskFrames s G) {tb i : Nat}
    (htb : G.own tb = some ⟨e, .table i⟩) (hempty : ∀ k < 1024, s.mem tb k = 0#32) :
    ∃ t u, kfree s (s.virtualAddresses tb) = .ok t ∧
      t.store ((s.envs e).envPageDirectory + 4 * i) 0#32 = .ok u ∧
      Still c e 0 s G u (G.setOwn tb none) ∧
      Sheds e (fun _ => False) s G u (G.setOwn tb none) := by
  have hi := (hb.space.table tb i htb).1
  obtain ⟨t, hfree, hfr⟩ := ho.release htb rfl
  have hdir : DirAt s (s.envs e).envPageDirectory (s.dirFrame e) := hb.space.dirAt ho
  have hdne : s.dirFrame e ≠ tb := by
    rintro heq
    rw [← heq, hb.space.dir_own] at htb
    cases htb
  have hdown : (G.setOwn tb none).own (s.dirFrame e) = some ⟨e, .dir⟩ := by
    rw [G.setOwn_of_ne none hdne]
    exact hb.space.dir_own
  have hnk : ∀ g o, G.own g = some o → t.mem g = s.mem g := fun g o hg =>
    hfr.mem g (ho.not_kernelFrame (by simp [hg]))
  have hdirt : DirAt t (s.envs e).envPageDirectory (s.dirFrame e) :=
    ⟨(hfr.va _ hdne).trans hdir.va_eq, hdir.ne_zero⟩
  have hstore := hdirt.store hfr.owned.inv.map (show i < 1024 by omega) 0#32
  obtain ⟨u, hu⟩ : ∃ u, u = t.setWord (s.dirFrame e) i 0#32 := ⟨_, rfl⟩
  have hmemu : ∀ g, g ≠ s.dirFrame e → u.mem g = t.mem g := by
    intro g hg
    rw [hu, Kernel.setWord_mem_frame hg]
  have hrest : SameRest s u := by
    rw [hu]
    exact hfr.same.trans ⟨rfl, rfl, rfl, rfl, rfl, rfl, rfl⟩
  have hvau : ∀ g, g ≠ tb → u.virtualAddresses g = s.virtualAddresses g := by
    intro g hg
    rw [hu]
    exact hfr.va g hg
  have hspace : Space c u (G.setOwn tb none) e := by
    refine hb.space.dropTable htb (fun v f b => hb.space.table_unused htb hempty) ?_ ?_ ?_
      (hvau _ hdne) (by rw [hrest.envs])
    · rw [hu, Kernel.setWord_mem_self]
    · intro k hk
      rw [hu, Kernel.setWord_mem, if_neg fun hx => hk hx.2, hnk _ _ hb.space.dir_own]
    · intro f k hne hf
      rw [hmemu f ?_, hnk f _ hf]
      rintro rfl
      rw [hb.space.dir_own] at hf
      cases hf
  have howned : Owned c u (G.setOwn tb none) := by
    rw [hu]
    exact hfr.owned.setWord (by rw [hdown]; simp) i 0#32
  -- nothing but the directory and the table has changed
  have hkeeps : Keeps e Role.offWalk s G u (G.setOwn tb none) := by
    have hne : ∀ g r, r.offWalk = true → G.own g = some ⟨e, r⟩ → g ≠ tb ∧ g ≠ s.dirFrame e := by
      intro g r hr hg
      constructor
      · rintro rfl
        rw [htb] at hg
        cases hg
        cases hr
      · rintro rfl
        rw [hb.space.dir_own] at hg
        cases hg
        cases hr
    refine ⟨fun g r hr => ?_, fun g r hr hg => ?_, fun g r hr hg => hvau g (hne g r hr hg).1⟩
    · rw [Ghost.setOwn_eq_some]
      refine ⟨fun hx => ?_, fun hx => .inr ⟨(hne g r hr hx).1, hx⟩⟩
      rcases hx with ⟨-, hx⟩ | ⟨-, hx⟩
      · cases hx
      · exact hx
    · rw [hmemu g (hne g r hr hg).2, hnk g _ hg]
  have hlocal : Local e s G u (G.setOwn tb none) := by
    rw [hu]
    exact hfr.others.trans (Local.setWord hfr.owned hdown rfl i 0#32)
  have hblock : KeepsBlock e s G u := by
    rw [hu]
    exact hfr.block e
  have hspent : Spent s u 0 := by
    rw [hu]
    exact hfr.spent
  have hmoves : Moves c e Role.offWalk 0 s G u (G.setOwn tb none) :=
    ⟨howned, hspace, hlocal, hkeeps, hblock, rfl, rfl, hspent⟩
  have hst := hmoves.envStep hb hd (fun _ => rfl) (fun r => Role.offWalk_of_inDisk) rfl hrest
  have hpte : ∀ v f, G.own f = some ⟨e, .page v⟩ → u.pteWord e v = s.pteWord e v := by
    intro v f hf
    -- the entry of a mapped page is in another table
    obtain ⟨-, -, tb', htb', -⟩ := hb.space.target v f false hf
    have hne : tb' ≠ tb := by
      rintro rfl
      rw [htb] at htb'
      cases htb'
      exact hb.space.table_unused (b := false) htb hempty hf rfl
    have htb'' : (G.setOwn tb none).own tb' = some ⟨e, .table (pdx v)⟩ := by
      rw [G.setOwn_of_ne none hne]
      exact htb'
    have hnd : tb' ≠ s.dirFrame e := by
      rintro rfl
      rw [hb.space.dir_own] at htb'
      cases htb'
    rw [hspace.pteWord_eq htb'', hb.space.pteWord_eq htb', hmemu tb' hnd, hnk tb' _ htb']
  have hsheds : Sheds e (fun _ => False) s G u (G.setOwn tb none) := by
    have hdiru : u.dirFrame e = s.dirFrame e := by
      rw [Kernel.dirFrame, hrest.envs, Kernel.dirFrame]
    refine ⟨fun g o hg => ?_, fun g j hg k _ _ => ?_, fun j _ => ?_⟩
    · rcases Ghost.setOwn_eq_some.1 hg with ⟨-, hx⟩ | ⟨-, hx⟩
      · cases hx
      · exact hx
    · rcases Ghost.setOwn_eq_some.1 hg with ⟨-, hx⟩ | ⟨-, hx⟩
      · cases hx
      · have hnd : g ≠ s.dirFrame e := by
          rintro rfl
          rw [hb.space.dir_own] at hx
          cases hx
        rw [hmemu g hnd, hnk g _ hx]
    · rw [hdiru, hu, Kernel.setWord_mem]
      by_cases hj : j = i
      · exact .inl (if_pos ⟨rfl, hj⟩)
      · rw [if_neg fun hx => hj hx.2, hnk _ _ hb.space.dir_own]
        exact .inr rfl
  refine ⟨t, u, hfree, by rw [hstore, hu], ⟨⟨hst, fun hno => hno.setOwn_none tb, ?_,
    by rw [hrest.envs], fun v => ?_, hrest.diskFreeFrameList⟩, hpte⟩, hsheds⟩
  · exact SameWs.of_keeps hb.array hst.base.array ho hst.owned hkeeps fun _ => rfl
  · exact ⟨fun f => hkeeps.own f _ rfl, fun f hf => hkeeps.mem f _ rfl hf,
      fun f hf => by rw [hpte v f hf], rfl, fun d _ => by rw [hrest.disk]⟩

/-- Table number `i` of `e` has an entry, or is not there. -/
def InUse (s : Kernel) (G : Ghost) (e i : Nat) : Prop :=
  ∀ tb, G.own tb = some ⟨e, .table i⟩ → ∃ k < 1024, s.mem tb k ≠ 0#32

theorem InUse.sheds {i : Nat} (h : InUse s G e i) (hst : Sheds e (fun _ => False) s G t H) :
    InUse t H e i := by
  intro tb htb
  obtain ⟨k, hk, hne⟩ := h tb (hst.own _ _ htb)
  refine ⟨k, hk, ?_⟩
  rw [hst.entry tb i htb k hk id]
  exact hne

/-- One round of the last loop of `freeMem`. -/
theorem Base.freeTable_spec (ho : Owned c s G) (hb : Base c s G e) (hd : DiskFrames s G) {i : Nat}
    (hi : i < userTop) :
    Ensures (fun _ => False) (fun t => ∃ H, Still c e 0 s G t H ∧
      Sheds e (fun _ => False) s G t H ∧ InUse t H e (pdx i)) (freeTable e i s) := by
  have hdir := hb.space.dirAt ho
  have hquiet : InUse s G e (pdx i) → ∃ H, Still c e 0 s G s H ∧
      Sheds e (fun _ => False) s G s H ∧ InUse s H e (pdx i) :=
    fun huse => ⟨G, Still.refl ho hb hd, Sheds.refl e _ s G, huse⟩
  rw [freeTable]
  rcases hb.space.lookup hi with hzero | ⟨tb, hpde, htb⟩
  · simp only [getPageTable_user_none ho.inv.map hdir hi hzero, ok_bind, if_pos]
    refine hquiet fun tb htb => ?_
    -- a table would be named by the directory
    exact absurd hzero (hb.space.table tb _ htb).2.ne_zero
  · have hva := Space.table_va ho htb
    simp only [getPageTable_user ho.inv.map hdir hi hpde, ok_bind, if_neg hva]
    obtain ⟨b, hb', hiff⟩ := tableEmpty_eq (p := s.virtualAddresses tb) ⟨rfl, hva⟩ ho.inv.map 1024 0
      (by omega)
    rw [hb', ok_bind]
    cases b with
    | false =>
      refine hquiet fun tb' htb' => ?_
      by_contra hno
      simp only [not_exists, not_and, not_not] at hno
      rw [hb.space.table_unique htb' htb] at hno
      exact absurd (hiff.2 fun k _ hk => hno k hk) (by decide)
    | true =>
      obtain ⟨t, u, hfree, hstore, hq, hsh⟩ := hb.dropTable ho hd htb fun k hk =>
        hiff.1 rfl k (Nat.zero_le k) hk
      rw [if_pos rfl, hfree, ok_bind, hstore]
      refine ⟨_, hq, hsh, fun tb' htb' => ?_⟩
      -- the table of this index is gone
      rcases Ghost.setOwn_eq_some.1 htb' with ⟨-, hx⟩ | ⟨hne, hx⟩
      · cases hx
      · exact absurd (hb.space.table_unique hx htb) hne

/-- The last loop of `freeMem`. -/
theorem Base.freeTables (ho : Owned c s G) (hb : Base c s G e) (hd : DiskFrames s G)
    {first n : Nat} (hlast : ∀ k < n, first + ptSize * k < userTop) :
    Ensures (fun _ => False) (fun t => ∃ H, Still c e 0 s G t H ∧
        Sheds e (fun _ => False) s G t H ∧ ∀ k < n, InUse t H e (pdx (first + ptSize * k)))
      (forRange (fun k s => freeTable e (first + ptSize * k) s) 0 n s) := by
  have hloop := forRange_ensures (E := fun _ : Stop => False) (a := 0) (n := n) (s := s)
    (I := fun i t => ∃ H, Still c e 0 s G t H ∧ Sheds e (fun _ => False) s G t H ∧
      ∀ k < i, InUse t H e (pdx (first + ptSize * k)))
    (b := fun k s => freeTable e (first + ptSize * k) s) ?_
    ⟨G, Still.refl ho hb hd, Sheds.refl e _ s G, fun k hk => absurd hk (Nat.not_lt_zero k)⟩
  · rw [Nat.zero_add] at hloop
    exact hloop
  · rintro k t - hk ⟨H, hq, hsh, huse⟩
    rw [Nat.zero_add] at hk
    refine (hq.step.base.freeTable_spec hq.step.owned hq.step.frames (hlast k hk)).imp ?_
    rintro u ⟨I, hq', hsh', huse'⟩
    refine ⟨I, hq.trans hq', hsh.trans hsh', fun j hj => ?_⟩
    by_cases hjk : j = k
    · subst hjk
      exact huse'
    · exact (huse j (by omega)).sheds hsh'

/-! ## freeMem -/

/-- The first `n` pages from `va` on are gone, from memory and from the page file. -/
structure Returned (c : Boot) (e va n : Nat) (s : Kernel) (G : Ghost) (t : Kernel) (H : Ghost) :
    Prop where
  acts : Acts c e s G t H
  own : ∀ k < n, ∀ f, H.own f ≠ some ⟨e, .page (pageAt va k)⟩
  slots : ∀ k < n, H.slots e (pageAt va k) = none
  other : ∀ v, (∀ k < n, v ≠ pageAt va k) → SamePage e v s G t H
  element : ∀ k < s.wsMax e, ∀ v, t.wsPage e k = some v →
    s.wsPage e k = some v ∧ t.wsStamp e k = s.wsStamp e k
  pte : ∀ v f, H.own f = some ⟨e, .page v⟩ → t.pteWord e v = s.pteWord e v

theorem roundUp_mod (size : Nat) : roundUp size 4096 % 4096 = 0 := by
  rw [roundUp]
  exact roundDown_aligned _

/-- The three loops one after the other. -/
theorem Unlisted.returned {va n : Nat} {s₁ s₂ : Kernel} {G₁ G₂ : Ghost}
    (h₁ : Unlisted c e va n s G s₁ G₁) (h₂ : Vacated c e va n s₁ G₁ s₂ G₂)
    (h₃ : Still c e 0 s₂ G₂ t H) (ho : Owned c s G) (ha : Alive c s G e) :
    Returned c e va n s G t H := by
  have hst₁ : EnvStep c e 0 s G s₁ G₁ :=
    h₁.filed.envStep ha.base fun hne => by rw [h₁.envs]; exact hne
  have hst := (hst₁.trans h₂.step).trans h₃.step
  constructor
  case acts =>
    exact ⟨⟨_, hst⟩, fun hno => h₃.held (h₂.held (h₁.filed.held hno)), h₃.step.base,
      h₃.entries h₂.entries, h₃.covered h₂.covered, hst.ddir ha.ddir⟩
  case own =>
    intro k hk f hf
    exact h₂.gone k hk f (((h₃.same _).own f).1 hf)
  case slots =>
    intro k hk
    rw [(h₃.same _).slot, h₂.slots]
    exact h₁.gone k hk
  case other =>
    intro v hv
    have hsame : SamePage e v s G s₁ G₁ :=
      h₁.filed.samePage ha.base (h₁.other v hv) fun d _ => by rw [h₁.disk]
    exact (hsame.trans (h₂.other v hv)).trans (h₃.same v)
  case element =>
    intro k hk v hv
    have hws := h₁.filed.sameWs ha.base ho
    have hmax : s₁.wsMax e = s.wsMax e := hst₁.env.pageWSMaxSize
    have hmax' : s₂.wsMax e = s₁.wsMax e := h₂.step.env.pageWSMaxSize
    have hk₂ : k < s₂.wsMax e := by
      rw [hmax', hmax]
      exact hk
    rw [h₃.ws.page hk₂] at hv
    obtain ⟨hp, hstamp⟩ := h₂.element k (by rw [hmax]; exact hk) v hv
    rw [hws.page hk] at hp
    exact ⟨hp, by rw [h₃.ws.stamp hk₂, hstamp, hws.stamp hk]⟩
  case pte =>
    intro v f hf
    have hf₂ := ((h₃.same v).own f).1 hf
    -- a page that is still there is outside the range
    have hv : ∀ k < n, v ≠ pageAt va k := by
      rintro k hk rfl
      exact h₂.gone k hk f hf₂
    have hf₁ := ((h₂.other v hv).own f).1 hf₂
    have hf₀ : G.own f = some ⟨e, .page v⟩ := by
      rw [← h₁.own]
      exact hf₁
    rw [h₃.pte v f hf₂, h₂.pte v f hv hf₁, h₁.filed.pteWord ha.base.space (b := false) hf₀]

/-- The tables `freeMem` looks at: those of the range, and the one behind it where the range ends
with a table. -/
def TableOfRange (va n i : Nat) : Prop :=
  ∃ k ≤ n, i = pdx (va + 4096 * k)

/-- `freeMem` on a range that starts above page zero and ends below `USER_TOP`: what goes, what
stays, and which tables are looked at. -/
theorem Alive.freeMem_sheds (ho : Owned c s G) (hd : DiskFrames s G) (ha : Alive c s G e)
    {va size n : Nat} (hn : n = roundUp size 4096 / 4096) (hpos : 0 < roundDown va 4096)
    (hlt : roundDown va 4096 + 4096 * n < userTop) :
    ∃ t H, freeMem s e va size = .ok t ∧ Returned c e (roundDown va 4096) n s G t H ∧
      Sheds e (fun v => ∃ k < n, v = pageAt (roundDown va 4096) k) s G t H ∧
      ∀ i, TableOfRange (roundDown va 4096) n i → InUse t H e i := by
  obtain ⟨vp, hvp⟩ : ∃ vp, vp = roundDown va 4096 := ⟨_, rfl⟩
  have hal : vp % 4096 = 0 := by
    rw [hvp]
    exact roundDown_aligned va
  rw [← hvp] at hpos hlt ⊢
  have hsize : roundUp size 4096 = 4096 * n := by
    have := roundUp_mod size
    omega
  -- the bounds of the last loop
  have hlast : (vp + roundUp size 4096) % wordMod = vp + 4096 * n := by
    rw [hsize]
    simp only [userTop, wordMod] at hlt ⊢
    omega
  have hfirst : roundDown vp ptSize ≤ vp := Nat.sub_le _ _
  obtain ⟨s₁, h₁, G₁, hun⟩ := (SlotTable.removeRange ho ha.base.slots hd hlt).exists_ok
  have hst₁ : EnvStep c e 0 s G s₁ G₁ :=
    hun.filed.envStep ha.base fun hne => by rw [hun.envs]; exact hne
  have hws := hun.filed.sameWs ha.base ho
  have hmax : s₁.wsMax e = s.wsMax e := hst₁.env.pageWSMaxSize
  have hown : ∀ f v, G₁.own f = some ⟨e, .page v⟩ ↔ G.own f = some ⟨e, .page v⟩ := by
    intro f v
    rw [hun.own]
  have hent₁ := ha.entries.congr hws hmax (by rw [hun.envs]) hown
  have hcov₁ := ha.covered.congr hws hmax hown
  obtain ⟨s₂, h₂, G₂, hvac, hsh₂⟩ := (hst₁.base.freeRange hst₁.owned hst₁.frames hent₁ hcov₁ hal hlt
    hpos).exists_ok
  have hrounds : ∀ k < (vp + 4096 * n - roundDown vp ptSize) / ptSize + 1,
      roundDown vp ptSize + ptSize * k < userTop := by
    intro k hk
    simp only [ptSize, userTop] at hk hlt hfirst ⊢
    omega
  obtain ⟨t, h₃, H, hq, hsh₃, huse⟩ := (hvac.step.base.freeTables hvac.step.owned
    hvac.step.frames hrounds).exists_ok
  have hsheds : Sheds e (fun v => ∃ k < n, v = pageAt vp k) s G t H :=
    ((hun.sheds ha.base.space).trans hsh₂).trans (hsh₃.mono fun _ hno => hno.elim)
  have htables : ∀ i, TableOfRange vp n i → InUse t H e i := by
    rintro i ⟨k, hk, rfl⟩
    -- the round that reaches the table
    have hround := huse ((vp + 4096 * k) / ptSize - vp / ptSize) (by
      simp only [ptSize, roundDown] at hfirst ⊢
      omega)
    have hpdx : pdx (roundDown vp ptSize + ptSize * ((vp + 4096 * k) / ptSize - vp / ptSize)) =
        pdx (vp + 4096 * k) := by
      simp only [pdx, ptSize, roundDown]
      omega
    rw [hpdx] at hround
    exact hround
  refine ⟨t, H, ?_, hun.returned hvac hq ho ha, hsheds, htables⟩
  have hle : roundDown vp ptSize ≤ vp + 4096 * n := by omega
  have hend : ¬ wordMod - ptSize ≤ vp + 4096 * n := by
    simp only [userTop, wordMod, ptSize] at hlt ⊢
    omega
  simp only [freeMem, ← hvp, ← hn, h₁, h₂, ok_bind, hlast, if_pos hle, h₃, if_neg hend]

/-- `freeMem` on a range that starts above page zero and ends below `USER_TOP`. -/
theorem Alive.freeMem_spec (ho : Owned c s G) (hd : DiskFrames s G) (ha : Alive c s G e)
    {va size n : Nat} (hn : n = roundUp size 4096 / 4096) (hpos : 0 < roundDown va 4096)
    (hlt : roundDown va 4096 + 4096 * n < userTop) :
    ∃ t H, freeMem s e va size = .ok t ∧ Returned c e (roundDown va 4096) n s G t H := by
  obtain ⟨t, H, hfree, hret, -⟩ := ha.freeMem_sheds ho hd hn hpos hlt
  exact ⟨t, H, hfree, hret⟩

section Returned

variable {va n : Nat} (h : Returned c e va n s G t H)
include h

theorem Returned.holds {v : Nat} {p : (Nat → Word) → Prop} (hp : Holds s G e v p)
    (hv : ∀ k < n, v ≠ pageAt va k) : Holds t H e v p :=
  hp.same (h.other v hv)

theorem Returned.stored (hst : Stored G e) : Stored H e := by
  intro v f hf
  by_cases hex : ∃ k < n, v = pageAt va k
  · obtain ⟨k, hk, rfl⟩ := hex
    exact absurd hf (h.own k hk f)
  · have hv : ∀ k < n, v ≠ pageAt va k := fun k hk heq => hex ⟨k, hk, heq⟩
    rw [(h.other v hv).slot]
    exact hst v f (((h.other v hv).own f).1 hf)

end Returned

end FosMemory
