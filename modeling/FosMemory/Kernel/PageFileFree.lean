import FosMemory.Kernel.Borrow

/-!
# PageFileFree — releasing and counting the pages of an environment

`pf_free_env` clears every slot of every disk table, releases each table and then the directory.
`pf_calculate_allocated_pages` walks the same tables and counts the slots.
-/

namespace FosMemory

open Lib

variable {c : Boot} {s t u : Kernel} {G H I : Ghost} {e : Nat}

/-! ## Releasing a heap page -/

/-- The heap page in frame `f`, a directory or a table of `e`, has been released. -/
structure Freed (c : Boot) (e f : Nat) (s : Kernel) (G : Ghost) (t : Kernel) : Prop where
  owned : Owned c t (G.setOwn f none)
  others : Local e s G t (G.setOwn f none)
  block : ∀ e', KeepsBlock e' s G t
  mem : ∀ g, ¬ c.KernelFrame g → t.mem g = s.mem g
  va : ∀ g, g ≠ f → t.virtualAddresses g = s.virtualAddresses g
  spent : Spent s t 0
  same : SameRest s t

theorem Owned.release (ho : Owned c s G) {f : Nat} {r : Role} (hf : G.own f = some ⟨e, r⟩)
    (hr : r.isTable = true) :
    ∃ t, kfree s (s.virtualAddresses f) = .ok t ∧ Freed c e f s G t := by
  obtain ⟨t, ht, howned, hdrop⟩ := ho.kfreePage hf hr
  have hva : ∀ g, g ≠ f → t.virtualAddresses g = s.virtualAddresses g := by
    intro g hg
    rw [hdrop.va_eq, Function.update_of_ne hg]
  have hblock : ∀ e', KeepsBlock e' s G t := by
    rintro e' n ⟨g, hg, hat⟩ hb
    refine hdrop.block _ n (fun heq => ?_) hb
    -- the array of `e'` does not start at the released page
    rw [← hat] at heq
    have hgf := ho.inv.map.virtualAddresses_inj (ho.ws hg).1 heq
    subst hgf
    rw [hf] at hg
    cases hg
    cases hr
  refine ⟨t, ht, howned, ?_, hblock, hdrop.mem_eq, hva, hdrop.spent, hdrop.same⟩
  refine Local.of_frame (f := f) hdrop.same (fun _ _ => rfl) rfl (fun g hg => G.setOwn_of_ne _ hg)
    ?_ ?_ ?_ ?_ (fun e' _ => hblock e') (hdrop.mem_eq 1 (c.low_not_kernelFrame (by decide)))
  · intro o ho'
    rw [hf] at ho'
    cases ho'
    rfl
  · intro o ho'
    rw [G.setOwn_self] at ho'
    cases ho'
  · exact fun g o hg _ => hdrop.mem_eq g (ho.not_kernelFrame (by simp [hg]))
  · intro g o hg hne
    refine hva g ?_
    rintro rfl
    rw [hf] at hg
    cases hg
    exact hne rfl

/-- Loads and stores of the entries of a directory or a table. -/
theorem DirAt.load {p f : Nat} (hd : DirAt s p f) (h : KernelMap c s) {i : Nat} (hi : i < 1024) :
    s.load (p + 4 * i) = .ok (s.mem f i) := by
  have hb := h.backed_heap hd.ne
  have hal := h.heap_aligned hd.ne
  rw [hd.va_eq] at hb hal
  exact s.load_index hb hal hi

theorem DirAt.store {p f : Nat} (hd : DirAt s p f) (h : KernelMap c s) {i : Nat} (hi : i < 1024) (w : Word) :
    s.store (p + 4 * i) w = .ok (s.setWord f i w) := by
  have hb := h.backed_heap hd.ne
  have hal := h.heap_aligned hd.ne
  rw [hd.va_eq] at hb hal
  exact s.store_index hb hal hi w

/-! ## pf_free_env -/

theorem entryAddress_lt {i j : Nat} (hi : i < 955) (hj : j < 1024) :
    entryAddress i j < userTop := by
  simp only [entryAddress, userTop]
  omega

theorem entryAddress_aligned (i j : Nat) : roundDown (entryAddress i j) 4096 = entryAddress i j := by
  simp only [roundDown, entryAddress]
  omega

/-- Slots of table `i` up to entry `j` are empty; the tables themselves are as before. -/
structure Clearing (c : Boot) (e i j : Nat) (s : Kernel) (G : Ghost) (t : Kernel) (H : Ghost) :
    Prop where
  filed : Filed c e 0 s G t H
  own : H.own = G.own
  va : t.virtualAddresses = s.virtualAddresses
  envs : t.envs = s.envs
  disk : t.disk = s.disk
  cleared : ∀ k < j, H.slots e (entryAddress i k) = none
  rest : ∀ v, G.slots e v = none → H.slots e v = none

/-- The inner loop of `pf_free_env`. -/
theorem SlotTable.freeEntries (ho : Owned c s G) (h : SlotTable s G e) (hd : DiskFrames s G)
    {tb i : Nat} (htb : G.own tb = some ⟨e, .dtable i⟩) :
    ∃ t H, forRange (pfFreeEntry (s.virtualAddresses tb)) 0 1024 s = .ok t ∧
      Clearing c e i 1024 s G t H := by
  have hi := (h.table tb i htb).1
  have hloop : Ensures (fun _ => False) (fun t => ∃ H, Clearing c e i (0 + 1024) s G t H)
      (forRange (pfFreeEntry (s.virtualAddresses tb)) 0 1024 s) := by
    refine forRange_ensures (I := fun j t => ∃ H, Clearing c e i j s G t H) ?_ ?_
    · rintro j t - hj ⟨H, hc⟩
      have hj' : j < 1024 := by omega
      have hpdx : pdx (entryAddress i j) = i := pdx_entryAddress (by omega) hj'
      have hptx : ptx (entryAddress i j) = j := ptx_entryAddress hj'
      have htb' : H.own tb = some ⟨e, .dtable (pdx (entryAddress i j))⟩ := by
        rw [hc.own, hpdx]
        exact htb
      have hlt := entryAddress_lt hi hj'
      have hload := hc.filed.table.load_slot hc.filed.owned hlt htb'
      have hstore := store_pte hc.filed.owned.inv.map (hc.filed.owned.heap htb' rfl).1
        (entryAddress i j) 0#32
      have hun := hc.filed.table.clearSlot hc.filed.owned hc.filed.frames hlt htb'
      rw [entryAddress_aligned] at hload hun
      rw [hptx, hc.va] at hload hstore
      rw [hptx] at hun
      simp only [pfFreeEntry, hload, ok_bind, hstore, ensures_ok]
      refine ⟨_, hc.filed.trans hun.filed, hun.own.trans hc.own, hun.va.trans hc.va,
        hun.envs.trans hc.envs, hun.disk.trans hc.disk, ?_, ?_⟩
      · intro k hk
        rw [H.setSlot_slots]
        split
        · rfl
        · rename_i hne
          refine hc.cleared k ?_
          by_contra hge
          have hkj : k = j := by omega
          subst hkj
          exact hne ⟨rfl, rfl⟩
      · intro v hv
        rw [H.setSlot_slots]
        split
        · rfl
        · exact hc.rest v hv
    · exact ⟨G, Filed.refl ho h hd, rfl, rfl, rfl, rfl, fun k hk => absurd hk (Nat.not_lt_zero k),
        fun _ hv => hv⟩
  obtain ⟨t, ht, H, hc⟩ := hloop.exists_ok
  exact ⟨t, H, ht, hc⟩

/-- A disk table without slots is taken out of the directory and released. -/
theorem SlotTable.dropTable (ho : Owned c s G) (h : SlotTable s G e) (hd : DiskFrames s G)
    {fd tb i : Nat} (hfd : G.own fd = some ⟨e, .ddir⟩) (htb : G.own tb = some ⟨e, .dtable i⟩)
    (hempty : ∀ j < 1024, G.slots e (entryAddress i j) = none) :
    ∃ t, kfree (s.setWord fd i 0#32) (s.virtualAddresses tb) = .ok t ∧
      Filed c e 0 s G t (G.setOwn tb none) ∧ SameRest s t := by
  have hi := (h.table tb i htb).1
  have hfdn : G.own fd ≠ none := by simp [hfd]
  have hne : fd ≠ tb := by
    rintro rfl
    rw [hfd] at htb
    cases htb
  obtain ⟨t, ht, hfree⟩ := (ho.setWord hfdn i 0#32).release htb rfl
  have hsame : SameRest s t :=
    (show SameRest s (s.setWord fd i 0#32) from ⟨rfl, rfl, rfl, rfl, rfl, rfl, rfl⟩).trans
      hfree.same
  have hmem : ∀ g, G.own g ≠ none → g ≠ fd → t.mem g = s.mem g := by
    intro g hg hgf
    rw [hfree.mem g (ho.not_kernelFrame hg), Kernel.setWord_mem_frame hgf]
  have hmemd : ∀ k, t.mem fd k = if k = i then 0#32 else s.mem fd k := by
    intro k
    rw [hfree.mem fd (ho.not_kernelFrame hfdn), s.setWord_mem]
    simp
  have hva : ∀ g, g ≠ tb → t.virtualAddresses g = s.virtualAddresses g := hfree.va
  have hown : ∀ g o, o ≠ ⟨e, .dtable i⟩ → ((G.setOwn tb none).own g = some o ↔ G.own g = some o) := by
    intro g o hno
    rw [Ghost.setOwn_eq_some]
    constructor
    · rintro (⟨-, hx⟩ | ⟨-, hx⟩)
      · cases hx
      · exact hx
    · intro hx
      refine .inr ⟨?_, hx⟩
      rintro rfl
      rw [htb] at hx
      cases hx
      exact hno rfl
  have hgone : ∀ g, (G.setOwn tb none).own g ≠ some ⟨e, .dtable i⟩ := by
    intro g hx
    rcases Ghost.setOwn_eq_some.1 hx with ⟨-, hx⟩ | ⟨hgt, hx⟩
    · cases hx
    · exact hgt (h.table_unique ho hx htb)
  refine ⟨t, ht, ?_, hsame⟩
  constructor
  case owned => exact hfree.owned
  case others => exact (Local.setWord ho hfd rfl i 0#32).trans hfree.others
  case keeps =>
    refine ⟨fun g r hr => hown g _ ?_, fun g r hr hg => hmem g (by simp [hg]) ?_,
      fun g r hr hg => hva g ?_⟩
    · intro hx
      cases hx
      cases hr
    · rintro rfl
      rw [hfd] at hg
      cases hg
      cases hr
    · rintro rfl
      rw [htb] at hg
      cases hg
      cases hr
  case block => exact fun n hw hb => hfree.block e n hw hb
  case table =>
    constructor
    case dir_at =>
      intro g hg
      have hold := (hown g _ (by simp)).1 hg
      have hgt : g ≠ tb := by
        rintro rfl
        rw [htb] at hold
        cases hold
      rw [hva g hgt, hsame.envs]
      exact h.dir_at g hold
    case dir_exists => exact fun _ => ⟨fd, (hown fd _ (by simp)).2 hfd⟩
    case pde =>
      intro fd' hfd' k hk
      have hfd' := (hown fd' _ (by simp)).1 hfd'
      rw [h.dir_unique ho hfd' hfd, hmemd]
      split
      · exact .inl rfl
      · rename_i hki
        refine (h.pde fd hfd k hk).imp id ?_
        rintro ⟨tb', hn, htb'⟩
        exact ⟨tb', hn, (hown tb' _ (by simpa using hki)).2 htb'⟩
    case table =>
      intro tb' k htb'
      have hki : k ≠ i := by
        rintro rfl
        exact hgone tb' htb'
      have htb' := (hown tb' _ (by simpa using hki)).1 htb'
      obtain ⟨hk, fd', hfd', hn⟩ := h.table tb' k htb'
      refine ⟨hk, fd', (hown fd' _ (by simp)).2 hfd', ?_⟩
      rw [h.dir_unique ho hfd' hfd] at hn ⊢
      rw [hmemd, if_neg hki]
      exact hn
    case entry =>
      intro tb' k htb' j hj
      have hki : k ≠ i := by
        rintro rfl
        exact hgone tb' htb'
      have htb' := (hown tb' _ (by simpa using hki)).1 htb'
      rw [hmem tb' (by simp [htb'])]
      · exact h.entry tb' k htb' j hj
      · rintro rfl
        rw [hfd] at htb'
        cases htb'
    case slot =>
      intro v d hv
      obtain ⟨hal, hlt, tb', htb'⟩ := h.slot v d hv
      refine ⟨hal, hlt, tb', (hown tb' _ ?_).2 htb'⟩
      -- a slot in the released table would be one of the empty ones
      intro hx
      injection hx with _ hx
      injection hx with hpdx
      have haddr : entryAddress i (ptx v) = v := by
        simp only [userTop] at hlt
        rw [← hpdx]
        exact entryAddress_eq hal (by omega)
      have hnone := hempty (ptx v) (ptx_lt v)
      rw [haddr] at hnone
      rw [show (G.setOwn tb none).slots e v = G.slots e v from rfl, hnone] at hv
      cases hv
  case frames => exact hd.congr hsame.diskFreeFrameList rfl
  case win => rfl
  case lost => rfl
  case spent => exact hfree.spent
  case env => rw [hsame.envs]
  case run => exact hsame.run
  case low =>
    intro f hf
    rw [hfree.mem f (c.low_not_kernelFrame hf), Kernel.setWord_mem_frame (ho.low_ne hf hfdn)]

/-- Tables below `i` are gone, with their slots. -/
structure Releasing (c : Boot) (e i : Nat) (s : Kernel) (G : Ghost) (t : Kernel) (H : Ghost) :
    Prop where
  filed : Filed c e 0 s G t H
  envs : t.envs = s.envs
  disk : t.disk = s.disk
  gone : ∀ k < i, ∀ tb, H.own tb ≠ some ⟨e, .dtable k⟩

/-- One table. -/
theorem Releasing.step {fd i : Nat} (h : Releasing c e i s G t H) (hi : i < 955)
    (hfd : H.own fd = some ⟨e, .ddir⟩) :
    Ensures (fun _ => False)
      (fun u => ∃ I, Releasing c e (i + 1) s G u I ∧ I.own fd = some ⟨e, .ddir⟩)
      (pfFreeTable e i t) := by
  have ho := h.filed.owned
  have hst := h.filed.table
  have hat := hst.dirAt ho hfd
  have hload := hat.load ho.inv.map (i := i) (by omega)
  have hlt : ∀ k, k < i + 1 → k ≠ i → k < i := fun k h₁ h₂ => by omega
  rcases hst.pde fd hfd i hi with hzero | ⟨tb, hn, htb⟩
  · -- no table here
    have hno : ∀ tb, H.own tb ≠ some ⟨e, .dtable i⟩ := by
      intro tb htb
      obtain ⟨-, fd', hfd', hn⟩ := hst.table tb i htb
      rw [hst.dir_unique ho hfd' hfd] at hn
      exact names_present_ne_zero hn hzero
    simp only [pfFreeTable, hload, ok_bind, hzero, zero_has_present, Bool.false_eq_true, if_false,
      ensures_ok]
    refine ⟨H, ⟨h.filed, h.envs, h.disk, fun k hk tb => ?_⟩, hfd⟩
    by_cases hki : k = i
    · subst hki
      exact hno tb
    · exact h.gone k (hlt k hk hki) tb
  · have hptr : kheapVirtualAddress t (extractAddress (t.mem fd i)) = t.virtualAddresses tb := by
      rw [kheapVirtualAddress, extractAddress_eq, Nat.mul_div_cancel _ (by decide), hn.frame_eq]
    obtain ⟨u, I, hu, hc⟩ := hst.freeEntries ho h.filed.frames htb
    have hfdI : I.own fd = some ⟨e, .ddir⟩ := by
      rw [hc.own]
      exact hfd
    have htbI : I.own tb = some ⟨e, .dtable i⟩ := by
      rw [hc.own]
      exact htb
    have hatu : DirAt u (t.envs e).diskEnvPgdir fd := by
      rw [← hc.envs]
      exact hc.filed.table.dirAt hc.filed.owned hfdI
    have hstore := hatu.store hc.filed.owned.inv.map (i := i) (by omega) 0#32
    obtain ⟨w, hw, hfile, hsame⟩ := hc.filed.table.dropTable hc.filed.owned hc.filed.frames hfdI
      htbI hc.cleared
    rw [hc.va] at hw
    simp only [pfFreeTable, hload, ok_bind, hn.has_perm, if_true, hptr, hu, hstore, hw, ensures_ok]
    refine ⟨_, ⟨(h.filed.trans hc.filed).trans hfile, (hsame.envs.trans hc.envs).trans h.envs,
      (hsame.disk.trans hc.disk).trans h.disk, fun k hk tb' => ?_⟩, ?_⟩
    · intro hx
      rcases Ghost.setOwn_eq_some.1 hx with ⟨-, hx⟩ | ⟨hne, hx⟩
      · cases hx
      · by_cases hki : k = i
        · subst hki
          exact hne (hc.filed.table.table_unique hc.filed.owned hx htbI)
        · rw [hc.own] at hx
          exact h.gone k (hlt k hk hki) tb' hx
    · rw [I.setOwn_of_ne none]
      · exact hfdI
      · rintro rfl
        rw [hfdI] at htbI
        cases htbI

/-- The environment has nothing left in the page file. -/
structure Emptied (c : Boot) (e : Nat) (s : Kernel) (G : Ghost) (t : Kernel) (H : Ghost) :
    Prop where
  filed : Filed c e 0 s G t H
  disk : t.disk = s.disk
  dir : (t.envs e).diskEnvPgdir = 0
  own : ∀ f r, r.inDisk = true → H.own f ≠ some ⟨e, r⟩

theorem Emptied.slots (h : Emptied c e s G t H) (v : Nat) : H.slots e v = none :=
  h.filed.table.no_slots h.filed.owned h.dir v

/-- `pf_free_env`. -/
theorem SlotTable.pfFreeEnv_spec (ho : Owned c s G) (h : SlotTable s G e) (hd : DiskFrames s G)
    (hdir : (s.envs e).diskEnvPgdir ≠ 0) :
    ∃ t H, pfFreeEnv s e = .ok t ∧ Emptied c e s G t H := by
  obtain ⟨fd, hfd⟩ := h.dir_exists hdir
  have hloop : Ensures (fun _ => False)
      (fun t => ∃ H, Releasing c e (0 + 955) s G t H ∧ H.own fd = some ⟨e, .ddir⟩)
      (forRange (pfFreeTable e) 0 955 s) := by
    refine forRange_ensures
      (I := fun i t => ∃ H, Releasing c e i s G t H ∧ H.own fd = some ⟨e, .ddir⟩) ?_ ?_
    · rintro i t - hi ⟨H, hr, hfdH⟩
      exact hr.step (by omega) hfdH
    · exact ⟨G, ⟨Filed.refl ho h hd, rfl, rfl, fun k hk => absurd hk (Nat.not_lt_zero k)⟩, hfd⟩
  obtain ⟨t, ht, H, hr, hfdH⟩ := hloop.exists_ok
  have hnotab : ∀ tb k, H.own tb ≠ some ⟨e, .dtable k⟩ := by
    intro tb k htb
    exact hr.gone k (by have := (hr.filed.table.table tb k htb).1; omega) tb htb
  obtain ⟨u, hu, hfree⟩ := hr.filed.owned.release hfdH rfl
  rw [hr.filed.table.dir_at fd hfdH] at hu
  have hown : ∀ g r, r.inDisk = true → (H.setOwn fd none).own g ≠ some ⟨e, r⟩ := by
    intro g r hrd hx
    rcases Ghost.setOwn_eq_some.1 hx with ⟨-, hx⟩ | ⟨hne, hx⟩
    · cases hx
    · cases r with
      | ddir => exact hne (hr.filed.table.dir_unique hr.filed.owned hx hfdH)
      | dtable k => exact hnotab g k hx
      | _ => cases hrd
  have hkeep : ∀ g o, o ≠ ⟨e, .ddir⟩ →
      ((H.setOwn fd none).own g = some o ↔ H.own g = some o) := by
    intro g o hno
    rw [Ghost.setOwn_eq_some]
    constructor
    · rintro (⟨-, hx⟩ | ⟨-, hx⟩)
      · cases hx
      · exact hx
    · intro hx
      refine .inr ⟨?_, hx⟩
      rintro rfl
      rw [hfdH] at hx
      cases hx
      exact hno rfl
  have hnoslot : ∀ v, H.slots e v = none := by
    intro v
    cases hs : H.slots e v with
    | none => rfl
    | some d =>
      obtain ⟨-, -, tb, htb⟩ := hr.filed.table.slot v d hs
      exact absurd htb (hnotab tb _)
  obtain ⟨w, hw⟩ : ∃ w, w = u.setEnv e { u.envs e with diskEnvPgdir := 0 } := ⟨_, rfl⟩
  have hwe : w.envs e = { t.envs e with diskEnvPgdir := 0 } := by
    rw [hw, ← hfree.same.envs]
    simp [Kernel.setEnv]
  have hwo : ∀ e', e' ≠ e → w.envs e' = t.envs e' := by
    intro e' he
    rw [hw, ← hfree.same.envs]
    simp [Kernel.setEnv, he]
  refine ⟨w, H.setOwn fd none, ?_, ?_⟩
  · simp only [pfFreeEnv, ht, ok_bind, hu, hw]
  · have hlast : Filed c e 0 t H w (H.setOwn fd none) := by
      constructor
      case owned =>
        rw [hw]
        exact hfree.owned.setEnv e _
      case others =>
        refine ⟨fun e' he => ?_, fun _ _ => rfl, fun _ _ => rfl, hwo, ?_, ?_, ?_⟩
        · have hk := hfree.others.keeps e' he
          rw [hw]
          exact ⟨hk.own, hk.mem, hk.va⟩
        · intro e' v d he hv
          rw [hw]
          exact hfree.others.disk e' v d he hv
        · intro e' he
          rw [hw]
          exact hfree.block e'
        · rw [hw]
          exact hfree.others.zeroPage
      case keeps =>
        refine ⟨fun g r hrd => hkeep g _ ?_, fun g r hrd hg => ?_, fun g r hrd hg => ?_⟩
        · intro hx
          cases hx
          cases hrd
        · rw [hw]
          exact hfree.mem g (hr.filed.owned.not_kernelFrame (by simp [hg]))
        · rw [hw]
          refine hfree.va g ?_
          rintro rfl
          rw [hfdH] at hg
          cases hg
          cases hrd
      case block =>
        rw [hw]
        exact hfree.block e
      case table =>
        constructor
        case dir_at => exact fun g hg => absurd hg (hown g _ rfl)
        case dir_exists =>
          intro hx
          rw [hwe] at hx
          exact absurd rfl hx
        case pde => exact fun g hg => absurd hg (hown g _ rfl)
        case table => exact fun g k hg => absurd hg (hown g _ rfl)
        case entry => exact fun g k hg => absurd hg (hown g _ rfl)
        case slot =>
          intro v d hv
          rw [show (H.setOwn fd none).slots e v = H.slots e v from rfl, hnoslot v] at hv
          cases hv
      case frames =>
        refine hr.filed.frames.congr ?_ rfl
        rw [hw]
        exact hfree.same.diskFreeFrameList
      case win => rfl
      case lost => rfl
      case spent =>
        rw [hw]
        exact hfree.spent
      case env => rw [hwe]
      case run =>
        rw [hw]
        exact ⟨hfree.same.envFreeList, hfree.same.curenv, hfree.same.cr3,
          hfree.same.pageRepAlgoType⟩
      case low =>
        intro f hf
        rw [hw]
        exact hfree.mem f (c.low_not_kernelFrame hf)
    refine ⟨hr.filed.trans hlast, ?_, by rw [hwe], hown⟩
    rw [hw, ← hr.disk]
    exact hfree.same.disk

end FosMemory
