import Mathlib.Order.Interval.Finset.Nat
import FosMemory.Lib.Count
import FosMemory.Lib.WordLoop
import FosMemory.Kernel.Isolation

/-!
# PageFileCount — the page file is conserved

`pf_calculate_allocated_pages` counts the slots of an environment, `pf_calculate_free_frames` the
disk frames on the list.  Over all live environments the two add up to the size of the page file.
-/

namespace FosMemory

open Lib

variable {c : Boot} {s t : Kernel} {G : Ghost} {e : Nat} {lost : Nat → Prop}

instance (s : Kernel) (e : Nat) : Decidable (s.Live e) :=
  inferInstanceAs (Decidable (_ ∧ _))

/-! ## pf_calculate_allocated_pages -/

/-- The slots of `e` that are in use, by table and entry. -/
def SlotUsed (G : Ghost) (e : Nat) (p : Nat × Nat) : Prop :=
  (G.slots e (entryAddress p.1 p.2)).isSome = true

instance (G : Ghost) (e : Nat) : DecidablePred (SlotUsed G e) :=
  fun _ => inferInstanceAs (Decidable (_ = _))

/-- The places a slot can have. -/
def slotPlaces : Finset (Nat × Nat) :=
  Finset.range 955 ×ˢ Finset.range 1024

theorem mem_slotPlaces {p : Nat × Nat} : p ∈ slotPlaces ↔ p.1 < 955 ∧ p.2 < 1024 := by
  rw [slotPlaces, Finset.mem_product, Finset.mem_range, Finset.mem_range]

theorem hits_slotPlaces (p : Nat × Nat → Prop) [DecidablePred p] :
    hits slotPlaces p = ∑ i ∈ Finset.range 955, hits (Finset.range 1024) fun j => p (i, j) :=
  hits_product _ _ p

/-- The environments that are live. -/
def Kernel.liveEnvs (s : Kernel) : Finset Nat :=
  (Finset.range nenv).filter (s.Live ·)

theorem Kernel.mem_liveEnvs {s : Kernel} {e : Nat} : e ∈ s.liveEnvs ↔ s.Live e := by
  rw [Kernel.liveEnvs, Finset.mem_filter, Finset.mem_range]
  exact ⟨fun h => h.2, fun h => ⟨h.1, h⟩⟩

-- membership in either set is only ever read through the lemmas above
attribute [irreducible] slotPlaces Kernel.liveEnvs

theorem slotWord_ne_zero_iff {a : Option Nat} (ha : ∀ d, a = some d → 1 ≤ d ∧ d < pagesPerFile) :
    slotWord a ≠ 0#32 ↔ a.isSome = true := by
  have hword := slotWord_toNat ha
  cases a with
  | none => simp [slotWord]
  | some d =>
    have hpos := (ha d rfl).1
    simp only [Option.isSome_some, iff_true]
    intro hz
    rw [hz] at hword
    simp only [Option.getD_some] at hword
    have hzero : (0#32).toNat = 0 := rfl
    omega

section Count

variable (ha : Alive c s G e) (ho : Owned c s G) (hd : DiskFrames s G)
include ha ho hd

/-- One disk table. -/
theorem Alive.pfCountTable_eq {i : Nat} (hi : i < 955) (counter : Nat) :
    pfCountTable s e i counter =
      .ok (counter + hits (Finset.range 1024) fun j => SlotUsed G e (i, j)) := by
  obtain ⟨fd, hfd⟩ := ha.base.slots.dir_exists ha.ddir
  have hdir := ha.base.slots.dirAt ho hfd
  have hload := hdir.load ho.inv.map (show i < 1024 by omega)
  rw [pfCountTable, hload, ok_bind]
  rcases ha.base.slots.pde fd hfd i hi with hzero | ⟨tb, hn, htb⟩
  · -- no table, no slot
    have hnone : hits (Finset.range 1024) (fun j => SlotUsed G e (i, j)) = 0 := by
      refine hits_eq_zero fun j hj hused => ?_
      obtain ⟨d, hslot⟩ := Option.isSome_iff_exists.1 hused
      obtain ⟨-, -, tb, htb⟩ := ha.base.slots.slot _ d hslot
      rw [pdx_entryAddress (by omega) (Finset.mem_range.1 hj)] at htb
      obtain ⟨-, g, hg, hn⟩ := ha.base.slots.table tb i htb
      rw [ha.base.slots.dir_unique ho hg hfd] at hn
      exact names_present_ne_zero hn hzero
    rw [hzero, hnone]
    rfl
  · have hptr : kheapVirtualAddress s (extractAddress (s.mem fd i)) = s.virtualAddresses tb := by
      rw [kheapVirtualAddress, extractAddress_eq, Nat.mul_div_cancel _ (by decide), hn.frame_eq]
    have hat : DirAt s (s.virtualAddresses tb) tb := ⟨rfl, (ho.heap htb rfl).1⟩
    rw [if_pos hn.has_perm, hptr]
    rw [forRange_count (p := fun j => SlotUsed G e (i, j))]
    · rw [hits_range, List.range_eq_range']
    · intro j _ hj x
      have hj' : j < 1024 := by omega
      rw [hat.load ho.inv.map hj', ok_bind, ha.base.slots.entry tb i htb j hj']
      have hiff := slotWord_ne_zero_iff fun d => hd.range e (entryAddress i j) d
      by_cases hused : SlotUsed G e (i, j)
      · rw [if_pos hused, if_pos (hiff.2 hused)]
      · rw [if_neg hused, if_neg fun hx => hused (hiff.1 hx)]

/-- `pf_calculate_allocated_pages`. -/
theorem Alive.pfCalculateAllocatedPages_eq :
    pfCalculateAllocatedPages s e = .ok (hits slotPlaces (SlotUsed G e)) := by
  rw [pfCalculateAllocatedPages, forRange_sum fun i hi x => ha.pfCountTable_eq ho hd hi x,
    Nat.zero_add, hits_slotPlaces]

end Count

/-! ## Every disk frame is accounted for -/

/-- The place of a page below `USER_TOP`. -/
theorem exists_place {v : Nat} (hal : v % 4096 = 0) (hv : v < userTop) :
    ∃ p ∈ slotPlaces, entryAddress p.1 p.2 = v := by
  refine ⟨(pdx v, ptx v), mem_slotPlaces.2 ⟨pdx_user hv, ptx_lt v⟩, ?_⟩
  · refine entryAddress_eq hal ?_
    simp only [userTop] at hv
    omega

/-- Different places are different pages. -/
theorem place_inj {p q : Nat × Nat} (hp : p ∈ slotPlaces) (hq : q ∈ slotPlaces)
    (h : entryAddress p.1 p.2 = entryAddress q.1 q.2) : p = q := by
  obtain ⟨hp1, hp2⟩ := mem_slotPlaces.1 hp
  obtain ⟨hq1, hq2⟩ := mem_slotPlaces.1 hq
  refine Prod.ext ?_ ?_
  · rw [← pdx_entryAddress (i := p.1) (j := p.2) (by omega) hp2, h, pdx_entryAddress (by omega) hq2]
  · rw [← ptx_entryAddress (i := p.1) (j := p.2) hp2, h, ptx_entryAddress hq2]

/-- The slots of the live environments and the free disk frames make up the page file. -/
theorem LifeInv.count (h : LifeInv c s G) :
    (∑ e ∈ s.liveEnvs, hits slotPlaces (SlotUsed G e)) + s.diskFreeFrameList.length =
      pagesPerFile - 1 := by
  obtain ⟨L, hL⟩ : ∃ L, L = s.diskFreeFrameList.toFinset := ⟨_, rfl⟩
  have hmemL : ∀ d, d ∈ L ↔ d ∈ s.diskFreeFrameList := by
    intro d
    rw [hL, List.mem_toFinset]
  have hlen : L.card = s.diskFreeFrameList.length := by
    rw [hL]
    exact List.toFinset_card_of_nodup h.frames.nodup
  have hsub : L ⊆ Finset.Ico 1 pagesPerFile := by
    intro d hd
    obtain ⟨hpos, hlt, -⟩ := (h.frames.free_iff d).1 ((hmemL d).1 hd)
    exact Finset.mem_Ico.2 ⟨hpos, hlt⟩
  -- the used disk frames are the values of the slots
  have hused : hits (s.liveEnvs ×ˢ slotPlaces)
      (fun x => (G.slots x.1 (entryAddress x.2.1 x.2.2)).isSome = true) =
      (Finset.Ico 1 pagesPerFile \ L).card := by
    refine hits_isSome ?_ fun d => ?_
    · intro x hx y hy d hd hd'
      obtain ⟨henv, hv⟩ := h.frames.inj x.1 _ y.1 _ d hd hd'
      exact Prod.ext henv
        (place_inj (Finset.mem_product.1 hx).2 (Finset.mem_product.1 hy).2 hv)
    · rw [Finset.mem_sdiff, Finset.mem_Ico, hmemL, h.frames.free_iff]
      constructor
      · rintro ⟨⟨hpos, hlt⟩, hno⟩
        have hex : ∃ e v, G.slots e v = some d := by
          by_contra hne
          exact hno ⟨hpos, hlt, fun e v hv => hne ⟨e, v, hv⟩⟩
        obtain ⟨e, v, hv⟩ := hex
        have hlive := h.live_of_slot hv
        obtain ⟨hal, hvt, -⟩ := (h.alive e hlive).base.slots.slot v d hv
        obtain ⟨p, hp, hpv⟩ := exists_place hal hvt
        refine ⟨(e, p), Finset.mem_product.2 ⟨Kernel.mem_liveEnvs.2 hlive, hp⟩, ?_⟩
        rw [hpv]
        exact hv
      · rintro ⟨⟨e, p⟩, -, hv⟩
        exact ⟨h.frames.range e _ d hv, fun hx => hx.2.2 e _ hv⟩
  rw [hits_product] at hused
  have hcard := Finset.card_sdiff_of_subset hsub
  rw [Nat.card_Ico] at hcard
  have hle := Finset.card_le_card hsub
  rw [Nat.card_Ico] at hle
  calc (∑ e ∈ s.liveEnvs, hits slotPlaces (SlotUsed G e)) + s.diskFreeFrameList.length
      = (Finset.Ico 1 pagesPerFile \ L).card + L.card := by rw [← hused, hlen]; rfl
    _ = pagesPerFile - 1 := by omega

/-! ## The page file of a reachable state -/

/-- A disk frame is free exactly when no live environment's lookup gives it, and it serves one page
of one environment; the slots that `pf_calculate_allocated_pages` counts for the live environments
and the free disk frames that `pf_calculate_free_frames` counts make up the page file. -/
theorem LifeRun.pageFile_exact (h : LifeRun c s lost) :
    s.diskFreeFrameList.Nodup ∧
    (∀ d, d ∈ s.diskFreeFrameList ↔ 1 ≤ d ∧ d < pagesPerFile ∧
      ∀ e va, s.Live e → va < userTop → pfLookup s e va ≠ .ok d) ∧
    (∀ d e e' va va', d ≠ 0 → s.Live e → s.Live e' → va < userTop → va' < userTop →
      pfLookup s e va = .ok d → pfLookup s e' va' = .ok d →
      e' = e ∧ roundDown va' 4096 = roundDown va 4096) ∧
    ∃ used : Nat → Nat, (∀ e, s.Live e → pfCalculateAllocatedPages s e = .ok (used e)) ∧
      (∑ e ∈ s.liveEnvs, used e) + pfCalculateFreeFrames s = pagesPerFile - 1 := by
  obtain ⟨G, hinv, -⟩ := h.inv
  have hlook : ∀ {e va d}, s.Live e → va < userTop → d ≠ 0 →
      (pfLookup s e va = .ok d ↔ G.slots e (roundDown va 4096) = some d) := by
    intro e va d he hva hd
    rw [← (hinv.alive e he).pfLookup_iff hinv.owned hinv.frames hva]
    exact ⟨fun hx => ⟨hx, hd⟩, fun hx => hx.1⟩
  refine ⟨hinv.frames.nodup, fun d => ?_, ?_, ?_⟩
  · rw [hinv.frames.free_iff]
    refine and_congr_right fun hpos => and_congr_right fun hlt => ⟨?_, ?_⟩
    · intro hno e va he hva hx
      exact hno e _ ((hlook he hva (by omega)).1 hx)
    · intro hno e v hv
      have he := hinv.live_of_slot hv
      obtain ⟨hal, hvt, -⟩ := (hinv.alive e he).base.slots.slot v d hv
      refine hno e v he hvt ((hlook he hvt (by omega)).2 ?_)
      rw [roundDown_eq hal]
      exact hv
  · intro d e e' va va' hd he he' hva hva' hx hx'
    obtain ⟨henv, hv⟩ := hinv.frames.inj e' _ e _ d ((hlook he' hva' hd).1 hx')
      ((hlook he hva hd).1 hx)
    exact ⟨henv, hv⟩
  · exact ⟨_, fun e he => (hinv.alive e he).pfCalculateAllocatedPages_eq hinv.owned hinv.frames,
      hinv.count⟩

theorem pageFile_exact_first : ∃ u : Kernel, u.Live 0 ∧ ∃ used : Nat → Nat,
    pfCalculateAllocatedPages u 0 = .ok (used 0) ∧
      (∑ e ∈ u.liveEnvs, used e) + pfCalculateFreeFrames u = pagesPerFile - 1 := by
  obtain ⟨u, hrun, hlive, -, -⟩ := exists_firstRun
  obtain ⟨used, heach, hsum⟩ := (LifeRun.pageFile_exact hrun).2.2.2
  exact ⟨u, hlive, used, heach 0 hlive, hsum⟩

end FosMemory
