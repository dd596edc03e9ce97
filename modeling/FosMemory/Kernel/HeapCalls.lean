import FosMemory.Kernel.Ageing

/-!
# HeapCalls — `allocateMem` and `freeMem`

`allocateMem` asks the page file for a slot for every page of a range and does not look at the
answers: the specification says exactly which pages end up without one.  `freeMem` gives the slots
of a range back, drops its pages from the working set and from memory, and releases the page tables
that map nothing any more.
-/

namespace FosMemory

open Lib

variable {c : Boot} {s t u : Kernel} {G H I : Ghost} {e : Nat}

/-- Page `k` of the range that starts at `va`. -/
def pageAt (va k : Nat) : Nat :=
  roundDown (va + 4096 * k) 4096

theorem pageAt_inj {va j k : Nat} (h : pageAt va j = pageAt va k) : j = k := by
  simp only [pageAt, roundDown] at h
  have hj := Nat.mod_le (va + 4096 * j) 4096
  have hk := Nat.mod_le (va + 4096 * k) 4096
  omega

theorem pageAt_eq {va : Nat} (hal : va % 4096 = 0) (k : Nat) : pageAt va k = va + 4096 * k := by
  rw [pageAt, roundDown_eq]
  omega

/-- Pages without a slot among the first `n` of the range at `va`. -/
def Ghost.unslotted (G : Ghost) (e va n : Nat) : Nat :=
  (List.range n).countP fun k => (G.slots e (pageAt va k)).isNone

theorem Ghost.unslotted_succ (G : Ghost) (e va n : Nat) : G.unslotted e va (n + 1) =
    G.unslotted e va n + if (G.slots e (pageAt va n)).isNone then 1 else 0 := by
  rw [Ghost.unslotted, List.range_succ, List.countP_append, Ghost.unslotted]
  simp [List.countP_cons]

/-- What the first `n` rounds of `allocateMem` have done. -/
structure Listed (c : Boot) (e va n : Nat) (s : Kernel) (G : Ghost) (t : Kernel) (H : Ghost) :
    Prop where
  filed : Filed c e (2 * n) s G t H
  ddir : (s.envs e).diskEnvPgdir ≠ 0 → (t.envs e).diskEnvPgdir ≠ 0
  disk : t.disk = s.disk
  list : t.diskFreeFrameList = s.diskFreeFrameList.drop (G.unslotted e va n)
  other : ∀ v, (∀ k < n, v ≠ pageAt va k) → H.slots e v = G.slots e v
  kept : ∀ v d, G.slots e v = some d → H.slots e v = some d
  slotted : ∀ k < n, H.slots e (pageAt va k) = none ↔
    G.slots e (pageAt va k) = none ∧ s.diskFreeFrameList.length ≤ G.unslotted e va k

theorem Listed.zero (ho : Owned c s G) (h : SlotTable s G e) (hd : DiskFrames s G) (va : Nat) :
    Listed c e va 0 s G s G :=
  ⟨Filed.refl ho h hd, id, rfl, rfl, fun _ _ => rfl, fun _ _ hx => hx,
    fun k hk => absurd hk (by omega)⟩

/-- The page of a round still has the slot it had before the loop. -/
theorem Listed.slot_next {va n : Nat} (h : Listed c e va n s G t H) :
    H.slots e (pageAt va n) = G.slots e (pageAt va n) := by
  refine h.other _ fun k hk heq => ?_
  have := pageAt_inj heq
  omega

/-- The page file has run out. -/
theorem Listed.full {va n : Nat} (h : Listed c e va n s G t H)
    (hf : Full c e (pageAt va n) 2 t H u I) (hdisk : u.disk = t.disk) :
    Listed c e va (n + 1) s G u I := by
  have hnone : G.slots e (pageAt va n) = none := by
    rw [← h.slot_next]
    exact hf.none
  have hlen : s.diskFreeFrameList.length ≤ G.unslotted e va n := by
    have := hf.empty
    rw [h.list, List.drop_eq_nil_iff] at this
    exact this
  constructor
  case filed => exact (h.filed.trans hf.filed).mono (by omega)
  case ddir => exact fun _ => hf.ddir
  case disk => exact hdisk.trans h.disk
  case list =>
    rw [hf.list, h.list, G.unslotted_succ, List.drop_eq_nil_of_le hlen,
      List.drop_eq_nil_of_le (by omega)]
  case other =>
    intro v hv
    rw [hf.slots]
    exact h.other v fun k hk => hv k (by omega)
  case kept =>
    intro v d hv
    rw [hf.slots]
    exact h.kept v d hv
  case slotted =>
    intro k hk
    rw [hf.slots]
    by_cases hkn : k = n
    · subst hkn
      rw [h.slot_next]
      exact ⟨fun _ => ⟨hnone, hlen⟩, fun _ => hnone⟩
    · exact h.slotted k (by omega)

/-- The page has a slot, an old one or the first of the list. -/
theorem Listed.slot {va n d : Nat} (h : Listed c e va n s G t H)
    (hs : Slotted c e (pageAt va n) d 2 t H u I) (hdisk : u.disk = t.disk) :
    Listed c e va (n + 1) s G u I := by
  have hother : ∀ v, v ≠ pageAt va n → I.slots e v = H.slots e v := by
    intro v hv
    rw [hs.slots, H.setSlot_slots, if_neg fun hx => hv hx.2]
  -- the list is shorter by one exactly if the page had no slot
  have hlist : u.diskFreeFrameList = s.diskFreeFrameList.drop (G.unslotted e va (n + 1)) := by
    rw [G.unslotted_succ, ← h.slot_next]
    rcases hs.list with ⟨hold, hl⟩ | ⟨hnew, hl⟩
    · rw [hl, h.list, hold]
      rfl
    · rw [hnew, Option.isNone_none, if_pos rfl, ← List.drop_drop, ← h.list, hl]
      rfl
  constructor
  case filed => exact (h.filed.trans hs.filed).mono (by omega)
  case ddir => exact fun _ => hs.ddir
  case disk => exact hdisk.trans h.disk
  case list => exact hlist
  case other =>
    intro v hv
    rw [hother v (hv n (by omega))]
    exact h.other v fun k hk => hv k (by omega)
  case kept =>
    intro v d' hv
    by_cases heq : v = pageAt va n
    · subst heq
      rw [← h.slot_next] at hv
      rcases hs.list with ⟨hold, -⟩ | ⟨hnew, -⟩
      · rw [hs.self, ← hold]
        exact hv
      · rw [hnew] at hv
        cases hv
    · rw [hother v heq]
      exact h.kept v d' hv
  case slotted =>
    intro k hk
    by_cases hkn : k = n
    · subst hkn
      rw [hs.self]
      constructor
      · intro hx
        cases hx
      rintro ⟨hnone, hlen⟩
      rw [← h.slot_next] at hnone
      rcases hs.list with ⟨hold, -⟩ | ⟨-, hl⟩
      · rw [hnone] at hold
        cases hold
      · rw [h.list, List.drop_eq_nil_of_le hlen] at hl
        cases hl
    · have hne : pageAt va k ≠ pageAt va n := fun heq => hkn (pageAt_inj heq)
      rw [hother _ hne]
      exact h.slotted k (by omega)

/-- `allocateMem` on a range below `USER_TOP`. -/
theorem SlotTable.allocateMem_spec (ho : Owned c s G) (h : SlotTable s G e) (hd : DiskFrames s G)
    {va size n : Nat} (hn : n = (size + 4095) % wordMod / 4096)
    (hva : n = 0 ∨ va + 4096 * (n - 1) < userTop) :
    Ensures (fun _ => ¬ Enough s (2 * n)) (fun t => ∃ H, Listed c e va n s G t H)
      (allocateMem s e va size) := by
  rw [allocateMem, ← hn]
  have hloop := forRange_ensures (E := fun _ => ¬ Enough s (2 * n)) (a := 0) (n := n) (s := s)
    (I := fun i t => ∃ H, Listed c e va i s G t H)
    (b := fun i s => do
      let r ← pfAddEmptyEnvPage s e ((va + 4096 * i) % wordMod) false
      .ok r.2) ?_ ⟨G, Listed.zero ho h hd va⟩
  · rw [Nat.zero_add] at hloop
    exact hloop
  · rintro i t - hi ⟨H, hl⟩
    rw [Nat.zero_add] at hi
    have hlt : va + 4096 * i < userTop := by
      rcases hva with hva | hva
      · omega
      · simp only [userTop] at hva ⊢
        omega
    have hmod : (va + 4096 * i) % wordMod = va + 4096 * i := by
      simp only [userTop, wordMod] at hlt ⊢
      omega
    rw [hmod]
    have hadd := SlotTable.pfAddEmptyEnvPage_spec hl.filed.owned hl.filed.table hl.filed.frames hlt
      false
    refine (hadd.mono (F := fun _ => ¬ Enough s (2 * n)) (fun _ hx hen => hx ?_)
      fun _ hr => hr).bind ?_
    · exact (hen.mono (show 2 * i + 2 ≤ 2 * n by omega)).after hl.filed.spent
    · rintro ⟨r, u⟩ ⟨I, ⟨-, hfull, hdisk⟩ | ⟨-, d, hslot, hdisk⟩⟩
      · exact ⟨I, hl.full hfull hdisk⟩
      · exact ⟨I, hl.slot hslot (by simpa using hdisk)⟩

section Listed

variable {va n : Nat} (h : Listed c e va n s G t H)
include h

/-- `allocateMem` keeps the pages in memory and the contents of the slots. -/
theorem Listed.acts (ho : Owned c s G) (ha : Alive c s G e) : Acts c e s G t H := by
  have hst := h.filed.envStep ha.base h.ddir
  have hws := h.filed.sameWs ha.base ho
  have hmax : t.wsMax e = s.wsMax e := hst.env.pageWSMaxSize
  have hown : ∀ f v, H.own f = some ⟨e, .page v⟩ ↔ G.own f = some ⟨e, .page v⟩ :=
    fun f v => h.filed.keeps.own f _ rfl
  exact ⟨⟨_, hst⟩, h.filed.held, hst.base, ha.entries.congr hws hmax h.filed.last hown,
    ha.covered.congr hws hmax hown, h.ddir ha.ddir⟩

theorem Listed.samePage (hb : Base c s G e) {v : Nat} (hv : H.slots e v = G.slots e v) :
    SamePage e v s G t H :=
  h.filed.samePage hb hv fun d _ => by rw [h.disk]

theorem Listed.holds (hb : Base c s G e) {v : Nat} {p : (Nat → Word) → Prop}
    (hp : Holds s G e v p) : Holds t H e v p := by
  obtain ⟨d, hd⟩ := hp.slot
  refine hp.same (h.samePage hb ?_)
  rw [hd]
  exact h.kept v d hd

theorem Listed.stored (hst : Stored G e) : Stored H e := by
  intro v f hf
  obtain ⟨d, hd⟩ := hst v f ((h.filed.keeps.own f _ rfl).1 hf)
  exact ⟨d, h.kept v d hd⟩

/-- Every page of the range has a slot exactly if the page file had room for those that lacked
one. -/
theorem Listed.all_iff : (∀ k < n, H.slots e (pageAt va k) ≠ none) ↔
    G.unslotted e va n ≤ s.diskFreeFrameList.length := by
  constructor
  · intro hall
    by_contra hlt
    -- the first round at which the list was empty and the page had no slot
    have hex : ∃ m, m < n + 1 ∧ s.diskFreeFrameList.length < G.unslotted e va m := ⟨n, by omega, by omega⟩
    obtain ⟨m, hm, hmin⟩ : ∃ m, (m < n + 1 ∧ s.diskFreeFrameList.length < G.unslotted e va m) ∧
        ∀ k < m, ¬ (k < n + 1 ∧ s.diskFreeFrameList.length < G.unslotted e va k) := by
      classical
      exact ⟨Nat.find hex, Nat.find_spec hex, fun k hk => Nat.find_min hex hk⟩
    cases m with
    | zero =>
      have hzero : G.unslotted e va 0 = 0 := rfl
      omega
    | succ k =>
      have hk := hmin k (by omega)
      have hsucc := G.unslotted_succ e va k
      cases hslot : G.slots e (pageAt va k) with
      | some d =>
        rw [hslot] at hsucc
        simp only [Option.isNone_some, Bool.false_eq_true, if_false] at hsucc
        omega
      | none =>
        rw [hslot] at hsucc
        simp only [Option.isNone_none, if_true] at hsucc
        refine hall k (by omega) ((h.slotted k (by omega)).2 ⟨hslot, ?_⟩)
        omega
  · intro hle k hk hnone
    obtain ⟨hslot, hlen⟩ := (h.slotted k hk).1 hnone
    have hmono : ∀ m, k + 1 ≤ m → G.unslotted e va (k + 1) ≤ G.unslotted e va m := by
      intro m hm
      induction m, hm using Nat.le_induction with
      | base => exact Nat.le_refl _
      | succ m _ ih =>
        rw [G.unslotted_succ e va m]
        omega
    have hn := hmono n hk
    have hsucc := G.unslotted_succ e va k
    rw [hslot] at hsucc
    simp only [Option.isNone_none, if_true] at hsucc
    omega

end Listed

end FosMemory
