import FosMemory.Kernel.Access

/-!
# Victim — the loops of `page_fault_handler`

The two unbounded loops of the handler end: the CLOCK sweep clears one accessed bit a round and so
meets a clear one after a full circle, the search for an empty element goes round the array once.
The sweep and the search change accessed bits and nothing else.
-/

namespace FosMemory

open Lib

variable {c : Boot} {s t u : Kernel} {G H I : Ghost} {e : Nat}

/-! ## Single bits -/

theorem and_bit_eq_zero {w p : Word} {i : Nat} (hp : p = BitVec.twoPow 32 i) (hne : p ≠ 0#32) :
    w &&& p = 0#32 ↔ w.has p = false := by
  have hand : w &&& p = if w.getLsbD i then p else 0#32 := by
    rw [hp]
    exact BitVec.and_twoPow w i
  rw [Word.has, hand]
  split
  · simp [hne]
  · simp [Ne.symm hne]

theorem and_permUsed {w : Word} : w &&& permUsed = 0#32 ↔ w.has permUsed = false :=
  and_bit_eq_zero (i := 5) (by decide) (by decide)

theorem and_permModified {w : Word} : w &&& permModified = 0#32 ↔ w.has permModified = false :=
  and_bit_eq_zero (i := 6) (by decide) (by decide)

theorem clear_has_used (w : Word) : (w &&& ~~~permUsed).has permUsed = false := by
  rw [← and_permUsed, BitVec.and_assoc]
  have hzero : ~~~permUsed &&& permUsed = 0#32 := by decide
  rw [hzero, BitVec.and_zero]

/-! ## Indices -/

theorem circular_next {start k n : Nat} : ((start + k) % n + 1) % n = (start + (k + 1)) % n := by
  rw [Nat.mod_add_mod, Nat.add_assoc]

/-- A circle of `n` indices does not meet itself. -/
theorem circular_inj {start j k n : Nat} (hj : j < k) (hk : k < n) :
    (start + j) % n ≠ (start + k) % n := by
  intro heq
  have hsub : (start + k - (start + j)) % n = 0 := Nat.sub_mod_eq_zero_of_mod_eq heq.symm
  rw [Nat.add_sub_add_left, Nat.mod_eq_of_lt (by omega)] at hsub
  omega

/-- Every index is met within `n` steps. -/
theorem circular_reach (start : Nat) {i n : Nat} (hi : i < n) : ∃ k < n, (start + k) % n = i := by
  refine ⟨(i + (n - start % n)) % n, Nat.mod_lt _ (by omega), ?_⟩
  have hlt : start % n < n := Nat.mod_lt _ (by omega)
  rw [Nat.add_mod_mod, Nat.add_mod, Nat.add_mod_mod]
  have hsum : start % n + (i + (n - start % n)) = i + n := by omega
  rw [hsum, Nat.add_mod_right, Nat.mod_eq_of_lt hi]

/-! ## Elements in use -/

theorem Kernel.wsVa_of_page {i v : Nat} (hv : s.wsPage e i = some v) : s.wsVa e i = v := by
  rw [Kernel.wsPage] at hv
  split at hv
  · exact Option.some.inj hv
  · cases hv

section Element

variable (hb : Base c s G e) (hent : Entries s G e) {i v : Nat} (hi : i < s.wsMax e)
  (hv : s.wsPage e i = some v)
include hb hent hi hv

/-- The page of an element, its frame and its table. -/
theorem Entries.target : v % 4096 = 0 ∧ v < userTop ∧ ∃ f tb, G.own f = some ⟨e, .page v⟩ ∧
    G.own tb = some ⟨e, .table (pdx v)⟩ := by
  obtain ⟨f, hf⟩ := hent.page i hi v hv
  obtain ⟨hal, hlt, tb, htb, -⟩ := hb.space.target v f false hf
  exact ⟨hal, hlt, f, tb, hf, htb⟩

theorem Entries.getVirtualAddress (ho : Owned c s G) :
    envPageWSGetVirtualAddress s e i = .ok v := by
  rw [hb.array.envPageWSGetVirtualAddress_eq ho hi, Kernel.wsVa_of_page hv,
    roundDown_eq (hent.target hb hi hv).1]

end Element

/-! ## LRU -/

/-- No element has a smaller time stamp than element `i`. -/
def LeastStamp (s : Kernel) (e i : Nat) : Prop :=
  ∀ k < s.wsMax e, (s.wsStamp e i).toNat ≤ (s.wsStamp e k).toNat

/-- The LRU scan after `k` elements: the index and the stamp it remembers.  It starts from the hand
and from a stamp of 1000000000. -/
def Scanned (s : Kernel) (e start k : Nat) (r : Nat × Nat) : Prop :=
  (∀ j < k, r.2 ≤ (s.wsStamp e j).toNat) ∧
    ((r.1 = start ∧ r.2 = 1000000000) ∨
      (r.1 < k ∧ r.2 = (s.wsStamp e r.1).toNat ∧ r.2 < 1000000000))

theorem Scanned.next {start k : Nat} {r : Nat × Nat} (h : Scanned s e start k r) :
    Scanned s e start (k + 1)
      (if (s.wsStamp e k).toNat < r.2 then (k, (s.wsStamp e k).toNat) else r) := by
  obtain ⟨hle, hfrom⟩ := h
  have hmax : r.2 ≤ 1000000000 := by
    rcases hfrom with ⟨-, hx⟩ | ⟨-, -, hx⟩ <;> omega
  by_cases hlt : (s.wsStamp e k).toNat < r.2
  · rw [if_pos hlt]
    refine ⟨fun j hj => ?_, .inr ⟨Nat.lt_succ_self k, rfl, by omega⟩⟩
    rcases Nat.lt_succ_iff_lt_or_eq.1 hj with hjk | rfl
    · exact Nat.le_trans (Nat.le_of_lt hlt) (hle j hjk)
    · exact Nat.le_refl _
  · rw [if_neg hlt]
    refine ⟨fun j hj => ?_, ?_⟩
    · rcases Nat.lt_succ_iff_lt_or_eq.1 hj with hjk | rfl
      · exact hle j hjk
      · exact Nat.le_of_not_lt hlt
    · rcases hfrom with hx | ⟨hk, hx⟩
      · exact .inl hx
      · exact .inr ⟨Nat.lt_succ_of_lt hk, hx⟩

/-- The index the LRU scan ends with: a least stamp if one is below 1000000000, else the hand. -/
theorem WsArray.lruVictim_spec (h : WsArray s G e) (ho : Owned c s G) {start : Nat}
    (hstart : start < s.wsMax e) : ∃ i < s.wsMax e, lruVictim s e start = .ok i ∧
      ((i = start ∧ ∀ k < s.wsMax e, 1000000000 ≤ (s.wsStamp e k).toNat) ∨
        ((s.wsStamp e i).toNat < 1000000000 ∧ LeastStamp s e i)) := by
  have hloop : Ensures (fun _ => False) (Scanned s e start (0 + (s.envs e).pageWSMaxSize))
      (forRange (fun i (r : Nat × Nat) => do
        let time ← envPageWSGetTimeStamp s e i
        .ok (if time < r.2 then (i, time) else r)) 0 (s.envs e).pageWSMaxSize
        (start, 1000000000)) := by
    refine forRange_ensures (I := fun k r => Scanned s e start k r) ?_
      ⟨fun j hj => absurd hj (Nat.not_lt_zero j), .inl ⟨rfl, rfl⟩⟩
    rintro i r - hi hr
    rw [Nat.zero_add] at hi
    rw [h.envPageWSGetTimeStamp_eq ho hi, ok_bind, ensures_ok]
    exact hr.next
  obtain ⟨⟨i, time⟩, hr, hle, hfrom⟩ := hloop.exists_ok
  rw [Nat.zero_add] at hle hfrom
  have hrun : lruVictim s e start = .ok i := by rw [lruVictim, hr, ok_bind]
  rcases hfrom with ⟨rfl, rfl⟩ | ⟨hi, htime, hlt⟩
  · exact ⟨_, hstart, hrun, .inl ⟨rfl, hle⟩⟩
  · simp only at hi htime hlt hle
    rw [htime] at hlt hle
    exact ⟨i, hi, hrun, .inr ⟨hlt, hle⟩⟩

/-! ## CLOCK -/

/-- The first `k` elements from `start` on have lost their accessed bits. -/
structure Swept (c : Boot) (e start k : Nat) (s : Kernel) (G : Ghost) (t : Kernel) : Prop
    extends WalkOnly c e s G t where
  passed : ∀ j < k, ∀ v, s.wsPage e ((start + j) % s.wsMax e) = some v →
    t.pteWord e v = s.pteWord e v &&& ~~~permUsed
  other : ∀ v f b, G.Target e v f b →
    (∀ j < k, s.wsPage e ((start + j) % s.wsMax e) ≠ some v) → t.pteWord e v = s.pteWord e v

/-- The accessed bit of the page of an element. -/
def Kernel.usedAt (s : Kernel) (e i : Nat) : Bool :=
  match s.wsPage e i with
  | some v => (s.pteWord e v).has permUsed
  | none => false

theorem Swept.unmarked {start k : Nat} (h : Swept c e start k s G t) {v f : Nat}
    (hf : G.own f = some ⟨e, .page v⟩) : (t.pteWord e v).unmarked = (s.pteWord e v).unmarked := by
  by_cases hx : ∃ j < k, s.wsPage e ((start + j) % s.wsMax e) = some v
  · obtain ⟨j, hj, hv⟩ := hx
    rw [h.passed j hj v hv, unmarked_clear]
  · rw [h.other v f false hf fun j hj hv => hx ⟨j, hj, hv⟩]

section Clock

variable (ho : Owned c s G) (hb : Base c s G e) (hd : DiskFrames s G) (hent : Entries s G e)
  (hfull : ∀ i < s.wsMax e, s.wsPage e i ≠ none) {start : Nat}
include ho hb hd hent hfull

variable (start) in
theorem Base.clock_loop (rounds : Nat) : ∀ k t, rounds + k = s.wsMax e + 1 → k ≤ s.wsMax e →
    Swept c e start k s G t →
    (∀ j < k, s.usedAt e ((start + j) % s.wsMax e) = true) →
    ∃ m u, m ≤ s.wsMax e ∧
      clockVictim e rounds t ((start + k) % s.wsMax e) = .ok ((start + m) % s.wsMax e, u) ∧
      Swept c e start m s G u ∧ (∀ j < m, s.usedAt e ((start + j) % s.wsMax e) = true) ∧
      (m < s.wsMax e → s.usedAt e ((start + m) % s.wsMax e) = false) := by
  have hpos := hb.array.size_pos
  induction rounds with
  | zero =>
    intro k t hr hk
    omega
  | succ rounds ih =>
    intro k t hr hk hsw hset
    -- the element under the hand and its page
    obtain ⟨i, hieq⟩ : ∃ i, i = (start + k) % s.wsMax e := ⟨_, rfl⟩
    have hi : i < s.wsMax e := by
      rw [hieq]
      exact Nat.mod_lt _ hpos
    obtain ⟨v, hv⟩ := Option.ne_none_iff_exists'.1 (hfull i hi)
    obtain ⟨hal, hvt, f, tb, hf, htb⟩ := hent.target hb hi hv
    have hst := hsw.toWalkOnly.envStep ho hb hd
    have hws := hsw.toWalkOnly.sameWs ho hb hd
    have hmax : t.wsMax e = s.wsMax e := hst.env.pageWSMaxSize
    have hent' : Entries t G e :=
      hent.congr hws hmax (by rw [hsw.rest.envs]) (fun _ _ => Iff.rfl)
    have hi' : i < t.wsMax e := by
      rw [hmax]
      exact hi
    have hv' : t.wsPage e i = some v := by
      rw [hws.page hi]
      exact hv
    have hgetva := hent'.getVirtualAddress hst.base hi' hv' hst.owned
    have hsp := hst.base.space
    have hget := getPageTable_user hst.owned.inv.map (hsp.dirAt hst.owned) hvt
      (hsp.table tb _ htb).2
    have hload := hsp.load_entry hst.owned htb
    have hdown : roundDown v 4096 = v := roundDown_eq hal
    rw [hdown] at hload
    rw [← hieq]
    by_cases hbit : (t.pteWord e v).has permUsed = true
    · -- the bit is set, so the hand has not come round yet
      have hkn : k < s.wsMax e := by
        rcases Nat.lt_or_ge k (s.wsMax e) with hlt | hge
        · exact hlt
        · have hkeq : k = s.wsMax e := by omega
          have hback : (start + 0) % s.wsMax e = i := by
            rw [hieq, hkeq, Nat.add_zero, Nat.add_mod_right]
          have hcleared := hsw.passed 0 (by omega) v (by rw [hback]; exact hv)
          rw [hcleared, clear_has_used] at hbit
          cases hbit
      have hfresh : ∀ j < k, s.wsPage e ((start + j) % s.wsMax e) ≠ some v := by
        intro j hj hx
        have hlt : (start + j) % s.wsMax e < s.wsMax e := Nat.mod_lt _ hpos
        have := hent.inj _ hlt _ hi v hx hv
        rw [hieq] at this
        exact circular_inj hj hkn this
      have hold : t.pteWord e v = s.pteWord e v := hsw.other v f false hf hfresh
      have hne : t.pteWord e v &&& permUsed ≠ 0#32 := by
        intro hx
        rw [and_permUsed, hbit] at hx
        cases hx
      have hentry : EntryFor f (t.pteWord e v) false := by
        obtain ⟨-, -, tb', htb', hw⟩ := hsp.target v f false hf
        rw [hsp.pteWord_eq htb']
        exact hw
      have hset' := hsp.pteSet (b := false) hf htb (entryFor_clear hentry permUsed_isMark)
      have hstore := Space.store_entry hst.owned htb (t.pteWord e v &&& ~~~permUsed)
      obtain ⟨w, hw⟩ : ∃ w, w = t.setWord tb (ptx v) (t.pteWord e v &&& ~~~permUsed) := ⟨_, rfl⟩
      rw [← hw] at hset' hstore
      have hsw' : Swept c e start (k + 1) s G w := by
        refine ⟨hsw.toWalkOnly.trans hset'.toWalkOnly, ?_, ?_⟩
        · intro j hj x hx
          by_cases hjk : j = k
          · subst hjk
            rw [← hieq, hv] at hx
            cases hx
            rw [hset'.pte_self, hold]
          · have hxv : x ≠ v := by
              rintro rfl
              exact hfresh j (by omega) hx
            have hjlt : (start + j) % s.wsMax e < s.wsMax e := Nat.mod_lt _ hpos
            obtain ⟨g, hg⟩ := hent.page _ hjlt x hx
            rw [hset'.pte x g false hxv hg, hsw.passed j (by omega) x hx]
        · intro x g b ht hno
          have hxv : x ≠ v := by
            rintro rfl
            exact hno k (by omega) (by rw [← hieq]; exact hv)
          rw [hset'.pte x g b hxv ht, hsw.other x g b ht fun j hj => hno j (by omega)]
      have hused : ∀ j < k + 1, s.usedAt e ((start + j) % s.wsMax e) = true := by
        intro j hj
        by_cases hjk : j = k
        · subst hjk
          rw [← hieq, Kernel.usedAt, hv]
          simp only
          rw [← hold]
          exact hbit
        · exact hset j (by omega)
      obtain ⟨m, u, hm, hrun, hrest⟩ := ih (k + 1) w (by omega) (by omega) hsw' hused
      refine ⟨m, u, hm, ?_, hrest⟩
      have hnext : nextIndex w e i = (start + (k + 1)) % s.wsMax e := by
        have hwmax : (w.envs e).pageWSMaxSize = s.wsMax e := by
          rw [hset'.rest.envs]
          exact hmax
        rw [nextIndex, hwmax, hieq, circular_next]
      simp only [clockVictim, hgetva, ok_bind, hget, hload, if_neg hne, hstore, hnext]
      exact hrun
    · -- the bit is clear: this is the victim
      have hzero : t.pteWord e v &&& permUsed = 0#32 := by
        rw [and_permUsed]
        exact Bool.eq_false_iff.2 hbit
      refine ⟨k, t, hk, ?_, hsw, hset, ?_⟩
      · simp only [clockVictim, hgetva, ok_bind, hget, hload, if_pos hzero, ← hieq]
      · intro hkn
        have hfresh : ∀ j < k, s.wsPage e ((start + j) % s.wsMax e) ≠ some v := by
          intro j hj hx
          have hlt : (start + j) % s.wsMax e < s.wsMax e := Nat.mod_lt _ hpos
          have := hent.inj _ hlt _ hi v hx hv
          rw [hieq] at this
          exact circular_inj hj hkn this
        rw [← hieq, Kernel.usedAt, hv]
        simp only
        rw [← hsw.other v f false hf hfresh]
        exact Bool.eq_false_iff.2 hbit

/-- The CLOCK sweep of a full working set ends within a circle. -/
theorem Base.clockVictim_spec (hstart : start < s.wsMax e) :
    ∃ m t, m ≤ s.wsMax e ∧
      clockVictim e (s.wsMax e + 1) s start = .ok ((start + m) % s.wsMax e, t) ∧
      Swept c e start m s G t ∧ (∀ j < m, s.usedAt e ((start + j) % s.wsMax e) = true) ∧
      (m < s.wsMax e → s.usedAt e ((start + m) % s.wsMax e) = false) := by
  have hzero : Swept c e start 0 s G s :=
    ⟨WalkOnly.refl hb.space, fun j hj => absurd hj (by omega), fun _ _ _ _ _ => rfl⟩
  have h := hb.clock_loop ho hd hent hfull start (s.wsMax e + 1) 0 s rfl (by omega) hzero
    (fun j hj => absurd hj (by omega))
  have hbegin : (start + 0) % s.wsMax e = start := by
    rw [Nat.add_zero, Nat.mod_eq_of_lt hstart]
  rw [hbegin] at h
  exact h

/-- The index to replace, whatever the policy: accessed bits may be cleared on the way. -/
theorem Base.victim_spec (hstart : start < s.wsMax e) :
    ∃ i t, i < s.wsMax e ∧ victim s e start = .ok (i, t) ∧ WalkOnly c e s G t ∧
      ∀ v f, G.own f = some ⟨e, .page v⟩ → (t.pteWord e v).unmarked = (s.pteWord e v).unmarked := by
  have hpos := hb.array.size_pos
  have hself : WalkOnly c e s G s := WalkOnly.refl hb.space
  rw [victim]
  cases hpol : s.pageRepAlgoType with
  | lru =>
    obtain ⟨i, hi, hrun, -⟩ := hb.array.lruVictim_spec ho hstart
    exact ⟨i, s, hi, by simp only [hrun, ok_bind], hself, fun _ _ _ => rfl⟩
  | clock =>
    obtain ⟨m, t, -, hrun, hsw, -⟩ := hb.clockVictim_spec ho hd hent hfull hstart
    exact ⟨_, t, Nat.mod_lt _ hpos, hrun, hsw.toWalkOnly, fun v f hf => hsw.unmarked hf⟩
  | fifo => exact ⟨start, s, hstart, rfl, hself, fun _ _ _ => rfl⟩
  | modifiedClock => exact ⟨start, s, hstart, rfl, hself, fun _ _ _ => rfl⟩

end Clock

/-! ## The search for an empty element -/

/-- The window has been read; no entry of a page has changed. -/
structure Looked (c : Boot) (e : Nat) (s : Kernel) (G : Ghost) (t : Kernel) : Prop
    extends WalkOnly c e s G t where
  pte : ∀ v f, G.own f = some ⟨e, .page v⟩ → t.pteWord e v = s.pteWord e v

theorem Looked.refl (h : Space c s G e) : Looked c e s G s :=
  ⟨WalkOnly.refl h, fun _ _ _ => rfl⟩

theorem Looked.trans (h : Looked c e s G t) (h' : Looked c e t G u) : Looked c e s G u :=
  ⟨h.toWalkOnly.trans h'.toWalkOnly, fun v f hf => (h'.pte v f hf).trans (h.pte v f hf)⟩

theorem Looked.samePage (h : Looked c e s G t) (v : Nat) : SamePage e v s G t G :=
  h.toWalkOnly.samePage fun f hf => by rw [h.pte v f hf]

/-- Element `i`, read through the window. -/
theorem Base.window_read (hb : Base c s G e) (ho : Owned c s G)
    (hcr3 : s.cr3 = (s.envs e).envCr3) {i : Nat} (hi : i < s.wsMax e) :
    ∃ f t, s.kernelTouch false ((s.envs e).uptrPws + 12 * i + 4) = .ok (f, t) ∧
      Looked c e s G t ∧
      (t.mem f (((s.envs e).uptrPws + 12 * i + 4) % 4096 / 4)).byte
        (((s.envs e).uptrPws + 12 * i + 4) % 4) = s.wsFlag e i := by
  obtain ⟨a, ha⟩ : ∃ a, a = (s.envs e).uptrPws + 12 * i + 4 := ⟨_, rfl⟩
  have hsize := hb.array.size_lt ho
  have hj : 3 * i + 1 < 3 * s.wsMax e := by omega
  have hk := WsArray.index_lt hj
  obtain ⟨f, hf⟩ := hb.array.frame _ hk
  have haddr : a = 0xA0000000 + 12 * i + 4 := by
    rw [ha, hb.array.uptr, userPagesWSStart]
  have hmax : (s.envs e).pageWSMaxSize = s.wsMax e := rfl
  have hlt : a < userTop := by
    simp only [userTop]
    omega
  have hdown : roundDown a 4096 = userPagesWSStart + 4096 * ((3 * i + 1) / 1024) := by
    simp only [roundDown, userPagesWSStart]
    omega
  have ht : G.Target e (roundDown a 4096) f true := by
    refine ⟨_, hf, ?_, hdown⟩
    rw [hb.array.win]
    simpa using hk
  obtain ⟨t, htouch, hset⟩ := hb.space.touch_some hcr3 hlt false false ht (.inr rfl)
  rw [← ha]
  refine ⟨f, t, by rw [Kernel.kernelTouch, htouch], ⟨hset.toWalkOnly, ?_⟩, ?_⟩
  · intro v g hg
    refine hset.pte v g false ?_ hg
    rintro rfl
    have := (hb.space.target_unique (a := false) (b := true) hg ht).2
    cases this
  · have hoff : a % 4096 / 4 = (3 * i + 1) % 1024 := by omega
    have hzero : a % 4 = 0 := by omega
    rw [hoff, hzero, hset.toWalkOnly.mem_ws hf, ← hb.array.wsWord_eq ho hf rfl]
    rfl

section Search

variable (ho : Owned c s G) (hb : Base c s G e) (hd : DiskFrames s G)
  (hcr3 : s.cr3 = (s.envs e).envCr3) {start : Nat}
include ho hb hd hcr3

variable (start) in
theorem Base.search_loop (rounds : Nat) : ∀ k t, Looked c e s G t →
    (∀ j < k, s.wsFlag e ((start + j) % s.wsMax e) = 0#8) →
    (∃ m < s.wsMax e, m < k + rounds ∧ s.wsFlag e ((start + m) % s.wsMax e) ≠ 0#8) →
    ∃ m u, m < s.wsMax e ∧
      emptySlot e rounds t ((start + k) % s.wsMax e) = .ok ((start + m) % s.wsMax e, u) ∧
      Looked c e s G u ∧ (∀ j < m, s.wsFlag e ((start + j) % s.wsMax e) = 0#8) ∧
      s.wsFlag e ((start + m) % s.wsMax e) ≠ 0#8 := by
  have hpos := hb.array.size_pos
  induction rounds with
  | zero =>
    rintro k t - hzero ⟨m, -, hm, hflag⟩
    exact absurd (hzero m (by omega)) hflag
  | succ rounds ih =>
    intro k t hlook hzero hex
    obtain ⟨i, hieq⟩ : ∃ i, i = (start + k) % s.wsMax e := ⟨_, rfl⟩
    have hi : i < s.wsMax e := by
      rw [hieq]
      exact Nat.mod_lt _ hpos
    have hst := hlook.toWalkOnly.envStep ho hb hd
    have hws := hlook.toWalkOnly.sameWs ho hb hd
    have hmax : t.wsMax e = s.wsMax e := hst.env.pageWSMaxSize
    have hcr3' : t.cr3 = (t.envs e).envCr3 := by
      rw [hst.run.cr3, hst.env.envCr3]
      exact hcr3
    obtain ⟨f, u, htouch, hlook', hbyte⟩ :=
      hst.base.window_read hst.owned hcr3' (i := i) (by rw [hmax]; exact hi)
    rw [hws.flag hi] at hbyte
    have hall := hlook.trans hlook'
    rw [← hieq]
    by_cases hflag : s.wsFlag e i = 0#8
    · have hzero' : ∀ j < k + 1, s.wsFlag e ((start + j) % s.wsMax e) = 0#8 := by
        intro j hj
        by_cases hjk : j = k
        · subst hjk
          rw [← hieq]
          exact hflag
        · exact hzero j (by omega)
      obtain ⟨m, hmn, hmk, hmf⟩ := hex
      obtain ⟨m', w, hm', hrun, hrest⟩ := ih (k + 1) u hall hzero' ⟨m, hmn, by omega, hmf⟩
      refine ⟨m', w, hm', ?_, hrest⟩
      have hnext : nextIndex u e i = (start + (k + 1)) % s.wsMax e := by
        have humax : (u.envs e).pageWSMaxSize = s.wsMax e := by
          rw [hall.rest.envs]
        rw [nextIndex, humax, hieq, circular_next]
      have hne : ¬ (u.mem f (((t.envs e).uptrPws + 12 * i + 4) % 4096 / 4)).byte
          (((t.envs e).uptrPws + 12 * i + 4) % 4) ≠ 0#8 := by
        rw [hbyte]
        exact not_not_intro hflag
      simp only [emptySlot, htouch, ok_bind, if_neg hne, hnext]
      exact hrun
    · have hne : (u.mem f (((t.envs e).uptrPws + 12 * i + 4) % 4096 / 4)).byte
          (((t.envs e).uptrPws + 12 * i + 4) % 4) ≠ 0#8 := by
        rw [hbyte]
        exact hflag
      have hkn : k < s.wsMax e := by
        by_contra hge
        -- a full circle without an empty element
        obtain ⟨m, hm, hmi⟩ := circular_reach start hi
        have := hzero m (by omega)
        rw [hmi] at this
        exact hflag this
      refine ⟨k, u, hkn, ?_, hall, hzero, by rw [← hieq]; exact hflag⟩
      simp only [emptySlot, htouch, ok_bind, if_pos hne, ← hieq]

/-- The search ends at the first empty element in circular order. -/
theorem Base.emptySlot_spec (hstart : start < s.wsMax e)
    (hex : ∃ i < s.wsMax e, s.wsFlag e i ≠ 0#8) :
    ∃ m t, m < s.wsMax e ∧
      emptySlot e (s.wsMax e + 1) s start = .ok ((start + m) % s.wsMax e, t) ∧
      Looked c e s G t ∧ (∀ j < m, s.wsFlag e ((start + j) % s.wsMax e) = 0#8) ∧
      s.wsFlag e ((start + m) % s.wsMax e) ≠ 0#8 := by
  obtain ⟨i, hi, hflag⟩ := hex
  obtain ⟨m, hm, hmi⟩ := circular_reach start hi
  have h := hb.search_loop ho hd hcr3 start (s.wsMax e + 1) 0 s (Looked.refl hb.space)
    (fun j hj => absurd hj (by omega)) ⟨m, hm, by omega, by rw [hmi]; exact hflag⟩
  have hbegin : (start + 0) % s.wsMax e = start := by
    rw [Nat.add_zero, Nat.mod_eq_of_lt hstart]
  rw [hbegin] at h
  exact h

end Search

end FosMemory
