import FosMemory.Kernel.UserAccess

/-!
# Ageing — `update_WS_time_stamps`

On every tick the time stamps of the running environment's pages and tables are shifted and their
accessed bits cleared.  `Aged` says what that leaves alone: every page with its entry up to the
accessed bit, every element with its address.
-/

namespace FosMemory

open Lib

variable {c : Boot} {s t u : Kernel} {G H I : Ghost} {e : Nat}

/-! ## What a tick leaves alone -/

structure Aged (c : Boot) (e : Nat) (s : Kernel) (G : Ghost) (t : Kernel) : Prop where
  step : EnvStep c e 0 s G t G
  element : ∀ i < s.wsMax e, t.wsVa e i = s.wsVa e i ∧ t.wsFlag e i = s.wsFlag e i
  last : (t.envs e).pageLastWSIndex = (s.envs e).pageLastWSIndex
  same : ∀ v, SamePage e v s G t G
  diskList : t.diskFreeFrameList = s.diskFreeFrameList

theorem Aged.refl (ho : Owned c s G) (hb : Base c s G e) (hd : DiskFrames s G) :
    Aged c e s G s :=
  ⟨EnvStep.refl ho hb hd, fun _ _ => ⟨rfl, rfl⟩, rfl, fun v => SamePage.refl e v s G, rfl⟩

theorem Aged.trans (h : Aged c e s G t) (h' : Aged c e t G u) : Aged c e s G u := by
  have hmax : t.wsMax e = s.wsMax e := h.step.env.pageWSMaxSize
  refine ⟨h.step.trans h'.step, fun i hi => ?_, h'.last.trans h.last,
    fun v => (h.same v).trans (h'.same v), h'.diskList.trans h.diskList⟩
  obtain ⟨hva, hflag⟩ := h.element i hi
  obtain ⟨hva', hflag'⟩ := h'.element i (by rw [hmax]; exact hi)
  exact ⟨hva'.trans hva, hflag'.trans hflag⟩

theorem Aged.page (h : Aged c e s G t) {i : Nat} (hi : i < s.wsMax e) :
    t.wsPage e i = s.wsPage e i :=
  wsPage_of_rest (h.element i hi).1 (h.element i hi).2

theorem Aged.entries (h : Aged c e s G t) (hent : Entries s G e) : Entries t G e := by
  have hmax : t.wsMax e = s.wsMax e := h.step.env.pageWSMaxSize
  constructor
  case last =>
    rw [h.last, hmax]
    exact hent.last
  case flag =>
    intro i hi
    rw [hmax] at hi
    rw [(h.element i hi).1, (h.element i hi).2]
    exact hent.flag i hi
  case page =>
    intro i hi v hv
    rw [hmax] at hi
    rw [h.page hi] at hv
    exact hent.page i hi v hv
  case inj =>
    intro i hi j hj v hv hv'
    rw [hmax] at hi hj
    rw [h.page hi] at hv
    rw [h.page hj] at hv'
    exact hent.inj i hi j hj v hv hv'

theorem Aged.covered (h : Aged c e s G t) (hcov : Covered s G e) : Covered t G e := by
  have hmax : t.wsMax e = s.wsMax e := h.step.env.pageWSMaxSize
  intro v f hf
  obtain ⟨i, hi, hv⟩ := hcov v f hf
  refine ⟨i, by rw [hmax]; exact hi, ?_⟩
  rw [h.page hi]
  exact hv

theorem Aged.acts (h : Aged c e s G t) (ha : Alive c s G e) : Acts c e s G t G :=
  ⟨⟨0, h.step⟩, id, h.step.base, h.entries ha.entries, h.covered ha.covered, h.step.ddir ha.ddir⟩

theorem Aged.of_walk (h : WalkOnly c e s G t)
    (hpte : ∀ v f, G.own f = some ⟨e, .page v⟩ →
      (t.pteWord e v).unmarked = (s.pteWord e v).unmarked) (ho : Owned c s G)
    (hb : Base c s G e) (hd : DiskFrames s G) : Aged c e s G t := by
  have hws := h.sameWs ho hb hd
  exact ⟨h.envStep ho hb hd, fun i hi => ⟨hws.va hi, hws.flag hi⟩, by rw [h.rest.envs],
    fun v => h.samePage fun f hf => hpte v f hf, h.rest.diskFreeFrameList⟩

/-! ## Pages -/

/-- Element `i` has got its new time stamp, and its page has lost its accessed bit. -/
structure AgedAt (c : Boot) (e i : Nat) (s : Kernel) (G : Ghost) (t : Kernel) : Prop
    extends Aged c e s G t where
  stamp_self : ∀ v, s.wsPage e i = some v →
    t.wsStamp e i = aged ((s.pteWord e v).has permUsed) (s.wsStamp e i)
  stamp_ne : ∀ k < s.wsMax e, k ≠ i → t.wsStamp e k = s.wsStamp e k
  pte_self : ∀ v, s.wsPage e i = some v → t.pteWord e v = s.pteWord e v &&& ~~~permUsed
  pte_ne : ∀ v f, s.wsPage e i ≠ some v → G.own f = some ⟨e, .page v⟩ →
    t.pteWord e v = s.pteWord e v

/-- Clearing a bit that is not set. -/
theorem and_not_permUsed {w : Word} (h : w.has permUsed = false) : w &&& ~~~permUsed = w := by
  have hzero : w &&& permUsed = 0#32 := and_permUsed.2 h
  have hones : permUsed ||| ~~~permUsed = BitVec.allOnes 32 := by decide
  calc w &&& ~~~permUsed = 0#32 ||| (w &&& ~~~permUsed) := (BitVec.zero_or).symm
    _ = (w &&& permUsed) ||| (w &&& ~~~permUsed) := by rw [hzero]
    _ = w &&& (permUsed ||| ~~~permUsed) := (BitVec.and_or_distrib_left ..).symm
    _ = w := by rw [hones, BitVec.and_allOnes]

section Page

variable (ho : Owned c s G) (hb : Base c s G e) (hd : DiskFrames s G) {i : Nat}
  (hi : i < s.wsMax e)
include ho hb hd hi

/-- A new time stamp. -/
theorem Aged.stamp (w : Word) : Aged c e s G (s.setWs e (3 * i + 2) w) := by
  have hj : 3 * i + 2 < 3 * s.wsMax e := by omega
  have honly := hb.array.setWs_only ho hj w
  refine ⟨honly.envStep ho hb hd, fun k hk => ?_, rfl, honly.samePage hb.space, rfl⟩
  have h0 := hb.array.setWs_word ho hj (show 3 * k < 3 * s.wsMax e by omega) w
  have h1 := hb.array.setWs_word ho hj (show 3 * k + 1 < 3 * s.wsMax e by omega) w
  rw [if_neg (by omega)] at h0 h1
  exact ⟨by rw [Kernel.wsVa, h0, Kernel.wsVa], by rw [Kernel.wsFlag, h1, Kernel.wsFlag]⟩

omit hd in
theorem Base.setStamp (w : Word) {k : Nat} (hk : k < s.wsMax e) :
    (s.setWs e (3 * i + 2) w).wsStamp e k = if k = i then w else s.wsStamp e k := by
  have hword := hb.array.setWs_word ho (show 3 * i + 2 < 3 * s.wsMax e by omega)
    (show 3 * k + 2 < 3 * s.wsMax e by omega) w
  rw [Kernel.wsStamp, hword]
  by_cases hki : k = i
  · rw [if_pos (by omega), if_pos hki]
  · rw [if_neg (by omega), if_neg hki]
    rfl

/-- One round of the first loop. -/
theorem Base.agePage_spec (hent : Entries s G e) :
    Ensures (fun _ => False) (AgedAt c e i s G) (agePage e i s) := by
  have hempty := hb.array.wsEmpty_eq ho hi
  rw [agePage, hempty, ok_bind]
  rcases hent.flag i hi with hflag | ⟨hflag, -⟩
  · -- an element in use: its page is in memory, so its entry can be read
    have hne : (s.wsFlag e i).toNat ≠ 1 := by
      rw [hflag]
      decide
    have hpage : s.wsPage e i = some (s.wsVa e i) := wsPage_eq_some hflag
    obtain ⟨hal, hlt, f, tb, hf, htb⟩ := Entries.target hb hent hi hpage
    have ht : G.Target e (roundDown (s.wsVa e i) 4096) f false := by
      rw [roundDown_eq hal]
      exact hf
    have hperm := hb.space.ptGetPagePermissions_eq ho hlt ht
    have hage := fun w => Aged.stamp ho hb hd hi w
    rw [if_pos hne, hb.array.wsVirtualAddress_eq ho hi, ok_bind, hperm, ok_bind,
      hb.array.wsTimeStamp_eq ho hi, ok_bind]
    have hself : ∀ v, s.wsPage e i = some v → v = s.wsVa e i := fun v hv =>
      (Option.some.inj (hpage.symm.trans hv)).symm
    -- the store of a time stamp leaves the entries alone
    have hkeep : ∀ w v g b, G.Target e v g b →
        (s.setWs e (3 * i + 2) w).pteWord e v = s.pteWord e v := fun w v g b hv =>
      (hb.array.setWs_only ho (show 3 * i + 2 < 3 * s.wsMax e by omega) w).pteWord hb.space hv
    have hbit : (s.pteWord e (roundDown (s.wsVa e i) 4096) &&& 0xFFF#32) &&& permUsed ≠ 0#32 ↔
        (s.pteWord e (s.wsVa e i)).has permUsed = true := by
      have hpart : (0xFFF#32 : Word) &&& permUsed = permUsed := by decide
      rw [roundDown_eq hal, BitVec.and_assoc, hpart, ne_eq, and_permUsed, Bool.not_eq_false]
    split
    · rename_i hused
      rw [hbit] at hused
      rw [hb.array.storeStamp_eq ho hi, ok_bind]
      obtain ⟨t, ht'⟩ : ∃ t, t = s.setWs e (3 * i + 2) (aged true (s.wsStamp e i)) := ⟨_, rfl⟩
      have haged : Aged c e s G t := by
        rw [ht']
        exact hage _
      have hkeep' : ∀ v g b, G.Target e v g b → t.pteWord e v = s.pteWord e v := by
        rw [ht']
        exact hkeep _
      have hstamp : ∀ k < s.wsMax e, t.wsStamp e k =
          if k = i then aged true (s.wsStamp e i) else s.wsStamp e k := by
        rw [ht']
        exact fun k hk => Base.setStamp ho hb hi _ hk
      rw [← ht']
      obtain ⟨u, hset, hpte⟩ := haged.step.base.space.ptSetPagePermissions_spec haged.step.owned
        hlt 0#32 permUsed ht ⟨by decide, by decide⟩ permUsed_isMark
      have hws := hpte.toWalkOnly.sameWs haged.step.owned haged.step.base haged.step.frames
      have hmax : t.wsMax e = s.wsMax e := haged.step.env.pageWSMaxSize
      have hwalk : Aged c e t G u := by
        refine Aged.of_walk hpte.toWalkOnly (fun v g hg => ?_) haged.step.owned haged.step.base
          haged.step.frames
        refine (hpte.samePage_all ?_ v).pte g hg
        rw [BitVec.or_zero]
        exact unmarked_clear _
      rw [hset]
      constructor
      case toAged => exact haged.trans hwalk
      case stamp_self =>
        intro v hv
        obtain rfl := hself v hv
        rw [hws.stamp (by rw [hmax]; exact hi), hstamp i hi, if_pos rfl, hused]
      case stamp_ne =>
        intro k hk hne
        rw [hws.stamp (by rw [hmax]; exact hk), hstamp k hk, if_neg hne]
      case pte_self =>
        intro v hv
        obtain rfl := hself v hv
        have hpt := hpte.pte_self
        rw [roundDown_eq hal, BitVec.or_zero] at hpt
        rw [hpt, hkeep' _ f false hf]
      case pte_ne =>
        intro v g hne hg
        have hvne : v ≠ roundDown (s.wsVa e i) 4096 := by
          rw [roundDown_eq hal]
          rintro rfl
          exact hne hpage
        rw [hpte.pte v g false hvne hg, hkeep' v g false hg]
    · rename_i hused
      rw [not_not] at hused
      have hclear : (s.pteWord e (s.wsVa e i)).has permUsed = false :=
        Bool.eq_false_iff.2 fun hx => hbit.2 hx hused
      rw [hb.array.storeStamp_eq ho hi]
      constructor
      case toAged => exact hage _
      case stamp_self =>
        intro v hv
        obtain rfl := hself v hv
        rw [Base.setStamp ho hb hi _ hi, if_pos rfl, hclear]
      case stamp_ne =>
        intro k hk hne
        rw [Base.setStamp ho hb hi _ hk, if_neg hne]
      case pte_self =>
        intro v hv
        obtain rfl := hself v hv
        rw [hkeep _ _ f false hf, and_not_permUsed hclear]
      case pte_ne => exact fun v g _ hg => hkeep _ v g false hg
  · -- an empty element
    have heq : ¬ (s.wsFlag e i).toNat ≠ 1 := by
      rw [hflag]
      decide
    have hnone : s.wsPage e i = none := by
      rw [Kernel.wsPage, hflag]
      rfl
    rw [if_neg heq]
    refine ⟨Aged.refl ho hb hd, fun v hv => ?_, fun _ _ _ => rfl, fun v hv => ?_,
      fun _ _ _ _ => rfl⟩
    · rw [hnone] at hv
      cases hv
    · rw [hnone] at hv
      cases hv

end Page

/-! ## Tables -/

/-- The two entries of the directory that map the directory itself. -/
theorem Space.markSelf (h : Space c s G e) {i : Nat} (hi : i = 957 ∨ i = 959) (w : Word) :
    Space c (s.setWord (s.dirFrame e) i w) G e := by
  have hdir : (s.setWord (s.dirFrame e) i w).dirFrame e = s.dirFrame e := rfl
  have hmem : ∀ k, k ≠ i → (s.setWord (s.dirFrame e) i w).mem (s.dirFrame e) k =
      s.mem (s.dirFrame e) k := by
    intro k hk
    rw [s.setWord_mem, if_neg fun hx => hk hx.2]
  have htab : ∀ g k, G.own g = some ⟨e, .table k⟩ →
      (s.setWord (s.dirFrame e) i w).mem g = s.mem g := by
    intro g k hg
    refine Kernel.setWord_mem_frame ?_
    rintro rfl
    rw [h.dir_own] at hg
    cases hg
  constructor
  case dir_own => exact h.dir_own
  case dir_unique => exact h.dir_unique
  case cr3_eq => exact h.cr3_eq
  case dir_at => exact h.dir_at
  case pde =>
    intro k hk
    rw [hdir, hmem k (by omega)]
    exact h.pde k hk
  case kernel_pde =>
    intro k hle hlt h957 h959
    rw [hdir, hmem k (by omega)]
    exact h.kernel_pde k hle hlt h957 h959
  case table =>
    intro g k hg
    obtain ⟨hk, hn⟩ := h.table g k hg
    rw [hdir, hmem k (by omega)]
    exact ⟨hk, hn⟩
  case pte =>
    intro g k hg j hj
    rw [htab g k hg]
    exact h.pte g k hg j hj
  case target =>
    intro v f b ht
    obtain ⟨hal, hv, tb, htb, hentry⟩ := h.target v f b ht
    refine ⟨hal, hv, tb, htb, ?_⟩
    rw [htab tb _ htb]
    exact hentry

/-- A store in the directory that keeps what it maps. -/
theorem Space.lookDir (h : Space c s G e) {i : Nat} {w : Word}
    (hspace : Space c (s.setWord (s.dirFrame e) i w) G e) :
    Looked c e s G (s.setWord (s.dirFrame e) i w) := by
  constructor
  case toWalkOnly =>
    exact ⟨SameFrames.setWord s _ _ _, ⟨rfl, rfl, rfl, rfl, rfl, rfl, rfl⟩,
      fun g hg => Kernel.setWord_mem_frame (by rintro rfl; exact hg .dir rfl h.dir_own), hspace⟩
  case pte =>
    intro v f hf
    obtain ⟨-, -, tb, htb, -⟩ := h.target v f false hf
    rw [hspace.pteWord_eq htb, h.pteWord_eq htb, Kernel.setWord_mem_frame]
    rintro rfl
    rw [h.dir_own] at htb
    cases htb

/-- The boot entries of the kernel half carry no accessed bit. -/
theorem dirEntry_not_used (c : Boot) (i : Nat) : (c.dirEntry i).has permUsed = false := by
  have hbit : ∀ (a : Nat) (p : Word), p &&& permUsed = 0#32 →
      (constructEntry (a * 4096) p).has permUsed = false := by
    intro a p hp
    rw [← and_permUsed, constructEntry_and a (by decide)]
    exact hp
  rw [Boot.dirEntry]
  split
  · exact hbit _ _ (by decide)
  · split
    · exact hbit _ _ (by decide)
    · split
      · exact hbit _ _ (by decide)
      · split
        · exact hbit _ _ (by decide)
        · decide

/-- Clearing the accessed bit of a directory entry, wherever in the directory it is. -/
theorem Space.ageDir (h : Space c s G e) {i : Nat} (hi : i < 1024)
    (hused : (s.mem (s.dirFrame e) i).has permUsed = true) :
    Space c (s.setWord (s.dirFrame e) i (s.mem (s.dirFrame e) i &&& ~~~permUsed)) G e := by
  by_cases huser : i < 955
  · rcases h.pde i huser with hzero | ⟨tb, hn, htb⟩
    · rw [hzero] at hused
      exact absurd hused (by decide)
    · exact h.markPde htb (hn.clear (by decide) (by decide))
  · by_cases hself : i = 957 ∨ i = 959
    · exact h.markSelf hself _
    · rw [h.kernel_pde i (by omega) hi (by omega) (by omega), dirEntry_not_used] at hused
      cases hused

/-- A round of the second loop leaves elements and entries alone. -/
structure AgedTable (c : Boot) (e : Nat) (s : Kernel) (G : Ghost) (t : Kernel) : Prop
    extends Aged c e s G t where
  ws : SameWs e s t
  pte : ∀ v f, G.own f = some ⟨e, .page v⟩ → t.pteWord e v = s.pteWord e v

theorem AgedTable.refl (ho : Owned c s G) (hb : Base c s G e) (hd : DiskFrames s G) :
    AgedTable c e s G s :=
  ⟨Aged.refl ho hb hd, SameWs.refl e s, fun _ _ _ => rfl⟩

theorem AgedTable.trans (h : AgedTable c e s G t) (h' : AgedTable c e t G u) :
    AgedTable c e s G u :=
  ⟨h.toAged.trans h'.toAged, h.ws.trans h'.ws h.step.env.pageWSMaxSize,
    fun v f hf => (h'.pte v f hf).trans (h.pte v f hf)⟩

theorem Looked.agedTable (h : Looked c e s G t) (ho : Owned c s G) (hb : Base c s G e)
    (hd : DiskFrames s G) : AgedTable c e s G t :=
  ⟨Aged.of_walk h.toWalkOnly (fun v f hf => by rw [h.pte v f hf]) ho hb hd,
    h.toWalkOnly.sameWs ho hb hd, h.pte⟩

/-- One round of the second loop. -/
theorem Base.ageTable_spec (ho : Owned c s G) (hb : Base c s G e) (hd : DiskFrames s G) (k : Nat) :
    Ensures (fun _ => False) (AgedTable c e s G) (ageTable e k s) := by
  rw [ageTable]
  by_cases hne : ((s.envs e).tws k).empty ≠ 1
  · obtain ⟨a, ha⟩ : ∃ a, a = pdx ((s.envs e).tws k).virtualAddress := ⟨_, rfl⟩
    have ha' : a < 1024 := by
      rw [ha]
      exact pdx_lt _
    have hdir := hb.space.dirAt ho
    simp only [if_pos hne, ← ha, hdir.load ho.inv.map ha', ok_bind]
    -- the new time stamp is a field of the environment that nothing depends on
    obtain ⟨elem, helem⟩ : ∃ elem : WorkingSetElement, elem = { (s.envs e).tws k with
      timeStamp := (aged ((s.mem (s.dirFrame e) a).has permUsed)
        (BitVec.ofNat 32 ((s.envs e).tws k).timeStamp)).toNat } := ⟨_, rfl⟩
    obtain ⟨env, henv⟩ : ∃ env : Env, env = { s.envs e with
      tws := Function.update (s.envs e).tws k elem } := ⟨_, rfl⟩
    rw [← helem, ← henv]
    have hsame : SameEnv (s.envs e) env := by
      rw [henv]
      exact ⟨rfl, rfl, rfl, rfl, rfl, rfl⟩
    have hst := EnvStep.setEnv ho hb hd hsame (by rw [henv])
    have hcur : (s.setEnv e env).envs e = env := by simp [Kernel.setEnv]
    have hdf : (s.setEnv e env).dirFrame e = s.dirFrame e := by
      rw [Kernel.dirFrame, hcur, hsame.envCr3, Kernel.dirFrame]
    have hpte : ∀ v, (s.setEnv e env).pteWord e v = s.pteWord e v :=
      fun v => pteWord_congr hdf fun _ => rfl
    have hword : ∀ j, (s.setEnv e env).wsWord e j = s.wsWord e j := by
      intro j
      rw [Kernel.wsWord, hcur, hsame.ptrPageWorkingSet]
      rfl
    have haged : AgedTable c e s G (s.setEnv e env) := by
      refine ⟨⟨hst, fun i _ => ?_, ?_, fun v => ?_, rfl⟩, fun j _ => hword j, fun v _ _ => hpte v⟩
      · rw [Kernel.wsVa, Kernel.wsVa, Kernel.wsFlag, Kernel.wsFlag, hword, hword]
        exact ⟨rfl, rfl⟩
      · rw [hcur, henv]
      · exact ⟨fun _ => Iff.rfl, fun _ _ => rfl, fun _ _ => by rw [hpte], rfl, fun _ _ => rfl⟩
    by_cases hused : (s.mem (s.dirFrame e) a).has permUsed = true
    · rw [if_pos hused]
      have hspace := haged.step.base.space
      have hmem : (s.setEnv e env).mem ((s.setEnv e env).dirFrame e) a =
          s.mem (s.dirFrame e) a := by rw [hdf]; rfl
      have hspace' := hspace.ageDir (i := a) ha' (by rw [hmem]; exact hused)
      rw [hmem] at hspace'
      have hstore := (hspace.dirAt haged.step.owned).store haged.step.owned.inv.map ha'
        (s.mem (s.dirFrame e) a &&& ~~~permUsed)
      have hptr : ((s.setEnv e env).envs e).envPageDirectory = (s.envs e).envPageDirectory := by
        rw [hcur, hsame.envPageDirectory]
      rw [hptr] at hstore
      rw [hstore]
      have hlook := hspace.lookDir hspace'
      exact haged.trans (hlook.agedTable haged.step.owned haged.step.base haged.step.frames)
    · rw [if_neg hused]
      exact haged
  · simp only [if_neg hne]
    exact AgedTable.refl ho hb hd

/-! ## The two loops -/

/-- The pages of the first `k` elements have got their new time stamps and lost their accessed
bits. -/
structure Ticked (c : Boot) (e k : Nat) (s : Kernel) (G : Ghost) (t : Kernel) : Prop
    extends Aged c e s G t where
  stamp : ∀ i < s.wsMax e, ∀ v, s.wsPage e i = some v → t.wsStamp e i =
    if i < k then aged ((s.pteWord e v).has permUsed) (s.wsStamp e i) else s.wsStamp e i
  pte : ∀ i < s.wsMax e, ∀ v, s.wsPage e i = some v → t.pteWord e v =
    if i < k then s.pteWord e v &&& ~~~permUsed else s.pteWord e v

theorem Ticked.zero (ho : Owned c s G) (hb : Base c s G e) (hd : DiskFrames s G) :
    Ticked c e 0 s G s :=
  ⟨Aged.refl ho hb hd, fun _ _ _ _ => rfl, fun _ _ _ _ => rfl⟩

theorem Ticked.next {k : Nat} (h : Ticked c e k s G t) (hent : Entries s G e) (hk : k < s.wsMax e)
    (h' : AgedAt c e k t G u) : Ticked c e (k + 1) s G u := by
  have hmax : t.wsMax e = s.wsMax e := h.step.env.pageWSMaxSize
  constructor
  case toAged => exact h.toAged.trans h'.toAged
  case stamp =>
    intro i hi v hv
    by_cases hik : i = k
    · subst hik
      have hv' : t.wsPage e i = some v := by rw [h.page hi, hv]
      rw [h'.stamp_self v hv', h.stamp i hi v hv, h.pte i hi v hv, if_neg (Nat.lt_irrefl i),
        if_neg (Nat.lt_irrefl i), if_pos (Nat.lt_succ_self i)]
    · rw [h'.stamp_ne i (by rw [hmax]; exact hi) hik, h.stamp i hi v hv]
      by_cases hlt : i < k
      · rw [if_pos hlt, if_pos (by omega)]
      · rw [if_neg hlt, if_neg (by omega)]
  case pte =>
    intro i hi v hv
    by_cases hik : i = k
    · subst hik
      have hv' : t.wsPage e i = some v := by rw [h.page hi, hv]
      rw [h'.pte_self v hv', h.pte i hi v hv, if_neg (Nat.lt_irrefl i),
        if_pos (Nat.lt_succ_self i)]
    · obtain ⟨f, hf⟩ := hent.page i hi v hv
      have hne : t.wsPage e k ≠ some v := by
        rw [h.page hk]
        exact fun hx => hik (hent.inj i hi k hk v hv hx)
      rw [h'.pte_ne v f hne hf, h.pte i hi v hv]
      by_cases hlt : i < k
      · rw [if_pos hlt, if_pos (by omega)]
      · rw [if_neg hlt, if_neg (by omega)]

theorem Ticked.tables {k : Nat} (h : Ticked c e k s G t) (hent : Entries s G e)
    (h' : AgedTable c e t G u) : Ticked c e k s G u := by
  have hmax : t.wsMax e = s.wsMax e := h.step.env.pageWSMaxSize
  refine ⟨h.toAged.trans h'.toAged, fun i hi v hv => ?_, fun i hi v hv => ?_⟩
  · rw [h'.ws.stamp (by rw [hmax]; exact hi), h.stamp i hi v hv]
  · obtain ⟨f, hf⟩ := hent.page i hi v hv
    rw [h'.pte v f hf, h.pte i hi v hv]

/-- `update_WS_time_stamps`, for the environment that is running. -/
theorem Alive.updateWSTimeStamps_spec (ho : Owned c s G) (hd : DiskFrames s G)
    (ha : Alive c s G e) (hcur : s.curenv = some e) :
    ∃ t, updateWSTimeStamps s = .ok t ∧ Ticked c e (s.wsMax e) s G t := by
  have hpages : Ensures (fun _ => False) (Ticked c e (s.wsMax e) s G)
      (forRange (agePage e) 0 (s.envs e).pageWSMaxSize s) := by
    have hloop := forRange_ensures (E := fun _ => False) (b := agePage e)
      (n := (s.envs e).pageWSMaxSize) (I := fun k t => Ticked c e k s G t) (fun i t _ hi h => ?_)
      (Ticked.zero ho ha.base hd)
    · rw [Nat.zero_add] at hloop
      exact hloop
    · have hmax : t.wsMax e = s.wsMax e := h.step.env.pageWSMaxSize
      rw [Nat.zero_add] at hi
      refine (h.step.base.agePage_spec h.step.owned h.step.frames (by rw [hmax]; exact hi)
        (h.entries ha.entries)).imp ?_
      exact fun u hu => h.next ha.entries hi hu
  have htables : ∀ t, Ticked c e (s.wsMax e) s G t →
      Ensures (fun _ => False) (Ticked c e (s.wsMax e) s G)
        (forRange (ageTable e) 0 twsMaxSize t) := by
    intro t ht
    refine forRange_ensures (I := fun _ t => Ticked c e (s.wsMax e) s G t) (fun k t _ _ h => ?_) ht
    refine (h.step.base.ageTable_spec h.step.owned h.step.frames k).imp fun u hu => ?_
    exact h.tables ha.entries hu
  rw [updateWSTimeStamps, hcur]
  exact (hpages.bind htables).exists_ok

end FosMemory
