import FosMemory.Kernel.WorkingSet

/-!
# Entries — the elements of a working set

An element is three words of the array: the address, the byte `empty` with three bytes of padding,
the time stamp.  `Entries` says that the elements in use name pages that are in memory, each page
once; `Covered` that every page in memory has its element.  The specifications of the accessors
`env_page_ws_*` follow.
-/

namespace FosMemory

open Lib

variable {c : Boot} {s t u : Kernel} {G H I : Ghost} {e : Nat}

/-! ## Pages an operation leaves alone -/

/-- An entry without its accessed bit. -/
def Word.unmarked (w : Word) : Word :=
  w &&& ~~~permUsed

/-- Page `v` of `e` has the same frame, the same contents, the same entry up to the accessed bit and
the same slot with the same data. -/
structure SamePage (e v : Nat) (s : Kernel) (G : Ghost) (t : Kernel) (H : Ghost) : Prop where
  own : ∀ f, H.own f = some ⟨e, .page v⟩ ↔ G.own f = some ⟨e, .page v⟩
  mem : ∀ f, G.own f = some ⟨e, .page v⟩ → t.mem f = s.mem f
  pte : ∀ f, G.own f = some ⟨e, .page v⟩ → (t.pteWord e v).unmarked = (s.pteWord e v).unmarked
  slot : H.slots e v = G.slots e v
  disk : ∀ d, G.slots e v = some d → t.disk d = s.disk d

theorem SamePage.refl (e v : Nat) (s : Kernel) (G : Ghost) : SamePage e v s G s G :=
  ⟨fun _ => Iff.rfl, fun _ _ => rfl, fun _ _ => rfl, rfl, fun _ _ => rfl⟩

theorem SamePage.trans {v : Nat} (h : SamePage e v s G t H) (h' : SamePage e v t H u I) :
    SamePage e v s G u I := by
  constructor
  case own => exact fun f => (h'.own f).trans (h.own f)
  case mem =>
    intro f hf
    rw [h'.mem f ((h.own f).2 hf), h.mem f hf]
  case pte =>
    intro f hf
    rw [h'.pte f ((h.own f).2 hf), h.pte f hf]
  case slot => exact h'.slot.trans h.slot
  case disk =>
    intro d hd
    rw [h'.disk d (by rw [h.slot, hd]), h.disk d hd]

/-- The pages of an environment that is not at work. -/
theorem SamePage.of_local {e' v : Nat} (h : Local e s G t H) (hs : Space c s G e') (hne : e' ≠ e) :
    SamePage e' v s G t H := by
  have hk := h.keeps e' hne
  constructor
  case own => exact fun f => hk.own f _ rfl
  case mem => exact fun f hf => hk.mem f _ rfl hf
  case pte =>
    intro f hf
    obtain ⟨-, -, tb, htb, -⟩ := hs.target v f false hf
    have hdir : t.dirFrame e' = s.dirFrame e' := by
      rw [Kernel.dirFrame, h.envs e' hne]
      rfl
    rw [Kernel.pteWord, Kernel.pteWord, hdir, hk.mem _ .dir rfl hs.dir_own,
      (hs.table tb _ htb).2.frame_eq, hk.mem tb _ rfl htb]
  case slot => rw [h.slots e' hne]
  case disk => exact fun d hd => h.disk e' v d hne hd

/-! ## Elements -/

def Kernel.wsVa (s : Kernel) (e i : Nat) : Nat :=
  (s.wsWord e (3 * i)).toNat

def Kernel.wsFlag (s : Kernel) (e i : Nat) : BitVec 8 :=
  (s.wsWord e (3 * i + 1)).byte 0

def Kernel.wsStamp (s : Kernel) (e i : Nat) : Word :=
  s.wsWord e (3 * i + 2)

/-- The page of element `i`, `none` for an empty element. -/
def Kernel.wsPage (s : Kernel) (e i : Nat) : Option Nat :=
  if s.wsFlag e i = 0#8 then some (s.wsVa e i) else none

structure Entries (s : Kernel) (G : Ghost) (e : Nat) : Prop where
  last : (s.envs e).pageLastWSIndex < s.wsMax e
  flag : ∀ i < s.wsMax e, s.wsFlag e i = 0#8 ∨ (s.wsFlag e i = 1#8 ∧ s.wsVa e i = 0)
  page : ∀ i < s.wsMax e, ∀ v, s.wsPage e i = some v → ∃ f, G.own f = some ⟨e, .page v⟩
  inj : ∀ i < s.wsMax e, ∀ j < s.wsMax e, ∀ v, s.wsPage e i = some v → s.wsPage e j = some v →
    i = j

/-- Every page in memory has an element. -/
def Covered (s : Kernel) (G : Ghost) (e : Nat) : Prop :=
  ∀ v f, G.own f = some ⟨e, .page v⟩ → ∃ i < s.wsMax e, s.wsPage e i = some v

/-- The array holds the same words. -/
def SameWs (e : Nat) (s t : Kernel) : Prop :=
  ∀ j < 3 * s.wsMax e, t.wsWord e j = s.wsWord e j

theorem SameWs.refl (e : Nat) (s : Kernel) : SameWs e s s :=
  fun _ _ => rfl

theorem SameWs.trans (h : SameWs e s t) (h' : SameWs e t u) (hmax : t.wsMax e = s.wsMax e) :
    SameWs e s u := by
  intro j hj
  rw [h' j (by rw [hmax]; exact hj), h j hj]

section Same

variable {i : Nat} (h : SameWs e s t) (hi : i < s.wsMax e)
include h hi

theorem SameWs.va : t.wsVa e i = s.wsVa e i := by
  rw [Kernel.wsVa, h _ (by omega), Kernel.wsVa]

theorem SameWs.flag : t.wsFlag e i = s.wsFlag e i := by
  rw [Kernel.wsFlag, h _ (by omega), Kernel.wsFlag]

theorem SameWs.stamp : t.wsStamp e i = s.wsStamp e i := by
  rw [Kernel.wsStamp, h _ (by omega), Kernel.wsStamp]

theorem SameWs.page : t.wsPage e i = s.wsPage e i := by
  rw [Kernel.wsPage, h.flag hi, h.va hi, Kernel.wsPage]

end Same

/-- Frames of the array that stay as they are hold the same words. -/
theorem SameWs.of_keeps {P : Role → Bool} (ha : WsArray s G e) (hb : WsArray t H e)
    (ho : Owned c s G) (ho' : Owned c t H) (hk : Keeps e P s G t H) (hP : ∀ k, P (.ws k) = true) :
    SameWs e s t := by
  intro j hj
  obtain ⟨f, hf⟩ := ha.frame _ (WsArray.index_lt hj)
  have hf' := (hk.own f _ (hP _)).2 hf
  rw [hb.wsWord_eq ho' hf' rfl, hk.mem f _ (hP _) hf, ha.wsWord_eq ho hf rfl]

theorem Entries.congr (h : Entries s G e) (hws : SameWs e s t) (hmax : t.wsMax e = s.wsMax e)
    (hlast : (t.envs e).pageLastWSIndex = (s.envs e).pageLastWSIndex)
    (hown : ∀ f v, H.own f = some ⟨e, .page v⟩ ↔ G.own f = some ⟨e, .page v⟩) : Entries t H e := by
  constructor
  case last =>
    rw [hlast, hmax]
    exact h.last
  case flag =>
    intro i hi
    rw [hmax] at hi
    rw [hws.flag hi, hws.va hi]
    exact h.flag i hi
  case page =>
    intro i hi v hv
    rw [hmax] at hi
    rw [hws.page hi] at hv
    obtain ⟨f, hf⟩ := h.page i hi v hv
    exact ⟨f, (hown f v).2 hf⟩
  case inj =>
    intro i hi j hj v hvi hvj
    rw [hmax] at hi hj
    rw [hws.page hi] at hvi
    rw [hws.page hj] at hvj
    exact h.inj i hi j hj v hvi hvj

theorem Covered.congr (h : Covered s G e) (hws : SameWs e s t) (hmax : t.wsMax e = s.wsMax e)
    (hown : ∀ f v, H.own f = some ⟨e, .page v⟩ ↔ G.own f = some ⟨e, .page v⟩) :
    Covered t H e := by
  intro v f hf
  obtain ⟨i, hi, hv⟩ := h v f ((hown f v).1 hf)
  exact ⟨i, by rw [hmax]; exact hi, by rw [hws.page hi]; exact hv⟩

/-! ## Writing the array -/

/-- Only the working set array of `e` has changed. -/
structure OnlyWs (e : Nat) (s : Kernel) (G : Ghost) (t : Kernel) : Prop where
  same : SameFrames s t
  rest : SameRest s t
  mem : ∀ f, (∀ k, G.own f ≠ some ⟨e, .ws k⟩) → t.mem f = s.mem f

theorem OnlyWs.trans (h : OnlyWs e s G t) (h' : OnlyWs e t G u) : OnlyWs e s G u :=
  ⟨h.same.trans h'.same, h.rest.trans h'.rest, fun f hf => (h'.mem f hf).trans (h.mem f hf)⟩

theorem OnlyWs.envStep (h : OnlyWs e s G t) (ho : Owned c s G) (hb : Base c s G e)
    (hd : DiskFrames s G) : EnvStep c e 0 s G t G := by
  have hmem : ∀ f o, G.own f = some o → (∀ k, o ≠ ⟨e, .ws k⟩) → t.mem f = s.mem f := by
    intro f o hf hne
    refine h.mem f fun k hx => hne k ?_
    rw [hf] at hx
    exact Option.some.inj hx
  refine EnvStep.of_write ho hb hd h.same h.rest (fun f hf => h.mem f fun k hx => ?_) ?_ ?_
    (h.mem 1 fun k => ho.own_low (by decide) _)
  · exact ho.not_kernelFrame (by simp [hx]) hf
  · rintro f o hf (hne | hdisk)
    · exact hmem f o hf fun k hx => hne (by rw [hx])
    · exact hmem f o hf fun k hx => by rw [hx] at hdisk; cases hdisk
  · refine hb.space.congr (fun _ _ _ => Iff.rfl) rfl (fun f r hr hf => hmem f _ hf fun k hx => ?_)
      (by rw [h.same.virtualAddresses]) (by rw [h.rest.envs]) (by rw [h.rest.envs])
    cases hx
    cases hr

theorem OnlyWs.pteWord (h : OnlyWs e s G t) (hs : Space c s G e) {v f : Nat} {b : Bool}
    (hv : G.Target e v f b) : t.pteWord e v = s.pteWord e v := by
  obtain ⟨-, -, tb, htb, -⟩ := hs.target v f b hv
  have hdir : t.dirFrame e = s.dirFrame e := by
    rw [Kernel.dirFrame, h.rest.envs]
    rfl
  have hmd : t.mem (s.dirFrame e) = s.mem (s.dirFrame e) := by
    refine h.mem _ fun k hx => ?_
    rw [hs.dir_own] at hx
    cases hx
  have hmt : t.mem tb = s.mem tb := by
    refine h.mem _ fun k hx => ?_
    rw [htb] at hx
    cases hx
  rw [Kernel.pteWord, Kernel.pteWord, hdir, hmd, (hs.table tb _ htb).2.frame_eq, hmt]

theorem OnlyWs.samePage (h : OnlyWs e s G t) (hs : Space c s G e) (v : Nat) :
    SamePage e v s G t G := by
  refine ⟨fun _ => Iff.rfl, fun f hf => h.mem f fun k hx => ?_, fun f hf => ?_, rfl,
    fun _ _ => by rw [h.rest.disk]⟩
  · rw [hf] at hx
    cases hx
  · rw [h.pteWord (b := false) hs hf]

section Write

variable (h : WsArray s G e) (ho : Owned c s G)
include h ho

theorem WsArray.setWs_only {j : Nat} (hj : j < 3 * s.wsMax e) (w : Word) :
    OnlyWs e s G (s.setWs e j w) := by
  obtain ⟨f, hf⟩ := h.frame _ (WsArray.index_lt hj)
  rw [h.setWs_eq ho hf rfl]
  refine ⟨SameFrames.setWord s _ _ _, ⟨rfl, rfl, rfl, rfl, rfl, rfl, rfl⟩, fun g hg => ?_⟩
  exact Kernel.setWord_mem_frame (by rintro rfl; exact hg _ hf)

theorem WsArray.setWs_array {j : Nat} (hj : j < 3 * s.wsMax e) (w : Word) :
    WsArray (s.setWs e j w) G e ∧ Owned c (s.setWs e j w) G := by
  obtain ⟨f, hf⟩ := h.frame _ (WsArray.index_lt hj)
  rw [h.setWs_eq ho hf rfl]
  exact ⟨⟨h.size_pos, h.frame, h.at_page, h.block, h.uptr, h.win⟩,
    ho.setWord (by simp [hf]) _ _⟩

theorem WsArray.setWs_word {j j' : Nat} (hj : j < 3 * s.wsMax e) (hj' : j' < 3 * s.wsMax e)
    (w : Word) : (s.setWs e j w).wsWord e j' = if j' = j then w else s.wsWord e j' := by
  obtain ⟨ha, ho'⟩ := h.setWs_array ho hj w
  obtain ⟨f, hf⟩ := h.frame _ (WsArray.index_lt hj)
  obtain ⟨g, hg⟩ := h.frame _ (WsArray.index_lt hj')
  rw [ha.wsWord_eq ho' hg rfl, h.wsWord_eq ho hg rfl, h.setWs_eq ho hf rfl, Kernel.setWord_mem]
  by_cases hjj : j' = j
  · subst hjj
    rw [if_pos rfl, if_pos ⟨h.ws_unique ho hf hg, rfl⟩]
  · rw [if_neg hjj, if_neg]
    rintro ⟨rfl, hmod⟩
    rw [hf] at hg
    have hdiv : j / 1024 = j' / 1024 := by
      injection hg with hg
      injection hg with _ hg
      injection hg
    omega

end Write

/-- Element `i` has been stored; the others are as before. -/
structure WsSet (e i va : Nat) (empty : BitVec 8) (timeStamp : Word) (s : Kernel) (G : Ghost)
    (t : Kernel) : Prop where
  only : OnlyWs e s G t
  va : t.wsVa e i = va
  flag : t.wsFlag e i = empty
  stamp : t.wsStamp e i = timeStamp
  rest : ∀ k < s.wsMax e, k ≠ i → t.wsVa e k = s.wsVa e k ∧ t.wsFlag e k = s.wsFlag e k ∧
    t.wsStamp e k = s.wsStamp e k

theorem WsSet.page_ne {i va k : Nat} {b : BitVec 8} {st : Word} (h : WsSet e i va b st s G t)
    (hk : k < s.wsMax e) (hne : k ≠ i) : t.wsPage e k = s.wsPage e k := by
  obtain ⟨hva, hflag, -⟩ := h.rest k hk hne
  rw [Kernel.wsPage, hva, hflag, Kernel.wsPage]

section Accessors

variable (h : WsArray s G e) (ho : Owned c s G) {i : Nat} (hi : i < s.wsMax e)
include h ho hi

theorem WsArray.wsVirtualAddress_eq : wsVirtualAddress s e i = .ok (s.wsVa e i) := by
  have haddr : wsAddress s e i = (s.envs e).ptrPageWorkingSet + 4 * (3 * i) := by
    rw [wsAddress]
    omega
  rw [wsVirtualAddress, haddr, h.load_word ho (by omega)]
  rfl

theorem WsArray.wsEmpty_eq : wsEmpty s e i = .ok (s.wsFlag e i).toNat := by
  have hb := (h.bounds ho).1
  have haddr : wsAddress s e i + 4 - (wsAddress s e i + 4) % 4 =
      (s.envs e).ptrPageWorkingSet + 4 * (3 * i + 1) := by
    rw [wsAddress]
    omega
  have hzero : (wsAddress s e i + 4) % 4 = 0 := by
    rw [wsAddress]
    omega
  rw [wsEmpty, Kernel.loadByte, haddr, h.load_word ho (by omega), hzero]
  rfl

theorem WsArray.wsTimeStamp_eq : wsTimeStamp s e i = .ok (s.wsStamp e i) := by
  have haddr : wsAddress s e i + 8 = (s.envs e).ptrPageWorkingSet + 4 * (3 * i + 2) := by
    rw [wsAddress]
    omega
  rw [wsTimeStamp, haddr, h.load_word ho (by omega)]
  rfl

omit h ho in
theorem assertIndex_eq : assertIndex s e i = .ok () := by
  rw [assertIndex, if_pos hi]

/-- Storing a time stamp only. -/
theorem WsArray.storeStamp_eq (w : Word) :
    s.store (wsAddress s e i + 8) w = .ok (s.setWs e (3 * i + 2) w) := by
  have haddr : wsAddress s e i + 8 = (s.envs e).ptrPageWorkingSet + 4 * (3 * i + 2) := by
    rw [wsAddress]
    omega
  rw [haddr, h.store_word ho (by omega)]

/-- Storing an element. -/
theorem WsArray.wsStore_spec {va : Nat} (hva : va < 4294967296) (b : BitVec 8) (st : Word) :
    ∃ t, wsStore s e i va b st = .ok t ∧ WsSet e i va b st s G t := by
  have hal := (h.bounds ho).1
  have haddr : wsAddress s e i = (s.envs e).ptrPageWorkingSet + 4 * (3 * i) := by
    rw [wsAddress]
    omega
  -- the address
  obtain ⟨s₁, h₁⟩ : ∃ s₁, s₁ = s.setWs e (3 * i) (BitVec.ofNat 32 va) := ⟨_, rfl⟩
  have hst₁ : s.store (wsAddress s e i) (BitVec.ofNat 32 va) = .ok s₁ := by
    rw [haddr, h.store_word ho (by omega), h₁]
  obtain ⟨ha₁, ho₁⟩ : WsArray s₁ G e ∧ Owned c s₁ G := by
    rw [h₁]
    exact h.setWs_array ho (by omega) _
  have hon₁ : OnlyWs e s G s₁ := by
    rw [h₁]
    exact h.setWs_only ho (by omega) _
  have hmax₁ : s₁.wsMax e = s.wsMax e := by rw [Kernel.wsMax, hon₁.rest.envs]
  have hptr₁ : (s₁.envs e).ptrPageWorkingSet = (s.envs e).ptrPageWorkingSet := by
    rw [hon₁.rest.envs]
  -- the byte
  obtain ⟨w, hw⟩ : ∃ w, w = (s₁.wsWord e (3 * i + 1)).setByte 0 b := ⟨_, rfl⟩
  obtain ⟨s₂, h₂⟩ : ∃ s₂, s₂ = s₁.setWs e (3 * i + 1) w := ⟨_, rfl⟩
  have hst₂ : s₁.storeByte (wsAddress s e i + 4) b = .ok s₂ := by
    have hdown : wsAddress s e i + 4 - (wsAddress s e i + 4) % 4 =
        (s₁.envs e).ptrPageWorkingSet + 4 * (3 * i + 1) := by
      rw [wsAddress, hptr₁]
      omega
    have hzero : (wsAddress s e i + 4) % 4 = 0 := by
      rw [wsAddress]
      omega
    rw [Kernel.storeByte, hdown, ha₁.load_word ho₁ (by omega), ok_bind,
      ha₁.store_word ho₁ (by omega), hzero, h₂, hw]
  obtain ⟨ha₂, ho₂⟩ : WsArray s₂ G e ∧ Owned c s₂ G := by
    rw [h₂]
    exact ha₁.setWs_array ho₁ (by omega) _
  have hon₂ : OnlyWs e s₁ G s₂ := by
    rw [h₂]
    exact ha₁.setWs_only ho₁ (by omega) _
  have hmax₂ : s₂.wsMax e = s.wsMax e := by rw [Kernel.wsMax, hon₂.rest.envs, ← hmax₁]
  have hptr₂ : (s₂.envs e).ptrPageWorkingSet = (s.envs e).ptrPageWorkingSet := by
    rw [hon₂.rest.envs, hptr₁]
  -- the time stamp
  obtain ⟨s₃, h₃⟩ : ∃ s₃, s₃ = s₂.setWs e (3 * i + 2) st := ⟨_, rfl⟩
  have hst₃ : s₂.store (wsAddress s e i + 8) st = .ok s₃ := by
    have heq : wsAddress s e i + 8 = (s₂.envs e).ptrPageWorkingSet + 4 * (3 * i + 2) := by
      rw [wsAddress, hptr₂]
      omega
    rw [heq, ha₂.store_word ho₂ (by omega), h₃]
  have hon₃ : OnlyWs e s₂ G s₃ := by
    rw [h₃]
    exact ha₂.setWs_only ho₂ (by omega) _
  have hword : ∀ j < 3 * s.wsMax e, s₃.wsWord e j =
      if j = 3 * i + 2 then st else if j = 3 * i + 1 then w
      else if j = 3 * i then BitVec.ofNat 32 va else s.wsWord e j := by
    intro j hj
    rw [h₃, ha₂.setWs_word ho₂ (by omega) (by omega), h₂, ha₁.setWs_word ho₁ (by omega) (by omega),
      h₁, h.setWs_word ho (by omega) hj]
  refine ⟨s₃, ?_, (hon₁.trans hon₂).trans hon₃, ?_, ?_, ?_, ?_⟩
  · simp only [wsStore, hst₁, ok_bind, hst₂, hst₃]
  · rw [Kernel.wsVa, hword _ (by omega), if_neg (by omega), if_neg (by omega), if_pos rfl,
      BitVec.toNat_ofNat]
    omega
  · rw [Kernel.wsFlag, hword _ (by omega), if_neg (by omega), if_pos rfl, hw]
    exact Word.byte_setByte_self (by decide)
  · rw [Kernel.wsStamp, hword _ (by omega), if_pos rfl]
  · intro k hk hne
    refine ⟨?_, ?_, ?_⟩
    · rw [Kernel.wsVa, hword _ (by omega), if_neg (by omega), if_neg (by omega), if_neg (by omega),
        Kernel.wsVa]
    · rw [Kernel.wsFlag, hword _ (by omega), if_neg (by omega), if_neg (by omega),
        if_neg (by omega), Kernel.wsFlag]
    · rw [Kernel.wsStamp, hword _ (by omega), if_neg (by omega), if_neg (by omega),
        if_neg (by omega), Kernel.wsStamp]

/-- `env_page_ws_set_entry`. -/
theorem WsArray.envPageWSSetEntry_spec {va : Nat} (hva : va < userTop) :
    ∃ t, envPageWSSetEntry s e i va = .ok t ∧
      WsSet e i (roundDown va 4096) 0#8 0x80000000#32 s G t := by
  have hle := roundDown_le va
  rw [envPageWSSetEntry, assertIndex_eq hi, ok_bind, if_pos hva]
  exact h.wsStore_spec ho hi (by simp only [userTop] at hva; omega) _ _

/-- `env_page_ws_clear_entry`. -/
theorem WsArray.envPageWSClearEntry_spec :
    ∃ t, envPageWSClearEntry s e i = .ok t ∧ WsSet e i 0 1#8 0#32 s G t := by
  rw [envPageWSClearEntry, assertIndex_eq hi, ok_bind]
  exact h.wsStore_spec ho hi (by decide) _ _

/-- `env_page_ws_get_virtual_address`. -/
theorem WsArray.envPageWSGetVirtualAddress_eq :
    envPageWSGetVirtualAddress s e i = .ok (roundDown (s.wsVa e i) 4096) := by
  rw [envPageWSGetVirtualAddress, assertIndex_eq hi, ok_bind, h.wsVirtualAddress_eq ho hi]
  rfl

/-- `env_page_ws_get_time_stamp`. -/
theorem WsArray.envPageWSGetTimeStamp_eq :
    envPageWSGetTimeStamp s e i = .ok (s.wsStamp e i).toNat := by
  rw [envPageWSGetTimeStamp, assertIndex_eq hi, ok_bind, h.wsTimeStamp_eq ho hi]
  rfl

end Accessors

/-! ## The number of elements in use -/

/-- The elements in use among the first `n`. -/
def Kernel.wsCount (s : Kernel) (e n : Nat) : Nat :=
  (List.range n).countP fun i => (s.wsPage e i).isSome

theorem Kernel.wsCount_le (s : Kernel) (e n : Nat) : s.wsCount e n ≤ n := by
  have := List.countP_le_length (p := fun i => (s.wsPage e i).isSome) (l := List.range n)
  rwa [List.length_range] at this

theorem Kernel.wsCount_succ (s : Kernel) (e n : Nat) :
    s.wsCount e (n + 1) = s.wsCount e n + if (s.wsPage e n).isSome then 1 else 0 := by
  rw [Kernel.wsCount, List.range_succ, List.countP_append, List.countP_singleton, Kernel.wsCount]

/-- The working set is full exactly when no element is empty. -/
theorem Kernel.wsCount_eq_iff (s : Kernel) (e n : Nat) :
    s.wsCount e n = n ↔ ∀ i < n, s.wsPage e i ≠ none := by
  have hlen : s.wsCount e n = n ↔ s.wsCount e n = (List.range n).length := by
    rw [List.length_range]
  rw [hlen, Kernel.wsCount, List.countP_eq_length]
  simp only [List.mem_range, Option.isSome_iff_ne_none]

theorem Kernel.wsPage_isSome (s : Kernel) (e i : Nat) :
    (s.wsPage e i).isSome = decide (s.wsFlag e i = 0#8) := by
  rw [Kernel.wsPage]
  by_cases hx : s.wsFlag e i = 0#8 <;> simp [hx]

/-- `env_page_ws_get_size`. -/
theorem WsArray.envPageWSGetSize_eq (h : WsArray s G e) (ho : Owned c s G) :
    envPageWSGetSize s e = .ok (s.wsCount e (s.wsMax e)) := by
  have hloop : Ensures (fun _ => False) (fun r => r = s.wsCount e (0 + s.wsMax e))
      (envPageWSGetSize s e) := by
    refine forRange_ensures (I := fun k r => r = s.wsCount e k) ?_ rfl
    rintro k r - hk rfl
    rw [h.wsEmpty_eq ho (by omega), ok_bind, ensures_ok, s.wsCount_succ, s.wsPage_isSome]
    have hiff : (s.wsFlag e k).toNat = 0 ↔ s.wsFlag e k = 0#8 := by
      constructor
      · intro hx
        apply BitVec.eq_of_toNat_eq
        rw [hx]
        rfl
      · intro hx
        rw [hx]
        rfl
    by_cases hx : s.wsFlag e k = 0#8
    · rw [if_pos (hiff.2 hx), if_pos (by simpa using hx)]
    · rw [if_neg (fun hy => hx (hiff.1 hy)), if_neg (by simpa using hx), Nat.add_zero]
  obtain ⟨r, hr, hval⟩ := hloop.exists_ok
  rw [hr, hval, Nat.zero_add]

end FosMemory
