import FosMemory.Lib.WordLoop
import FosMemory.Kernel.FrameResults
import FosMemory.Kernel.System

/-!
# RangeLoops — the loops over a range of addresses

`allocateMem`, `freeMem` and `calculate_required_frames` count in `uint32` towards bounds made of
two values the user chose.  Here their loops are the loops of the source, with counters that wrap
around; a loop that ends does what the functions of `Paging` say.  Two bounds are out of reach of
every counter: `virtual_address+size` in the last four megabytes for the last loop of `freeMem`,
and `start_virtual_address+size` above the last four megabyte boundary for
`calculate_required_frames`.
-/

namespace FosMemory

open Lib

variable {c : Boot} {s t u : Kernel} {G H : Ghost} {e dir va size : Nat}

/-! ## The loops of the source -/

/-- The loop of `allocateMem`. -/
def allocateMemLoop (s : Kernel) (e va size fuel : Nat) : Option (Except Stop Kernel) :=
  wordLoop wordMod 1 (· < (size + 4095) % wordMod / 4096) (fun i s => do
    let (_, s) ← pfAddEmptyEnvPage s e ((va + 4096 * i) % wordMod) false
    .ok s) fuel 0 s

/-- The three loops of `freeMem`. -/
def freeMemLoops (s : Kernel) (e va size fuel : Nat) : Option (Except Stop Kernel) :=
  let va := roundDown va 4096
  let size := roundUp size 4096
  followedBy (wordLoop wordMod 4096 (· < size)
    (fun i s => pfRemoveEnvPage s e ((va + i) % wordMod)) fuel 0 s) fun s =>
  followedBy (wordLoop wordMod 4096 (· < size)
    (fun j s => freeResident e ((va + j) % wordMod) (s.envs e).pageWSMaxSize 0 s) fuel 0 s) fun s =>
  -- this test is `<=`, and both sides of it are `uint32`
  wordLoop wordMod ptSize (· ≤ (va + size) % wordMod) (freeTable e) fuel (roundDown va ptSize) s

/-- A round of the first loop of `calculate_required_frames`: a table that does not exist. -/
def countTable (s : Kernel) (dir va numberOfTables : Nat) : Except Stop Nat := do
  let (ptrPageTable, _) ← getPageTable s dir va
  .ok (if ptrPageTable = 0 then numberOfTables + 1 else numberOfTables)

/-- A round of the second loop of `calculate_required_frames`: a page without a frame. -/
def countPage (s : Kernel) (dir va numberOfPages : Nat) : Except Stop Nat := do
  let (f, _) ← getFrameInfo s dir va
  .ok (if f = none then numberOfPages + 1 else numberOfPages)

/-- `calculate_required_frames`.  The loops that end count at most 1024 tables and 1048576 pages, so
the two counters are plain numbers. -/
def calculateRequiredFrames (s : Kernel) (dir start size fuel : Nat) : Option (Except Stop Nat) :=
  let last := (start + size) % wordMod
  followedBy (wordLoop wordMod ptSize (· < last) (countTable s dir) fuel (roundDown start ptSize) 0)
    fun numberOfTables =>
  followedBy (wordLoop wordMod 4096 (· < last) (countPage s dir) fuel (roundDown start 4096) 0)
    fun numberOfPages => some (.ok (numberOfTables + numberOfPages))

/-! ## Loops that end -/

theorem roundDown_dvd (a n : Nat) : n ∣ roundDown a n :=
  Nat.dvd_sub_mod a

theorem roundDown_lt {a n : Nat} (h : a < wordMod) : roundDown a n < wordMod :=
  lt_of_le_of_lt (Nat.sub_le a (a % n)) h

theorem roundUp_dvd (a n : Nat) : n ∣ roundUp a n :=
  roundDown_dvd _ n

theorem roundUp_lt (a n : Nat) : roundUp a n < wordMod :=
  roundDown_lt (Nat.mod_lt _ (by decide))

/-- Rounds over a multiple of the page size. -/
theorem rounds_pages {n : Nat} (h : 4096 ∣ n) : rounds 4096 0 n = n / 4096 := by
  obtain ⟨k, rfl⟩ := h
  rw [rounds]
  omega

/-- Rounds of a loop whose test is `<=`. -/
theorem rounds_le {first last : Nat} (h : first ≤ last) :
    rounds ptSize first (last + 1) = (last - first) / ptSize + 1 := by
  rw [rounds]
  simp only [ptSize]
  omega

theorem allocateMemLoop_endsWith (s : Kernel) (e va size : Nat) :
    EndsWith (allocateMemLoop s e va size) (allocateMem s e va size) := by
  have hcount : (size + 4095) % wordMod / 4096 ≤ wordMod - 1 := by
    simp only [wordMod]
    omega
  obtain ⟨n, hn⟩ : ∃ n, n = (size + 4095) % wordMod / 4096 := ⟨_, rfl⟩
  rw [← hn] at hcount
  have hrounds : rounds 1 0 n = n := by
    rw [rounds, Nat.sub_zero, Nat.sub_self, Nat.add_zero, Nat.div_one]
  unfold allocateMemLoop allocateMem
  rw [← hn]
  have hloop := wordLoop_endsWith (a := 0) (b := fun i s => do
    let (_, s) ← pfAddEmptyEnvPage s e ((va + 4096 * i) % wordMod) false
    .ok s) Nat.one_pos (fun k => (Iff.rfl : k < n ↔ k < n)) hcount s
  rw [hrounds] at hloop
  simp only [Nat.one_mul, Nat.zero_add] at hloop
  exact hloop

/-- A loop of `freeMem` over the pages of its range. -/
theorem pageLoop_endsWith (b : Nat → Kernel → Except Stop Kernel) {n : Nat} (va : Nat)
    (hdvd : 4096 ∣ n) (hlt : n < wordMod) (s : Kernel) :
    EndsWith (fun fuel => wordLoop wordMod 4096 (· < n) (fun i s => b ((va + i) % wordMod) s) fuel 0 s)
      (forRange (fun k s => b ((va + 4096 * k) % wordMod) s) 0 (n / 4096) s) := by
  have hbound : n ≤ wordMod - 4096 := le_sub_stride ⟨1048576, rfl⟩ (by decide) hlt hdvd
  have hloop := wordLoop_endsWith (a := 0) (b := fun i s => b ((va + i) % wordMod) s)
    (show 0 < 4096 by decide) (fun k => (Iff.rfl : k < n ↔ k < n)) hbound s
  rw [rounds_pages hdvd] at hloop
  simp only [Nat.zero_add] at hloop
  exact hloop

theorem pageLoop_still (b : Nat → Kernel → Except Stop Kernel) (va n fuel : Nat)
    (h : ∀ v, b v s = .ok s) :
    wordLoop wordMod 4096 (· < n) (fun i s => b ((va + i) % wordMod) s) fuel 0 s = none ∨
      wordLoop wordMod 4096 (· < n) (fun i s => b ((va + i) % wordMod) s) fuel 0 s = some (.ok s) :=
  wordLoop_still fun _ => h _

theorem freeMemLoops_endsWith (s : Kernel) (e va size : Nat)
    (h : (roundDown va 4096 + roundUp size 4096) % wordMod < wordMod - ptSize) :
    EndsWith (freeMemLoops s e va size) (freeMem s e va size) := by
  have hdvd := roundUp_dvd size 4096
  have hlt := roundUp_lt size 4096
  unfold freeMemLoops freeMem
  obtain ⟨n, hn⟩ : ∃ n, n = roundUp size 4096 := ⟨_, rfl⟩
  obtain ⟨v, hv⟩ : ∃ v, v = roundDown va 4096 := ⟨_, rfl⟩
  obtain ⟨last, hlast⟩ : ∃ last, last = (v + n) % wordMod := ⟨_, rfl⟩
  rw [← hn, ← hv, ← hlast] at h
  simp only [← hn, ← hv, ← hlast] at hdvd hlt ⊢
  refine (pageLoop_endsWith (fun va s => pfRemoveEnvPage s e va) v hdvd hlt s).followedBy
    fun s₁ => ?_
  refine (pageLoop_endsWith (fun va s => freeResident e va (s.envs e).pageWSMaxSize 0 s) v hdvd hlt
    s₁).followedBy fun s₂ => ?_
  -- the last loop: its test is `< last + 1`, and that bound is in reach
  have hloop := wordLoop_endsWith (a := roundDown v ptSize) (b := freeTable e)
    (show 0 < ptSize by decide) (fun k => (Nat.lt_succ_iff.symm : k ≤ last ↔ k < last + 1)) h s₂
  split
  · next hle =>
    rw [rounds_le hle] at hloop
    simp only [if_neg (Nat.not_le.2 h)]
    have hend : ∀ r : Except Stop Kernel, (r >>= fun s => .ok s) = r := by
      intro r
      cases r <;> rfl
    rw [hend]
    exact hloop
  · next hgt =>
    have hnone : rounds ptSize (roundDown v ptSize) (last + 1) = 0 := by
      rw [rounds]
      simp only [ptSize] at hgt ⊢
      omega
    rw [hnone] at hloop
    exact hloop

/-- What `calculate_required_frames` counts when its loops end. -/
def requiredFrames (s : Kernel) (dir start size : Nat) : Except Stop Nat := do
  let last := (start + size) % wordMod
  let numberOfTables ← forRange
    (fun k n => countTable s dir (roundDown start ptSize + ptSize * k) n) 0
    (rounds ptSize (roundDown start ptSize) last) 0
  let numberOfPages ← forRange
    (fun k n => countPage s dir (roundDown start 4096 + 4096 * k) n) 0
    (rounds 4096 (roundDown start 4096) last) 0
  .ok (numberOfTables + numberOfPages)

theorem calculateRequiredFrames_endsWith (s : Kernel) (dir start size : Nat)
    (h : (start + size) % wordMod ≤ wordMod - ptSize) :
    EndsWith (calculateRequiredFrames s dir start size) (requiredFrames s dir start size) := by
  unfold calculateRequiredFrames requiredFrames
  obtain ⟨last, hlast⟩ : ∃ last, last = (start + size) % wordMod := ⟨_, rfl⟩
  rw [← hlast] at h
  simp only [← hlast]
  have hpages : last ≤ wordMod - 4096 := h.trans (by decide)
  refine (wordLoop_endsWith (show 0 < ptSize by decide) (fun _ => Iff.rfl) h 0).followedBy
    fun tables => ?_
  refine (wordLoop_endsWith (show 0 < 4096 by decide) (fun _ => Iff.rfl) hpages 0).followedBy
    fun pages => ?_
  exact EndsWith.of_some _

/-! ## Loops that do not end -/

/-- Every counter of the last loop of `freeMem` passes its test. -/
theorem freeMemLoops_ne_ok {s t : Kernel} {e va size fuel : Nat} (hva : va < wordMod)
    (h : wordMod - ptSize ≤ (roundDown va 4096 + roundUp size 4096) % wordMod) :
    freeMemLoops s e va size fuel ≠ some (.ok t) := by
  intro hrun
  obtain ⟨s₁, -, hrun⟩ := followedBy_eq_ok hrun
  obtain ⟨s₂, -, hrun⟩ := followedBy_eq_ok hrun
  refine wordLoop_ne_ok (show ptSize ∣ wordMod from ⟨1024, rfl⟩) (by decide)
    (roundDown_lt (roundDown_lt hva)) (roundDown_dvd _ _) ?_ hrun
  intro k hk hdvd
  exact (le_sub_stride ⟨1024, rfl⟩ (by decide) hk hdvd).trans h

/-- Every counter of the first loop of `calculate_required_frames` passes its test. -/
theorem calculateRequiredFrames_ne_ok {s : Kernel} {dir start size fuel n : Nat}
    (hstart : start < wordMod) (h : wordMod - ptSize < (start + size) % wordMod) :
    calculateRequiredFrames s dir start size fuel ≠ some (.ok n) := by
  intro hrun
  obtain ⟨tables, hrun, -⟩ := followedBy_eq_ok hrun
  refine wordLoop_ne_ok (show ptSize ∣ wordMod from ⟨1024, rfl⟩) (by decide)
    (roundDown_lt hstart) (roundDown_dvd _ _) ?_ hrun
  intro k hk hdvd
  exact lt_of_le_of_lt (le_sub_stride ⟨1024, rfl⟩ (by decide) hk hdvd) h

/-- Where every table can be looked up, the first loop of `calculate_required_frames` runs on. -/
theorem calculateRequiredFrames_endless {s : Kernel} {dir start size : Nat} (hstart : start < wordMod)
    (h : wordMod - ptSize < (start + size) % wordMod)
    (hlook : ∀ va < wordMod, ∃ r, getPageTable s dir va = .ok r) (fuel : Nat) :
    calculateRequiredFrames s dir start size fuel = none := by
  have hround : ∀ va n, va < wordMod → True → ∃ m, countTable s dir va n = .ok m ∧ True := by
    intro va n hva _
    obtain ⟨⟨table, status⟩, hr⟩ := hlook va hva
    refine ⟨if table = 0 then n + 1 else n, ?_, trivial⟩
    rw [countTable, hr, ok_bind]
  have hloop : wordLoop wordMod ptSize (· < (start + size) % wordMod) (countTable s dir) fuel
      (roundDown start ptSize) 0 = none :=
    wordLoop_endless (I := fun _ => True) (show ptSize ∣ wordMod from ⟨1024, rfl⟩) (by decide)
      (roundDown_lt hstart) (roundDown_dvd _ _) (fun k hk hdvd =>
        lt_of_le_of_lt (le_sub_stride ⟨1024, rfl⟩ (by decide) hk hdvd) h) hround trivial
  unfold calculateRequiredFrames
  dsimp only
  rw [hloop, followedBy_none]

/-! ## Looking up tables -/

/-- `get_page_table` answers where the directory entry is zero or present; for kernel addresses the
frame in the entry has to exist. -/
theorem getPageTable_answers {w : Word} {va : Nat} (hload : s.load (dir + 4 * pdx va) = .ok w)
    (hw : w = 0#32 ∨ w.has permPresent = true)
    (hf : isKernelAddress va = true → w.frame < s.numberOfFrames) :
    ∃ p, getPageTable s dir va = .ok (p, if w = 0#32 then .notExist else .inMemory) ∧
      (w = 0#32 → p = 0) := by
  have hpointer : ∃ p, tablePointer s va w = .ok p := by
    cases hk : isKernelAddress va with
    | false => exact ⟨_, by rw [tablePointer, hk]; rfl⟩
    | true =>
      refine ⟨(extractAddress w + kernelBase) % wordMod, ?_⟩
      have hdiv : extractAddress w / 4096 = w.frame := by
        rw [extractAddress_eq, Nat.mul_div_cancel _ (by decide)]
      rw [tablePointer, hk, if_pos rfl, staticKernelVirtualAddress, hdiv,
        if_neg (Nat.not_le.2 (hf hk))]
  obtain ⟨p, hp⟩ := hpointer
  rcases hw with rfl | hpresent
  · refine ⟨0, ?_, fun _ => rfl⟩
    simp only [getPageTable, hload, hp, ok_bind]
    rfl
  · have hne : w ≠ 0#32 := by
      rintro rfl
      exact absurd hpresent (by decide)
    refine ⟨p, ?_, fun h => absurd h hne⟩
    simp only [getPageTable, hload, hp, ok_bind, hpresent, if_true, if_neg hne]

/-- Environment `e` has an empty page directory, no page file and no working set. -/
structure Blank (s : Kernel) (e : Nat) : Prop where
  load : ∀ va, s.load ((s.envs e).envPageDirectory + 4 * pdx va) = .ok 0#32
  frames : 0 < s.numberOfFrames
  ddir : (s.envs e).diskEnvPgdir = 0
  size : (s.envs e).pageWSMaxSize = 0

section Blank

variable (h : Blank s e)
include h

theorem Blank.getPageTable (va : Nat) :
    FosMemory.getPageTable s (s.envs e).envPageDirectory va = .ok (0, .notExist) := by
  obtain ⟨p, hp, hzero⟩ := getPageTable_answers (h.load va) (.inl rfl) fun _ => h.frames
  rw [hp, hzero rfl, if_pos rfl]

/-- Every round of every loop of `freeMem` leaves such an environment as it is. -/
theorem Blank.freeMem_endless {va size : Nat} (hva : va < wordMod)
    (hlast : wordMod - ptSize ≤ (roundDown va 4096 + roundUp size 4096) % wordMod) (fuel : Nat) :
    freeMemLoops s e va size fuel = none := by
  have hslot : ∀ v, pfRemoveEnvPage s e v = .ok s := fun v => by
    rw [pfRemoveEnvPage, if_pos h.ddir]
  have hpage : ∀ v, freeResident e v (s.envs e).pageWSMaxSize 0 s = .ok s := fun v => by
    rw [h.size, freeResident]
  have htable : ∀ i, freeTable e i s = .ok s := fun i => by
    simp only [freeTable, h.getPageTable, ok_bind, if_true]
  have hloop : wordLoop wordMod ptSize (· ≤ (roundDown va 4096 + roundUp size 4096) % wordMod)
      (freeTable e) fuel (roundDown (roundDown va 4096) ptSize) s = none := wordLoop_endless
    (I := (· = s)) ⟨1024, rfl⟩ (by decide) (roundDown_lt (roundDown_lt hva)) (roundDown_dvd _ _)
    (fun k hk hdvd => (le_sub_stride ⟨1024, rfl⟩ (by decide) hk hdvd).trans hlast)
    (fun k t _ ht => ⟨s, by rw [ht]; exact htable k, rfl⟩) rfl
  unfold freeMemLoops
  dsimp only
  -- the loops over the pages come to an end or run out of rounds, and the last loop is reached
  have hslots := pageLoop_still (fun v s => pfRemoveEnvPage s e v) (roundDown va 4096)
    (roundUp size 4096) fuel hslot
  have hpages := pageLoop_still (fun v s => freeResident e v (s.envs e).pageWSMaxSize 0 s)
    (roundDown va 4096) (roundUp size 4096) fuel hpage
  rcases hslots with hrun | hrun
  · rw [hrun, followedBy_none]
  · rw [hrun, followedBy_ok]
    rcases hpages with hrun | hrun
    · rw [hrun, followedBy_none]
    · rw [hrun, followedBy_ok, hloop]

theorem Blank.calculate_endless {start size : Nat} (hstart : start < wordMod)
    (hlast : wordMod - ptSize < (start + size) % wordMod) (fuel : Nat) :
    calculateRequiredFrames s (s.envs e).envPageDirectory start size fuel = none :=
  calculateRequiredFrames_endless hstart hlast (fun va _ => ⟨_, h.getPageTable va⟩) fuel

end Blank

/-- With a frame and a heap page left, `create_user_directory` returns. -/
theorem KernelInv.createUserDirectory_exists (h : KernelInv c s) (hroom : ¬ NoPage s) :
    ∃ g p u, NewPage c s u g p ∧ createUserDirectory s = .ok (p, u.zeroFrame g) := by
  have hspec := createUserDirectory_spec h
  cases hrun : createUserDirectory s with
  | error x =>
    rw [hrun] at hspec
    exact absurd hspec.2 hroom
  | ok r =>
    rw [hrun] at hspec
    obtain ⟨g, u, hnew, hu⟩ := hspec
    exact ⟨g, r.1, u, hnew, by rw [← hu]⟩

theorem NewPage.zero_inv {g p : Nat} (h : NewPage c s u g p) : KernelInv c (u.zeroFrame g) := by
  refine h.inv.zeroFrame (h.inv.map.not_kernelFrame ?_)
  rw [h.va_self]
  exact h.p_ne

theorem NewPage.zero_dirAt {g p : Nat} (h : NewPage c s u g p) : DirAt (u.zeroFrame g) p g :=
  ⟨h.va_self, h.p_ne⟩

/-- `create_user_directory` makes such a directory. -/
theorem KernelInv.exists_blank (h : KernelInv c s) (hroom : ¬ NoPage s) (e : Nat) :
    ∃ t, Blank t e := by
  obtain ⟨g, p, u, hnew, -⟩ := h.createUserDirectory_exists hroom
  refine ⟨(u.zeroFrame g).setEnv e { u.envs e with
    envPageDirectory := p, diskEnvPgdir := 0, pageWSMaxSize := 0 }, ?_⟩
  constructor
  case load =>
    intro va
    rw [setEnv_envs_self]
    have hload := hnew.zero_dirAt.load hnew.zero_inv.map (pdx_lt va)
    rw [u.zeroFrame_mem_self g (pdx_lt va)] at hload
    exact hload
  case frames =>
    show 0 < u.numberOfFrames
    rw [hnew.inv.map.numberOfFrames_eq]
    exact lt_of_lt_of_le (Nat.zero_lt_of_lt c.dirFrame_lt) c.kernelEnd_le
  case ddir => rw [setEnv_envs_self]
  case size => rw [setEnv_envs_self]

/-- After booting there are free frames and the kernel heap is empty. -/
theorem smallBoot_room : ¬ NoPage smallBoot.state := by
  rintro (hx | hx)
  · have hlen := smallBoot_frames
    have hlist : smallBoot.state.freeFrameList = smallBoot.freeFrameList := by rw [Boot.state]
    rw [← hlist, hx, List.length_nil] at hlen
    exact absurd hlen (by decide)
  · have htop : smallBoot.state.firstFreeVAInKHeap = kernelHeapStart := by rw [Boot.state]
    rw [htop] at hx
    exact absurd hx (by decide)

/-! ## The three system calls -/

/-- The system calls that take a range. -/
inductive RangeCall where
  | freeMem
  | allocateMem
  | calcReqFrames

/-- The call runs to its end, or a round of it stops the kernel. -/
def RangeCall.Ends (s : Kernel) (e va size : Nat) : RangeCall → Prop
  | .freeMem => Lib.Ends (freeMemLoops s e va size)
  | .allocateMem => Lib.Ends (allocateMemLoop s e va size)
  | .calcReqFrames => Lib.Ends (calculateRequiredFrames s (s.envs e).envPageDirectory va size)

/-- The call returns after some number of rounds. -/
def RangeCall.Returns (s : Kernel) (e va size : Nat) : RangeCall → Prop
  | .freeMem => ∃ fuel t, freeMemLoops s e va size fuel = some (.ok t)
  | .allocateMem => ∃ fuel t, allocateMemLoop s e va size fuel = some (.ok t)
  | .calcReqFrames =>
    ∃ fuel n, calculateRequiredFrames s (s.envs e).envPageDirectory va size fuel = some (.ok n)

/-- The bound of the loops is in reach of their counter. -/
def RangeCall.InReach (va size : Nat) : RangeCall → Prop
  | .freeMem => (roundDown va 4096 + roundUp size 4096) % wordMod < 0xFFC00000
  | .allocateMem => True
  | .calcReqFrames => (va + size) % wordMod ≤ 0xFFC00000

/-- The loops of a call end in every state exactly when their bound is in reach; otherwise the call
returns in no state. -/
theorem rangeLoops_end_iff (call : RangeCall) {va size : Nat} (hva : va < wordMod) :
    ((∀ s e, call.Ends s e va size) ↔ call.InReach va size) ∧
      (¬ call.InReach va size → ∀ s e, ¬ call.Returns s e va size) := by
  obtain ⟨b, hb⟩ := (sysInv_boot smallBoot).owned.inv.exists_blank smallBoot_room 0
  cases call with
  | freeMem =>
    refine ⟨⟨fun hends => ?_, fun h s e => (freeMemLoops_endsWith s e va size h).ends⟩,
      fun h s e ⟨fuel, t, hrun⟩ => freeMemLoops_ne_ok hva (Nat.not_lt.1 h) hrun⟩
    by_contra hlast
    obtain ⟨fuel, hfuel⟩ := hends b 0
    exact hfuel (hb.freeMem_endless hva (Nat.not_lt.1 hlast) fuel)
  | allocateMem =>
    exact ⟨⟨fun _ => trivial, fun _ s e => (allocateMemLoop_endsWith s e va size).ends⟩,
      fun h => absurd trivial h⟩
  | calcReqFrames =>
    refine ⟨⟨fun hends => ?_, fun h s e => (calculateRequiredFrames_endsWith s _ va size h).ends⟩,
      fun h s e ⟨fuel, n, hrun⟩ => calculateRequiredFrames_ne_ok hva (Nat.not_le.1 h) hrun⟩
    by_contra hlast
    obtain ⟨fuel, hfuel⟩ := hends b 0
    exact hfuel (hb.calculate_endless hva (Nat.not_le.1 hlast) fuel)

/-- The largest range from the bottom of the address space that is still in reach. -/
theorem rangeLoops_end_zero : RangeCall.calcReqFrames.Ends smallBoot.state 0 0 0xFFC00000 :=
  (rangeLoops_end_iff .calcReqFrames (show 0 < wordMod by decide)).1.2
    (show (0 + 0xFFC00000) % wordMod ≤ 0xFFC00000 by decide) smallBoot.state 0

/-! ## A running environment -/

/-- The boot entries of the directory are zero or present, and name frames that exist. -/
theorem Boot.dirEntry_answers (c : Boot) (i : Nat) :
    (c.dirEntry i = 0#32 ∨ (c.dirEntry i).has permPresent = true) ∧
      (c.dirEntry i).frame < c.numberOfFrames := by
  have hself : ∀ p : Word, (p ||| permPresent).toNat < 4096 →
      (constructEntry (c.dirFrame * 4096) (p ||| permPresent)).has permPresent = true ∧
        (constructEntry (c.dirFrame * 4096) (p ||| permPresent)).frame < c.numberOfFrames := by
    intro p hp
    have hn := names_constructEntry (c.frame_lt c.dirFrame_lt) hp
    refine ⟨hn.present, ?_⟩
    rw [hn.frame_eq]
    exact lt_of_lt_of_le c.dirFrame_lt c.kernelEnd_le
  by_cases hi : i ∈ kernelTables
  · have hn := c.dirEntry_names hi
    refine ⟨.inr hn.present, ?_⟩
    rw [hn.frame_eq]
    exact lt_of_lt_of_le (c.tableFrame_lt i hi) c.kernelEnd_le
  · rw [Boot.dirEntry]
    split
    · exact ⟨.inr (hself _ (by decide)).1, (hself _ (by decide)).2⟩
    · split
      · exact ⟨.inr (hself _ (by decide)).1, (hself _ (by decide)).2⟩
      · split
        · next h955 => exact absurd (mem_kernelTables.2 (.inl h955)) hi
        · exact ⟨.inl rfl, lt_of_lt_of_le (Nat.zero_lt_of_lt c.dirFrame_lt) c.kernelEnd_le⟩

/-- The entry behind a self map is present and names a frame that exists. -/
def SelfMapped (c : Boot) (s : Kernel) (e : Nat) : Prop :=
  ∀ i, i = 957 ∨ i = 959 → (s.mem (s.dirFrame e) i).has permPresent = true ∧
    (s.mem (s.dirFrame e) i).frame < c.numberOfFrames

/-- Every address of a live environment can be looked up. -/
theorem Alive.getPageTable_answers (ha : Alive c s G e) (ho : Owned c s G)
    (hself : SelfMapped c s e) {va : Nat} (hva : va < wordMod) :
    ∃ r, getPageTable s (s.envs e).envPageDirectory va = .ok r := by
  have hspace := ha.base.space
  have hload := (hspace.dirAt ho).load ho.inv.map (pdx_lt va)
  suffices hword : (s.mem (s.dirFrame e) (pdx va) = 0#32 ∨
      (s.mem (s.dirFrame e) (pdx va)).has permPresent = true) ∧
      (isKernelAddress va = true → (s.mem (s.dirFrame e) (pdx va)).frame < s.numberOfFrames) by
    obtain ⟨p, hp, -⟩ := FosMemory.getPageTable_answers hload hword.1 hword.2
    exact ⟨_, hp⟩
  by_cases huser : pdx va < 955
  · -- a table of the environment, or none
    refine ⟨?_, fun hk => ?_⟩
    · rcases hspace.pde _ huser with hzero | ⟨tb, hn, -⟩
      · exact .inl hzero
      · exact .inr hn.present
    · have hlt := isKernelAddress_iff.1 hk
      simp only [pdx, wordMod] at huser hva
      omega
  · rw [ho.inv.map.numberOfFrames_eq]
    by_cases hi : pdx va = 957 ∨ pdx va = 959
    · obtain ⟨hpresent, hlt⟩ := hself _ hi
      exact ⟨.inr hpresent, fun _ => hlt⟩
    · rw [hspace.kernel_pde _ (Nat.not_lt.1 huser) (pdx_lt va) (fun h => hi (.inl h))
        fun h => hi (.inr h)]
      exact ⟨(c.dirEntry_answers _).1, fun _ => (c.dirEntry_answers _).2⟩

theorem SysInv.setSelf (h : SysInv c s G) (hlive : s.Live e) {i : Nat} (hi : i = 957 ∨ i = 959)
    (w : Word) : SysInv c (s.setWord (s.dirFrame e) i w) G := by
  have ha := h.alive e hlive
  have hlook := ha.base.space.lookDir (ha.base.space.markSelf hi w)
  exact h.acts hlive ((hlook.agedTable h.owned ha.base h.frames).toAged.acts ha)

/-- The self maps `complete_environment_initialization` writes. -/
def Kernel.mapSelf (s : Kernel) (e : Nat) : Kernel :=
  (s.setWord (s.dirFrame e) 959
    (constructEntry (s.envs e).envCr3 (permPresent ||| permWriteable))).setWord (s.dirFrame e) 957
    (constructEntry (s.envs e).envCr3 (permPresent ||| permUser))

theorem SysInv.mapSelf (h : SysInv c s G) (hlive : s.Live e) : SysInv c (s.mapSelf e) G :=
  (h.setSelf hlive (.inr rfl) _).setSelf (e := e) hlive (.inl rfl) _

theorem SysInv.selfMapped (h : SysInv c s G) (hlive : s.Live e) : SelfMapped c (s.mapSelf e) e := by
  have hspace := (h.alive e hlive).base.space
  obtain ⟨hram, -⟩ := h.owned.in_ram (s.dirFrame e) (by
    rw [hspace.dir_own]
    exact Option.some_ne_none _)
  have hentry : ∀ p : Word, (p ||| permPresent).toNat < 4096 →
      (constructEntry (s.envs e).envCr3 (p ||| permPresent)).has permPresent = true ∧
        (constructEntry (s.envs e).envCr3 (p ||| permPresent)).frame < c.numberOfFrames := by
    intro p hp
    have hn := names_constructEntry (lt_of_lt_of_le hram c.numberOfFrames_le) hp
    rw [← hspace.cr3_eq] at hn
    refine ⟨hn.present, ?_⟩
    rw [hn.frame_eq]
    exact hram
  have hdir : (s.mapSelf e).dirFrame e = s.dirFrame e := rfl
  intro i hi
  rw [hdir, Kernel.mapSelf, Kernel.setWord_mem, Kernel.setWord_mem]
  rcases hi with rfl | rfl
  · rw [if_pos ⟨rfl, rfl⟩, BitVec.or_comm]
    exact hentry _ (by decide)
  · rw [if_neg fun h => absurd h.2 (by decide), if_pos ⟨rfl, rfl⟩, BitVec.or_comm]
    exact hentry _ (by decide)

/-- The first environment after booting, with the self maps `env_create` gave it, asks for one byte
more than the bound that is in reach. -/
theorem rangeLoops_endless : ∃ s G, SysInv smallBoot s G ∧ s.curenv = some 0 ∧
    ¬ RangeCall.calcReqFrames.Ends s 0 0 0xFFC00001 := by
  obtain ⟨t, H, u, hfirst, -⟩ := smallBoot.run_bare (k := 0) (Nat.le_refl 1) (by decide)
    (by rw [smallBoot_frames]; decide) (by decide) .lru
  have hlive : u.Live 0 := (hfirst.inv.running 0 hfirst.curenv).1
  have hinv := hfirst.inv.mapSelf hlive
  refine ⟨u.mapSelf 0, H, hinv, hfirst.curenv, ?_⟩
  rintro ⟨fuel, hfuel⟩
  refine hfuel (calculateRequiredFrames_endless (by decide) (by decide) (fun va hva => ?_) fuel)
  exact (hinv.current hfirst.curenv).getPageTable_answers hinv.owned
    (hfirst.inv.selfMapped hlive) hva

end FosMemory
