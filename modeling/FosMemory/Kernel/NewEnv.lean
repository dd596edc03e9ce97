import FosMemory.Kernel.FreeMem

/-!
# NewEnv — `initialize_environment`

A new environment starts from nothing: a directory with the kernel half copied, the working set
array mapped in its window, every element empty.  `Builds` is the frame condition of this phase, in
which the environment does not satisfy `Base` yet.
-/

namespace FosMemory

open Lib

variable {c : Boot} {s t u : Kernel} {G H I : Ghost} {e : Nat}

/-! ## Steps of the construction -/

/-- `e` has no frame, no window and no slot. -/
structure Unused (G : Ghost) (e : Nat) : Prop where
  own : ∀ f r, G.own f ≠ some ⟨e, r⟩
  win : ∀ k, G.win e k = false
  slots : ∀ v, G.slots e v = none

/-- A step on behalf of `e` that leaves slots and disk alone. -/
structure Builds (c : Boot) (e : Nat) (s : Kernel) (G : Ghost) (t : Kernel) (H : Ghost) :
    Prop where
  owned : Owned c t H
  frames : DiskFrames t H
  others : Local e s G t H
  lost : H.lost = G.lost
  slots : H.slots = G.slots
  run : SameRun s t
  diskList : t.diskFreeFrameList = s.diskFreeFrameList

theorem Builds.refl (ho : Owned c s G) (hd : DiskFrames s G) : Builds c e s G s G :=
  ⟨ho, hd, Local.refl e s G, rfl, rfl, SameRun.refl s, rfl⟩

theorem Builds.trans (h : Builds c e s G t H) (h' : Builds c e t H u I) : Builds c e s G u I :=
  ⟨h'.owned, h'.frames, h.others.trans h'.others, h'.lost.trans h.lost, h'.slots.trans h.slots,
    h.run.trans h'.run, h'.diskList.trans h.diskList⟩

/-- Fields of the environment itself. -/
theorem Builds.setEnv (h : Builds c e s G t H) (env : Env) : Builds c e s G (t.setEnv e env) H := by
  refine h.trans ⟨h.owned.setEnv e env, h.frames.congr rfl rfl, ?_, rfl, rfl,
    ⟨rfl, rfl, rfl, rfl⟩, rfl⟩
  refine ⟨fun e' _ => ⟨fun _ _ _ => Iff.rfl, fun _ _ _ _ => rfl, fun _ _ _ _ => rfl⟩,
    fun _ _ => rfl, fun _ _ => rfl, fun e' hne => ?_, fun _ _ _ _ _ => rfl,
    fun _ _ _ _ hb => hb, rfl⟩
  simp [Kernel.setEnv, hne]

/-- Only the contents of frame `g` have changed. -/
structure OnlyFrame (g : Nat) (s t : Kernel) : Prop where
  same : SameFrames s t
  rest : SameRest s t
  mem : ∀ f, f ≠ g → t.mem f = s.mem f

theorem OnlyFrame.refl (g : Nat) (s : Kernel) : OnlyFrame g s s :=
  ⟨SameFrames.refl s, SameRest.refl s, fun _ _ => rfl⟩

theorem OnlyFrame.trans {g : Nat} (h : OnlyFrame g s t) (h' : OnlyFrame g t u) :
    OnlyFrame g s u :=
  ⟨h.same.trans h'.same, h.rest.trans h'.rest, fun f hf => (h'.mem f hf).trans (h.mem f hf)⟩

theorem OnlyFrame.setWord (s : Kernel) (g j : Nat) (w : Word) : OnlyFrame g s (s.setWord g j w) :=
  ⟨SameFrames.setWord s g j w, ⟨rfl, rfl, rfl, rfl, rfl, rfl, rfl⟩,
    fun _ hf => Kernel.setWord_mem_frame hf⟩

theorem OnlyFrame.inv {g : Nat} (h : OnlyFrame g s t) (hs : KernelInv c s)
    (hg : ¬ c.KernelFrame g) : KernelInv c t :=
  hs.congr h.same fun f hf => h.mem f (by rintro rfl; exact hg hf)

/-- Writing a frame of `e`. -/
theorem OnlyFrame.builds {g : Nat} {o : Owner} (h : OnlyFrame g s t) (ho : Owned c s G)
    (hd : DiskFrames s G) (hg : G.own g = some o) (he : o.env = e) : Builds c e s G t G := by
  have hgn : G.own g ≠ none := by simp [hg]
  have hkern : ∀ f, c.KernelFrame f → t.mem f = s.mem f := by
    intro f hf
    refine h.mem f ?_
    rintro rfl
    exact ho.not_kernelFrame hgn hf
  refine ⟨ho.congr h.same hkern rfl rfl rfl, hd.congr h.rest.diskFreeFrameList rfl, ?_, rfl, rfl,
    h.rest.run, h.rest.diskFreeFrameList⟩
  refine Local.of_frame (f := g) h.rest (fun _ _ => rfl) rfl (fun _ _ => rfl)
    (fun o' ho' => ?_) (fun o' ho' => ?_) (fun f o' hf hne => ?_)
    (fun _ _ _ _ => by rw [h.same.virtualAddresses]) (fun e' _ n _ hb => h.same.block hb)
    (h.mem 1 (ho.low_ne (by decide) hgn))
  · rw [hg] at ho'
    cases ho'
    exact he
  · rw [hg] at ho'
    cases ho'
    exact he
  · refine h.mem f ?_
    rintro rfl
    rw [hg] at hf
    cases hf
    exact hne he

/-! ## The directory -/

/-- The user half of a new directory. -/
theorem clearEntries_spec (hs : KernelInv c s) {dir g : Nat} (hd : DirAt s dir g) :
    Ensures (fun _ => False)
      (fun t => OnlyFrame g s t ∧ ∀ i < 955, t.mem g i = 0#32)
      (forRange (fun i s => s.store (dir + 4 * i) 0#32) 0 955 s) := by
  have hk := hs.map.not_kernelFrame hd.ne
  have hloop := forRange_ensures (E := fun _ : Stop => False) (a := 0) (n := 955) (s := s)
    (I := fun i t => OnlyFrame g s t ∧ ∀ j < i, t.mem g j = 0#32)
    (b := fun i s => s.store (dir + 4 * i) 0#32) ?_
    ⟨OnlyFrame.refl g s, fun j hj => absurd hj (by omega)⟩
  · exact hloop
  · rintro i t - hi ⟨honly, hzero⟩
    have hdt : DirAt t dir g := ⟨by rw [honly.same.virtualAddresses]; exact hd.va_eq, hd.ne_zero⟩
    rw [hdt.store (honly.inv hs hk).map (by omega)]
    refine ⟨honly.trans (OnlyFrame.setWord t g i _), fun j hj => ?_⟩
    rw [Kernel.setWord_mem]
    split
    · rfl
    · rename_i hne
      exact hzero j (by omega)

/-- The kernel half of a new directory. -/
theorem copyEntries_spec (hs : KernelInv c s) {dir g : Nat} (hd : DirAt s dir g) :
    Ensures (fun _ => False)
      (fun t => OnlyFrame g s t ∧ (∀ i < 955, t.mem g i = s.mem g i) ∧
        ∀ i, 955 ≤ i → i < 1024 → t.mem g i = c.dirEntry i)
      (forRange (fun i s => do
        let pde ← s.load (s.ptrPageDirectory + 4 * i)
        s.store (dir + 4 * i) pde) 955 69 s) := by
  have hk := hs.map.not_kernelFrame hd.ne
  have hloop := forRange_ensures (E := fun _ : Stop => False) (a := 955) (n := 69) (s := s)
    (I := fun i t => OnlyFrame g s t ∧ (∀ j < 955, t.mem g j = s.mem g j) ∧
      ∀ j, 955 ≤ j → j < i → t.mem g j = c.dirEntry j)
    (b := fun i s => do
      let pde ← s.load (s.ptrPageDirectory + 4 * i)
      s.store (dir + 4 * i) pde) ?_
    ⟨OnlyFrame.refl g s, fun _ _ => rfl, fun j hj hlt => absurd hj (by omega)⟩
  · exact hloop
  · rintro i t hle hi ⟨honly, huser, hkern⟩
    have hinv := honly.inv hs hk
    have hdt : DirAt t dir g := ⟨by rw [honly.same.virtualAddresses]; exact hd.va_eq, hd.ne_zero⟩
    have hload := Kernel.load_index hinv.map.toStaticMap.backed_dir hinv.map.toStaticMap.dir_aligned
      (show i < 1024 by omega)
    rw [hload, ok_bind, hdt.store hinv.map (by omega), hinv.map.dir_entry i (by omega)]
    refine ⟨honly.trans (OnlyFrame.setWord t g i _), fun j hj => ?_, fun j hj hlt => ?_⟩
    · rw [Kernel.setWord_mem, if_neg (by omega)]
      exact huser j hj
    · rw [Kernel.setWord_mem]
      split
      · rename_i heq
        rw [heq.2]
      · rename_i hne
        exact hkern j hj (by omega)

/-- A directory that maps nothing in the user half. -/
theorem Space.fresh {g : Nat} (hg : ∀ f, G.own f = some ⟨e, .dir⟩ ↔ f = g)
    (hnotab : ∀ f i, G.own f ≠ some ⟨e, .table i⟩) (hno : ∀ v f b, ¬ G.Target e v f b)
    (hcr3 : (s.envs e).envCr3 = g * 4096) (hva : s.virtualAddresses g = (s.envs e).envPageDirectory)
    (huser : ∀ i < 955, s.mem g i = 0#32)
    (hkern : ∀ i, 955 ≤ i → i < 1024 → s.mem g i = c.dirEntry i) : Space c s G e := by
  have hdf : s.dirFrame e = g := by
    rw [Kernel.dirFrame, hcr3, Nat.mul_div_cancel _ (by decide)]
  constructor
  case dir_own => exact (hg _).2 hdf
  case dir_unique => exact fun f hf => by rw [hdf, (hg f).1 hf]
  case cr3_eq => rw [hdf, hcr3]
  case dir_at => rw [hdf, hva]
  case pde => exact fun i hi => .inl (by rw [hdf]; exact huser i hi)
  case kernel_pde => exact fun i hle hlt _ _ => by rw [hdf]; exact hkern i hle hlt
  case table => exact fun f i hf => absurd hf (hnotab f i)
  case pte => exact fun f i hf => absurd hf (hnotab f i)
  case target => exact fun v f b ht => absurd ht (hno v f b)

/-- A new heap page becomes the directory of `e`. -/
theorem NewPage.builds {g p : Nat} (hnew : NewPage c s t g p) (ho : Owned c s G)
    (hd : DiskFrames s G) : Builds c e s G t (G.setOwn g (some ⟨e, .dir⟩)) := by
  have howned := ho.newPage hnew rfl e (r := .dir)
  refine ⟨howned, hd.congr hnew.same.diskFreeFrameList rfl, ?_, rfl, rfl, hnew.same.run,
    hnew.same.diskFreeFrameList⟩
  refine Local.of_frame (f := g) hnew.same (fun _ _ => rfl) rfl
    (fun f hf => G.setOwn_of_ne _ hf) (fun o hx => ?_) (fun o hx => ?_)
    (fun f o hf _ => hnew.mem_eq f (ho.not_kernelFrame (by simp [hf])))
    (fun f o hf _ => hnew.va_of_ne (hnew.ne_of_not_mem (ho.not_free (by simp [hf]))))
    (fun e' _ n _ hb => hnew.kmalloced.block hb)
    (hnew.mem_eq 1 (c.low_not_kernelFrame (by decide)))
  · rw [ho.own_free hnew.mem_free] at hx
    cases hx
  · rw [G.setOwn_self] at hx
    cases hx
    rfl

/-! ## The window -/

/-- Page `k` of the array has been mapped in the window. -/
structure Windowed (c : Boot) (e k : Nat) (s : Kernel) (G : Ghost) (t : Kernel) (H : Ghost) :
    Prop where
  builds : Builds c e s G t H
  space : Space c t H e
  keeps : Keeps e Role.offWalk s G t H
  block : KeepsBlock e s G t
  envs : t.envs = s.envs
  win : ∀ j, H.win e j = if j = k then true else G.win e j
  roles : ∀ f r, H.own f = some ⟨e, r⟩ → G.own f = some ⟨e, r⟩ ∨ ∃ i, r = .table i
  spent : Spent s t 1

theorem entryFor_window {f : Nat} (hf : f < 1048576) :
    EntryFor f (frameEntry f permUser) true := by
  constructor
  · exact names_constructEntry hf (by decide)
  · rw [Bool.eq_false_iff, ne_eq, has_iff, frameEntry, constructEntry_and f (by decide)]
    decide

section Window

variable (h : Space c s G e) (ho : Owned c s G) (hd : DiskFrames s G) {f k v : Nat}
  (hf : G.own f = some ⟨e, .ws k⟩) (hwin : G.win e k = false)
  (huniq : ∀ g, G.own g = some ⟨e, .ws k⟩ → g = f) (hv : v = userPagesWSStart + 4096 * k)
  (hlt : v < userTop)
include h ho hd hf hwin huniq hv hlt

/-- Nothing but page `k` of the array belongs at page `k` of the window. -/
theorem Space.fillWindow {tb : Nat} (htb : G.own tb = some ⟨e, .table (pdx v)⟩)
    (hnone : ∀ g b, ¬ G.Target e v g b) :
    Windowed c e k s G ((incrementReferences s f).setWord tb (ptx v) (frameEntry f permUser))
      (G.setWin e k true) := by
  have hal : v % 4096 = 0 := by
    simp only [userPagesWSStart] at hv
    omega
  have hfn : G.own f ≠ none := by simp [hf]
  have htbn : G.own tb ≠ none := by simp [htb]
  obtain ⟨t, ht⟩ : ∃ t, t = (incrementReferences s f).setWord tb (ptx v) (frameEntry f permUser) :=
    ⟨_, rfl⟩
  rw [← ht]
  have hwin' : ∀ j, (G.setWin e k true).win e j = if j = k then true else G.win e j := by
    intro j
    by_cases hj : j = k
    · rw [hj, G.setWin_self, if_pos rfl]
    · simp [Ghost.setWin, hj]
  have hmem : ∀ g j, t.mem g j =
      if g = tb ∧ j = ptx v then frameEntry f permUser else s.mem g j := by
    rw [ht]
    exact fun g j => (incrementReferences s f).setWord_mem tb (ptx v) _ g j
  have hframe : ∀ g, g ≠ tb → t.mem g = s.mem g := by
    intro g hg
    rw [ht, Kernel.setWord_mem_frame hg]
    rfl
  have hown : Owned c t (G.setWin e k true) := by
    rw [ht]
    exact (ho.openWindow hf hwin huniq).setWord htbn _ _
  -- the record says that exactly this page is new in the window
  have htarget : ∀ v' g b, v' ≠ v →
      ((G.setWin e k true).Target e v' g b ↔ G.Target e v' g b) := by
    intro v' g b hvv
    cases b with
    | false => exact Iff.rfl
    | true =>
      refine exists_congr fun j => and_congr_right fun _ => ?_
      rw [hwin']
      by_cases hj : j = k
      · subst hj
        simp only [if_true, hwin, true_and, Bool.false_eq_true, false_and, iff_false]
        intro hx
        exact hvv (hx.trans hv.symm)
      · rw [if_neg hj]
  have hself : (G.setWin e k true).Target e v f true :=
    ⟨k, hf, G.setWin_self e k true, hv⟩
  have hspace : Space c t (G.setWin e k true) e := by
    refine h.setPte (w := frameEntry f permUser) hal hlt htb (fun _ _ _ => Iff.rfl) htarget
      (.inr ⟨f, true, entryFor_window (ho.lt hfn), hself, ?_⟩) (fun g r _ _ j => hmem g j)
      (by rw [ht]; rfl) (by rw [ht]; rfl) (by rw [ht]; rfl)
    intro f' b' hx
    cases b' with
    | false => exact absurd hx (hnone f' false)
    | true =>
      obtain ⟨j, hj, -, hvj⟩ := hx
      have hjk : j = k := by
        rw [hv] at hvj
        omega
      subst hjk
      exact ⟨huniq f' hj, rfl⟩
  have hne : ∀ g o, G.own g = some o → (∀ i, o ≠ ⟨e, .table i⟩) → g ≠ tb := by
    rintro g o hg hx rfl
    rw [htb] at hg
    cases hg
    exact hx _ rfl
  have hva : t.virtualAddresses = s.virtualAddresses := by
    rw [ht]
    rfl
  have hrest : SameRest s t := by
    rw [ht]
    exact ⟨rfl, rfl, rfl, rfl, rfl, rfl, rfl⟩
  have hlocal : Local e s G t (G.setWin e k true) := by
    refine Local.of_frame (f := tb) hrest (fun e' hx => ?_) rfl (fun _ _ => rfl)
      (fun o hx => ?_) (fun o hx => ?_) (fun g o hg hx => ?_) (fun _ _ _ _ => by rw [hva])
      (fun e' _ n _ hb => by rw [ht]; exact hb) (hframe 1 (ho.low_ne (by decide) htbn))
    · simp [Ghost.setWin, hx]
    · rw [htb] at hx
      cases hx
      rfl
    · have hx' : G.own tb = some o := hx
      rw [htb] at hx'
      cases hx'
      rfl
    · refine hframe g (hne g o hg fun i hoi => hx ?_)
      rw [hoi]
  constructor
  case builds =>
    exact ⟨hown, hd.congr hrest.diskFreeFrameList rfl, hlocal, rfl, rfl, hrest.run,
      hrest.diskFreeFrameList⟩
  case space => exact hspace
  case keeps =>
    refine ⟨fun _ _ _ => Iff.rfl, fun g r hr hg => hframe g (hne g _ hg ?_),
      fun _ _ _ _ => by rw [hva]⟩
    intro i hx
    cases hx
    cases hr
  case block =>
    intro n _ hb
    rw [ht]
    exact hb
  case envs => exact hrest.envs
  case win => exact hwin'
  case roles => exact fun g r hg => .inl hg
  case spent =>
    rw [ht]
    exact (Spent.refl s).mono (by omega)

omit hwin huniq hf hd ho in
theorem Space.window_free (hnone : ∀ g b, ¬ G.Target e v g b) {tb : Nat}
    (htb : G.own tb = some ⟨e, .table (pdx v)⟩) : s.mem tb (ptx v) = 0#32 := by
  refine (h.pte_eq_zero_iff ?_ hlt htb).2 hnone
  simp only [userPagesWSStart] at hv
  omega

/-- `map_frame` of a page of the array in the window. -/
theorem Space.mapFrame_window (hnone : ∀ g b, ¬ G.Target e v g b) :
    Ensures (fun _ => ¬ Enough s 1) (fun t => ∃ H, Windowed c e k s G t H)
      (mapFrame s (s.envs e).envPageDirectory f v permUser) := by
  have hdir := h.dirAt ho
  have hfn : G.own f ≠ none := by simp [hf]
  have hflt := ho.lt hfn
  rcases h.lookup hlt with hzero | ⟨tb, hpde, htb⟩
  · refine (mapFrame_newTable ho.inv hdir hlt hzero hflt).mono
      (fun _ hx => hx.2.not_enough) ?_
    rintro u ⟨t, g, p, hnew, rfl⟩
    obtain ⟨hmoves, hrest⟩ := h.createTable ho (pdx_user hlt) hzero hnew
    have hkeep := hmoves.keeps
    have hf' := (hkeep.own f _ rfl).2 hf
    have hgnew : ∀ f' r, (G.setOwn g (some ⟨e, .table (pdx v)⟩)).own f' = some ⟨e, r⟩ →
        G.own f' = some ⟨e, r⟩ ∨ ∃ i, r = .table i := by
      intro f' r hx
      rcases Ghost.setOwn_eq_some.1 hx with ⟨-, hx⟩ | ⟨-, hx⟩
      · cases hx
        exact .inr ⟨_, rfl⟩
      · exact .inl hx
    have hnone' : ∀ f' b, ¬ (G.setOwn g (some ⟨e, .table (pdx v)⟩)).Target e v f' b := by
      intro f' b hx
      cases b with
      | false => exact hnone f' false ((hkeep.own f' _ rfl).1 hx)
      | true =>
        obtain ⟨j, hj, hw⟩ := hx
        exact hnone f' true ⟨j, (hkeep.own f' _ rfl).1 hj, hw⟩
    have hfill := hmoves.space.fillWindow hmoves.owned (hd.congr hrest.diskFreeFrameList rfl) hf'
      hwin (fun f' hx => huniq f' ((hkeep.own f' _ rfl).1 hx)) hv hlt (G.setOwn_self _ _) hnone'
    have hstep : Builds c e s G t (G.setOwn g (some ⟨e, .table (pdx v)⟩)) :=
      ⟨hmoves.owned, hd.congr hrest.diskFreeFrameList rfl, hmoves.others, rfl, rfl, hrest.run,
        hrest.diskFreeFrameList⟩
    refine ⟨_, hstep.trans hfill.builds, hfill.space, hkeep.trans hfill.keeps, ?_,
      hfill.envs.trans hrest.envs, hfill.win, fun f' r hx => ?_, hmoves.spent⟩
    · refine hmoves.block.trans hfill.block (fun hw => ?_) (by rw [hrest.envs])
      exact hkeep.wsAt rfl (by rw [hrest.envs]) hw
    · exact (hfill.roles f' r hx).elim (hgnew f' r) .inr
  · have hva := Space.table_va ho htb
    rw [mapFrame, mapFrameWith_user_zero ho.inv.map hdir hlt hpde hva
      (h.window_free hv hlt hnone htb) hflt]
    exact ⟨_, h.fillWindow ho hd hf hwin huniq hv hlt htb hnone⟩

end Window

/-! ## The array -/

/-- The frames behind a block of `m` pages at `p` are the pages of the array of `e`. -/
structure WsFrames (s : Kernel) (G : Ghost) (e p m : Nat) : Prop where
  frame : ∀ k < m, ∃ f, G.own f = some ⟨e, .ws k⟩
  at_page : ∀ f k, G.own f = some ⟨e, .ws k⟩ → k < m ∧ s.virtualAddresses f = p + 4096 * k
  block : Block s p m

theorem WsFrames.unique {p m : Nat} (h : WsFrames s G e p m) (ho : Owned c s G) {f g k : Nat}
    (hf : G.own f = some ⟨e, .ws k⟩) (hg : G.own g = some ⟨e, .ws k⟩) : g = f := by
  have hne := (ho.ws hg).1
  exact ho.inv.map.virtualAddresses_inj hne ((h.at_page g k hg).2.trans (h.at_page f k hf).2.symm)

/-- `create_user_page_WS`. -/
theorem Kmalloced.wsBuilds {m p : Nat} (hk : Kmalloced c s t m p) (ho : Owned c s G)
    (hd : DiskFrames s G) (hwin : ∀ k, G.win e k = false) (hws : ∀ f k, G.own f ≠ some ⟨e, .ws k⟩) :
    ∃ H, Builds c e s G t H ∧ WsFrames t H e p m ∧ H.win = G.win ∧
      ∀ f r, (∀ k, r ≠ .ws k) → (H.own f = some ⟨e, r⟩ ↔ G.own f = some ⟨e, r⟩) := by
  have ht := hk.taken
  obtain ⟨L, hL⟩ : ∃ L, L = s.freeFrameList.take m := ⟨_, rfl⟩
  have hfree : ∀ g ∈ L, G.own g = none := by
    intro g hg
    rw [hL] at hg
    exact ho.own_free (List.mem_of_mem_take hg)
  have howned := ho.kmallocWs hk e hwin
  rw [← hL] at howned
  -- the frame at place `i` of the list backs page `i`
  have hnew : ∀ g ∈ L, ∃ i < m, s.freeFrameList[i]? = some g ∧ t.virtualAddresses g = p + 4096 * i := by
    intro g hg
    rw [hL] at hg
    obtain ⟨i, hi⟩ := List.mem_iff_getElem?.1 hg
    have him : i < m := by
      by_contra hge
      rw [List.getElem?_take, if_neg hge] at hi
      cases hi
    rw [List.getElem?_take, if_pos him] at hi
    exact ⟨i, him, hi, by rw [hk.p_eq]; exact ht.va_new i g him hi⟩
  obtain ⟨H, hH⟩ : ∃ H, H = G.giveWs t.virtualAddresses e p L := ⟨_, rfl⟩
  have hin : ∀ g ∈ L, H.own g = some ⟨e, .ws ((t.virtualAddresses g - p) / 4096)⟩ := by
    intro g hg
    rw [hH]
    exact if_pos hg
  have hout : ∀ g, g ∉ L → H.own g = G.own g := by
    intro g hg
    rw [hH]
    exact if_neg hg
  have hnotin : ∀ g o, G.own g = some o → g ∉ L := by
    intro g o hg hgL
    rw [hfree g hgL] at hg
    cases hg
  have hva : ∀ g o, G.own g = some o → t.virtualAddresses g = s.virtualAddresses g := by
    intro g o hg
    refine ht.va_old g ?_
    rw [← hL]
    exact hnotin g o hg
  rw [← hH] at howned
  refine ⟨H, ⟨howned, hd.congr ht.same.diskFreeFrameList (by rw [hH]; rfl), ?_, by rw [hH]; rfl,
    by rw [hH]; rfl, ht.same.run, ht.same.diskFreeFrameList⟩, ⟨?_, ?_, hk.block_self⟩, by rw [hH]; rfl, ?_⟩
  · -- the other environments keep their frames
    refine ⟨fun e' hne => ⟨fun g r _ => ?_, fun g r _ hg => ?_, fun g r _ hg => hva g _ hg⟩,
      fun _ _ => by rw [hH]; rfl, fun _ _ => by rw [hH]; rfl, fun _ _ => by rw [ht.same.envs],
      fun _ _ _ _ _ => by rw [ht.same.disk], fun e' _ n _ hb => hk.block hb,
      ht.mem_eq 1 (c.low_not_kernelFrame (by decide))⟩
    · by_cases hgL : g ∈ L
      · rw [hin g hgL, hfree g hgL]
        constructor
        · intro hx
          cases hx
          exact absurd rfl hne
        · intro hx
          cases hx
      · rw [hout g hgL]
    · exact ht.mem_eq g (ho.not_kernelFrame (by simp [hg]))
  · intro k hkm
    have hlen : k < s.freeFrameList.length := Nat.lt_of_lt_of_le hkm ht.le_length
    have hget : s.freeFrameList[k]? = some s.freeFrameList[k] := List.getElem?_eq_getElem hlen
    have hmem : s.freeFrameList[k] ∈ L := by
      rw [hL, List.mem_iff_getElem?]
      exact ⟨k, by rw [List.getElem?_take, if_pos hkm, hget]⟩
    refine ⟨_, (hin _ hmem).trans ?_⟩
    have hat := ht.va_new k _ hkm hget
    have hdiv : (t.virtualAddresses s.freeFrameList[k] - p) / 4096 = k := by
      rw [hat, hk.p_eq]
      omega
    rw [hdiv]
  · intro g k hg
    by_cases hgL : g ∈ L
    · obtain ⟨i, hi, -, hat⟩ := hnew g hgL
      rw [hin g hgL, hat] at hg
      have hik : (p + 4096 * i - p) / 4096 = k := by
        injection hg with hg
        injection hg with _ hg
        injection hg
      have : i = k := by omega
      subst this
      exact ⟨hi, hat⟩
    · rw [hout g hgL] at hg
      exact absurd hg (hws g k)
  · intro g r hr
    by_cases hgL : g ∈ L
    · rw [hin g hgL, hfree g hgL]
      constructor
      · intro hx
        cases hx
        exact absurd rfl (hr _)
      · intro hx
        cases hx
    · rw [hout g hgL]

/-- A heap pointer is translated by the reverse map. -/
theorem KernelMap.physical (h : KernelMap c s) {f : Nat} (hf : s.virtualAddresses f ≠ 0) :
    kheapPhysicalAddress s (s.virtualAddresses f) = .ok (f * 4096) := by
  rw [kheapPhysicalAddress_eq h.toStaticMap (h.heapPage f hf), (h.names f hf).frame_eq]

/-! ## Mapping the whole window -/

/-- The first `i` pages of the array are in the window. -/
structure WindowOpen (c : Boot) (e i : Nat) (s : Kernel) (G : Ghost) (t : Kernel) (H : Ghost) :
    Prop where
  builds : Builds c e s G t H
  space : Space c t H e
  keeps : Keeps e Role.offWalk s G t H
  block : KeepsBlock e s G t
  envs : t.envs = s.envs
  win : ∀ j, H.win e j = decide (j < i)
  roles : ∀ f r, H.own f = some ⟨e, r⟩ → G.own f = some ⟨e, r⟩ ∨ ∃ i, r = .table i
  spent : Spent s t i

theorem WindowOpen.next {i : Nat} (h : WindowOpen c e i s G t H) (hw : Windowed c e i t H u I) :
    WindowOpen c e (i + 1) s G u I := by
  constructor
  case builds => exact h.builds.trans hw.builds
  case space => exact hw.space
  case keeps => exact h.keeps.trans hw.keeps
  case block =>
    refine h.block.trans hw.block (fun hx => ?_) (by rw [h.envs])
    exact h.keeps.wsAt rfl (by rw [h.envs]) hx
  case envs => exact hw.envs.trans h.envs
  case win =>
    intro j
    rw [hw.win, h.win]
    by_cases hj : j = i
    · simp [hj]
    · rw [if_neg hj, decide_eq_decide]
      omega
  case roles => exact fun f r hx => (hw.roles f r hx).elim (h.roles f r) .inr
  case spent => exact h.spent.trans hw.spent

section OpenWindow

variable (ho : Owned c s G) (hd : DiskFrames s G) (hs : Space c s G e) {p m : Nat}
  (hfr : WsFrames s G e p m) (hptr : (s.envs e).ptrPageWorkingSet = p)
  (huptr : (s.envs e).uptrPws = userPagesWSStart) (hm : userPagesWSStart + 4096 * m < userTop)
  (hwin : ∀ k, G.win e k = false) (hpage : ∀ f v, G.own f ≠ some ⟨e, .page v⟩)
include ho hd hs hfr hptr huptr hm hwin hpage

omit hd hs hwin in
/-- One page of the window. -/
theorem WindowOpen.mapPage {i : Nat} {t : Kernel} {H : Ghost} (hi : i < m)
    (h : WindowOpen c e i s G t H) :
    Ensures (fun _ => ¬ Enough t 1) (fun u => ∃ I, WindowOpen c e (i + 1) s G u I)
      (mapWindowPage e i t) := by
  obtain ⟨f, hf⟩ := hfr.frame i hi
  have hf' : H.own f = some ⟨e, .ws i⟩ := (h.keeps.own f _ rfl).2 hf
  have howned := h.builds.owned
  have hva : t.virtualAddresses f = p + 4096 * i :=
    (h.keeps.va f _ rfl hf).trans (hfr.at_page f i hf).2
  have hne := (howned.ws hf').1
  have hphys := howned.inv.map.physical hne
  rw [hva] at hphys
  have hfn : H.own f ≠ none := by simp [hf']
  have hlt := (howned.in_ram f hfn).1
  have hinfo : toFrameInfo t (f * 4096) = .ok f := by
    have hdiv : f * 4096 / 4096 = f := Nat.mul_div_cancel _ (by decide)
    rw [toFrameInfo, hdiv, howned.inv.map.numberOfFrames_eq, if_neg (Nat.not_le.2 hlt)]
  have huniq : ∀ g, H.own g = some ⟨e, .ws i⟩ → g = f := fun g hg =>
    hfr.unique ho hf ((h.keeps.own g _ rfl).1 hg)
  -- no earlier page of the window is at this address
  have hnone : ∀ g b, ¬ H.Target e (userPagesWSStart + 4096 * i) g b := by
    intro g b ht
    cases b with
    | false => exact hpage g _ ((h.keeps.own g _ rfl).1 ht)
    | true =>
      obtain ⟨j, -, hwj, hj⟩ := ht
      have : j = i := by omega
      subst this
      rw [h.win] at hwj
      simp at hwj
  have hmap := h.space.mapFrame_window howned h.builds.frames hf'
    (by rw [h.win]; simp) huniq rfl
    (show userPagesWSStart + 4096 * i < userTop by omega) hnone
  rw [mapWindowPage]
  simp only [h.envs, hptr, huptr, hphys, hinfo, ok_bind]
  rw [h.envs] at hmap
  refine hmap.imp ?_
  rintro u ⟨I, hw⟩
  exact ⟨I, h.next hw⟩

/-- The loop over the pages of the array. -/
theorem WsFrames.mapWindow_spec :
    Ensures (fun _ => ¬ Enough s m) (fun t => ∃ H, WindowOpen c e m s G t H)
      (forRange (mapWindowPage e) 0 m s) := by
  have hzero : WindowOpen c e 0 s G s G :=
    ⟨Builds.refl ho hd, hs, Keeps.refl e _ s G, fun _ _ hb => hb, rfl,
      fun j => by rw [hwin]; simp, fun _ _ hx => .inl hx, Spent.refl s⟩
  have hloop := forRange_ensures (E := fun _ : Stop => ¬ Enough s m) (a := 0) (n := m) (s := s)
    (I := fun i t => ∃ H, WindowOpen c e i s G t H) (b := mapWindowPage e) ?_ ⟨G, hzero⟩
  · rw [Nat.zero_add] at hloop
    exact hloop
  · rintro i t - hi ⟨H, h⟩
    rw [Nat.zero_add] at hi
    refine (WindowOpen.mapPage ho hfr hptr huptr hm hpage hi h).mono (fun _ hx hen => hx ?_)
      fun _ hr => hr
    exact (hen.mono (show i + 1 ≤ m by omega)).after h.spent

end OpenWindow

/-! ## The empty working set -/

/-- Disk tables that do not exist. -/
theorem SlotTable.empty (hdir : (s.envs e).diskEnvPgdir = 0)
    (hown : ∀ f r, r.inDisk = true → G.own f ≠ some ⟨e, r⟩) (hslots : ∀ v, G.slots e v = none) :
    SlotTable s G e := by
  constructor
  case dir_at => exact fun f hf => absurd hf (hown f _ rfl)
  case dir_exists => exact fun hne => absurd hdir hne
  case pde => exact fun f hf => absurd hf (hown f _ rfl)
  case table => exact fun f i hf => absurd hf (hown f _ rfl)
  case entry => exact fun f i hf => absurd hf (hown f _ rfl)
  case slot =>
    intro v d hv
    rw [hslots] at hv
    cases hv

/-- The array is complete once its window is open. -/
theorem WindowOpen.base {p m : Nat} (h : WindowOpen c e m s G t H) (hfr : WsFrames s G e p m)
    (hptr : (s.envs e).ptrPageWorkingSet = p) (huptr : (s.envs e).uptrPws = userPagesWSStart)
    (hpos : 1 ≤ (s.envs e).pageWSMaxSize) (hm : m = s.wsPages e)
    (hddir : (s.envs e).diskEnvPgdir = 0)
    (hdisk : ∀ f r, r.inDisk = true → G.own f ≠ some ⟨e, r⟩) (hslots : ∀ v, G.slots e v = none) :
    Base c t H e := by
  have hpages : t.wsPages e = m := by
    rw [Kernel.wsPages, h.envs, hm, Kernel.wsPages]
  have hm0 : 0 < m := by
    rw [hm, Kernel.wsPages, pagesOf]
    omega
  refine ⟨h.space, SlotTable.empty (by rw [h.envs]; exact hddir) (fun f r hr hf => ?_) (fun v => ?_),
    ?_⟩
  · refine hdisk f r hr ((h.keeps.own f r (Role.offWalk_of_inDisk hr)).1 hf)
  · rw [h.builds.slots]
    exact hslots v
  · constructor
    case size_pos =>
      rw [h.envs]
      exact hpos
    case frame =>
      intro k hk
      rw [hpages] at hk
      obtain ⟨f, hf⟩ := hfr.frame k hk
      exact ⟨f, (h.keeps.own f _ rfl).2 hf⟩
    case at_page =>
      intro f k hf
      have hf' := (h.keeps.own f _ rfl).1 hf
      obtain ⟨hk, hva⟩ := hfr.at_page f k hf'
      rw [hpages, h.envs, hptr, h.keeps.va f _ rfl hf']
      exact ⟨hk, hva⟩
    case block =>
      rw [hpages, h.envs]
      refine h.block m ?_ (by rw [hptr]; exact hfr.block)
      obtain ⟨f, hf⟩ := hfr.frame 0 hm0
      refine ⟨f, hf, ?_⟩
      rw [(hfr.at_page f 0 hf).2, hptr]
      rfl
    case uptr =>
      rw [h.envs]
      exact huptr
    case win =>
      intro k
      rw [h.win, hpages]

/-- The loop that empties the elements. -/
theorem Base.clearElements (ho : Owned c s G) (hb : Base c s G e) (hd : DiskFrames s G) :
    Ensures (fun _ => False)
      (fun t => EnvStep c e 0 s G t G ∧ t.envs = s.envs ∧
        t.diskFreeFrameList = s.diskFreeFrameList ∧
        ∀ i < s.wsMax e, t.wsVa e i = 0 ∧ t.wsFlag e i = 1#8)
      (forRange (fun i s => wsStore s e i 0 1#8 0#32) 0 (s.wsMax e) s) := by
  have hloop := forRange_ensures (E := fun _ : Stop => False) (a := 0) (n := s.wsMax e) (s := s)
    (I := fun i t => EnvStep c e 0 s G t G ∧ t.envs = s.envs ∧
      t.diskFreeFrameList = s.diskFreeFrameList ∧ ∀ k < i, t.wsVa e k = 0 ∧ t.wsFlag e k = 1#8)
    (b := fun i s => wsStore s e i 0 1#8 0#32) ?_
    ⟨EnvStep.refl ho hb hd, rfl, rfl, fun k hk => absurd hk (by omega)⟩
  · rw [Nat.zero_add] at hloop
    exact hloop
  · rintro i t - hi ⟨hst, henvs, hlist, hdone⟩
    rw [Nat.zero_add] at hi
    have hi' : i < t.wsMax e := by
      rw [Kernel.wsMax, henvs]
      exact hi
    obtain ⟨u, hstore, hw⟩ := hst.base.array.wsStore_spec hst.owned hi'
      (show (0 : Nat) < 4294967296 by decide) 1#8 0#32
    rw [hstore]
    refine ⟨hst.trans (hw.only.envStep hst.owned hst.base hst.frames), hw.only.rest.envs.trans henvs,
      hw.only.rest.diskFreeFrameList.trans hlist, fun k hk => ?_⟩
    by_cases hki : k = i
    · subst hki
      exact ⟨hw.va, hw.flag⟩
    · have hk' : k < t.wsMax e := by omega
      obtain ⟨h₁, h₂, -⟩ := hw.rest k hk' hki
      rw [h₁, h₂]
      exact hdone k (by omega)

/-! ## State of the scheduler and the processor -/

/-- The fields no structure of memory management depends on. -/
def Kernel.withRun (s : Kernel) (envFreeList : List Nat) (curenv : Option Nat) (cr3 : Nat)
    (policy : PageRepAlgo) : Kernel :=
  { s with envFreeList := envFreeList, curenv := curenv, cr3 := cr3, pageRepAlgoType := policy }

section WithRun

variable {l : List Nat} {cur : Option Nat} {x : Nat} {p : PageRepAlgo}

theorem Owned.withRun (h : Owned c s G) : Owned c (s.withRun l cur x p) G :=
  h.congr ⟨rfl, rfl, rfl, rfl, rfl, rfl, rfl, rfl⟩ (fun _ _ => rfl) rfl rfl rfl

theorem DiskFrames.withRun (h : DiskFrames s G) : DiskFrames (s.withRun l cur x p) G :=
  h.congr rfl rfl

theorem Local.withRun (e : Nat) (s : Kernel) (G : Ghost) : Local e s G (s.withRun l cur x p) G :=
  ⟨fun _ _ => ⟨fun _ _ _ => Iff.rfl, fun _ _ _ _ => rfl, fun _ _ _ _ => rfl⟩, fun _ _ => rfl,
    fun _ _ => rfl, fun _ _ => rfl, fun _ _ _ _ _ => rfl, fun _ _ _ _ hb => hb, rfl⟩

theorem Base.withRun (h : Base c s G e) : Base c (s.withRun l cur x p) G e :=
  ⟨h.space.congr (fun _ _ _ => Iff.rfl) rfl (fun _ _ _ _ => rfl) rfl rfl rfl,
    h.slots.congr (fun _ _ _ => Iff.rfl) (fun _ _ _ _ => rfl) (fun _ _ _ _ => rfl) rfl rfl,
    ⟨h.array.size_pos, h.array.frame, h.array.at_page, h.array.block, h.array.uptr, h.array.win⟩⟩

theorem Entries.withRun (h : Entries s G e) : Entries (s.withRun l cur x p) G e :=
  h.congr (fun _ _ => rfl) rfl rfl fun _ _ => Iff.rfl

theorem Covered.withRun (h : Covered s G e) : Covered (s.withRun l cur x p) G e :=
  h.congr (fun _ _ => rfl) rfl fun _ _ => Iff.rfl

theorem Alive.withRun (h : Alive c s G e) : Alive c (s.withRun l cur x p) G e :=
  ⟨h.base.withRun, h.entries.withRun, h.covered.withRun, h.ddir⟩

theorem SamePage.withRun (e v : Nat) (s : Kernel) (G : Ghost) :
    SamePage e v s G (s.withRun l cur x p) G :=
  ⟨fun _ => Iff.rfl, fun _ _ => rfl, fun _ _ => rfl, rfl, fun _ _ => rfl⟩

end WithRun

end FosMemory
