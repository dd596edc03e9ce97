import FosMemory.Kernel.NewEnv

/-!
# InitEnv — an environment before its program is loaded

`create_user_directory` and `initialize_environment` one after the other.  The result satisfies
`Base`; its working set is empty and it has neither pages nor slots.
-/

namespace FosMemory

open Lib

variable {c : Boot} {s t u : Kernel} {G H I : Ghost} {e : Nat}

/-! ## The directory -/

/-- A directory for `e` in frame `g`, with the kernel half copied and the user half empty. -/
structure HasDir (c : Boot) (e g n : Nat) (s : Kernel) (G : Ghost) (t : Kernel) : Prop where
  builds : Builds c e s G t (G.setOwn g (some ⟨e, .dir⟩))
  unowned : G.own g = none
  va : t.virtualAddresses g = (t.envs e).envPageDirectory
  cr3 : (t.envs e).envCr3 = g * 4096
  size : (t.envs e).pageWSMaxSize = n
  ddir : (t.envs e).diskEnvPgdir = (s.envs e).diskEnvPgdir
  program : (t.envs e).progName = (s.envs e).progName
  user : ∀ i < 955, t.mem g i = 0#32
  kernel : ∀ i, 955 ≤ i → i < 1024 → t.mem g i = c.dirEntry i
  spent : Spent s t 1

theorem setEnv_envs_self (s : Kernel) (e : Nat) (env : Env) : (s.setEnv e env).envs e = env := by
  simp [Kernel.setEnv]

/-- `create_user_directory` and the two loops that fill the directory. -/
theorem HasDir.of_new {g p n : Nat} {env : Env} (ho : Owned c s G) (hd : DiskFrames s G)
    (hnew : NewPage c s u g p) (henv : env = { (u.zeroFrame g).envs e with
      pageWSMaxSize := n, envPageDirectory := p, envCr3 := g * 4096 }) :
    Ensures (fun _ => False) (HasDir c e g n s G)
      (do
        let s ← forRange (fun i s => s.store (p + 4 * i) 0#32) 0 955 ((u.zeroFrame g).setEnv e env)
        forRange (fun i s => do
          let pde ← s.load (s.ptrPageDirectory + 4 * i)
          s.store (p + 4 * i) pde) 955 69 s) := by
  obtain ⟨G₁, hG₁⟩ : ∃ G₁, G₁ = G.setOwn g (some ⟨e, .dir⟩) := ⟨_, rfl⟩
  have hown : G₁.own g = some ⟨e, .dir⟩ := by rw [hG₁, G.setOwn_self]
  obtain ⟨s₁, hs₁⟩ : ∃ s₁, s₁ = (u.zeroFrame g).setEnv e env := ⟨_, rfl⟩
  rw [← hs₁]
  have hb₀ : Builds c e s G u G₁ := by
    rw [hG₁]
    exact hnew.builds ho hd
  have hzero : OnlyFrame g u (u.zeroFrame g) :=
    ⟨⟨rfl, rfl, rfl, rfl, rfl, rfl, rfl, rfl⟩, ⟨rfl, rfl, rfl, rfl, rfl, rfl, rfl⟩,
      fun f hf => u.zeroFrame_mem_frame hf⟩
  have hb₁ : Builds c e s G s₁ G₁ := by
    rw [hs₁]
    exact (hb₀.trans (hzero.builds hb₀.owned hb₀.frames hown rfl)).setEnv env
  have hva₁ : s₁.virtualAddresses g = p := by
    rw [hs₁]
    exact hnew.va_self
  have henv₁ : s₁.envs e = env := by rw [hs₁, setEnv_envs_self]
  have hdir₁ : DirAt s₁ p g := ⟨hva₁, hnew.p_ne⟩
  refine (clearEntries_spec hb₁.owned.inv hdir₁).bind ?_
  rintro s₂ ⟨honly₂, huser₂⟩
  have hb₂ := hb₁.trans (honly₂.builds hb₁.owned hb₁.frames hown rfl)
  have hdir₂ : DirAt s₂ p g := ⟨by rw [honly₂.same.virtualAddresses]; exact hva₁, hnew.p_ne⟩
  refine (copyEntries_spec hb₂.owned.inv hdir₂).imp ?_
  rintro t ⟨honly, huser, hkern⟩
  have henvt : t.envs e = env := by rw [honly.rest.envs, honly₂.rest.envs, henv₁]
  constructor
  case builds =>
    rw [← hG₁]
    exact hb₂.trans (honly.builds hb₂.owned hb₂.frames hown rfl)
  case unowned => exact ho.own_free hnew.mem_free
  case va => rw [honly.same.virtualAddresses, hdir₂.va_eq, henvt, henv]
  case cr3 => rw [henvt, henv]
  case size => rw [henvt, henv]
  case ddir =>
    rw [henvt, henv]
    show (u.envs e).diskEnvPgdir = _
    rw [hnew.same.envs]
  case program =>
    rw [henvt, henv]
    show (u.envs e).progName = _
    rw [hnew.same.envs]
  case user =>
    intro i hi
    rw [huser i hi]
    exact huser₂ i hi
  case kernel => exact hkern
  case spent =>
    have hspent₁ : Spent s s₁ 1 := by
      rw [hs₁]
      exact hnew.kmalloced.spent
    exact (hspent₁.trans honly₂.same.spent).trans honly.same.spent

/-! ## The array and its window -/

/-- The structures of a new environment are complete. -/
structure Shaped (c : Boot) (e n : Nat) (s : Kernel) (G : Ghost) (t : Kernel) (H : Ghost) :
    Prop where
  builds : Builds c e s G t H
  base : Base c t H e
  size : (t.envs e).pageWSMaxSize = n
  roles : ∀ f r, H.own f = some ⟨e, r⟩ → r.inSpace = true ∧ ∀ v, r ≠ .page v
  spent : Spent s t (1 + 2 * pagesOf (n * 12))
  program : (t.envs e).progName = (s.envs e).progName

/-- A page request through `NULL` goes nowhere. -/
theorem mapWindowPage_null (hs : KernelInv c s) (hptr : (s.envs e).ptrPageWorkingSet = 0) :
    ∃ x, mapWindowPage e 0 s = .error x := by
  have hm := hs.map.toStaticMap
  have hpdx : pdx 0 = 0 := rfl
  have hload := Kernel.load_index hm.backed_dir hm.dir_aligned (show 0 < 1024 by decide)
  have hentry : c.dirEntry 0 = 0#32 := by
    simp [Boot.dirEntry, mem_kernelTables]
  rw [hm.dir_entry 0 (by decide), hentry] at hload
  have htable : getPageTable s s.ptrPageDirectory 0 = .ok (0, .notExist) := by
    rw [getPageTable, hpdx, hload, ok_bind, tablePointer_user (by decide)]
    rfl
  refine ⟨.wild (0 + 4 * ptx 0), ?_⟩
  rw [mapWindowPage]
  simp only [hptr, kheapPhysicalAddress, Nat.mul_zero, Nat.add_zero, htable, ok_bind,
    hm.load_null (a := 0 + 4 * ptx 0) (by decide), error_bind]

section Shape

variable {g n : Nat} (hun : Unused G e) (hddir : (s.envs e).diskEnvPgdir = 0)
  (h : HasDir c e g n s G t)
include hun hddir h

/-- The array has been allocated; its window is still closed. -/
theorem HasDir.array {m p : Nat} {w : Kernel} {env : Env}
    (hk : Kmalloced c (t.setEnv e { t.envs e with uptrPws := userPagesWSStart }) w m p)
    (henv : env = { w.envs e with ptrPageWorkingSet := p }) :
    ∃ H, Builds c e s G (w.setEnv e env) H ∧ WsFrames (w.setEnv e env) H e p m ∧
      Space c (w.setEnv e env) H e ∧ (∀ k, H.win e k = false) ∧
      (∀ f r, H.own f = some ⟨e, r⟩ → r = .dir ∨ ∃ k, r = .ws k) ∧ (∀ v, H.slots e v = none) ∧
      ((w.setEnv e env).envs e).pageWSMaxSize = n ∧
      ((w.setEnv e env).envs e).diskEnvPgdir = 0 ∧
      ((w.setEnv e env).envs e).uptrPws = userPagesWSStart ∧
      ((w.setEnv e env).envs e).ptrPageWorkingSet = p ∧ Spent t (w.setEnv e env) m ∧
      ((w.setEnv e env).envs e).progName = (s.envs e).progName := by
  obtain ⟨G₁, hG₁⟩ : ∃ G₁, G₁ = G.setOwn g (some ⟨e, .dir⟩) := ⟨_, rfl⟩
  obtain ⟨t₁, ht₁⟩ : ∃ t₁, t₁ = t.setEnv e { t.envs e with uptrPws := userPagesWSStart } :=
    ⟨_, rfl⟩
  rw [← ht₁] at hk
  have hb₁ : Builds c e s G t₁ G₁ := by
    rw [ht₁, hG₁]
    exact h.builds.setEnv _
  have hrole : ∀ f r, G₁.own f = some ⟨e, r⟩ ↔ f = g ∧ r = .dir := by
    intro f r
    rw [hG₁, Ghost.setOwn_eq_some]
    constructor
    · rintro (⟨hf, hx⟩ | ⟨-, hx⟩)
      · cases hx
        exact ⟨hf, rfl⟩
      · exact absurd hx (hun.own f r)
    · rintro ⟨rfl, rfl⟩
      exact .inl ⟨rfl, rfl⟩
  have hwin₁ : ∀ k, G₁.win e k = false := by
    intro k
    rw [hG₁]
    exact hun.win k
  have hnows : ∀ f k, G₁.own f ≠ some ⟨e, .ws k⟩ := by
    intro f k hf
    cases ((hrole f _).1 hf).2
  obtain ⟨H, hb₂, hfr, hwin₂, hother⟩ := hk.wsBuilds hb₁.owned hb₁.frames hwin₁ hnows
  obtain ⟨t₂, ht₂⟩ : ∃ t₂, t₂ = w.setEnv e env := ⟨_, rfl⟩
  rw [← ht₂]
  have henv₂ : t₂.envs e = env := by rw [ht₂, setEnv_envs_self]
  have henv₁ : w.envs e = { t.envs e with uptrPws := userPagesWSStart } := by
    rw [hk.taken.same.envs, ht₁, setEnv_envs_self]
  rw [henv₁] at henv
  have hb : Builds c e s G t₂ H := by
    rw [ht₂]
    exact (hb₁.trans hb₂).setEnv env
  have hdir : ∀ f, H.own f = some ⟨e, .dir⟩ ↔ f = g := by
    intro f
    rw [hother f _ (fun k => by simp), hrole]
    exact ⟨And.left, fun hx => ⟨hx, rfl⟩⟩
  have hroles : ∀ f r, H.own f = some ⟨e, r⟩ → r = .dir ∨ ∃ k, r = .ws k := by
    intro f r hf
    by_cases hr : ∃ k, r = .ws k
    · exact .inr hr
    · rw [hother f r fun k hk => hr ⟨k, hk⟩, hrole] at hf
      exact .inl hf.2
  have hwin : ∀ k, H.win e k = false := fun k => by rw [hwin₂]; exact hwin₁ k
  have hgn : ¬ c.KernelFrame g := by
    refine hb₁.owned.not_kernelFrame ?_
    rw [(hrole g _).2 ⟨rfl, rfl⟩]
    simp
  have hmem : t₂.mem g = t.mem g := by
    rw [ht₂]
    show w.mem g = _
    rw [hk.taken.mem_eq g hgn, ht₁]
    rfl
  have hva : t₂.virtualAddresses g = t.virtualAddresses g := by
    rw [ht₂]
    show w.virtualAddresses g = _
    rw [hk.taken.va_old g fun hx => ?_, ht₁]
    · rfl
    · have := hb₁.owned.own_free (List.mem_of_mem_take hx)
      rw [(hrole g _).2 ⟨rfl, rfl⟩] at this
      cases this
  refine ⟨H, hb, ⟨hfr.frame, ?_, ?_⟩, ?_, hwin, hroles, ?_, ?_, ?_, ?_, ?_, ?_, ?_⟩
  · rw [ht₂]
    exact hfr.at_page
  · rw [ht₂]
    exact hfr.block
  · refine Space.fresh (g := g) hdir ?_ ?_ ?_ ?_ ?_ ?_
    · intro f i hf
      rcases hroles f _ hf with hx | ⟨k, hx⟩ <;> cases hx
    · intro v f b ht
      cases b with
      | false => rcases hroles f _ ht with hx | ⟨k, hx⟩ <;> cases hx
      | true =>
        obtain ⟨k, -, hx, -⟩ := ht
        rw [hwin] at hx
        cases hx
    · rw [henv₂, henv]
      exact h.cr3
    · rw [hva, henv₂, henv]
      exact h.va
    · intro i hi
      rw [hmem]
      exact h.user i hi
    · intro i hle hlt
      rw [hmem]
      exact h.kernel i hle hlt
  · intro v
    rw [hb.slots]
    exact hun.slots v
  · rw [henv₂, henv]
    exact h.size
  · rw [henv₂, henv]
    exact h.ddir.trans hddir
  · rw [henv₂, henv]
  · rw [henv₂, henv]
  · have hspent : Spent t₁ t₂ m := by
      rw [ht₂]
      exact hk.spent
    rw [ht₁] at hspent
    exact hspent
  · rw [henv₂, henv]
    exact h.program

/-- `create_user_page_WS` and the loop that maps the window. -/
theorem HasDir.shape_spec (hn : 1 ≤ n) (hwrap : n * 12 + 4095 < wordMod) :
    Ensures (fun _ => ¬ Enough s (1 + 2 * pagesOf (n * 12))) (fun u => ∃ H, Shaped c e n s G u H)
      (do
        let (ws, u) ← createUserPageWS (t.setEnv e { t.envs e with uptrPws := userPagesWSStart }) n
        let u := u.setEnv e { u.envs e with ptrPageWorkingSet := ws }
        forRange (mapWindowPage e) 0 (pagesOf ((u.envs e).pageWSMaxSize * 12 % wordMod)) u) := by
  have hmod : n * 12 % wordMod = n * 12 := Nat.mod_eq_of_lt (by omega)
  simp only [wordMod] at hwrap
  have hm : heapPages (n * 12) = pagesOf (n * 12) := by
    rw [heapPages_eq (by omega), pagesOf]
  have hinv : KernelInv c (t.setEnv e { t.envs e with uptrPws := userPagesWSStart }) :=
    (h.builds.setEnv _).owned.inv
  -- one page for the directory, `m` for the array and at most `m` tables for the window
  obtain ⟨m, hm'⟩ : ∃ m, m = pagesOf (n * 12) := ⟨_, rfl⟩
  rw [← hm'] at hm ⊢
  have hleft : Enough s (1 + 2 * m) → Enough t (m + m) := fun hen =>
    (hen.mono (show 1 + (m + m) ≤ 1 + 2 * m by omega)).after h.spent
  rw [createUserPageWS, hmod]
  refine ((kmalloc_spec hinv (by omega) (by omega)).mono (F := fun _ => ¬ Enough s (1 + 2 * m))
    ?_ fun _ hr => hr).bind ?_
  · rintro x ⟨hlen, -⟩ hen
    have hfew := (hleft hen).1
    have hlist : t.freeFrameList.length < heapPages (n * 12) := hlen
    omega
  rintro ⟨p, w⟩ (⟨hp, hw, htop⟩ | hk)
  · -- no room for the array: the first page of the window is looked up through `NULL`
    simp only at hp hw
    have hno : ¬ Enough s (1 + 2 * m) := by
      intro hen
      have hheap := (hleft hen).2
      have htop' : kernelHeapMax ≤ t.firstFreeVAInKHeap + 4096 * heapPages (n * 12) := htop
      omega
    subst hp hw
    obtain ⟨w, hw⟩ : ∃ w, w = (t.setEnv e { t.envs e with uptrPws := userPagesWSStart }) := ⟨_, rfl⟩
    rw [← hw] at hinv ⊢
    obtain ⟨env, henv⟩ : ∃ env : Env, env = { w.envs e with ptrPageWorkingSet := 0 } := ⟨_, rfl⟩
    suffices hgoal : Ensures (fun _ => ¬ Enough s (1 + 2 * m)) (fun u => ∃ H, Shaped c e n s G u H)
        (forRange (mapWindowPage e) 0
          (pagesOf (((w.setEnv e env).envs e).pageWSMaxSize * 12 % wordMod)) (w.setEnv e env)) by
      rw [henv] at hgoal
      exact hgoal
    have hsize : ((w.setEnv e env).envs e).pageWSMaxSize = n := by
      rw [setEnv_envs_self, henv, hw, setEnv_envs_self]
      exact h.size
    have hinv' : KernelInv c (w.setEnv e env) :=
      hinv.congr (SameFrames.setEnv w e _) fun _ _ => rfl
    obtain ⟨x, hx⟩ := mapWindowPage_null (e := e) hinv' (by rw [setEnv_envs_self, henv])
    have hpos : 0 < pagesOf (n * 12 % wordMod) := by
      rw [hmod, pagesOf]
      omega
    rw [hsize, forRange_error hpos hx]
    exact hno
  · simp only at hk
    rw [hm] at hk
    obtain ⟨env, henv⟩ : ∃ env : Env, env = { w.envs e with ptrPageWorkingSet := p } := ⟨_, rfl⟩
    obtain ⟨H, hb, hfr, hspace, hwin, hroles, hslots, hsize, hdd, huptr, hptr, hspent,
        hprog⟩ := h.array hun hddir hk henv
    suffices hgoal : Ensures (fun _ => ¬ Enough s (1 + 2 * m)) (fun u => ∃ H, Shaped c e n s G u H)
        (forRange (mapWindowPage e) 0
          (pagesOf (((w.setEnv e env).envs e).pageWSMaxSize * 12 % wordMod)) (w.setEnv e env)) by
      rw [henv] at hgoal
      exact hgoal
    rw [hsize, hmod, ← hm']
    -- a block of the kernel heap is shorter than the space above the window
    have hbound : userPagesWSStart + 4096 * m < userTop := by
      have hfits := hk.fits
      have hstart := hinv.map.le_top
      rw [← hk.p_eq] at hstart
      simp only [kernelHeapMax, kernelHeapStart, userPagesWSStart, userTop] at *
      omega
    have hnopage : ∀ f v, H.own f ≠ some ⟨e, .page v⟩ := by
      intro f v hf
      rcases hroles f _ hf with hx | ⟨k, hx⟩ <;> cases hx
    refine (hfr.mapWindow_spec hb.owned hb.frames hspace hptr huptr hbound hwin hnopage).mono
      (fun _ hx hen => hx ((hleft hen).after hspent)) ?_
    rintro u ⟨I, hopen⟩
    have hnodisk : ∀ f r, r.inDisk = true → H.own f ≠ some ⟨e, r⟩ := by
      intro f r hr hf
      rcases hroles f r hf with rfl | ⟨k, rfl⟩ <;> cases hr
    refine ⟨I, hb.trans hopen.builds, hopen.base hfr hptr huptr (by rw [hsize]; exact hn) ?_ hdd
      hnodisk hslots, by rw [hopen.envs, hsize], fun f r hf => ?_, ?_, ?_⟩
    · rw [hm', Kernel.wsPages, hsize]
    · rcases hopen.roles f r hf with hx | ⟨i, rfl⟩
      · rcases hroles f r hx with rfl | ⟨k, rfl⟩
        · exact ⟨rfl, fun v hx => by cases hx⟩
        · exact ⟨rfl, fun v hx => by cases hx⟩
      · exact ⟨rfl, fun v hx => by cases hx⟩
    · rw [← hm']
      exact ((h.spent.trans hspent).trans hopen.spent).mono (by omega)
    · rw [hopen.envs, hprog]

end Shape

/-! ## initialize_environment -/

/-- An environment whose program is still to be loaded. -/
structure Fresh (c : Boot) (e n : Nat) (s : Kernel) (G : Ghost) (t : Kernel) (H : Ghost) :
    Prop where
  owned : Owned c t H
  frames : DiskFrames t H
  others : Local e s G t H
  lost : H.lost = G.lost
  held : NoHeld G → NoHeld H
  base : Base c t H e
  size : t.wsMax e = n
  last : (t.envs e).pageLastWSIndex = 0
  empty : ∀ i < n, t.wsVa e i = 0 ∧ t.wsFlag e i = 1#8
  pages : ∀ f v, H.own f ≠ some ⟨e, .page v⟩
  slots : ∀ v, H.slots e v = none
  envFreeList : t.envFreeList = s.envFreeList.erase e
  curenv : t.curenv = s.curenv
  cr3 : t.cr3 = s.cr3
  policy : t.pageRepAlgoType = s.pageRepAlgoType
  spent : Spent s t (1 + 2 * pagesOf (n * 12))
  diskList : t.diskFreeFrameList = s.diskFreeFrameList
  tables : (t.envs e).tableLastWSIndex = 0
  program : (t.envs e).progName = (s.envs e).progName

/-- The self maps, the record and the free list of environments. -/
theorem Base.complete_spec (ho : Owned c s G) (hb : Base c s G e) (hd : DiskFrames s G)
    (hddir : (s.envs e).diskEnvPgdir = 0) :
    ∃ t, completeEnvironmentInitialization s e =
        .ok (t.withRun (s.envFreeList.erase e) s.curenv s.cr3 s.pageRepAlgoType) ∧
      EnvStep c e 0 s G t G ∧ SameWs e s t ∧
      (t.envs e).pageLastWSIndex = (s.envs e).pageLastWSIndex ∧
      t.diskFreeFrameList = s.diskFreeFrameList ∧
      (t.envs e).tableLastWSIndex = (s.envs e).tableLastWSIndex := by
  have hdir := hb.space.dirAt ho
  obtain ⟨w₁, hw₁⟩ : ∃ w, w = constructEntry (s.envs e).envCr3 (permPresent ||| permWriteable) :=
    ⟨_, rfl⟩
  obtain ⟨w₂, hw₂⟩ : ∃ w, w = constructEntry (s.envs e).envCr3 (permPresent ||| permUser) :=
    ⟨_, rfl⟩
  have hlook₁ := hb.space.lookDir (hb.space.markSelf (Or.inr rfl) w₁)
  obtain ⟨s₁, hs₁⟩ : ∃ s₁, s₁ = s.setWord (s.dirFrame e) 959 w₁ := ⟨_, rfl⟩
  have hstore₁ : s.store ((s.envs e).envPageDirectory + 4 * 959) w₁ = .ok s₁ := by
    rw [hs₁]
    exact hdir.store ho.inv.map (by decide) w₁
  rw [← hs₁] at hlook₁
  have hst₁ := hlook₁.envStep ho hb hd
  have hws₁ := hlook₁.sameWs ho hb hd
  have hdir₁ : DirAt s₁ (s.envs e).envPageDirectory (s.dirFrame e) :=
    ⟨by rw [hs₁]; exact hdir.va_eq, hdir.ne_zero⟩
  have hdf : s₁.dirFrame e = s.dirFrame e := by
    rw [hs₁]
    rfl
  have hlook₂ := hst₁.base.space.lookDir (hst₁.base.space.markSelf (Or.inl rfl) w₂)
  rw [hdf] at hlook₂
  obtain ⟨s₂, hs₂⟩ : ∃ s₂, s₂ = s₁.setWord (s.dirFrame e) 957 w₂ := ⟨_, rfl⟩
  have hstore₂ : s₁.store ((s.envs e).envPageDirectory + 4 * 957) w₂ = .ok s₂ := by
    rw [hs₂]
    exact hdir₁.store hst₁.owned.inv.map (by decide) w₂
  rw [← hs₂] at hlook₂
  have hst₂ := hlook₂.envStep hst₁.owned hst₁.base hst₁.frames
  have hws₂ := hlook₂.sameWs hst₁.owned hst₁.base hst₁.frames
  have henvs : s₂.envs e = s.envs e := by rw [hlook₂.rest.envs, hlook₁.rest.envs]
  obtain ⟨env, henv⟩ : ∃ env : Env, env = { s₂.envs e with diskEnvPgdir := 0, diskEnvTabledir := 0 } :=
    ⟨_, rfl⟩
  have hsame : SameEnv (s₂.envs e) env := by
    rw [henv]
    exact ⟨rfl, rfl, rfl, rfl, rfl, rfl⟩
  have hst₃ := EnvStep.setEnv hst₂.owned hst₂.base hst₂.frames hsame (by rw [henv, henvs, hddir])
  have hws₃ : SameWs e s₂ (s₂.setEnv e env) := by
    intro j _
    rw [Kernel.wsWord, setEnv_envs_self, hsame.ptrPageWorkingSet]
    rfl
  refine ⟨s₂.setEnv e env, ?_, (hst₁.trans hst₂).trans hst₃, ?_, ?_, ?_, ?_⟩
  · simp only [completeEnvironmentInitialization, ← hw₁, ← hw₂, hstore₁, hstore₂, ok_bind, ← henv]
    have hrun : SameRun s (s₂.setEnv e env) := (hst₁.run.trans hst₂.run).trans hst₃.run
    rw [hrun.envFreeList, Kernel.withRun, ← hrun.curenv, ← hrun.cr3, ← hrun.pageRepAlgoType]
  · exact (hws₁.trans hws₂ hst₁.env.pageWSMaxSize).trans hws₃ (by rw [Kernel.wsMax, henvs])
  · rw [setEnv_envs_self, henv, henvs]
  · show s₂.diskFreeFrameList = _
    rw [hlook₂.rest.diskFreeFrameList, hlook₁.rest.diskFreeFrameList]
  · rw [setEnv_envs_self, henv, henvs]

/-- From `create_user_directory` to the end of `initialize_environment`. -/
theorem Unused.initialize_spec {n : Nat} (ho : Owned c s G) (hd : DiskFrames s G)
    (hun : Unused G e) (hddir : (s.envs e).diskEnvPgdir = 0) (hn : 1 ≤ n)
    (hwrap : n * 12 + 4095 < wordMod) :
    Ensures (fun _ => ¬ Enough s (1 + 2 * pagesOf (n * 12))) (fun t => ∃ H, Fresh c e n s G t H)
      (do
        let (dir, u) ← createUserDirectory s
        let phys ← kheapPhysicalAddress u dir
        let u := u.setEnv e { u.envs e with pageWSMaxSize := n }
        initializeEnvironment u e dir phys) := by
  obtain ⟨k, hk⟩ : ∃ k, k = 1 + 2 * pagesOf (n * 12) := ⟨_, rfl⟩
  rw [← hk]
  refine ((createUserDirectory_spec ho.inv).mono (F := fun _ => ¬ Enough s k)
    (fun _ hx hen => hx.2.not_enough (hen.mono (by omega))) fun _ hr => hr).bind ?_
  rintro ⟨p, w⟩ ⟨g, u, hnew, hw⟩
  simp only at hnew hw
  subst hw
  have hva : (u.zeroFrame g).virtualAddresses g = p := hnew.va_self
  have hgn : ¬ c.KernelFrame g := hnew.inv.map.not_kernelFrame (by rw [hnew.va_self]; exact hnew.p_ne)
  have hphys := (hnew.inv.zeroFrame hgn).map.physical (f := g) (by rw [hva]; exact hnew.p_ne)
  rw [hva] at hphys
  simp only [hphys, ok_bind, initializeEnvironment]
  -- the two assignments to the record before the directory is filled
  obtain ⟨env, henv⟩ : ∃ env : Env, env = { (u.zeroFrame g).envs e with
      pageWSMaxSize := n, envPageDirectory := p, envCr3 := g * 4096 } := ⟨_, rfl⟩
  have hset : ((u.zeroFrame g).setEnv e { (u.zeroFrame g).envs e with pageWSMaxSize := n }).setEnv e
      { ((u.zeroFrame g).setEnv e { (u.zeroFrame g).envs e with pageWSMaxSize := n }).envs e with
        envPageDirectory := p, envCr3 := g * 4096 } = (u.zeroFrame g).setEnv e env := by
    rw [setEnv_envs_self, henv]
    simp [Kernel.setEnv]
  rw [hset]
  have hfill := HasDir.of_new ho hd hnew henv
  rw [ensures_bind] at hfill
  refine (hfill.mono (F := fun _ => ¬ Enough s k) (fun _ hx => hx.elim) fun _ hr => hr).bind ?_
  intro s₁ hfill
  refine (hfill.mono (F := fun _ => ¬ Enough s k) (fun _ hx => hx.elim) fun _ hr => hr).bind ?_
  intro t hdir
  have hsize : ((t.setEnv e { t.envs e with uptrPws := userPagesWSStart }).envs e).pageWSMaxSize = n := by
    rw [setEnv_envs_self]
    exact hdir.size
  rw [hsize]
  have hshape := hdir.shape_spec hun hddir hn hwrap
  rw [← hk, ensures_bind] at hshape
  refine hshape.bind ?_
  rintro ⟨ws, w⟩ hshape
  refine hshape.bind ?_
  rintro v ⟨H, hsh⟩
  have hmax : v.wsMax e = n := hsh.size
  have hel := hsh.base.clearElements hsh.builds.owned hsh.builds.frames
  rw [hmax] at hel
  rw [hsh.size]
  refine (hel.mono (F := fun _ => ¬ Enough s k) (fun _ hx => hx.elim) fun _ hr => hr).bind ?_
  rintro v₁ ⟨hst₁, henvs₁, hlist₁, hempty₁⟩
  obtain ⟨env₂, henv₂⟩ : ∃ env₂ : Env, env₂ = { v₁.envs e with
      pageLastWSIndex := 0
      tws := fun _ => { virtualAddress := 0, empty := 1, timeStamp := 0 }
      tableLastWSIndex := 0 } := ⟨_, rfl⟩
  rw [← henv₂]
  have hsame₂ : SameEnv (v₁.envs e) env₂ := by
    rw [henv₂]
    exact ⟨rfl, rfl, rfl, rfl, rfl, rfl⟩
  have hst₂ := EnvStep.setEnv hst₁.owned hst₁.base hst₁.frames hsame₂ (by rw [henv₂])
  have hws₂ : SameWs e v₁ (v₁.setEnv e env₂) := by
    intro j _
    rw [Kernel.wsWord, setEnv_envs_self, hsame₂.ptrPageWorkingSet]
    rfl
  have hddir₂ : ((v₁.setEnv e env₂).envs e).diskEnvPgdir = 0 := by
    have hb := hsh.base.slots
    rw [setEnv_envs_self, henv₂]
    show (v₁.envs e).diskEnvPgdir = 0
    rw [henvs₁]
    by_contra hne
    obtain ⟨f, hf⟩ := hb.dir_exists hne
    exact absurd (hsh.roles f _ hf).1 (by decide)
  obtain ⟨v₃, hcomplete, hst₃, hws₃, hlast₃, hlist₃,
    htables₃⟩ := hst₂.base.complete_spec hst₂.owned hst₂.frames hddir₂
  rw [hcomplete]
  have hst := (hst₁.trans hst₂).trans hst₃
  have hall : Local e s G v₃ H := hsh.builds.others.trans hst.others
  have hmax₁ : v₁.wsMax e = n := hst₁.env.pageWSMaxSize.trans hmax
  have hmax₂ : (v₁.setEnv e env₂).wsMax e = n := hst₂.env.pageWSMaxSize.trans hmax₁
  have hrun : SameRun s v₃ := hsh.builds.run.trans hst.run
  refine ⟨H, hst.owned.withRun, hst.frames.withRun, hall.trans (Local.withRun e v₃ H),
    hsh.builds.lost, ?_, hst.base.withRun, ?_, ?_, ?_, ?_, ?_, ?_, ?_, ?_, ?_, ?_, ?_, ?_, ?_⟩
  · intro hno f e' hf
    by_cases he : e' = e
    · subst he
      exact absurd (hsh.roles f _ hf).1 (by decide)
    · exact hno f e' (((hsh.builds.others.keeps e' he).own f _ rfl).1 hf)
  · exact hst.env.pageWSMaxSize.trans hmax
  · show (v₃.envs e).pageLastWSIndex = 0
    rw [hlast₃, setEnv_envs_self, henv₂]
  · intro i hi
    have hi₁ : i < v₁.wsMax e := by
      rw [hmax₁]
      exact hi
    have hi₂ : i < (v₁.setEnv e env₂).wsMax e := by
      rw [hmax₂]
      exact hi
    show v₃.wsVa e i = 0 ∧ v₃.wsFlag e i = 1#8
    rw [hws₃.va hi₂, hws₂.va hi₁, hws₃.flag hi₂, hws₂.flag hi₁]
    exact hempty₁ i hi
  · exact fun f v hf => (hsh.roles f _ hf).2 v rfl
  · intro v
    rw [hsh.builds.slots]
    exact hun.slots v
  · show (v₁.setEnv e env₂).envFreeList.erase e = _
    rw [hst₂.run.envFreeList, hst₁.run.envFreeList, hsh.builds.run.envFreeList]
  · show (v₁.setEnv e env₂).curenv = _
    rw [hst₂.run.curenv, hst₁.run.curenv, hsh.builds.run.curenv]
  · show (v₁.setEnv e env₂).cr3 = _
    rw [hst₂.run.cr3, hst₁.run.cr3, hsh.builds.run.cr3]
  · show (v₁.setEnv e env₂).pageRepAlgoType = _
    rw [hst₂.run.pageRepAlgoType, hst₁.run.pageRepAlgoType, hsh.builds.run.pageRepAlgoType]
  · exact hsh.spent.trans hst.spent
  · show v₃.diskFreeFrameList = _
    rw [hlist₃, ← hsh.builds.diskList, ← hlist₁]
    rfl
  · show (v₃.envs e).tableLastWSIndex = 0
    rw [htables₃, setEnv_envs_self, henv₂]
  · show (v₃.envs e).progName = _
    rw [hst.env.progName, hsh.program]

end FosMemory
