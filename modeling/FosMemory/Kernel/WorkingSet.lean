import FosMemory.Kernel.PageFileFree

/-!
# WorkingSet — the working set array and steps inside one environment

The array of an environment is a block of the kernel heap whose pages are also mapped, read-only,
in its window at `USER_PAGES_WS_START`.  `WsArray` is that geometry; `Base` joins it to the user
half of the directory and to the disk tables.  `EnvStep` is the frame condition every operation on
behalf of an environment satisfies, `SamePage` says that such an operation has left a page alone.
-/

namespace FosMemory

open Lib

variable {c : Boot} {s t u : Kernel} {G H I : Ghost} {e : Nat}

/-! ## The array -/

/-- `page_WS_max_size`. -/
abbrev Kernel.wsMax (s : Kernel) (e : Nat) : Nat :=
  (s.envs e).pageWSMaxSize

/-- Number of pages of the working set array of `e`. -/
def Kernel.wsPages (s : Kernel) (e : Nat) : Nat :=
  pagesOf ((s.envs e).pageWSMaxSize * 12)

/-- Word `j` of the working set array of `e`. -/
def Kernel.wsWord (s : Kernel) (e j : Nat) : Word :=
  s.mem (s.kernelEntry ((s.envs e).ptrPageWorkingSet + 4 * j)).frame (j % 1024)

/-- Write word `j` of the working set array of `e`. -/
def Kernel.setWs (s : Kernel) (e j : Nat) (w : Word) : Kernel :=
  s.setWord (s.kernelEntry ((s.envs e).ptrPageWorkingSet + 4 * j)).frame (j % 1024) w

structure WsArray (s : Kernel) (G : Ghost) (e : Nat) : Prop where
  size_pos : 1 ≤ (s.envs e).pageWSMaxSize
  frame : ∀ k < s.wsPages e, ∃ f, G.own f = some ⟨e, .ws k⟩
  at_page : ∀ f k, G.own f = some ⟨e, .ws k⟩ → k < s.wsPages e ∧
    s.virtualAddresses f = (s.envs e).ptrPageWorkingSet + 4096 * k
  block : Block s (s.envs e).ptrPageWorkingSet (s.wsPages e)
  uptr : (s.envs e).uptrPws = userPagesWSStart
  win : ∀ k, G.win e k = decide (k < s.wsPages e)

section Array

variable (h : WsArray s G e) (ho : Owned c s G)
include h

theorem WsArray.pages_pos : 0 < s.wsPages e := by
  have := h.size_pos
  simp only [Kernel.wsPages, pagesOf]
  omega

theorem WsArray.wsAt : WsAt s G e := by
  obtain ⟨f, hf⟩ := h.frame 0 h.pages_pos
  exact ⟨f, hf, by rw [(h.at_page f 0 hf).2]; omega⟩

include ho

theorem WsArray.frame_heap {f k : Nat} (hf : G.own f = some ⟨e, .ws k⟩) :
    isHeapPage ((s.envs e).ptrPageWorkingSet + 4096 * k) = true := by
  rw [← (h.at_page f k hf).2]
  exact ho.inv.map.heapPage f (ho.ws hf).1

/-- The array lies in the kernel heap. -/
theorem WsArray.bounds : (s.envs e).ptrPageWorkingSet % 4096 = 0 ∧
    0xF6000000 ≤ (s.envs e).ptrPageWorkingSet ∧
    (s.envs e).ptrPageWorkingSet + 4096 * s.wsPages e ≤ 0xFFFFF000 := by
  have hpos := h.pages_pos
  obtain ⟨f, hf⟩ := h.frame 0 hpos
  obtain ⟨g, hg⟩ := h.frame (s.wsPages e - 1) (by omega)
  have h₀ := isHeapPage_iff.1 (h.frame_heap ho hf)
  have h₁ := isHeapPage_iff.1 (h.frame_heap ho hg)
  omega

theorem WsArray.ws_unique {f g k : Nat} (hf : G.own f = some ⟨e, .ws k⟩)
    (hg : G.own g = some ⟨e, .ws k⟩) : g = f := by
  have hva : s.virtualAddresses g = s.virtualAddresses f := by
    rw [(h.at_page f k hf).2, (h.at_page g k hg).2]
  exact ho.inv.map.virtualAddresses_inj (ho.ws hg).1 hva

/-- The size of the array is far from wrapping around. -/
theorem WsArray.size_lt : (s.envs e).pageWSMaxSize * 12 < 0xA000000 := by
  have hb := h.bounds ho
  have hle : (s.envs e).pageWSMaxSize * 12 ≤ 4096 * s.wsPages e := by
    simp only [Kernel.wsPages, pagesOf]
    omega
  omega

omit h ho in
theorem WsArray.index_lt {j : Nat} (hj : j < 3 * s.wsMax e) :
    j / 1024 < s.wsPages e := by
  simp only [Kernel.wsMax] at hj
  simp only [Kernel.wsPages, pagesOf]
  omega

/-- The frame behind a word of the array. -/
theorem WsArray.kernelEntry {f k j : Nat} (hf : G.own f = some ⟨e, .ws k⟩) (hk : j / 1024 = k) :
    s.Backed ((s.envs e).ptrPageWorkingSet + 4 * j) f := by
  have hheap := isHeapPage_iff.1 (h.frame_heap ho hf)
  have hat := (h.at_page f k hf).2
  have hb := ho.inv.map.backed_heap (ho.ws hf).1
  rw [hat] at hb
  have haddr : (s.envs e).ptrPageWorkingSet + 4 * j =
      (s.envs e).ptrPageWorkingSet + 4096 * k + 4 * (j % 1024) := by omega
  rw [haddr, Kernel.Backed, s.kernelEntry_page hheap.2.2 (Nat.mod_lt _ (by decide))]
  exact hb

theorem WsArray.wsWord_eq {f k j : Nat} (hf : G.own f = some ⟨e, .ws k⟩) (hk : j / 1024 = k) :
    s.wsWord e j = s.mem f (j % 1024) := by
  rw [Kernel.wsWord, (h.kernelEntry ho hf hk).frame_eq]

theorem WsArray.setWs_eq {f k j : Nat} (hf : G.own f = some ⟨e, .ws k⟩) (hk : j / 1024 = k)
    (w : Word) : s.setWs e j w = s.setWord f (j % 1024) w := by
  rw [Kernel.setWs, (h.kernelEntry ho hf hk).frame_eq]

theorem WsArray.word_offset (j : Nat) :
    ((s.envs e).ptrPageWorkingSet + 4 * j) % 4096 / 4 = j % 1024 := by
  have hb := h.bounds ho
  omega

theorem WsArray.load_word {j : Nat} (hj : j < 3 * s.wsMax e) :
    s.load ((s.envs e).ptrPageWorkingSet + 4 * j) = .ok (s.wsWord e j) := by
  obtain ⟨f, hf⟩ := h.frame _ (WsArray.index_lt hj)
  rw [(h.kernelEntry ho hf rfl).load, h.word_offset ho, h.wsWord_eq ho hf rfl]

theorem WsArray.store_word {j : Nat} (hj : j < 3 * s.wsMax e) (w : Word) :
    s.store ((s.envs e).ptrPageWorkingSet + 4 * j) w = .ok (s.setWs e j w) := by
  obtain ⟨f, hf⟩ := h.frame _ (WsArray.index_lt hj)
  rw [(h.kernelEntry ho hf rfl).store, h.word_offset ho, h.setWs_eq ho hf rfl]

end Array

/-! ## The invariant of an environment -/

/-- Directory, disk tables and working set array of `e` are in order. -/
structure Base (c : Boot) (s : Kernel) (G : Ghost) (e : Nat) : Prop where
  space : Space c s G e
  slots : SlotTable s G e
  array : WsArray s G e

/-- The array of an environment that keeps its frames and its record. -/
theorem WsArray.of_keeps {P : Role → Bool} (h : WsArray s G e) (hk : Keeps e P s G t H)
    (hP : ∀ k, P (.ws k) = true) (hblock : KeepsBlock e s G t)
    (henv : SameEnv (s.envs e) (t.envs e)) (hwin : H.win e = G.win e) : WsArray t H e := by
  have hpages : t.wsPages e = s.wsPages e := by
    rw [Kernel.wsPages, henv.pageWSMaxSize, Kernel.wsPages]
  constructor
  case size_pos =>
    rw [henv.pageWSMaxSize]
    exact h.size_pos
  case frame =>
    intro k hk'
    rw [hpages] at hk'
    obtain ⟨f, hf⟩ := h.frame k hk'
    exact ⟨f, (hk.own f _ (hP k)).2 hf⟩
  case at_page =>
    intro f k hf
    have hf := (hk.own f _ (hP k)).1 hf
    rw [hpages, hk.va f _ (hP k) hf, henv.ptrPageWorkingSet]
    exact h.at_page f k hf
  case block =>
    rw [hpages, henv.ptrPageWorkingSet]
    exact hblock _ h.wsAt h.block
  case uptr =>
    rw [henv.uptrPws]
    exact h.uptr
  case win =>
    intro k
    rw [hwin, hpages]
    exact h.win k

theorem Base.of_local {e' : Nat} (h : Base c s G e') (hst : Local e s G t H) (hne : e' ≠ e) :
    Base c t H e' := by
  have henv : SameEnv (s.envs e') (t.envs e') := by
    rw [hst.envs e' hne]
    exact SameEnv.refl _
  exact ⟨h.space.of_local hst hne, h.slots.of_local hst hne,
    h.array.of_keeps (hst.keeps e' hne) (fun _ => rfl) (hst.block e' hne) henv (hst.win e' hne)⟩

/-! ## Steps inside an environment -/

theorem SameEnv.trans {a b d : Env} (h : SameEnv a b) (h' : SameEnv b d) : SameEnv a d :=
  ⟨h'.1.trans h.1, h'.2.trans h.2, h'.3.trans h.3, h'.4.trans h.4, h'.5.trans h.5,
    h'.6.trans h.6⟩

/-- A step on behalf of `e` that uses at most `k` frames. -/
structure EnvStep (c : Boot) (e k : Nat) (s : Kernel) (G : Ghost) (t : Kernel) (H : Ghost) :
    Prop where
  owned : Owned c t H
  base : Base c t H e
  frames : DiskFrames t H
  others : Local e s G t H
  lost : H.lost = G.lost
  spent : Spent s t k
  run : SameRun s t
  env : SameEnv (s.envs e) (t.envs e)
  ddir : (s.envs e).diskEnvPgdir ≠ 0 → (t.envs e).diskEnvPgdir ≠ 0

theorem EnvStep.refl (ho : Owned c s G) (hb : Base c s G e) (hd : DiskFrames s G) :
    EnvStep c e 0 s G s G :=
  ⟨ho, hb, hd, Local.refl e s G, rfl, Spent.refl s, SameRun.refl s, SameEnv.refl _, id⟩

theorem EnvStep.trans {k m : Nat} (h : EnvStep c e k s G t H) (h' : EnvStep c e m t H u I) :
    EnvStep c e (k + m) s G u I :=
  ⟨h'.owned, h'.base, h'.frames, h.others.trans h'.others, h'.lost.trans h.lost,
    h.spent.trans h'.spent, h.run.trans h'.run, h.env.trans h'.env, fun hx => h'.ddir (h.ddir hx)⟩

theorem EnvStep.mono {k m : Nat} (h : EnvStep c e k s G t H) (hkm : k ≤ m) :
    EnvStep c e m s G t H :=
  { h with spent := h.spent.mono hkm }

/-- Mapping and unmapping. -/
theorem Moves.envStep {P : Role → Bool} {k : Nat} (h : Moves c e P k s G t H) (hb : Base c s G e)
    (hd : DiskFrames s G) (hws : ∀ k, P (.ws k) = true) (hdisk : ∀ r, r.inDisk = true → P r = true)
    (hslots : H.slots = G.slots) (hrest : SameRest s t) : EnvStep c e k s G t H := by
  have henv : SameEnv (s.envs e) (t.envs e) := by
    rw [hrest.envs]
    exact SameEnv.refl _
  constructor
  case owned => exact h.owned
  case base =>
    exact ⟨h.space, hb.slots.of_keeps h.keeps hdisk (by rw [hrest.envs]) (by rw [hslots]),
      hb.array.of_keeps h.keeps hws h.block henv (by rw [h.win])⟩
  case frames => exact hd.congr hrest.diskFreeFrameList hslots
  case others => exact h.others
  case lost => exact h.lost
  case spent => exact h.spent
  case run => exact hrest.run
  case env => exact henv
  case ddir =>
    rw [hrest.envs]
    exact id

/-- Changes of the disk tables. -/
theorem Filed.envStep {k : Nat} (h : Filed c e k s G t H) (hb : Base c s G e)
    (hddir : (s.envs e).diskEnvPgdir ≠ 0 → (t.envs e).diskEnvPgdir ≠ 0) :
    EnvStep c e k s G t H := by
  have henv : SameEnv (s.envs e) (t.envs e) := by
    rw [h.env]
    exact ⟨rfl, rfl, rfl, rfl, rfl, rfl⟩
  exact ⟨h.owned, ⟨h.space hb.space, h.table,
    hb.array.of_keeps h.keeps (fun _ => rfl) h.block henv (by rw [h.win])⟩, h.frames, h.others,
    h.lost, h.spent, h.run, henv, hddir⟩

/-- Only memory has changed, and none of it is the kernel's, another environment's or part of the
disk tables. -/
theorem EnvStep.of_write (ho : Owned c s G) (hb : Base c s G e) (hd : DiskFrames s G)
    (hsame : SameFrames s t) (hrest : SameRest s t)
    (hkern : ∀ f, c.KernelFrame f → t.mem f = s.mem f)
    (hmem : ∀ f o, G.own f = some o → o.env ≠ e ∨ o.role.inDisk = true → t.mem f = s.mem f)
    (hspace : Space c t G e) (hzero : t.mem 1 = s.mem 1) : EnvStep c e 0 s G t G := by
  have henv : SameEnv (s.envs e) (t.envs e) := by
    rw [hrest.envs]
    exact SameEnv.refl _
  have hkeeps : Keeps e (fun r => r.inDisk) s G t G :=
    ⟨fun _ _ _ => Iff.rfl, fun f r hr hf => hmem f _ hf (.inr hr),
      fun _ _ _ _ => by rw [hsame.virtualAddresses]⟩
  have hpages : t.wsPages e = s.wsPages e := by
    rw [Kernel.wsPages, hrest.envs, Kernel.wsPages]
  constructor
  case owned => exact ho.congr hsame hkern rfl rfl rfl
  case base =>
    refine ⟨hspace, hb.slots.of_keeps hkeeps (fun _ hr => hr) (by rw [hrest.envs]) rfl, ?_⟩
    constructor
    case size_pos => rw [hrest.envs]; exact hb.array.size_pos
    case frame => rw [hpages]; exact hb.array.frame
    case at_page => rw [hpages, hsame.virtualAddresses, hrest.envs]; exact hb.array.at_page
    case block => rw [hpages, hrest.envs]; exact hsame.block hb.array.block
    case uptr => rw [hrest.envs]; exact hb.array.uptr
    case win => rw [hpages]; exact hb.array.win
  case frames => exact hd.congr hrest.diskFreeFrameList rfl
  case others =>
    refine ⟨fun e' he => ⟨fun _ _ _ => Iff.rfl, fun f r _ hf => hmem f _ hf (.inl he),
      fun _ _ _ _ => by rw [hsame.virtualAddresses]⟩, fun _ _ => rfl, fun _ _ => rfl,
      fun _ _ => by rw [hrest.envs], fun _ _ _ _ _ => by rw [hrest.disk],
      fun _ _ n _ hblk => hsame.block hblk, hzero⟩
  case lost => rfl
  case spent => exact hsame.spent
  case run => exact hrest.run
  case env => exact henv
  case ddir => rw [hrest.envs]; exact id

/-- Fields of the environment that no structure depends on. -/
theorem EnvStep.setEnv (ho : Owned c s G) (hb : Base c s G e) (hd : DiskFrames s G) {env : Env}
    (henv : SameEnv (s.envs e) env) (hdir : env.diskEnvPgdir = (s.envs e).diskEnvPgdir) :
    EnvStep c e 0 s G (s.setEnv e env) G := by
  have hself : (s.setEnv e env).envs e = env := Function.update_self _ _ _
  have henv' : SameEnv (s.envs e) ((s.setEnv e env).envs e) := by
    rw [hself]
    exact henv
  have hk : ∀ P, Keeps e P s G (s.setEnv e env) G :=
    fun _ => ⟨fun _ _ _ => Iff.rfl, fun _ _ _ _ => rfl, fun _ _ _ _ => rfl⟩
  constructor
  case owned => exact ho.setEnv e env
  case base =>
    refine ⟨hb.space.congr (fun _ _ _ => Iff.rfl) rfl (fun _ _ _ _ => rfl) rfl ?_ ?_, ?_, ?_⟩
    · exact henv'.envCr3
    · exact henv'.envPageDirectory
    · exact hb.slots.congr (fun _ _ _ => Iff.rfl) (fun _ _ _ _ => rfl) (fun _ _ _ _ => rfl)
        (by rw [hself, hdir]) rfl
    · exact hb.array.of_keeps (hk (fun _ => true)) (fun _ => rfl) (fun _ _ hblk => hblk) henv' rfl
  case frames => exact hd.congr rfl rfl
  case others =>
    refine ⟨fun e' _ => ⟨fun _ _ _ => Iff.rfl, fun _ _ _ _ => rfl, fun _ _ _ _ => rfl⟩,
      fun _ _ => rfl, fun _ _ => rfl, fun e' he => ?_, fun _ _ _ _ _ => rfl,
      fun _ _ _ _ hblk => hblk, rfl⟩
    exact Function.update_of_ne he _ _
  case lost => rfl
  case spent => exact Spent.refl s
  case run => exact ⟨rfl, rfl, rfl, rfl⟩
  case env => exact henv'
  case ddir =>
    rw [hself, hdir]
    exact id

end FosMemory
