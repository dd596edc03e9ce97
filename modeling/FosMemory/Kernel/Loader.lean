import FosMemory.Kernel.Contents

/-!
# Loader — bringing a program into memory and into the page file

For every segment the loader maps as many pages as the working set still has room for, copies the
bytes of the file into them, and writes the whole segment to the page file.  A page that was
brought into memory has a slot once its segment is through.
-/

namespace FosMemory

open Lib

variable {c : Boot} {s t u : Kernel} {G H I : Ghost} {e : Nat}

/-! ## Segments -/

/-- The first page of a segment. -/
def ProgramSegment.first (seg : ProgramSegment) : Nat :=
  roundDown seg.virtualAddress 4096

/-- The end of the last page of a segment. -/
def ProgramSegment.limit (seg : ProgramSegment) : Nat :=
  roundUp (seg.virtualAddress + seg.sizeInMemory) 4096

/-- What a segment of a linked program satisfies: the part in the file is not longer than the part
in memory, and the pages lie in user memory, outside the window of a working set of `n` elements
and off the initial stack page. -/
structure SegmentOk (n : Nat) (seg : ProgramSegment) : Prop where
  file_le : seg.sizeInFile ≤ seg.sizeInMemory
  end_lt : seg.virtualAddress + seg.sizeInMemory < userTop
  window : seg.limit ≤ userPagesWSStart ∨ userPagesWSStart + 4096 * pagesOf (n * 12) ≤ seg.first
  stack : seg.limit ≤ stackPage ∨ stackPage < seg.first

/-- The pages of a segment. -/
def ProgramSegment.HasPage (seg : ProgramSegment) (v : Nat) : Prop :=
  v % 4096 = 0 ∧ seg.first ≤ v ∧ v < seg.limit

/-- Two segments share no page. -/
def ProgramSegment.Apart (a b : ProgramSegment) : Prop :=
  ∀ v, ¬ (a.HasPage v ∧ b.HasPage v)

/-- A program `env_create` can load into a working set of `n` elements. -/
structure Loadable (n : Nat) (prog : UserProgram) : Prop where
  ok : ∀ seg ∈ prog.segments, SegmentOk n seg
  apart : prog.segments.Pairwise ProgramSegment.Apart

theorem roundUp_eq {a : Nat} (h : a < userTop) : roundUp a 4096 = (a + 4095) / 4096 * 4096 := by
  simp only [userTop] at h
  simp only [roundUp, roundDown, wordMod]
  omega

theorem SegmentOk.limit_eq {n : Nat} {seg : ProgramSegment} (h : SegmentOk n seg) :
    roundUp ((seg.virtualAddress + seg.sizeInMemory) % wordMod) 4096 = seg.limit := by
  have hmod : (seg.virtualAddress + seg.sizeInMemory) % wordMod =
      seg.virtualAddress + seg.sizeInMemory := by
    have := h.end_lt
    simp only [userTop] at this
    simp only [wordMod]
    omega
  rw [hmod, ProgramSegment.limit]

/-- The pages of a segment. -/
theorem SegmentOk.page_lt {n : Nat} {seg : ProgramSegment} (h : SegmentOk n seg) {i : Nat}
    (hi : i < (seg.limit - seg.first) / 4096) :
    seg.first + 4096 * i < seg.limit ∧ seg.first + 4096 * i < userTop := by
  have hlim := roundUp_eq h.end_lt
  have hend := h.end_lt
  simp only [ProgramSegment.limit, ProgramSegment.first, roundDown, hlim, userTop] at hi hend ⊢
  omega

theorem first_aligned (seg : ProgramSegment) : seg.first % 4096 = 0 :=
  roundDown_aligned _

/-! ## One page -/

/-- Page `v`, not in memory before, is in frame `f`; it has no element yet. -/
structure Mapped (c : Boot) (e f v : Nat) (s : Kernel) (G : Ghost) (t : Kernel) (H : Ghost) :
    Prop where
  step : EnvStep c e 2 s G t H
  held : NoHeld G → NoHeld H
  ws : SameWs e s t
  last : (t.envs e).pageLastWSIndex = (s.envs e).pageLastWSIndex
  tables : (t.envs e).tableLastWSIndex = (s.envs e).tableLastWSIndex
  absent : ∀ g, G.own g ≠ some ⟨e, .page v⟩
  page : H.own f = some ⟨e, .page v⟩
  other : ∀ v', v' ≠ v → SamePage e v' s G t H
  pte : ∀ v' g, v' ≠ v → G.own g = some ⟨e, .page v'⟩ → t.pteWord e v' = s.pteWord e v'
  slots : H.slots = G.slots
  disk : t.disk = s.disk
  diskList : t.diskFreeFrameList = s.diskFreeFrameList

/-- Page `v` has been brought in and has the element at the old last index. -/
structure Pushed (c : Boot) (e v : Nat) (stamp : Word) (s : Kernel) (G : Ghost) (t : Kernel)
    (H : Ghost) : Prop where
  step : EnvStep c e 2 s G t H
  held : NoHeld G → NoHeld H
  entries : Entries t H e
  covered : Covered s G e → Covered t H e
  last : (t.envs e).pageLastWSIndex = ((s.envs e).pageLastWSIndex + 1) % s.wsMax e
  tables : (t.envs e).tableLastWSIndex ≤ (s.envs e).tableLastWSIndex + 1
  absent : ∀ g, G.own g ≠ some ⟨e, .page v⟩
  page : ∃ f, H.own f = some ⟨e, .page v⟩
  other : ∀ v', v' ≠ v → SamePage e v' s G t H
  pte : ∀ v' g, v' ≠ v → G.own g = some ⟨e, .page v'⟩ → t.pteWord e v' = s.pteWord e v'
  element : ∀ k < s.wsMax e, t.wsPage e k =
    if k = (s.envs e).pageLastWSIndex then some v else s.wsPage e k
  stamp : ∀ k < s.wsMax e, t.wsStamp e k =
    if k = (s.envs e).pageLastWSIndex then stamp else s.wsStamp e k
  slots : H.slots = G.slots
  disk : t.disk = s.disk
  diskList : t.diskFreeFrameList = s.diskFreeFrameList

theorem Placed.mapped {f v : Nat} {perm : Word} (hp : Placed c e f v perm 2 s G t H)
    (ho : Owned c s G) (hb : Base c s G e) (hd : DiskFrames s G)
    (hnone : ∀ g, G.own g ≠ some ⟨e, .page v⟩) : Mapped c e f v s G t H :=
  { step := hp.envStep hb hd
    held := hp.noHeld
    ws := hp.sameWs hb ho hd
    last := by rw [hp.rest.envs]
    tables := by rw [hp.rest.envs]
    absent := hnone
    page := hp.page
    other := fun v' hne => hp.samePage hne
    pte := fun v' g _ hg => hp.pte v' g hg
    slots := hp.slots
    disk := hp.rest.disk
    diskList := hp.rest.diskFreeFrameList }

/-- Contents and marks of the new page are still free. -/
theorem Mapped.set {f v : Nat} {page : Nat → Word} {w : Word} (h : Mapped c e f v s G t H)
    (hp : PageSet c e v f page w t H u) : Mapped c e f v s G u H := by
  have hst := hp.envStep h.page h.step.owned h.step.base h.step.frames
  constructor
  case step => exact h.step.trans hst
  case held => exact h.held
  case ws =>
    exact h.ws.trans (hp.sameWs h.page h.step.owned h.step.base h.step.frames)
      h.step.env.pageWSMaxSize
  case last => rw [hp.rest.envs, h.last]
  case tables => rw [hp.rest.envs, h.tables]
  case absent => exact h.absent
  case page => exact h.page
  case other => exact fun v' hne => (h.other v' hne).trans (hp.samePage h.page hne)
  case pte =>
    intro v' g hne hg
    have hg' := ((h.other v' hne).own g).2 hg
    rw [hp.pte v' g false hne hg', h.pte v' g hne hg]
  case slots => exact h.slots
  case disk => rw [hp.rest.disk, h.disk]
  case diskList => rw [hp.rest.diskFreeFrameList, h.diskList]

/-- The element of a mapped page is stored and the last index advances; contents and entry of the
page stay. -/
theorem Mapped.push {f v : Nat} {st : Word} (h : Mapped c e f v s G t H)
    (hent : Entries s G e) (hempty : s.wsPage e (s.envs e).pageLastWSIndex = none) {t₁ : Kernel}
    (hw : WsSet e (s.envs e).pageLastWSIndex v 0#8 st t H t₁) :
    ∃ t₂, t₂ = setLastIndex t₁ e (nextIndex t₁ e (s.envs e).pageLastWSIndex) ∧
      Pushed c e v st s G t₂ H ∧ t₂.mem f = t.mem f ∧ t₂.pteWord e v = t.pteWord e v := by
  obtain ⟨i, hi⟩ : ∃ i, i = (s.envs e).pageLastWSIndex := ⟨_, rfl⟩
  rw [← hi] at hw hempty ⊢
  have hmax : t.wsMax e = s.wsMax e := h.step.env.pageWSMaxSize
  have hst₁ := hw.only.envStep h.step.owned h.step.base h.step.frames
  have hmax₁ : t₁.wsMax e = s.wsMax e := hst₁.env.pageWSMaxSize.trans hmax
  have hlt : i < s.wsMax e := by
    rw [hi]
    exact hent.last
  obtain ⟨j, hj⟩ : ∃ j, j = nextIndex t₁ e i := ⟨_, rfl⟩
  have hjval : j = (i + 1) % s.wsMax e := by
    have hsize : (t₁.envs e).pageWSMaxSize = s.wsMax e := hmax₁
    rw [hj, nextIndex, hsize]
  rw [← hj]
  have hst₂ := hst₁.base.setLastIndex_step hst₁.owned hst₁.frames j
  have hws₂ : SameWs e t₁ (setLastIndex t₁ e j) := setLastIndex_sameWs j
  have hmax₂ : (setLastIndex t₁ e j).wsMax e = s.wsMax e := hst₂.env.pageWSMaxSize.trans hmax₁
  have hlast : ((setLastIndex t₁ e j).envs e).pageLastWSIndex = j := by rw [setLastIndex_env]
  have hi₁ : i < t₁.wsMax e := by
    rw [hmax₁]
    exact hlt
  have hrest : ∀ k < s.wsMax e, k ≠ i → (setLastIndex t₁ e j).wsVa e k = s.wsVa e k ∧
      (setLastIndex t₁ e j).wsFlag e k = s.wsFlag e k ∧
      (setLastIndex t₁ e j).wsStamp e k = s.wsStamp e k := by
    intro k hk hne
    have hk₁ : k < t₁.wsMax e := by
      rw [hmax₁]
      exact hk
    obtain ⟨h₁, h₂, h₃⟩ := hw.rest k (by rw [hmax]; exact hk) hne
    rw [hws₂.va hk₁, hws₂.flag hk₁, hws₂.stamp hk₁, h₁, h₂, h₃]
    exact ⟨h.ws.va hk, h.ws.flag hk, h.ws.stamp hk⟩
  have hva : (setLastIndex t₁ e j).wsVa e i = v := by rw [hws₂.va hi₁, hw.va]
  have hfl : (setLastIndex t₁ e j).wsFlag e i = 0#8 := by rw [hws₂.flag hi₁, hw.flag]
  have hother : ∀ v', v' ≠ v → ∀ g,
      H.own g = some ⟨e, .page v'⟩ ↔ G.own g = some ⟨e, .page v'⟩ := fun v' hne g =>
    (h.other v' hne).own g
  -- neither the array nor the last index has to do with pages and entries
  have hsame : ∀ v', SamePage e v' t H (setLastIndex t₁ e j) H := fun v' =>
    (hw.only.samePage h.step.base.space v').trans (setLastIndex_samePage j v')
  have hpte : ∀ v' g, H.own g = some ⟨e, .page v'⟩ →
      (setLastIndex t₁ e j).pteWord e v' = t.pteWord e v' := by
    intro v' g hg
    rw [setLastIndex_pteWord, hw.only.pteWord (b := false) h.step.base.space hg]
  refine ⟨_, rfl, ?_, (hsame v).mem f h.page, hpte v f h.page⟩
  constructor
  case step => exact (h.step.trans hst₁).trans hst₂
  case held => exact h.held
  case entries =>
    refine hent.insert hmax₂ ?_ (fun k hk hne => ⟨(hrest k hk hne).1, (hrest k hk hne).2.1⟩) hother
      hfl hva h.absent ⟨f, h.page⟩
    rw [hlast, hjval]
    exact Nat.mod_lt _ (by omega)
  case covered =>
    exact fun hcov => hcov.insert hmax₂ hlt
      (fun k hk hne => ⟨(hrest k hk hne).1, (hrest k hk hne).2.1⟩) hother hempty hfl hva
  case last => rw [hlast, hjval, ← hi]
  case tables =>
    rw [setLastIndex_env]
    show (t₁.envs e).tableLastWSIndex ≤ _
    rw [hw.only.rest.envs, h.tables]
    exact Nat.le_succ _
  case absent => exact h.absent
  case page => exact ⟨f, h.page⟩
  case other => exact fun v' hne => (h.other v' hne).trans (hsame v')
  case pte =>
    intro v' g hne hg
    rw [hpte v' g ((hother v' hne g).2 hg), h.pte v' g hne hg]
  case element =>
    intro k hk
    rw [← hi]
    by_cases hki : k = i
    · rw [if_pos hki, hki, wsPage_eq_some hfl, hva]
    · rw [if_neg hki]
      exact wsPage_of_rest (hrest k hk hki).1 (hrest k hk hki).2.1
  case stamp =>
    intro k hk
    rw [← hi]
    by_cases hki : k = i
    · rw [if_pos hki, hki, hws₂.stamp hi₁, hw.stamp]
    · rw [if_neg hki]
      exact (hrest k hk hki).2.2
  case slots => exact h.slots
  case disk =>
    show t₁.disk = _
    rw [hw.only.rest.disk, h.disk]
  case diskList =>
    show t₁.diskFreeFrameList = _
    rw [hw.only.rest.diskFreeFrameList, h.diskList]

theorem permLoad_has : (permUser ||| permWriteable ||| permPresent).has permUserPage = true := by
  decide

/-- `allocate_frame` and `loadtime_map_frame`. -/
theorem Base.loadFrame_spec (ho : Owned c s G) (hb : Base c s G e) (hd : DiskFrames s G) {v : Nat}
    (hv : v < userTop) (hal : v % 4096 = 0) (hnone : Absent G e v) :
    Ensures (fun _ => ¬ Enough s 2) (fun r => ∃ f H, Mapped c e f v s G r H)
      (do
        let (f, t) ← allocateFrame s
        loadtimeMapFrame t (t.envs e).envPageDirectory f v (permUser ||| permWriteable)) := by
  refine ((hb.space.allocateFrame_spec ho).mono (F := fun _ => ¬ Enough s 2)
    (fun _ hx hen => hx (hen.mono (by decide))) fun _ hr => hr).bind ?_
  rintro ⟨f, t⟩ ⟨-, hrest, hmem, -, hmoves⟩
  simp only at hrest hmem hmoves
  have hnone' : ∀ g b, ¬ (G.setOwn f (some ⟨e, .held⟩)).Target e (roundDown v 4096) g b := by
    intro g b ht
    rw [roundDown_eq hal] at ht
    refine hnone g b ?_
    cases b with
    | false => exact (hmoves.keeps.own g _ rfl).1 ht
    | true =>
      obtain ⟨k, hk, hw⟩ := ht
      exact ⟨k, (hmoves.keeps.own g _ rfl).1 hk, hw⟩
  refine (hmoves.space.loadtimeMapFrame_held hmoves.owned (G.setOwn_self _ _) hv hnone'
    (by decide) permLoad_has).mono (fun _ hx hen => hx (Enough.after hen hmoves.spent)) ?_
  rintro u ⟨H, hp⟩
  rw [roundDown_eq hal] at hp
  exact ⟨f, H, (hp.afterAllocate hrest hmem hmoves).mapped ho hb hd fun g hg => hnone g false hg⟩

/-- Fields of the table working set. -/
theorem Pushed.setEnv {v : Nat} {st : Word} {env : Env} (h : Pushed c e v st s G t H)
    (henv : SameEnv (t.envs e) env) (hdir : env.diskEnvPgdir = (t.envs e).diskEnvPgdir)
    (hlast : env.pageLastWSIndex = (t.envs e).pageLastWSIndex)
    (htables : env.tableLastWSIndex ≤ (s.envs e).tableLastWSIndex + 1) :
    Pushed c e v st s G (t.setEnv e env) H := by
  have hst' := EnvStep.setEnv h.step.owned h.step.base h.step.frames henv hdir
  have hcur : (t.setEnv e env).envs e = env := setEnv_envs_self t e env
  have hmax : (t.setEnv e env).wsMax e = t.wsMax e := by
    rw [Kernel.wsMax, hcur, henv.pageWSMaxSize]
  have hws : SameWs e t (t.setEnv e env) := by
    intro j _
    rw [Kernel.wsWord, hcur, henv.ptrPageWorkingSet]
    rfl
  have hmax' : t.wsMax e = s.wsMax e := h.step.env.pageWSMaxSize
  have hpte : ∀ v', (t.setEnv e env).pteWord e v' = t.pteWord e v' := by
    intro v'
    rw [Kernel.pteWord, Kernel.dirFrame, hcur, henv.envCr3]
    rfl
  constructor
  case step => exact h.step.trans hst'
  case held => exact h.held
  case entries =>
    exact h.entries.congr hws hmax (by rw [hcur, hlast]) fun _ _ => Iff.rfl
  case covered => exact fun hcov => (h.covered hcov).congr hws hmax fun _ _ => Iff.rfl
  case last => rw [hcur, hlast, h.last]
  case tables =>
    rw [hcur]
    exact htables
  case absent => exact h.absent
  case page => exact h.page
  case other =>
    intro v' hne
    refine (h.other v' hne).trans ⟨fun _ => Iff.rfl, fun _ _ => rfl, fun _ _ => ?_, rfl,
      fun _ _ => rfl⟩
    rw [hpte]
  case pte =>
    intro v' g hne hg
    rw [hpte, h.pte v' g hne hg]
  case element =>
    intro k hk
    rw [hws.page (by rw [hmax']; exact hk)]
    exact h.element k hk
  case stamp =>
    intro k hk
    rw [hws.stamp (by rw [hmax']; exact hk)]
    exact h.stamp k hk
  case slots => exact h.slots
  case disk => exact h.disk
  case diskList => exact h.diskList

/-- One round of the first loop of `program_segment_alloc_map_copy_workingset`. -/
theorem Base.loadPageRound_spec (ho : Owned c s G) (hb : Base c s G e) (hd : DiskFrames s G)
    (hent : Entries s G e) {v lastTable : Nat} (hv : v < userTop) (hal : v % 4096 = 0)
    (hnone : Absent G e v) (hempty : s.wsPage e (s.envs e).pageLastWSIndex = none) :
    Ensures (fun _ => ¬ Enough s 2 ∨ 49 ≤ (s.envs e).tableLastWSIndex)
      (fun r => ∃ H, Pushed c e v 0#32 s G r.1 H) (loadPageRound e v (s, lastTable)) := by
  have hframe := (hb.loadFrame_spec ho hd hv hal hnone).mono
    (F := fun _ => ¬ Enough s 2 ∨ 49 ≤ (s.envs e).tableLastWSIndex) (fun _ hx => .inl hx)
    fun _ hr => hr
  rw [ensures_bind] at hframe
  rw [loadPageRound]
  refine hframe.bind ?_
  rintro ⟨f₀, t₀⟩ hframe
  refine hframe.bind ?_
  rintro t ⟨f, H, hm⟩
  have hi : (s.envs e).pageLastWSIndex < t.wsMax e := by
    have hmax : t.wsMax e = s.wsMax e := hm.step.env.pageWSMaxSize
    rw [hmax]
    exact hent.last
  obtain ⟨t₁, hstore, hw⟩ := hm.step.base.array.wsStore_spec hm.step.owned hi
    (show v < 4294967296 by simp only [userTop] at hv; omega) 0#8 0#32
  obtain ⟨t₂, ht₂, hpush, -, -⟩ := hm.push hent hempty hw
  have hws : pushWS t e v 0#32 = .ok t₂ := by
    rw [pushWS, hm.last, hstore, ok_bind, ht₂]
  rw [hws, ok_bind]
  have htab₂ : (t₂.envs e).tableLastWSIndex = (s.envs e).tableLastWSIndex := by
    rw [ht₂, setLastIndex_env]
    show (t₁.envs e).tableLastWSIndex = _
    rw [hw.only.rest.envs, hm.tables]
  by_cases htab : pdx v = lastTable
  · rw [if_pos htab]
    exact ⟨H, hpush⟩
  · rw [if_neg htab]
    simp only
    have hnext : ((addTableToTableWorkingSet t₂ e v).envs e).tableLastWSIndex =
        ((s.envs e).tableLastWSIndex + 1) % 50 := by
      rw [addTableToTableWorkingSet, setEnv_envs_self]
      show ((t₂.envs e).tableLastWSIndex + 1) % 50 = _
      rw [htab₂]
    split
    · -- the table working set has come round
      rename_i hfull
      refine .inr ?_
      rw [hnext] at hfull
      omega
    · refine ⟨H, hpush.setEnv ⟨rfl, rfl, rfl, rfl, rfl, rfl⟩ rfl rfl ?_⟩
      show ((t₂.envs e).tableLastWSIndex + 1) % 50 ≤ _
      rw [htab₂]
      exact Nat.mod_le _ _

end FosMemory
