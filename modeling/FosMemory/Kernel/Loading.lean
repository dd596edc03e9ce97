import FosMemory.Kernel.Program

/-!
# Loading — the segment loop of `env_create`

`Loading` is the state of an environment part-way through the loop: the pages brought in so far are
the elements `0`, `1`, … of the working set, in the order of loading, and the maps `W` and `M` are
what has been written to the page file and to memory.  One page, one copy and one segment carry it
on; `loadSegments_spec` is the loop.
-/

namespace FosMemory

open Lib

variable {c : Boot} {s t u : Kernel} {G H I : Ghost} {e : Nat}

/-! ## Part-way through -/

structure Loading (c : Boot) (e : Nat) (order : List Nat) (W : Nat → Option (Nat → BitVec 8))
    (M : Nat → Option (BitVec 8)) (k : Nat) (s : Kernel) (G : Ghost) (t : Kernel) (H : Ghost) :
    Prop where
  step : EnvStep c e (2 * k) s G t H
  held : NoHeld G → NoHeld H
  entries : Entries t H e
  covered : Covered t H e
  pages : ∀ v, (∃ f, H.own f = some ⟨e, .page v⟩) ↔ v ∈ order
  element : ∀ i < s.wsMax e, t.wsPage e i = order[i]?
  stamp : ∀ i < order.length, t.wsStamp e i = 0#32
  last : (t.envs e).pageLastWSIndex = order.length
  room : order.length < s.wsMax e
  files : Files e W s G t H
  known : ∀ a, M a ≠ none → roundDown a 4096 ∈ order
  byte : ∀ a f b, M a = some b → H.own f = some ⟨e, .page (roundDown a 4096)⟩ →
    pageByte (t.mem f) a = b
  used : ∀ a f, M a ≠ none → H.own f = some ⟨e, .page (roundDown a 4096)⟩ →
    (t.pteWord e (roundDown a 4096)).has permUsed = true
  diskList : s.diskFreeFrameList.length ≤ t.diskFreeFrameList.length + k
  tables : (t.envs e).tableLastWSIndex ≤ order.length

section Loading

variable {order : List Nat} {W W' : Nat → Option (Nat → BitVec 8)} {M M' : Nat → Option (BitVec 8)}
  {k m : Nat}

theorem Loading.max (h : Loading c e order W M k s G t H) : t.wsMax e = s.wsMax e :=
  h.step.env.pageWSMaxSize

theorem Loading.cr3 (h : Loading c e order W M k s G t H) (hcr3 : s.cr3 = (s.envs e).envCr3) :
    t.cr3 = (t.envs e).envCr3 := by
  rw [h.step.run.cr3, h.step.env.envCr3, hcr3]

theorem Loading.scarce (h : Loading c e order W M k s G t H) (hsc : Scarce t m) :
    Scarce s (k + m) := by
  have hlist := h.diskList
  rcases hsc with hsc | hsc
  · refine .inl fun hen => hsc ?_
    rw [Nat.mul_add] at hen
    exact hen.after h.step.spent
  · exact .inr (by omega)

/-- The element behind the last page is empty. -/
theorem Loading.next_empty (h : Loading c e order W M k s G t H) :
    t.wsPage e (t.envs e).pageLastWSIndex = none := by
  rw [h.last, h.element _ h.room]
  exact List.getElem?_eq_none (Nat.le_refl _)

/-- A page that has not been brought in and lies outside the window. -/
theorem Loading.absent (h : Loading c e order W M k s G t H) {v : Nat} (hal : v % 4096 = 0)
    (hno : v ∉ order)
    (hwin : v < userPagesWSStart ∨ userPagesWSStart + 4096 * pagesOf (s.wsMax e * 12) ≤ v) :
    Absent H e v := by
  have hiff := @Base.absent_iff _ _ _ _ h.step.base v
  rw [roundDown_eq hal] at hiff
  refine hiff.2 ⟨fun f hf => hno ((h.pages v).1 ⟨f, hf⟩), fun hin => ?_⟩
  have hpages : t.wsPages e = pagesOf (s.wsMax e * 12) := by
    rw [← h.max]
    rfl
  rw [Kernel.inWindow, hpages] at hin
  omega

/-- Another page. -/
theorem Loading.push {v : Nat} (h : Loading c e order W M k s G t H)
    (hp : Pushed c e v 0#32 t H u I) (hroom : order.length + 1 < s.wsMax e) :
    Loading c e (order ++ [v]) W M (k + 1) s G u I := by
  have hlen : (order ++ [v]).length = order.length + 1 := by
    rw [List.length_append, List.length_singleton]
  have hne : ∀ v', v' ∈ order → v' ≠ v := by
    rintro v' hv' rfl
    obtain ⟨f, hf⟩ := (h.pages v').2 hv'
    exact hp.absent f hf
  constructor
  case step =>
    have hst := h.step.trans hp.step
    rwa [show 2 * k + 2 = 2 * (k + 1) by omega] at hst
  case held => exact fun hno => hp.held (h.held hno)
  case entries => exact hp.entries
  case covered => exact hp.covered h.covered
  case pages =>
    intro v'
    rw [List.mem_append, List.mem_singleton]
    by_cases hv : v' = v
    · rw [hv]
      exact ⟨fun _ => .inr rfl, fun _ => hp.page⟩
    · rw [← h.pages v']
      constructor
      · rintro ⟨f, hf⟩
        exact .inl ⟨f, ((hp.other v' hv).own f).1 hf⟩
      · rintro (⟨f, hf⟩ | hx)
        · exact ⟨f, ((hp.other v' hv).own f).2 hf⟩
        · exact absurd hx hv
  case element =>
    intro i hi
    rw [hp.element i (by rw [h.max]; exact hi), h.last]
    by_cases hlast : i = order.length
    · rw [if_pos hlast, hlast, List.getElem?_concat_length]
    · rw [if_neg hlast, h.element i hi]
      by_cases hlt : i < order.length
      · rw [List.getElem?_append_left hlt]
      · rw [List.getElem?_eq_none (by omega), List.getElem?_eq_none (by omega)]
  case stamp =>
    intro i hi
    rw [hlen] at hi
    rw [hp.stamp i (by rw [h.max]; omega), h.last]
    by_cases hlast : i = order.length
    · rw [if_pos hlast]
    · rw [if_neg hlast]
      exact h.stamp i (by omega)
  case last =>
    rw [hp.last, h.last, h.max, hlen]
    exact Nat.mod_eq_of_lt hroom
  case room =>
    rw [hlen]
    exact hroom
  case files =>
    refine ⟨fun v' b hw => ?_, fun v' hw => ?_⟩
    · rw [hp.slots, hp.disk]
      exact h.files.written v' b hw
    · rw [hp.slots, hp.disk]
      exact h.files.kept v' hw
  case known => exact fun a ha => List.mem_append_left _ (h.known a ha)
  case byte =>
    intro a f b ha hf
    have hv := hne _ (h.known a (by rw [ha]; simp))
    have hf' := ((hp.other _ hv).own f).1 hf
    rw [(hp.other _ hv).mem f hf']
    exact h.byte a f b ha hf'
  case used =>
    intro a f ha hf
    have hv := hne _ (h.known a ha)
    have hf' := ((hp.other _ hv).own f).1 hf
    rw [hp.pte _ f hv hf']
    exact h.used a f ha hf'
  case diskList =>
    rw [hp.diskList]
    exact Nat.le_trans h.diskList (by omega)
  case tables =>
    have h₁ := h.tables
    have h₂ := hp.tables
    omega

/-- Contents. -/
theorem Loading.settle (h : Loading c e order W M k s G t H) (hs : Settles c e W' M' m t H u I)
    (hdom : ∀ a, M' a ≠ none → roundDown a 4096 ∈ order) :
    Loading c e order (overlay W' W) (overlay M' M) (k + m) s G u I := by
  constructor
  case step =>
    have hst := h.step.trans hs.step
    rwa [← Nat.mul_add] at hst
  case held => exact fun hno => hs.held (h.held hno)
  case entries => exact hs.entries h.entries
  case covered => exact hs.covered h.covered
  case pages =>
    intro v
    rw [← h.pages v]
    exact exists_congr fun f => hs.own f v
  case element =>
    intro i hi
    rw [hs.ws.page (by rw [h.max]; exact hi)]
    exact h.element i hi
  case stamp =>
    intro i hi
    have hroom := h.room
    rw [hs.ws.stamp (by rw [h.max]; omega)]
    exact h.stamp i hi
  case last => rw [hs.last, h.last]
  case room => exact h.room
  case files => exact h.files.trans hs.files
  case known =>
    intro a ha
    by_cases hM' : M' a = none
    · exact h.known a fun hM => ha (overlay_eq_none.2 ⟨hM', hM⟩)
    · exact hdom a hM'
  case byte =>
    intro a f b ha hf
    have hf' := (hs.own f _).1 hf
    rw [hs.byte a f hf']
    rcases overlay_eq_some.1 ha with ha | ⟨hno, ha⟩
    · rw [ha, Option.getD_some]
    · rw [hno, Option.getD_none, h.byte a f b ha hf']
  case used =>
    intro a f ha hf
    have hf' := (hs.own f _).1 hf
    by_cases hM' : M' a = none
    · exact hs.used _ f hf' (h.used a f (fun hM => ha (overlay_eq_none.2 ⟨hM', hM⟩)) hf')
    · exact hs.touched a f hf' hM'
  case diskList =>
    have h₁ := h.diskList
    have h₂ := hs.diskList
    omega
  case tables =>
    rw [hs.tables]
    exact h.tables

theorem Loading.congr (h : Loading c e order W M k s G t H) {order' : List Nat} {k' : Nat}
    (horder : order = order') (hW : W = W') (hM : M = M') (hk : k = k') :
    Loading c e order' W' M' k' s G t H := by
  subst horder hW hM hk
  exact h

/-! ## One segment -/

variable {seg : ProgramSegment} (hok : SegmentOk (s.wsMax e) seg)
  (hcr3 : s.cr3 = (s.envs e).envCr3)

/-- The working set comes round, or something is missing for `k` pages. -/
def StopsLoading (s : Kernel) (e k : Nat) : Prop :=
  Scarce s k ∨ 50 < s.wsMax e

theorem StopsLoading.mono (h : StopsLoading s e k) (hkm : k ≤ m) : StopsLoading s e m :=
  h.imp_left fun hsc => hsc.mono hkm

include hok

/-- A page of a segment lies outside the window. -/
theorem SegmentOk.off_window {v : Nat} (hv : seg.HasPage v) :
    v < userPagesWSStart ∨ userPagesWSStart + 4096 * pagesOf (s.wsMax e * 12) ≤ v := by
  obtain ⟨-, hlo, hhi⟩ := hv
  exact hok.window.imp (fun hw => by omega) fun hw => by omega

/-- The first loop of `program_segment_alloc_map_copy_workingset`. -/
theorem Loading.mapPages_spec (h : Loading c e order W M k s G t H)
    (hapart : ∀ v ∈ order, ¬ seg.HasPage v) {p : Nat} (hp : p ≤ (seg.limit - seg.first) / 4096)
    (hroom : order.length + p < s.wsMax e) (lastTable : Nat) :
    Ensures (fun _ => StopsLoading s e (k + p))
      (fun r => ∃ H, Loading c e (order ++ seg.pages p) W M (k + p) s G r.1 H)
      (forRange (fun i r => loadPageRound e (seg.first + 4096 * i) r) 0 p (t, lastTable)) := by
  have hloop := forRange_ensures (E := fun _ : Stop => StopsLoading s e (k + p)) (a := 0) (n := p)
    (s := (t, lastTable))
    (I := fun i r => ∃ H, Loading c e (order ++ seg.pages i) W M (k + i) s G r.1 H)
    (b := fun i r => loadPageRound e (seg.first + 4096 * i) r) ?_ ⟨H, ?_⟩
  · rw [Nat.zero_add] at hloop
    exact hloop
  · rintro i ⟨u, lastTable⟩ - hi ⟨I, hl⟩
    rw [Nat.zero_add] at hi
    simp only at hl
    have hlen : (order ++ seg.pages i).length = order.length + i := by
      rw [List.length_append, seg.pages_length]
    have hpage := hok.bounds.hasPage (i := i) (by omega)
    have hal := hpage.1
    have hbelow := (hok.page_lt (i := i) (by omega)).2
    have hnew : seg.first + 4096 * i ∉ order ++ seg.pages i := by
      rw [List.mem_append, ProgramSegment.mem_pages]
      rintro (hmem | ⟨j, hj, heq⟩)
      · exact hapart _ hmem hpage
      · omega
    have habs := hl.absent hal hnew (hok.off_window hpage)
    refine (hl.step.base.loadPageRound_spec hl.step.owned hl.step.frames hl.entries hbelow hal habs
      hl.next_empty).mono ?_ ?_
    · rintro x (hx | hx)
      · exact .inl ((hl.scarce (m := 1) (.inl hx)).mono (by omega))
      · have htab := hl.tables
        exact .inr (by omega)
    · rintro ⟨w, lastTable'⟩ ⟨J, hpush⟩
      have hnext := hl.push hpush (by omega)
      exact ⟨J, hnext.congr (by rw [List.append_assoc, seg.pages_succ]) rfl rfl rfl⟩
  · exact h.congr (by rw [ProgramSegment.pages, List.range_zero, List.map_nil, List.append_nil]) rfl
      rfl rfl

include hcr3

/-- One round of the segment loop. -/
theorem Loading.loadSegment_spec (h : Loading c e order W M k s G t H)
    (hapart : ∀ v ∈ order, ¬ seg.HasPage v) {remaining : Nat}
    (hrem : order.length + remaining < s.wsMax e) (lastTable : Nat) {p : Nat}
    (hp : p = seg.count (s.envs e).progName remaining) :
    Ensures (fun _ => StopsLoading s e (k + (p + seg.cost)))
      (fun r => r.1 = remaining - p ∧ ∃ H,
        Loading c e (order ++ seg.pages p) (overlay (seg.file (pageByte (s.mem 1))) W)
          (overlay (seg.memory p) M) (k + (p + seg.cost)) s G r.2.2 H)
      (loadSegment e seg (remaining, lastTable, t)) := by
  obtain ⟨hle, hfit⟩ := seg.count_le (s.envs e).progName remaining
  rw [← hp] at hle hfit
  have hb := hok.bounds
  have hcount : segmentPages t e seg remaining = p := by
    have hok' : SegmentOk (t.wsMax e) seg := by
      rw [h.max]
      exact hok
    rw [hok'.segmentPages_eq, h.step.env.progName, ← hp]
  rw [loadSegment]
  simp only [programSegmentAllocMapCopyWorkingset, hcount]
  rw [show roundDown seg.virtualAddress 4096 = seg.first from rfl]
  -- the pages
  refine ensures_bind.2 (((h.mapPages_spec hok hapart hfit (by omega) lastTable).mono
    (F := fun _ => StopsLoading s e (k + (p + seg.cost))) (fun _ hx => hx.mono (by omega))
    fun _ hr => hr).bind ?_)
  rintro ⟨t₁, lastTable₁⟩ ⟨H₁, h₁⟩
  simp only at h₁ ⊢
  -- the copy
  have hcopy : Ensures (fun _ => False)
      (fun u => Settles c e (fun _ => none) (seg.memory p) 0 t₁ H₁ u H₁)
      (copySegment t₁ seg p) := by
    refine h₁.step.base.copySegment_spec h₁.step.owned h₁.step.frames (h₁.cr3 hcr3) ?_ fun i hi => ?_
    · have h₁' := hb.first_eq
      have h₂' := hb.limit_eq
      have h₃' := hb.end_lt
      simp only [userTop] at h₃' ⊢
      omega
    · refine (h₁.pages _).2 (List.mem_append_right _ (ProgramSegment.mem_pages.2 ⟨i, hi, rfl⟩))
  refine (hcopy.mono (F := fun _ => StopsLoading s e (k + (p + seg.cost))) (fun _ hx => hx.elim)
    fun _ hr => hr).bind ?_
  intro t₂ hset
  have h₂ := h₁.settle hset (fun a ha => by
    by_cases hin : seg.virtualAddress ≤ a ∧ a < seg.first + 4096 * p
    · obtain ⟨i, hi, hpage⟩ := hb.page_of_mem hin.1 hin.2
      rw [hpage]
      exact List.mem_append_right _ (ProgramSegment.mem_pages.2 ⟨i, hi, rfl⟩)
    · rw [ProgramSegment.memory, if_neg hin] at ha
      exact absurd rfl ha)
  -- the page file
  refine ((Base.writeSegment_spec hb h₂.step.owned h₂.step.base h₂.step.frames).mono
    (F := fun _ => StopsLoading s e (k + (p + seg.cost)))
    (fun _ hx => .inl ((h₂.scarce hx).mono (by omega))) fun _ hr => hr).bind ?_
  rintro t₃ ⟨H₃, hw⟩
  refine ⟨rfl, H₃, ?_⟩
  have h₃ := h₂.settle hw fun a ha => absurd rfl ha
  rw [h₂.step.others.zeroPage] at h₃
  refine h₃.congr rfl ?_ ?_ (by omega)
  · simp only [overlay_none_left]
  · simp only [overlay_none_left]

omit hok

/-- The segment loop. -/
theorem Loading.loadSegments_spec {segs : List ProgramSegment}
    (hok : ∀ seg ∈ segs, SegmentOk (s.wsMax e) seg) (hpair : segs.Pairwise ProgramSegment.Apart)
    (h : Loading c e order W M k s G t H) (hapart : ∀ v ∈ order, ∀ seg ∈ segs, ¬ seg.HasPage v)
    {remaining : Nat} (hrem : order.length + remaining < s.wsMax e) (lastTable : Nat) :
    Ensures (fun _ => StopsLoading s e (k + programCost (s.envs e).progName segs remaining))
      (fun r => ∃ H,
        Loading c e (order ++ loadedPages (s.envs e).progName segs remaining)
          (programFile (pageByte (s.mem 1)) segs W)
          (programMemory (s.envs e).progName segs remaining M)
          (k + programCost (s.envs e).progName segs remaining) s G r.2.2 H)
      (loadSegments e segs (remaining, lastTable, t)) := by
  induction segs generalizing order W M k t H remaining lastTable with
  | nil => exact ⟨H, h.congr (by rw [loadedPages, List.append_nil]) rfl rfl rfl⟩
  | cons seg segs ih =>
    obtain ⟨p, hp⟩ : ∃ p, p = seg.count (s.envs e).progName remaining := ⟨_, rfl⟩
    have hle := (seg.count_le (s.envs e).progName remaining).1
    have hfit := (seg.count_le (s.envs e).progName remaining).2
    rw [← hp] at hle hfit
    have hokseg := hok seg List.mem_cons_self
    obtain ⟨hfirst, hrest⟩ := List.pairwise_cons.1 hpair
    rw [loadSegments]
    simp only [programCost, ← hp]
    refine ((h.loadSegment_spec hokseg hcr3 (fun v hv => hapart v hv seg List.mem_cons_self) hrem
      lastTable hp).mono
      (F := fun _ => StopsLoading s e
        (k + (p + seg.cost + programCost (s.envs e).progName segs (remaining - p))))
      (fun _ hx => hx.mono (by omega)) fun _ hr => hr).bind ?_
    rintro ⟨remaining', lastTable', t'⟩ ⟨hrem', H', h'⟩
    simp only at hrem' h'
    subst hrem'
    have hlen : (order ++ seg.pages p).length = order.length + p := by
      rw [List.length_append, seg.pages_length]
    refine (ih (fun x hx => hok x (List.mem_cons_of_mem _ hx)) hrest h' ?_ (by omega)
      lastTable').mono (fun _ hx => hx.mono (by omega)) ?_
    · -- the pages of this segment are not among those of the later ones
      intro v hv x hx hpage
      rcases List.mem_append.1 hv with hv | hv
      · exact hapart v hv x (List.mem_cons_of_mem _ hx) hpage
      · obtain ⟨i, hi, rfl⟩ := ProgramSegment.mem_pages.1 hv
        exact hfirst x hx _ ⟨hokseg.bounds.hasPage (by omega), hpage⟩
    · rintro r ⟨I, hl⟩
      refine ⟨I, hl.congr ?_ ?_ ?_ (by omega)⟩
      · rw [loadedPages, ← hp, List.append_assoc]
      · rw [programFile]
      · rw [programMemory, ← hp]

end Loading

end FosMemory
