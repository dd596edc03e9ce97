import FosMemory.Kernel.Victim

/-!
# Effects — what steps do to the pages of an environment

Three things happen to a page: it leaves memory (`PageOut`), it comes back from its slot
(`PageIn`), or it is granted for the first time (`PageNew`).  This module reads the effects of the
mapping and page file operations off their specifications and says how the elements of the
working set change with them.
-/

namespace FosMemory

open Lib

variable {c : Boot} {s t u : Kernel} {G H I : Ghost} {e : Nat}

/-! ## Pages that move -/

/-- Page `v` has left memory; if it was modified its slot has been written. -/
structure PageOut (e v f : Nat) (s : Kernel) (G : Ghost) (t : Kernel) (H : Ghost) : Prop where
  before : G.own f = some ⟨e, .page v⟩
  gone : ∀ g, H.own g ≠ some ⟨e, .page v⟩
  slot : H.slots e v = G.slots e v
  disk : ∀ d, G.slots e v = some d →
    t.disk d = if (s.pteWord e v).has permModified then s.mem f else s.disk d

/-- Page `v` has been read from its slot into frame `f`. -/
structure PageIn (e v f d : Nat) (s : Kernel) (G : Ghost) (t : Kernel) (H : Ghost) : Prop where
  absent : ∀ g, G.own g ≠ some ⟨e, .page v⟩
  page : H.own f = some ⟨e, .page v⟩
  before : G.slots e v = some d
  slot : H.slots e v = some d
  mem : t.mem f = s.disk d
  disk : t.disk d = s.disk d
  clean : (t.pteWord e v).has permModified = false

/-- Page `v` is in memory for the first time: frame `f` as it was found, and a slot as it was
found unless the page file is full. -/
structure PageNew (e v f : Nat) (s : Kernel) (G : Ghost) (t : Kernel) (H : Ghost) : Prop where
  absent : ∀ g, G.own g ≠ some ⟨e, .page v⟩
  page : H.own f = some ⟨e, .page v⟩
  before : G.slots e v = none
  slot : (s.diskFreeFrameList = [] ∧ H.slots e v = none) ∨
    ∃ d, s.diskFreeFrameList = d :: t.diskFreeFrameList ∧ H.slots e v = some d
  mem : t.mem f = s.mem f
  disk : t.disk = s.disk
  clean : (t.pteWord e v).has permModified = false

/-! ## Frames in between -/

/-- No frame is held over the end of an operation. -/
def NoHeld (G : Ghost) : Prop :=
  ∀ f e, G.own f ≠ some ⟨e, .held⟩

theorem NoHeld.of_iff (h : NoHeld G)
    (hown : ∀ f e, H.own f = some ⟨e, .held⟩ → G.own f = some ⟨e, .held⟩) : NoHeld H :=
  fun f e hf => h f e (hown f e hf)

theorem Filed.held {k : Nat} (h : Filed c e k s G t H) (hno : NoHeld G) : NoHeld H := by
  refine hno.of_iff fun f e' hf => ?_
  by_cases he : e' = e
  · subst he
    exact (h.keeps.own f _ rfl).1 hf
  · exact ((h.others.keeps e' he).own f _ rfl).1 hf

/-! ## Page file operations -/

section Filed

variable {k : Nat} (h : Filed c e k s G t H) (hb : Base c s G e) (ho : Owned c s G)
include h hb

theorem Filed.samePage {v : Nat} (hslot : H.slots e v = G.slots e v)
    (hdisk : ∀ d, G.slots e v = some d → t.disk d = s.disk d) : SamePage e v s G t H := by
  constructor
  case own => exact fun f => h.keeps.own f _ rfl
  case mem => exact fun f hf => h.keeps.mem f _ rfl hf
  case pte =>
    intro f hf
    rw [h.pteWord (b := false) hb.space hf]
  case slot => exact hslot
  case disk => exact hdisk

include ho

theorem Filed.sameWs : SameWs e s t := by
  have henv : SameEnv (s.envs e) (t.envs e) := by
    rw [h.env]
    exact ⟨rfl, rfl, rfl, rfl, rfl, rfl⟩
  have harr := hb.array.of_keeps h.keeps (fun _ => rfl) h.block henv (by rw [h.win])
  exact SameWs.of_keeps hb.array harr ho h.owned h.keeps (fun _ => rfl)

end Filed

theorem Filed.last {k : Nat} (h : Filed c e k s G t H) :
    (t.envs e).pageLastWSIndex = (s.envs e).pageLastWSIndex := by
  rw [h.env]

/-! ## Mapping and unmapping -/

theorem Placed.envStep {f v k : Nat} {perm : Word} (h : Placed c e f v perm k s G t H)
    (hb : Base c s G e) (hd : DiskFrames s G) : EnvStep c e k s G t H :=
  h.moves.envStep hb hd (fun _ => rfl) (fun r hr => by cases r <;> first | rfl | cases hr) h.slots
    h.rest

theorem Placed.samePage {f v k v' : Nat} {perm : Word} (h : Placed c e f v perm k s G t H)
    (hne : v' ≠ v) : SamePage e v' s G t H := by
  have hP : Role.apart v (.page v') = true := by simpa [Role.apart] using hne
  constructor
  case own => exact fun g => h.moves.keeps.own g _ hP
  case mem => exact fun g hg => h.moves.keeps.mem g _ hP hg
  case pte =>
    intro g hg
    rw [h.pte v' g hg]
  case slot => rw [h.slots]
  case disk => exact fun d _ => by rw [h.rest.disk]

theorem Placed.sameWs {f v k : Nat} {perm : Word} (h : Placed c e f v perm k s G t H)
    (hb : Base c s G e) (ho : Owned c s G) (hd : DiskFrames s G) : SameWs e s t :=
  SameWs.of_keeps hb.array (h.envStep hb hd).base.array ho h.moves.owned h.moves.keeps
    (fun _ => rfl)

theorem Placed.noHeld {f v k : Nat} {perm : Word} (h : Placed c e f v perm k s G t H)
    (hno : NoHeld G) : NoHeld H :=
  hno.of_iff fun g e' hg => ((h.held g e').1 hg).2

/-- The page has one frame. -/
theorem Placed.unique {f v k g : Nat} {perm : Word} (h : Placed c e f v perm k s G t H)
    (hg : H.own g = some ⟨e, .page v⟩) : g = f :=
  (h.moves.space.target_unique (a := false) (b := false) h.page hg).1

section Removed

variable {f v : Nat} (h : Removed c e f v s G t)
include h

theorem Removed.envStep (hb : Base c s G e) (hd : DiskFrames s G) :
    EnvStep c e 0 s G t (G.setOwn f none) :=
  h.moves.envStep hb hd (fun _ => rfl) (fun r hr => by cases r <;> first | rfl | cases hr) rfl
    h.rest

theorem Removed.samePage {v' : Nat} (hne : v' ≠ v) : SamePage e v' s G t (G.setOwn f none) := by
  have hP : Role.apart v (.page v') = true := by simpa [Role.apart] using hne
  constructor
  case own => exact fun g => h.moves.keeps.own g _ hP
  case mem => exact fun g hg => h.moves.keeps.mem g _ hP hg
  case pte =>
    intro g hg
    rw [h.pte v' g hne hg]
  case slot => rfl
  case disk => exact fun d _ => by rw [h.rest.disk]

theorem Removed.sameWs (hb : Base c s G e) (ho : Owned c s G) (hd : DiskFrames s G) :
    SameWs e s t :=
  SameWs.of_keeps hb.array (h.envStep hb hd).base.array ho h.moves.owned h.moves.keeps
    (fun _ => rfl)

end Removed

/-- A page has one frame, so it is gone with it. -/
theorem Space.page_gone {f v : Nat} (hs : Space c s G e) (hf : G.own f = some ⟨e, .page v⟩)
    (g : Nat) : (G.setOwn f none).own g ≠ some ⟨e, .page v⟩ := by
  intro hx
  rcases Ghost.setOwn_eq_some.1 hx with ⟨-, hx⟩ | ⟨hne, hx⟩
  · cases hx
  · exact hne (hs.target_unique (a := false) (b := false) hf hx).1

theorem NoHeld.setOwn_none (h : NoHeld G) (f : Nat) : NoHeld (G.setOwn f none) := by
  refine h.of_iff fun g e hg => ?_
  rcases Ghost.setOwn_eq_some.1 hg with ⟨-, hx⟩ | ⟨-, hx⟩
  · cases hx
  · exact hx

/-! ## Elements that come and go -/

section Change

variable {i v : Nat} (h : Entries s G e) (hmax : t.wsMax e = s.wsMax e)
  (hlast : (t.envs e).pageLastWSIndex < s.wsMax e) (hi : i < s.wsMax e)
  (hrest : ∀ k < s.wsMax e, k ≠ i → t.wsVa e k = s.wsVa e k ∧ t.wsFlag e k = s.wsFlag e k)
  (hown : ∀ v', v' ≠ v → ∀ f, H.own f = some ⟨e, .page v'⟩ ↔ G.own f = some ⟨e, .page v'⟩)

theorem wsPage_of_rest {k : Nat} (hva : t.wsVa e k = s.wsVa e k)
    (hflag : t.wsFlag e k = s.wsFlag e k) : t.wsPage e k = s.wsPage e k := by
  rw [Kernel.wsPage, hva, hflag, Kernel.wsPage]

theorem wsPage_eq_none {k : Nat} (hflag : t.wsFlag e k ≠ 0#8) : t.wsPage e k = none := by
  rw [Kernel.wsPage, if_neg hflag]

theorem wsPage_eq_some {k : Nat} (hflag : t.wsFlag e k = 0#8) :
    t.wsPage e k = some (t.wsVa e k) := by
  rw [Kernel.wsPage, if_pos hflag]

include h hmax hlast hi hrest hown in
/-- Element `i` has been emptied. -/
theorem Entries.erase (hv : s.wsPage e i = some v) (hflag : t.wsFlag e i = 1#8)
    (hva : t.wsVa e i = 0) : Entries t H e := by
  have hnone : t.wsPage e i = none := wsPage_eq_none (by rw [hflag]; decide)
  have hother : ∀ k < s.wsMax e, ∀ x, t.wsPage e k = some x → k ≠ i ∧ s.wsPage e k = some x := by
    intro k hk x hx
    have hne : k ≠ i := by
      rintro rfl
      rw [hnone] at hx
      cases hx
    obtain ⟨hva', hflag'⟩ := hrest k hk hne
    exact ⟨hne, by rw [← wsPage_of_rest hva' hflag']; exact hx⟩
  constructor
  case last =>
    rw [hmax]
    exact hlast
  case flag =>
    intro k hk
    rw [hmax] at hk
    by_cases hki : k = i
    · subst hki
      exact .inr ⟨hflag, hva⟩
    · obtain ⟨hva', hflag'⟩ := hrest k hk hki
      rw [hva', hflag']
      exact h.flag k hk
  case page =>
    intro k hk x hx
    rw [hmax] at hk
    obtain ⟨hne, hx⟩ := hother k hk x hx
    obtain ⟨f, hf⟩ := h.page k hk x hx
    refine ⟨f, (hown x ?_ f).2 hf⟩
    rintro rfl
    exact hne (h.inj k hk i hi x hx hv)
  case inj =>
    intro k hk m hm x hxk hxm
    rw [hmax] at hk hm
    exact h.inj k hk m hm x (hother k hk x hxk).2 (hother m hm x hxm).2

include h hmax hlast hrest hown in
/-- Element `i` has been given to page `v`, which was not in memory. -/
theorem Entries.insert (hflag : t.wsFlag e i = 0#8) (hva : t.wsVa e i = v)
    (hnew : ∀ f, G.own f ≠ some ⟨e, .page v⟩) (hpage : ∃ f, H.own f = some ⟨e, .page v⟩) :
    Entries t H e := by
  have hself : t.wsPage e i = some v := by rw [wsPage_eq_some hflag, hva]
  have hother : ∀ k < s.wsMax e, k ≠ i → ∀ x, t.wsPage e k = some x →
      s.wsPage e k = some x ∧ x ≠ v := by
    intro k hk hne x hx
    obtain ⟨hva', hflag'⟩ := hrest k hk hne
    have hx' : s.wsPage e k = some x := by
      rw [← wsPage_of_rest hva' hflag']
      exact hx
    refine ⟨hx', ?_⟩
    rintro rfl
    obtain ⟨f, hf⟩ := h.page k hk x hx'
    exact hnew f hf
  constructor
  case last =>
    rw [hmax]
    exact hlast
  case flag =>
    intro k hk
    rw [hmax] at hk
    by_cases hki : k = i
    · subst hki
      exact .inl hflag
    · obtain ⟨hva', hflag'⟩ := hrest k hk hki
      rw [hva', hflag']
      exact h.flag k hk
  case page =>
    intro k hk x hx
    rw [hmax] at hk
    by_cases hki : k = i
    · subst hki
      rw [hself] at hx
      cases hx
      exact hpage
    · obtain ⟨hx', hxv⟩ := hother k hk hki x hx
      obtain ⟨f, hf⟩ := h.page k hk x hx'
      exact ⟨f, (hown x hxv f).2 hf⟩
  case inj =>
    intro k hk m hm x hxk hxm
    rw [hmax] at hk hm
    by_cases hki : k = i <;> by_cases hmi : m = i
    · rw [hki, hmi]
    · subst hki
      rw [hself] at hxk
      cases hxk
      exact absurd rfl (hother m hm hmi v hxm).2
    · subst hmi
      rw [hself] at hxm
      cases hxm
      exact absurd rfl (hother k hk hki v hxk).2
    · exact h.inj k hk m hm x (hother k hk hki x hxk).1 (hother m hm hmi x hxm).1

include hmax hrest hown in
theorem Covered.erase (h : Covered s G e) (hv : s.wsPage e i = some v)
    (hgone : ∀ f, H.own f ≠ some ⟨e, .page v⟩) : Covered t H e := by
  intro x f hf
  have hxv : x ≠ v := by
    rintro rfl
    exact hgone f hf
  obtain ⟨k, hk, hx⟩ := h x f ((hown x hxv f).1 hf)
  have hki : k ≠ i := by
    rintro rfl
    rw [hv] at hx
    cases hx
    exact hxv rfl
  obtain ⟨hva, hflag⟩ := hrest k hk hki
  exact ⟨k, by rw [hmax]; exact hk, by rw [wsPage_of_rest hva hflag]; exact hx⟩

include hmax hi hrest hown in
theorem Covered.insert (h : Covered s G e) (hempty : s.wsPage e i = none)
    (hflag : t.wsFlag e i = 0#8) (hva : t.wsVa e i = v) : Covered t H e := by
  intro x f hf
  by_cases hxv : x = v
  · subst hxv
    exact ⟨i, by rw [hmax]; exact hi, by rw [wsPage_eq_some hflag, hva]⟩
  · obtain ⟨k, hk, hx⟩ := h x f ((hown x hxv f).1 hf)
    have hki : k ≠ i := by
      rintro rfl
      rw [hempty] at hx
      cases hx
    obtain ⟨hva', hflag'⟩ := hrest k hk hki
    exact ⟨k, by rw [hmax]; exact hk, by rw [wsPage_of_rest hva' hflag']; exact hx⟩

end Change

/-! ## The last index -/

section Last

variable (ho : Owned c s G) (hb : Base c s G e) (hd : DiskFrames s G) (i : Nat)

theorem setLastIndex_env : (setLastIndex s e i).envs e = { s.envs e with pageLastWSIndex := i } :=
  Function.update_self _ _ _

include ho hb hd in
theorem Base.setLastIndex_step : EnvStep c e 0 s G (setLastIndex s e i) G :=
  EnvStep.setEnv ho hb hd ⟨rfl, rfl, rfl, rfl, rfl, rfl⟩ rfl

theorem setLastIndex_sameWs : SameWs e s (setLastIndex s e i) := by
  intro j _
  rw [Kernel.wsWord, setLastIndex_env]
  rfl

theorem setLastIndex_pteWord (v : Nat) : (setLastIndex s e i).pteWord e v = s.pteWord e v := by
  rw [Kernel.pteWord, Kernel.dirFrame, setLastIndex_env]
  rfl

theorem setLastIndex_samePage (v : Nat) : SamePage e v s G (setLastIndex s e i) G :=
  ⟨fun _ => Iff.rfl, fun _ _ => rfl, fun _ _ => by rw [setLastIndex_pteWord], rfl, fun _ _ => rfl⟩

end Last

end FosMemory
