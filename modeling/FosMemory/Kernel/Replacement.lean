import FosMemory.Kernel.System

/-!
# Replacement — which element a page fault gives to the new page

Whatever the policy, a fault at `va` leaves the page of `va` in one element `i`, every other element
as it was and the hand behind `i`; the page `i` had before is no longer in memory.  The policies
differ in `i` only.
-/

namespace FosMemory

open Lib

variable {c : Boot} {s t u w : Kernel} {G H I : Ghost} {e : Nat}

/-! ## The effect on the working set -/

/-- The page of `va` has taken element `i`. -/
structure Replaced (e va i : Nat) (s t : Kernel) : Prop where
  index : i < s.wsMax e
  placed : t.wsPage e i = some (roundDown va 4096)
  stamp : t.wsStamp e i = 0x80000000#32
  kept : ∀ k < s.wsMax e, k ≠ i → t.wsPage e k = s.wsPage e k ∧ t.wsStamp e k = s.wsStamp e k
  last : (t.envs e).pageLastWSIndex = (i + 1) % s.wsMax e
  used : (t.pteWord e (roundDown va 4096)).has permUsed = true
  out : ∀ v, s.wsPage e i = some v → t.present e v = false
  stays : ∀ k < s.wsMax e, k ≠ i → ∀ v, s.wsPage e k = some v → t.present e v = true

theorem wsPage_congr {i : Nat} (hva : t.wsVa e i = s.wsVa e i) (hflag : t.wsFlag e i = s.wsFlag e i) :
    t.wsPage e i = s.wsPage e i := by
  rw [Kernel.wsPage, hva, hflag, Kernel.wsPage]

/-- The window holds the array and no page of the environment. -/
theorem Base.page_outside (hb : Base c s G e) {v f : Nat} (hf : G.own f = some ⟨e, .page v⟩) :
    ¬ s.inWindow e v := by
  intro hwin
  obtain ⟨g, hg⟩ := hb.array.window_iff.2 hwin
  have hal := (hb.space.target v f false hf).1
  rw [roundDown_eq hal] at hg
  cases (hb.space.target_unique (a := false) (b := true) hf hg).2

/-- A page the record does not have is not present. -/
theorem Base.not_present (hb : Base c s G e) {va : Nat} (hva : va < userTop)
    (hgone : ∀ f, G.own f ≠ some ⟨e, .page (roundDown va 4096)⟩) (hwin : ¬ s.inWindow e va) :
    s.present e va = false := by
  refine Bool.eq_false_iff.2 fun hp => ?_
  obtain ⟨f, b, ht⟩ := (hb.space.present_iff hva).1 hp
  exact hb.absent_iff.2 ⟨hgone, hwin⟩ f b ht

theorem Base.is_present (hb : Base c s G e) {v f : Nat} (hf : G.own f = some ⟨e, .page v⟩) :
    s.present e v = true := by
  obtain ⟨hal, hlt, -⟩ := hb.space.target v f false hf
  refine (hb.space.present_iff hlt).2 ⟨f, false, ?_⟩
  rw [roundDown_eq hal]
  exact hf

section Faulted

variable {va : Nat} (hb : Base c s G e) (hent : Entries s G e)
  (habs : Absent G e (roundDown va 4096)) (h : Faulted c e va s G t H)
include hb hent habs h

/-- A handled fault, seen from the working set. -/
theorem Faulted.replaced :
    ∃ i u, Replaced e va i s t ∧ Choice e i s G u ∧
      ∀ v f, G.own f = some ⟨e, .page v⟩ → s.wsPage e i ≠ some v →
        t.pteWord e v = u.pteWord e v := by
  obtain ⟨i, u, I, hroom, hbr⟩ := h.parts
  have hmax : u.wsMax e = s.wsMax e := hroom.step.env.pageWSMaxSize
  have hmax' : t.wsMax e = s.wsMax e := h.step.env.pageWSMaxSize
  -- pages of other elements survive both halves of the handler
  have hkeep : ∀ v f, G.own f = some ⟨e, .page v⟩ → s.wsPage e i ≠ some v →
      I.own f = some ⟨e, .page v⟩ ∧ v ≠ roundDown va 4096 := by
    intro v f hf hne
    refine ⟨?_, fun hx => habs f false (by rw [← hx]; exact hf)⟩
    rcases hroom.pages with ⟨-, -, hsame⟩ | ⟨-, v₀, f₀, hv₀, hev⟩
    · exact ((hsame v).own f).2 hf
    · have hv : v ≠ v₀ := by
        rintro rfl
        exact hne hv₀
      exact ((hev.other v hv).own f).2 hf
  refine ⟨i, u, ?_, hroom.choice, ?_⟩
  · have hkept : ∀ k < s.wsMax e, k ≠ i → t.wsPage e k = s.wsPage e k := by
      intro k hk hne
      obtain ⟨hva, hflag, -⟩ := hroom.rest k hk hne
      obtain ⟨hva', hflag', -⟩ := hbr.rest k (by rw [hmax]; exact hk) hne
      exact (wsPage_congr hva' hflag').trans (wsPage_congr hva hflag)
    constructor
    case index => exact hroom.index
    case placed => rw [Kernel.wsPage, hbr.flag, if_pos rfl, hbr.va]
    case stamp => exact hbr.stamp
    case kept =>
      intro k hk hne
      obtain ⟨-, -, hst⟩ := hroom.rest k hk hne
      obtain ⟨-, -, hst'⟩ := hbr.rest k (by rw [hmax]; exact hk) hne
      exact ⟨hkept k hk hne, hst'.trans hst⟩
    case last => rw [hbr.last, hmax]
    case used => exact hbr.used
    case out =>
      intro v hv
      obtain ⟨hal, hlt, f, -, hf, -⟩ := hent.target hb hroom.index hv
      have hvne : v ≠ roundDown va 4096 := fun hx => habs f false (by rw [← hx]; exact hf)
      have hgone : ∀ g, I.own g ≠ some ⟨e, .page v⟩ := by
        rcases hroom.pages with ⟨hfree, -, -⟩ | ⟨-, v₀, f₀, hv₀, hev⟩
        · rcases hroom.choice with ⟨hfull, -⟩ | ⟨-, ⟨m, -, -, -, hnone⟩, -⟩
          · obtain ⟨k, hk, hx⟩ := hfree
            exact absurd hx (hfull k hk)
          · rw [hv] at hnone
            cases hnone
        · rw [hv] at hv₀
          cases hv₀
          exact hev.gone
      refine h.step.base.not_present hlt (fun g hg => ?_) ?_
      · rw [roundDown_eq hal] at hg
        exact hgone g (((hbr.other v hvne).own g).1 hg)
      · rw [inWindow_congr h.step.env]
        exact hb.page_outside hf
    case stays =>
      intro k hk hne v hv
      obtain ⟨f, hf⟩ := h.entries.page k (by rw [hmax']; exact hk) v (by rw [hkept k hk hne, hv])
      exact h.step.base.is_present hf
  · intro v f hf hne
    obtain ⟨hI, hva⟩ := hkeep v f hf hne
    exact hbr.pte v f hva hI

/-- With a full working set the policy picks the element. -/
theorem Faulted.replaced_full (hfull : ∀ k < s.wsMax e, s.wsPage e k ≠ none) :
    ∃ i w, victim s e (s.envs e).pageLastWSIndex = .ok (i, w) ∧ Replaced e va i s t ∧
      ∀ v f, G.own f = some ⟨e, .page v⟩ → s.wsPage e i ≠ some v →
        t.pteWord e v = w.pteWord e v := by
  obtain ⟨i, u, hrep, hch, hpte⟩ := h.replaced hb hent habs
  rcases hch with ⟨-, w, hvic, hw⟩ | ⟨⟨k, hk, hnone⟩, -⟩
  · refine ⟨i, w, hvic, hrep, fun v f hf hne => ?_⟩
    rw [hpte v f hf hne, hw v f hne hf]
  · exact absurd hnone (hfull k hk)

/-- Otherwise the new page takes the first empty element from the hand on. -/
theorem Faulted.replaced_room (hroom : ∃ k < s.wsMax e, s.wsPage e k = none) :
    ∃ m < s.wsMax e, Replaced e va (((s.envs e).pageLastWSIndex + m) % s.wsMax e) s t ∧
      (∀ j < m, s.wsPage e (((s.envs e).pageLastWSIndex + j) % s.wsMax e) ≠ none) ∧
      s.wsPage e (((s.envs e).pageLastWSIndex + m) % s.wsMax e) = none ∧
      ∀ v f, G.own f = some ⟨e, .page v⟩ → t.pteWord e v = s.pteWord e v := by
  obtain ⟨i, u, hrep, hch, hpte⟩ := h.replaced hb hent habs
  rcases hch with ⟨hfull, -⟩ | ⟨-, ⟨m, hm, rfl, hbusy, hnone⟩, hu⟩
  · obtain ⟨k, hk, hnone⟩ := hroom
    exact absurd hnone (hfull k hk)
  · refine ⟨m, hm, hrep, hbusy, hnone, fun v f hf => ?_⟩
    rw [hpte v f hf (by rw [hnone]; exact fun hx => by cases hx), hu v f hf]

end Faulted

/-- Pages `env_create` has not loaded. -/
theorem Created.not_present {n : Nat} {prog : UserProgram} (h : Created c e n prog s G t H)
    {va : Nat} (hva : va < userTop) (hnot : roundDown va 4096 ∉ initialPages prog n)
    (hwin : va < userPagesWSStart ∨ userPagesWSStart + 4096 * pagesOf (n * 12) ≤ va) :
    t.present e va = false := by
  refine h.alive.base.not_present hva (fun f hf => hnot ((h.pages _).1 ⟨f, hf⟩)) ?_
  have hsize : (t.envs e).pageWSMaxSize = n := h.size
  rw [Kernel.inWindow, Kernel.wsPages, hsize]
  omega

/-! ## Faults in the stack area -/

/-- Pages without an element. -/
theorem Alive.not_present (ha : Alive c s G e) {va : Nat} (hva : va < userTop)
    (hno : ∀ i < s.wsMax e, s.wsPage e i ≠ some (roundDown va 4096)) (hwin : ¬ s.inWindow e va) :
    s.present e va = false := by
  refine ha.base.not_present hva (fun f hf => ?_) hwin
  obtain ⟨i, hi, hv⟩ := ha.covered _ f hf
  exact hno i hi hv

/-! ## Evicted pages -/

/-- The pages in the working set of `e`, in the order of the elements. -/
def Kernel.workingSet (s : Kernel) (e : Nat) : List Nat :=
  (List.range (s.wsMax e)).filterMap (s.wsPage e)

/-- The pages of the working set of `s` that are no longer in memory in `t`. -/
def evictedPages (e : Nat) (s t : Kernel) : List Nat :=
  (s.workingSet e).filter fun v => !t.present e v

/-- A list of which one position at most passes the test. -/
theorem filter_filterMap_range {n i : Nat} {g : Nat → Option Nat} {q : Nat → Bool} (hi : i < n)
    (hother : ∀ k < n, k ≠ i → ∀ v, g k = some v → q v = false)
    (hself : ∀ v, g i = some v → q v = true) :
    ((List.range n).filterMap g).filter q = (g i).toList := by
  induction n with
  | zero => omega
  | succ n ih =>
    rw [List.range_succ, List.filterMap_append, List.filter_append]
    by_cases hin : i = n
    · subst hin
      have hpre : ((List.range i).filterMap g).filter q = [] := by
        rw [List.filter_eq_nil_iff]
        intro v hv
        obtain ⟨k, hk, hkv⟩ := List.mem_filterMap.1 hv
        rw [List.mem_range] at hk
        rw [hother k (by omega) (by omega) v hkv]
        decide
      rw [hpre, List.nil_append]
      cases hgi : g i with
      | none => simp [hgi]
      | some v => simp [hgi, hself v hgi]
    · have hlast : ([n].filterMap g).filter q = [] := by
        cases hgn : g n with
        | none => simp [hgn]
        | some v => simp [hgn, hother n (by omega) (by omega) v hgn]
      rw [hlast, List.append_nil]
      exact ih (by omega) fun k hk hne v hv => hother k (by omega) hne v hv

theorem Replaced.evictedPages_eq {va i : Nat} (h : Replaced e va i s t) :
    evictedPages e s t = (s.wsPage e i).toList := by
  refine filter_filterMap_range h.index ?_ ?_
  · intro k hk hne v hv
    rw [h.stays k hk hne v hv]
    rfl
  · intro v hv
    rw [h.out v hv]
    rfl

end FosMemory
