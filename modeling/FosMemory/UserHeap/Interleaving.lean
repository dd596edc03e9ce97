import FosMemory.UserHeap.Invariant

/-!
# Interleaving — `malloc` while other environments change the strategy

`malloc` asks the kernel for the placement strategy with up to four system calls, and other
environments can set the strategy variable between any two of them.  A state is the heap of one
environment, the shared variable and the query `malloc` is about to make.
-/

namespace FosMemory
namespace UserHeap

open Lib

/-! ## States and steps -/

/-- Where the environment is: outside `malloc`, or about to ask whether the strategy is `query`. -/
inductive Phase where
  | idle
  | asking (size : Nat) (query : Strategy)
  deriving DecidableEq, Repr

/-- The heap of the environment, its live blocks, the shared variable and the phase. -/
structure Shared where
  heap : UHeap
  live : List LiveBlock
  strategy : Strategy
  phase : Phase

/-- What can happen next: another environment sets the strategy, or the environment calls `malloc`,
makes its next query, or calls `free`. -/
inductive Action where
  | set (st : Strategy)
  | call (size : Nat)
  | query
  | free (p : Nat)
  deriving DecidableEq, Repr

/-- The query after a negative answer, in the order of `malloc`. -/
def nextQuery : Strategy → Option Strategy
  | .nextFit => some .firstFit
  | .firstFit => some .bestFit
  | .bestFit => some .worstFit
  | .worstFit => none

/-- Four negative answers. -/
def noAnswer : StrategyAnswers :=
  { isNextFit := false, isFirstFit := false, isBestFit := false, isWorstFit := false }

/-- The rest of `malloc` after its last query. -/
def Shared.finish (s : Shared) (q : StrategyAnswers) (size : Nat) : Option Shared :=
  (mallocWith q s.heap size).map fun r =>
    { s with
      heap := r.heap
      live := if r.ret = 0 then s.live
        else { addr := r.ret, size := roundUp size pageSize } :: s.live
      phase := .idle }

/-- One step; `none` if the action is not possible. -/
def Shared.step (s : Shared) : Action → Option Shared
  | .set st => some { s with strategy := st }
  | .call size =>
    if s.phase = .idle ∧ 1 ≤ size ∧ size ≤ maxRequest then
      some { s with phase := .asking size .nextFit }
    else none
  | .query =>
    match s.phase with
    | .idle => none
    | .asking size query =>
      if s.strategy = query then s.finish query.answers size
      else
        match nextQuery query with
        | some next => some { s with phase := .asking size next }
        | none => s.finish noAnswer size
  | .free p =>
    if s.phase = .idle ∧ p ≠ 0 then
      some { s with
        heap := (free s.heap p).1
        live := s.live.filter fun b => decide (b.addr ≠ p) }
    else none

/-- The state a program starts in; the strategy is whatever the kernel or others have set. -/
def Shared.initial (st : Strategy) : Shared :=
  { heap := UHeap.initial, live := [], strategy := st, phase := .idle }

/-! ## Soundness of the live blocks -/

/-- The pages from `generalAddress` on are inside the heap and in no live block. -/
def GeneralFree (s : Shared) (size : Nat) : Prop :=
  s.heap.generalAddress + roundUp size pageSize ≤ userHeapMax ∧
    ∀ b ∈ s.live, s.heap.generalAddress + roundUp size pageSize ≤ b.addr ∨
      b.addr + b.size ≤ s.heap.generalAddress

/-- The step is not a fourth negative answer, unless the pages at `generalAddress` are free. -/
def Answered (s : Shared) (a : Action) : Prop :=
  ∀ size, a = .query → s.phase = .asking size .worstFit → s.strategy ≠ .worstFit →
    GeneralFree s size

/-- Runs in which every call of `malloc` gets an answer. -/
inductive AnsweredRun : Shared → Prop where
  | start (st : Strategy) : AnsweredRun (Shared.initial st)
  | step {s t : Shared} (a : Action) (h : AnsweredRun s) (ha : Answered s a)
      (ht : s.step a = some t) : AnsweredRun t

/-! ## Invariant -/

/-- The tables describe the live blocks, and the request being served is a valid one. -/
structure SharedInv (s : Shared) : Prop where
  rep : Rep s.heap s.live
  request : ∀ size query, s.phase = .asking size query → 1 ≤ size ∧ size ≤ maxRequest

/-- The pages at `generalAddress` in terms of the layout. -/
theorem GeneralFree.placed {s : Shared} {size m : Nat} (hr : Rep s.heap s.live)
    (hround : roundUp size pageSize = 4096 * m) (hfree : GeneralFree s size) :
    Placed (pageBlocks s.live) m s.heap.generalAddress := by
  obtain ⟨hinside, hblocks⟩ := hfree
  obtain ⟨q, -, hg, -⟩ := hr.general
  rw [hround] at hinside hblocks
  rw [hg] at hinside hblocks ⊢
  refine ⟨q, rfl, ?_, ?_⟩
  · simp only [userHeapStart, userHeapMax, uheapPages] at hinside ⊢
    omega
  · intro p hqp hpm b hb hmem
    obtain ⟨c, hc, rfl⟩ := List.mem_map.1 hb
    have haddr := hr.addr_eq hc
    have hdisj := hblocks c hc
    simp only [Lib.Block.Mem, Lib.Block.stop] at hmem
    omega

/-- With four negative answers the block goes to `generalAddress`. -/
theorem finish_noAnswer (s : Shared) (size : Nat) (hg : s.heap.generalAddress ≠ 0) :
    s.finish noAnswer size = some { s with
      heap := commit s.heap (roundUp size pageSize) s.heap.generalAddress
      live := { addr := s.heap.generalAddress, size := roundUp size pageSize } :: s.live
      phase := .idle } := by
  simp [Shared.finish, mallocWith, place, noAnswer, hg]

theorem Rep.generalAddress_ne_zero {h : UHeap} {live : List LiveBlock} (hr : Rep h live) :
    h.generalAddress ≠ 0 := by
  obtain ⟨q, -, hg, -⟩ := hr.general
  rw [hg, userHeapStart]
  omega

theorem finish_inv {s : Shared} (h : SharedInv s) (st : Strategy) {size : Nat} (h1 : 1 ≤ size)
    (hmax : size ≤ maxRequest) : ∃ t, s.finish st.answers size = some t ∧ SharedInv t := by
  obtain ⟨r, hr, hrep⟩ := malloc_spec h.rep st h1 hmax
  refine ⟨_, by rw [Shared.finish, show mallocWith st.answers s.heap size = some r from hr]; rfl,
    hrep, fun _ _ hphase => ?_⟩
  cases hphase

theorem finish_noAnswer_inv {s : Shared} (h : SharedInv s) {size : Nat} (h1 : 1 ≤ size)
    (hmax : size ≤ maxRequest) (hfree : GeneralFree s size) :
    ∃ t, s.finish noAnswer size = some t ∧ SharedInv t := by
  obtain ⟨m, hm, hround, -⟩ := roundUp_request h1 hmax
  refine ⟨_, finish_noAnswer s size h.rep.generalAddress_ne_zero, ?_, fun _ _ hphase => ?_⟩
  · rw [hround]
    exact h.rep.commit hm (hfree.placed h.rep hround)
  · cases hphase

/-- A query is always answered, and an answered step keeps the invariant. -/
theorem query_inv {s : Shared} (h : SharedInv s) {size : Nat} {query : Strategy}
    (hphase : s.phase = .asking size query) (ha : Answered s .query) :
    ∃ t, s.step .query = some t ∧ SharedInv t := by
  obtain ⟨h1, hmax⟩ := h.request size query hphase
  by_cases hyes : s.strategy = query
  · obtain ⟨t, ht, hinv⟩ := finish_inv h query h1 hmax
    refine ⟨t, ?_, hinv⟩
    simp only [Shared.step, hphase, if_pos hyes, ht]
  · cases hnext : nextQuery query with
    | some next =>
      refine ⟨{ s with phase := .asking size next }, ?_, h.rep, fun size' query' heq => ?_⟩
      · simp only [Shared.step, hphase, if_neg hyes, hnext]
      · cases heq
        exact ⟨h1, hmax⟩
    | none =>
      have hworst : query = .worstFit := by
        cases query <;> first | rfl | cases hnext
      subst hworst
      obtain ⟨t, ht, hinv⟩ := finish_noAnswer_inv h h1 hmax (ha size rfl hphase hyes)
      refine ⟨t, ?_, hinv⟩
      simp only [Shared.step, hphase, if_neg hyes, hnext, ht]

theorem step_inv {s t : Shared} {a : Action} (h : SharedInv s) (ha : Answered s a)
    (ht : s.step a = some t) : SharedInv t := by
  cases a with
  | set st =>
    cases ht
    exact ⟨h.rep, h.request⟩
  | call size =>
    simp only [Shared.step] at ht
    split at ht
    case isTrue hcond =>
      cases ht
      refine ⟨h.rep, fun size' query heq => ?_⟩
      cases heq
      exact hcond.2
    case isFalse => cases ht
  | query =>
    cases hphase : s.phase with
    | idle => simp [Shared.step, hphase] at ht
    | asking size query =>
      obtain ⟨u, hu, hinv⟩ := query_inv h hphase ha
      rw [ht] at hu
      cases hu
      exact hinv
  | free p =>
    simp only [Shared.step] at ht
    split at ht
    case isTrue hcond =>
      cases ht
      exact ⟨free_spec h.rep hcond.2, h.request⟩
    case isFalse => cases ht

theorem AnsweredRun.inv {s : Shared} (h : AnsweredRun s) : SharedInv s := by
  induction h with
  | start st => exact ⟨Rep.initial, fun _ _ hphase => by cases hphase⟩
  | step a h ha ht ih => exact step_inv ih ha ht

/-- Several steps. -/
def Shared.run (s : Shared) : List Action → Option Shared
  | [] => some s
  | a :: as => (s.step a).bind fun t => t.run as

end UserHeap
end FosMemory
