import FosMemory.Lib.Holes
import FosMemory.UserHeap.Invariant

/-!
# Fit — which hole FIRSTFIT, BESTFIT and WORSTFIT choose

The three linear scans differ in the test that makes a hole the new candidate.  Each test prefers
one hole over another (`Preference`); the scan ends with the hole it prefers among those that a
block closes, and considers the hole at the end of the heap only if there is no other.
-/

namespace FosMemory
namespace UserHeap

open Lib

/-! ## Holes of the heap -/

/-- What makes a scan prefer a hole: `better a b` says that it keeps `a` or leaves `b` for it. -/
structure Preference (n m : Nat) (take : Nat → Nat → Bool) (stopAtFirst : Bool) (viableSize : Nat)
    (better : Lib.Block → Lib.Block → Prop) : Prop where
  zero : ∀ v, take 0 v = false
  first : ∀ b : Lib.Block, 0 < b.len → b.stop < n →
    (take (4096 * b.len) viableSize = true ↔ m ≤ b.len)
  stop : stopAtFirst = true → ∀ a b : Lib.Block, a.start < b.start → better a b
  hit : stopAtFirst = false → ∀ a b : Lib.Block, take (4096 * b.len) (4096 * a.len) = true →
    m ≤ b.len ∧ better b a
  keep : ∀ a b : Lib.Block, a.start < b.start → m ≤ b.len →
    take (4096 * b.len) (4096 * a.len) = false → better a b
  trans : ∀ a b d : Lib.Block, better a b → better b d → better a d

/-- The hole a scan ends with: the preferred one among the sufficient holes a block closes, or the
one at the end of the heap if there is no other. -/
def Chosen (n m : Nat) (bs : List Lib.Block) (better : Lib.Block → Lib.Block → Prop) (b : Lib.Block) : Prop :=
  Hole n bs b ∧ m ≤ b.len ∧
    ((b.stop < n ∧ ∀ a, Hole n bs a → a.stop < n → m ≤ a.len → a = b ∨ better b a) ∨
      (b.stop = n ∧ ∀ a, Hole n bs a → a.stop < n → a.len < m))

/-! ## The scan and the holes behind it -/

/-- The scan stands on page `p` and its current run starts on page `q`. -/
structure Scanned (bs holes : List Lib.Block) (sc : Scan) (q p : Nat) : Prop where
  position : sc.i = userHeapStart + 4096 * p
  boundary : Boundary bs p
  walked : Walked uheapPages bs holes q p
  size : sc.currentSize = 4096 * (p - q)
  flag : sc.flag = true ↔ q < p
  start : q < p → sc.j = userHeapStart + 4096 * q

section

variable {h : UHeap} {live : List LiveBlock} {bs holes : List Lib.Block} {sc : Scan} {p q m : Nat}

theorem Scanned.start_inv (bs : List Lib.Block) : Scanned bs [] (Scan.at userHeapStart) 0 0 := by
  refine ⟨rfl, boundary_zero bs, Walked.start _ bs, rfl, ?_, ?_⟩
  · simp [Scan.at]
  · intro hlt
    exact absurd hlt (lt_irrefl _)

theorem Scanned.overFree (hs : Scanned bs holes sc q p) (hp : p < uheapPages)
    (hfree : FreeCell bs p) : Scanned bs holes sc.overFree q (p + 1) := by
  have hpos := hs.position
  have hle := hs.walked.le
  have hsize := hs.size
  simp only [uheapPages, userHeapStart] at hp hpos
  refine ⟨?_, hfree.boundary_succ, hs.walked.overFree hp hfree, ?_, ?_, ?_⟩
  · simp only [Scan.overFree, pageSize, wordMod, userHeapStart]
    omega
  · simp only [Scan.overFree, pageSize, wordMod]
    omega
  · simp only [Scan.overFree, true_iff]
    omega
  · intro _
    by_cases hqp : q < p
    · have hflag := hs.flag.2 hqp
      simpa [Scan.overFree, hflag] using hs.start hqp
    · -- the run starts on this page
      have hflag : sc.flag = false := by
        rw [Bool.eq_false_iff]
        exact fun hf => hqp (hs.flag.1 hf)
      have hqeq : q = p := by omega
      simpa [Scan.overFree, hflag, hqeq] using hs.position

theorem Scanned.overBlock (hl : Layout uheapPages bs) (hs : Scanned bs holes sc q p) {c : Lib.Block}
    (hc : c ∈ bs) (hstart : c.start = p) :
    Scanned bs (if q < p then holes ++ [{ start := q, len := p - q }] else holes)
      (sc.overBlock c.len) (p + c.len) (p + c.len) := by
  have hpos := hs.position
  have hstop := hl.bounded c hc
  have hbd := hl.boundary_stop hc
  simp only [Lib.Block.stop, hstart] at hstop hbd
  refine ⟨?_, hbd, hs.walked.overBlock hl hc hstart, ?_, ?_, ?_⟩
  · simp only [uheapPages] at hstop
    simp only [Scan.overBlock, pageSize, wordMod, userHeapStart] at hpos ⊢
    omega
  · simp only [Scan.overBlock, Nat.sub_self, Nat.mul_zero]
  · simp [Scan.overBlock]
  · intro hlt
    exact absurd hlt (lt_irrefl _)

/-! ## The candidate -/

/-- Hole `b` becomes the candidate. -/
def LinearScan.candidate (ls : LinearScan) (b : Lib.Block) : LinearScan :=
  { ls with
    generalAddress := userHeapStart + 4096 * b.start
    viableSize := 4096 * b.len
    found := true }

/-- The candidate after the holes in `holes`. -/
structure Candidate (m : Nat) (stopAtFirst : Bool) (viableSize : Nat)
    (better : Lib.Block → Lib.Block → Prop) (holes : List Lib.Block) (ls : LinearScan) : Prop where
  not_found : ls.found = false → ls.generalAddress = userHeapStart ∧ ls.viableSize = viableSize ∧
    ∀ a ∈ holes, a.len < m
  found : ls.found = true → stopAtFirst = false ∧ ∃ b ∈ holes,
    ls.generalAddress = userHeapStart + 4096 * b.start ∧ ls.viableSize = 4096 * b.len ∧
      m ≤ b.len ∧ ∀ a ∈ holes, m ≤ a.len → a = b ∨ better b a

section Candidate

variable {take : Nat → Nat → Bool} {stopAtFirst : Bool} {viableSize : Nat}
  {better : Lib.Block → Lib.Block → Prop} {ls : LinearScan} {b : Lib.Block}

/-- A hole the test does not take. -/
theorem Candidate.skip (hpref : Preference uheapPages m take stopAtFirst viableSize better)
    (hc : Candidate m stopAtFirst viableSize better holes ls) (hpos : 0 < b.len)
    (hlt : b.stop < uheapPages) (hafter : ∀ a ∈ holes, a.start < b.start)
    (ht : take (4096 * b.len) ls.viableSize = false) :
    Candidate m stopAtFirst viableSize better (holes ++ [b]) ls := by
  constructor
  case not_found =>
    intro hf
    obtain ⟨hgen, hviable, hsmall⟩ := hc.not_found hf
    refine ⟨hgen, hviable, ?_⟩
    intro a ha
    rcases List.mem_append.1 ha with ha | ha
    · exact hsmall a ha
    · rw [List.mem_singleton] at ha
      rw [ha]
      rw [hviable] at ht
      have hno : ¬ m ≤ b.len := by
        rw [← hpref.first b hpos hlt, ht]
        simp
      omega
  case found =>
    intro hf
    obtain ⟨hstop, d, hd, hgen, hviable, hle, hbest⟩ := hc.found hf
    refine ⟨hstop, d, List.mem_append_left _ hd, hgen, hviable, hle, ?_⟩
    intro a ha hma
    rcases List.mem_append.1 ha with ha | ha
    · exact hbest a ha hma
    · rw [List.mem_singleton] at ha
      rw [ha] at hma ⊢
      rw [hviable] at ht
      exact .inr (hpref.keep d b (hafter d hd) hma ht)

/-- A hole the test takes while the scan goes on. -/
theorem Candidate.hit (hpref : Preference uheapPages m take false viableSize better)
    (hc : Candidate m false viableSize better holes ls) (hpos : 0 < b.len)
    (hlt : b.stop < uheapPages) (ht : take (4096 * b.len) ls.viableSize = true) :
    Candidate m false viableSize better (holes ++ [b]) (ls.candidate b) := by
  constructor
  case not_found =>
    intro hf
    cases hf
  case found =>
    intro _
    refine ⟨rfl, b, List.mem_append_right _ List.mem_cons_self, rfl, rfl, ?_⟩
    cases hf : ls.found with
    | false =>
        -- the first sufficient hole
        obtain ⟨-, hviable, hsmall⟩ := hc.not_found hf
        rw [hviable] at ht
        refine ⟨(hpref.first b hpos hlt).1 ht, ?_⟩
        intro a ha hma
        rcases List.mem_append.1 ha with ha | ha
        · have := hsmall a ha
          omega
        · exact .inl (List.mem_singleton.1 ha)
    | true =>
        obtain ⟨-, d, hd, -, hviable, -, hbest⟩ := hc.found hf
        rw [hviable] at ht
        obtain ⟨hle, hbetter⟩ := hpref.hit rfl d b ht
        refine ⟨hle, ?_⟩
        intro a ha hma
        rcases List.mem_append.1 ha with ha | ha
        · rcases hbest a ha hma with rfl | had
          · exact .inr hbetter
          · exact .inr (hpref.trans b d a hbetter had)
        · exact .inl (List.mem_singleton.1 ha)

/-- The fields of the scan itself do not matter. -/
theorem Candidate.setScan (hc : Candidate m stopAtFirst viableSize better holes ls) (sc : Scan) :
    Candidate m stopAtFirst viableSize better holes { ls with scan := sc } :=
  ⟨hc.not_found, hc.found⟩

/-! ## The loop -/

/-- A scan that was left early: it stands behind its first sufficient hole. -/
structure LeftAt (m : Nat) (bs : List Lib.Block) (ls : LinearScan) (b : Lib.Block) : Prop where
  hole : Hole uheapPages bs b
  inner : b.stop < uheapPages
  sufficient : m ≤ b.len
  earlier : ∀ a, Hole uheapPages bs a → a.start < b.start → a.len < m
  general : ls.generalAddress = userHeapStart + 4096 * b.start
  found : ls.found = true

/-- A run in front of a block is a hole, and the candidate after it. -/
theorem Scanned.inner_hole (hs : Scanned bs holes sc q p) (hqp : q < p) {c : Lib.Block} (hc : c ∈ bs)
    (hstart : c.start = p) (hcpos : 0 < c.len) (hbound : c.stop ≤ uheapPages) {b : Lib.Block}
    (hb : b = { start := q, len := p - q }) :
    Hole uheapPages bs b ∧ b.stop < uheapPages ∧ (∀ a ∈ holes, a.start < b.start) ∧
      sc.currentSize = 4096 * b.len ∧ sc.j = userHeapStart + 4096 * b.start := by
  subst hb
  have hused : ¬ FreeCell bs p := by
    refine fun hfree => hfree c hc ⟨by omega, ?_⟩
    simp only [Lib.Block.stop]
    omega
  refine ⟨hs.walked.hole hqp (.inr hused), ?_, fun a ha => (hs.walked.stop_lt ha).2, hs.size,
    hs.start hqp⟩
  simp only [Lib.Block.stop, hstart] at hbound ⊢
  omega

/-- One round passes a free page or a block; a round that leaves the loop does so at the first
sufficient hole. -/
theorem linearRound_holes (hr : Rep h live)
    (hpref : Preference uheapPages m take stopAtFirst viableSize better)
    (hs : Scanned (pageBlocks live) holes ls.scan q p)
    (hc : Candidate m stopAtFirst viableSize better holes ls) (hp : p < uheapPages) :
    (∃ ls' holes' q' p', linearRound h take stopAtFirst ls = .more ls' ∧ p < p' ∧
        Scanned (pageBlocks live) holes' ls'.scan q' p' ∧
        Candidate m stopAtFirst viableSize better holes' ls') ∨
      (stopAtFirst = true ∧ ∃ ls' b, linearRound h take stopAtFirst ls = .exit ls' ∧
        LeftAt m (pageBlocks live) ls' b) := by
  have hidx : heapIndex ls.scan.i = p := by
    rw [hs.position]
    exact heapIndex_page (le_of_lt hp)
  by_cases h0 : h.uheapTracker p = 0
  · -- a free page
    have hfree := hr.freeCell_of_tracker hs.boundary h0
    refine .inl ⟨{ ls with scan := ls.scan.overFree }, holes, q, p + 1, ?_, Nat.lt_succ_self p,
      hs.overFree hp hfree, hc.setScan _⟩
    simp [linearRound, hidx, h0]
  -- a block
  obtain ⟨c, hcb, hstart, hlen⟩ := hr.block_of_tracker hp h0
  have hcpos := hr.layout.nonempty c hcb
  have hcbound := hr.layout.bounded c hcb
  have hnext := hs.overBlock hr.layout hcb hstart
  rw [hlen] at hnext hcpos
  obtain ⟨b, hb⟩ : ∃ b : Lib.Block, b = { start := q, len := p - q } := ⟨_, rfl⟩
  by_cases ht : take ls.scan.currentSize ls.viableSize = true
  · have hqp : q < p := by
      by_contra hge
      have hz : ls.scan.currentSize = 0 := by
        rw [hs.size]
        omega
      rw [hz, hpref.zero] at ht
      cases ht
    obtain ⟨hhole, hinner, hafter, hsize, hj⟩ :=
      hs.inner_hole hqp hcb hstart (by omega) hcbound hb
    rw [if_pos hqp, ← hb] at hnext
    rw [hsize] at ht
    cases stopAtFirst with
    | true =>
        have hnf : ls.found = false := by
          rw [Bool.eq_false_iff]
          intro hf
          cases (hc.found hf).1
        obtain ⟨-, hviable, hsmall⟩ := hc.not_found hnf
        refine .inr ⟨rfl, { ls with
          generalAddress := ls.scan.j, viableSize := ls.scan.currentSize, found := true }, b, ?_,
          hhole, hinner, ?_, ?_, hj, rfl⟩
        · simp [linearRound, hidx, h0, hsize, ht]
        · rw [hviable] at ht
          exact (hpref.first b hhole.nonempty hinner).1 ht
        · intro a ha hlt
          have hbstart : b.start = q := by rw [hb]
          rw [hbstart] at hlt
          exact hsmall a ((hs.walked.mem a).2 ⟨ha, hs.walked.stop_le ha hlt⟩)
    | false =>
        refine .inl ⟨{ ls.candidate b with scan := ls.scan.overBlock (h.uheapTracker p) }, _, _, _,
          ?_, ?_, hnext, (hc.hit hpref hhole.nonempty hinner ht).setScan _⟩
        · simp [linearRound, hidx, h0, hsize, ht, LinearScan.candidate, hj]
        · omega
  · have ht' : take ls.scan.currentSize ls.viableSize = false := by
      simpa using ht
    refine .inl ⟨{ ls with scan := ls.scan.overBlock (h.uheapTracker p) }, _, _, _, ?_, ?_, hnext,
      ?_⟩
    · simp [linearRound, hidx, h0, ht']
    · omega
    · by_cases hqp : q < p
      · obtain ⟨hhole, hinner, hafter, hsize, -⟩ :=
          hs.inner_hole hqp hcb hstart (by omega) hcbound hb
        rw [if_pos hqp, ← hb]
        rw [hsize] at ht'
        exact (hc.skip hpref hhole.nonempty hinner hafter ht').setScan _
      · rw [if_neg hqp]
        exact hc.setScan _

/-- The scan goes on until the end of the heap or is left at a hole. -/
theorem linearLoop_holes (hr : Rep h live)
    (hpref : Preference uheapPages m take stopAtFirst viableSize better) :
    ∀ (fuel : Nat) (ls : LinearScan) (holes : List Lib.Block) (q p : Nat),
      Scanned (pageBlocks live) holes ls.scan q p →
      Candidate m stopAtFirst viableSize better holes ls → uheapPages - p < fuel →
      ∃ ls', linearLoop h take stopAtFirst fuel ls = some ls' ∧
        ((∃ holes' q', Scanned (pageBlocks live) holes' ls'.scan q' uheapPages ∧
            Candidate m stopAtFirst viableSize better holes' ls') ∨
          (stopAtFirst = true ∧ ∃ b, LeftAt m (pageBlocks live) ls' b)) := by
  intro fuel
  induction fuel with
  | zero =>
      intro ls holes q p _ _ hlt
      exact absurd hlt (Nat.not_lt_zero _)
  | succ fuel ih =>
      intro ls holes q p hs hc hlt
      have hbound := hs.walked.le_bound
      have hpos := hs.position
      by_cases hmax : ls.scan.i < userHeapMax
      · have hp : p < uheapPages := by
          simp only [userHeapStart, userHeapMax, uheapPages] at hpos hmax ⊢
          omega
        rcases linearRound_holes hr hpref hs hc hp with
          ⟨ls', holes', q', p', hround, hpp, hs', hc'⟩ | ⟨hstop, ls', b, hround, hb⟩
        · obtain ⟨ls'', hloop, hres⟩ := ih ls' holes' q' p' hs' hc' (by omega)
          refine ⟨ls'', ?_, hres⟩
          simpa only [linearLoop, if_pos hmax, hround] using hloop
        · refine ⟨ls', ?_, .inr ⟨hstop, b, hb⟩⟩
          simp only [linearLoop, if_pos hmax, hround]
      · have hp : p = uheapPages := by
          simp only [userHeapStart, userHeapMax, uheapPages] at hpos hmax hbound ⊢
          omega
        rw [hp] at hs
        refine ⟨ls, ?_, .inl ⟨holes, q, hs, hc⟩⟩
        simp only [linearLoop, if_neg hmax]

/-- The outcome of a linear scan. -/
structure Fits (m : Nat) (bs : List Lib.Block) (better : Lib.Block → Lib.Block → Prop) (pl : Placement) :
    Prop where
  found : pl.found = true → ∃ b, Chosen uheapPages m bs better b ∧
    pl.generalAddress = userHeapStart + 4096 * b.start
  not_found : pl.found = false → pl.generalAddress = userHeapStart ∧
    ∀ a, Hole uheapPages bs a → a.len < m

theorem Fits.of_found {g : Nat} (hb : Chosen uheapPages m bs better b)
    (hg : g = userHeapStart + 4096 * b.start) :
    Fits m bs better { generalAddress := g, found := true } := by
  refine ⟨fun _ => ⟨b, hb, hg⟩, ?_⟩
  intro hf
  cases hf

theorem Fits.of_not_found {g : Nat} (hg : g = userHeapStart)
    (hsmall : ∀ a, Hole uheapPages bs a → a.len < m) :
    Fits m bs better { generalAddress := g, found := false } := by
  refine ⟨?_, fun _ => ⟨hg, hsmall⟩⟩
  intro hf
  cases hf

theorem linearPlace_fits (hr : Rep h live) (hm : 0 < m)
    (hpref : Preference uheapPages m take stopAtFirst viableSize better) :
    ∃ pl, linearPlace h (4096 * m) take stopAtFirst viableSize = some pl ∧
      Fits m (pageBlocks live) better pl := by
  have hc : Candidate m stopAtFirst viableSize better [] (LinearScan.start viableSize) := by
    constructor
    · intro _
      exact ⟨rfl, rfl, fun a ha => absurd ha List.not_mem_nil⟩
    · intro hf
      cases hf
  obtain ⟨ls, hloop, hres⟩ := linearLoop_holes hr hpref scanFuel (LinearScan.start viableSize) [] 0
    0 (Scanned.start_inv _) hc (by decide)
  refine ⟨ls.finish (4096 * m), by rw [linearPlace, hloop, Option.map_some], ?_⟩
  rcases hres with ⟨holes, q, hs, hc⟩ | ⟨hstop, b, hb⟩
  · have hall := fun a => (hs.walked.all (b := a))
    have hin : ∀ a, Hole uheapPages (pageBlocks live) a → a.stop < uheapPages → a ∈ holes := by
      intro a ha hlt
      rcases (hall a).1 ha with ha | ⟨hq, rfl⟩
      · exact ha
      · simp only [Lib.Block.stop] at hlt
        omega
    cases hf : ls.found with
    | true =>
        obtain ⟨-, b, hb, hgen, -, hle, hbest⟩ := hc.found hf
        simp only [LinearScan.finish, hf, if_true]
        refine Fits.of_found ⟨((hs.walked.mem b).1 hb).1, hle, .inl ⟨(hs.walked.stop_lt hb).1, ?_⟩⟩
          hgen
        intro a ha hlt hma
        exact hbest a (hin a ha hlt) hma
    | false =>
        obtain ⟨hgen, -, hsmall⟩ := hc.not_found hf
        have hsize := hs.size
        by_cases hcs : 4096 * m ≤ ls.scan.currentSize
        · -- the hole at the end of the heap
          have hq : q < uheapPages := by omega
          have hhole := hs.walked.hole hq (.inl rfl)
          simp only [LinearScan.finish, hf, if_pos hcs, Bool.false_eq_true, if_false]
          refine Fits.of_found ⟨hhole, ?_, .inr ⟨?_, fun a ha hlt => hsmall a (hin a ha hlt)⟩⟩
            (hs.start hq)
          · simp only
            omega
          · show q + (uheapPages - q) = uheapPages
            omega
        · simp only [LinearScan.finish, hf, if_neg hcs, Bool.false_eq_true, if_false]
          refine Fits.of_not_found hgen fun a ha => ?_
          rcases (hall a).1 ha with ha | ⟨hq, rfl⟩
          · exact hsmall a ha
          · simp only
            omega
  · simp only [LinearScan.finish, hb.found, if_true]
    refine Fits.of_found ⟨hb.hole, hb.sufficient, .inl ⟨hb.inner, ?_⟩⟩ hb.general
    intro a ha _ hma
    rcases Nat.lt_trichotomy a.start b.start with hlt | heq | hgt
    · have := hb.earlier a ha hlt
      omega
    · exact .inl (ha.eq_of_start hb.hole heq)
    · exact .inr (hpref.stop hstop b a hgt)

end Candidate

end

end UserHeap
end FosMemory
