import FosMemory.Kernel.Segments

/-!
# Program — what loading a whole program comes to

The segments are loaded in order while the working set has room for more than the stack page.
`loadedPages` are the pages this brings into memory, `programMemory` the bytes it leaves there, and
`programFile` the pages it leaves in the page file, where a later segment may write over a page of
an earlier one.
-/

namespace FosMemory

open Lib

/-! ## The pages of a segment -/

/-- The first `p` pages of a segment. -/
def ProgramSegment.pages (seg : ProgramSegment) (p : Nat) : List Nat :=
  (List.range p).map fun i => seg.first + 4096 * i

/-- The number of pages of a segment that are brought into memory. -/
def ProgramSegment.count (seg : ProgramSegment) (name : String) (remaining : Nat) : Nat :=
  min (if seg.first = 0x200000 ∧ name ≠ "tpp" then min remaining 6 else remaining)
    ((seg.limit - seg.first) / 4096)

theorem SegmentOk.segmentPages_eq {n : Nat} {seg : ProgramSegment} (h : SegmentOk n seg)
    (s : Kernel) (e remaining : Nat) :
    segmentPages s e seg remaining = seg.count (s.envs e).progName remaining := by
  simp only [segmentPages, h.limit_eq]
  rfl

theorem ProgramSegment.count_le (seg : ProgramSegment) (name : String) (remaining : Nat) :
    seg.count name remaining ≤ remaining ∧
      seg.count name remaining ≤ (seg.limit - seg.first) / 4096 := by
  rw [ProgramSegment.count]
  split <;> omega

theorem ProgramSegment.mem_pages {seg : ProgramSegment} {p v : Nat} :
    v ∈ seg.pages p ↔ ∃ i < p, v = seg.first + 4096 * i := by
  simp only [ProgramSegment.pages, List.mem_map, List.mem_range, eq_comm]

theorem ProgramSegment.pages_length (seg : ProgramSegment) (p : Nat) : (seg.pages p).length = p := by
  rw [ProgramSegment.pages, List.length_map, List.length_range]

theorem ProgramSegment.pages_succ (seg : ProgramSegment) (p : Nat) :
    seg.pages (p + 1) = seg.pages p ++ [seg.first + 4096 * p] := by
  rw [ProgramSegment.pages, List.range_succ, List.map_append, ProgramSegment.pages]
  rfl

section Bounds

variable {seg : ProgramSegment} (h : Bounds seg)
include h

theorem Bounds.hasPage {i : Nat} (hi : i < (seg.limit - seg.first) / 4096) :
    seg.HasPage (seg.first + 4096 * i) := by
  have h₁ := h.first_eq
  have h₂ := h.limit_eq
  exact ⟨by omega, by omega, by omega⟩

/-- An address between the start of the segment and the end of its pages in memory. -/
theorem Bounds.page_of_mem {a p : Nat} (hlo : seg.virtualAddress ≤ a)
    (hhi : a < seg.first + 4096 * p) :
    ∃ i < p, roundDown a 4096 = seg.first + 4096 * i := by
  have h₁ := h.first_eq
  refine ⟨(a - seg.first) / 4096, by omega, ?_⟩
  simp only [roundDown]
  omega

/-- An address of the segment lies in one of its pages. -/
theorem Bounds.page_of_addr {a : Nat} (hlo : seg.virtualAddress ≤ a)
    (hhi : a < seg.virtualAddress + seg.sizeInMemory) : seg.HasPage (roundDown a 4096) := by
  have h₁ := h.first_eq
  have h₂ := h.limit_eq
  refine ⟨roundDown_aligned a, ?_, ?_⟩
  all_goals
    simp only [roundDown]
    omega

/-- Bytes outside the pages of the segment are left alone. -/
theorem Bounds.memory_of_not_hasPage {a p : Nat} (hp : p ≤ (seg.limit - seg.first) / 4096)
    (hno : ¬ seg.HasPage (roundDown a 4096)) : seg.memory p a = none := by
  rw [ProgramSegment.memory, if_neg]
  rintro ⟨hlo, hhi⟩
  obtain ⟨i, hi, hpage⟩ := h.page_of_mem hlo hhi
  rw [hpage] at hno
  exact hno (h.hasPage (by omega))

/-- Every page brought in is written. -/
theorem Bounds.memory_touches {i p : Nat} (hi : i < p) :
    ∃ a, roundDown a 4096 = seg.first + 4096 * i ∧ seg.memory p a ≠ none := by
  have h₁ := h.first_eq
  by_cases h₀ : i = 0
  · -- the first page from the start of the segment on
    refine ⟨seg.virtualAddress, ?_, ?_⟩
    · simp only [roundDown]
      omega
    · rw [ProgramSegment.memory, if_pos ⟨Nat.le_refl _, by omega⟩]
      simp
  · refine ⟨seg.first + 4096 * i, ?_, ?_⟩
    · simp only [roundDown]
      omega
    · rw [ProgramSegment.memory, if_pos ⟨by omega, by omega⟩]
      simp

/-! ## Bytes of the page file -/

/-- Outside its own pages a segment writes at most the page at which its part in the file ends, and
that page with zeros. -/
theorem Bounds.file_other {zero : Nat → BitVec 8} {v : Nat} (hal : v % 4096 = 0)
    (hno : ¬ seg.HasPage v) :
    seg.file zero v = if v = seg.endLast then some (fun _ => 0#8) else none := by
  have h₁ := h.first_eq
  have h₂ := h.limit_eq
  have h₃ := h.endFirst_eq
  have h₄ := h.endLast_eq
  have h₅ := h.startLast_eq
  have h₆ := h.startRemaining_eq
  have h₇ := h.full_eq
  have h₈ := h.zeros_eq
  have h₉ := h.file_le
  have hout : v < seg.first ∨ seg.limit ≤ v := by
    by_contra hin
    exact hno ⟨hal, by omega, by omega⟩
  have hzeros : spread (fun i => seg.startRemaining + 4096 * i) (fun _ => zero) seg.zeros v = none := by
    refine spread_of_ne fun i hi => ?_
    show seg.startRemaining + 4096 * i ≠ v
    omega
  rw [ProgramSegment.file, overlay_of_none hzeros]
  by_cases hv : v = seg.startLast
  · -- the part in the file ends at the boundary behind the last page
    have hempty : seg.endLast - seg.startLast = 0 := by omega
    have hfill : seg.filled 0 (seg.endFirst - seg.virtualAddress + 4096 * seg.full)
        (seg.endLast - seg.startLast) = fun _ => 0#8 := by
      funext o
      rw [hempty, ProgramSegment.filled, if_neg (by omega)]
    rw [hfill, hv, overlay_of_some (single_self _ _), if_pos (by omega)]
  · rw [overlay_of_none (single_of_ne _ hv), if_neg (by omega)]
    refine overlay_eq_none.2 ⟨spread_of_ne fun i hi => ?_, ?_⟩
    · show seg.endFirst + 4096 * i ≠ v
      omega
    · by_cases hfirst : v = seg.first
      · omega
      · exact single_of_ne _ hfirst

/-- The byte of the page file at offset `k` of the part in the file.  When the segment starts and
ends in its first page, off a page boundary, that page is written twice; the second time the source
is the byte behind the first page. -/
theorem Bounds.file_data {zero : Nat → BitVec 8} {v o k : Nat} (hal : v % 4096 = 0) (ho : o < 4096)
    (hk : v + o = seg.virtualAddress + k) (hlt : k < seg.sizeInFile) :
    ∃ b, seg.file zero v = some b ∧
      b o = if seg.endLast < seg.endFirst then seg.data (4096 + k) else seg.data k := by
  have h₁ := h.first_eq
  have h₃ := h.endFirst_eq
  have h₄ := h.endLast_eq
  have h₅ := h.startLast_eq
  have h₆ := h.startRemaining_eq
  have h₇ := h.full_eq
  have hzeros : spread (fun i => seg.startRemaining + 4096 * i) (fun _ => zero) seg.zeros v = none := by
    refine spread_of_ne fun i _ => ?_
    show seg.startRemaining + 4096 * i ≠ v
    omega
  rw [ProgramSegment.file, overlay_of_none hzeros]
  by_cases hlast : v = seg.startLast
  · -- the page in which the file ends
    rw [hlast, overlay_of_some (single_self _ _)]
    refine ⟨_, rfl, ?_⟩
    rw [ProgramSegment.filled, if_pos (by omega)]
    by_cases hshort : seg.endLast < seg.endFirst
    · have hsrc : seg.endFirst - seg.virtualAddress + 4096 * seg.full + (o - 0) = 4096 + k := by
        omega
      rw [if_pos hshort, hsrc]
    · have hsrc : seg.endFirst - seg.virtualAddress + 4096 * seg.full + (o - 0) = k := by
        omega
      rw [if_neg hshort, hsrc]
  rw [overlay_of_none (single_of_ne _ hlast), if_neg (by omega)]
  by_cases hfirst : v < seg.endFirst
  · -- the page in which the segment starts
    have hv : v = seg.first := by omega
    have hmid : spread (fun i => seg.endFirst + 4096 * i)
        (fun i o => seg.data (seg.endFirst - seg.virtualAddress + 4096 * i + o)) seg.full v = none := by
      refine spread_of_ne fun i _ => ?_
      show seg.endFirst + 4096 * i ≠ v
      omega
    have hsrc : 0 + (o - (seg.virtualAddress - seg.first)) = k := by omega
    rw [overlay_of_none hmid, hv, single_self]
    refine ⟨_, rfl, ?_⟩
    rw [ProgramSegment.filled, if_pos (by omega), hsrc]
  · -- a page the file fills
    obtain ⟨i, hi⟩ : ∃ i, v = seg.endFirst + 4096 * i := ⟨(v - seg.endFirst) / 4096, by omega⟩
    have hmid : spread (fun i => seg.endFirst + 4096 * i)
        (fun i o => seg.data (seg.endFirst - seg.virtualAddress + 4096 * i + o)) seg.full
          (seg.endFirst + 4096 * i) =
        some fun o => seg.data (seg.endFirst - seg.virtualAddress + 4096 * i + o) := by
      have hinj : ∀ a < seg.full, ∀ b < seg.full,
          seg.endFirst + 4096 * a = seg.endFirst + 4096 * b → a = b := fun a _ b _ hab => by omega
      exact spread_of_lt hinj (by omega)
    have hsrc : seg.endFirst - seg.virtualAddress + 4096 * i + o = k := by omega
    rw [hi, overlay_of_some hmid]
    refine ⟨_, rfl, ?_⟩
    simp only [hsrc]

end Bounds

/-! ## Whole programs -/

/-- The pages of a program that are brought into memory, in the order of loading. -/
def loadedPages (name : String) : List ProgramSegment → Nat → List Nat
  | [], _ => []
  | seg :: segs, remaining =>
    seg.pages (seg.count name remaining) ++
      loadedPages name segs (remaining - seg.count name remaining)

/-- The bytes a program leaves in memory, on top of `M`. -/
def programMemory (name : String) : List ProgramSegment → Nat → (Nat → Option (BitVec 8)) →
    Nat → Option (BitVec 8)
  | [], _, M => M
  | seg :: segs, remaining, M =>
    programMemory name segs (remaining - seg.count name remaining)
      (overlay (seg.memory (seg.count name remaining)) M)

/-- The pages a program leaves in the page file, on top of `W`. -/
def programFile (zero : Nat → BitVec 8) : List ProgramSegment →
    (Nat → Option (Nat → BitVec 8)) → Nat → Option (Nat → BitVec 8)
  | [], W => W
  | seg :: segs, W => programFile zero segs (overlay (seg.file zero) W)

/-- The number of pages that are mapped or written for a program. -/
def programCost (name : String) : List ProgramSegment → Nat → Nat
  | [], _ => 0
  | seg :: segs, remaining =>
    seg.count name remaining + seg.cost +
      programCost name segs (remaining - seg.count name remaining)

section Program

variable {name : String} {segs : List ProgramSegment}

theorem loadedPages_length_le (name : String) (segs : List ProgramSegment) (remaining : Nat) :
    (loadedPages name segs remaining).length ≤ remaining := by
  induction segs generalizing remaining with
  | nil => exact Nat.zero_le _
  | cons seg segs ih =>
    have hle := (seg.count_le name remaining).1
    have hrest := ih (remaining - seg.count name remaining)
    rw [loadedPages, List.length_append, seg.pages_length]
    omega

/-- A page brought into memory is a page of a segment. -/
theorem mem_loadedPages (hb : ∀ seg ∈ segs, Bounds seg) {remaining v : Nat}
    (hv : v ∈ loadedPages name segs remaining) : ∃ seg ∈ segs, seg.HasPage v := by
  induction segs generalizing remaining with
  | nil => cases hv
  | cons seg segs ih =>
    rw [loadedPages, List.mem_append, ProgramSegment.mem_pages] at hv
    rcases hv with ⟨i, hi, rfl⟩ | hv
    · have hle := (seg.count_le name remaining).2
      exact ⟨seg, List.mem_cons_self, (hb seg List.mem_cons_self).hasPage (by omega)⟩
    · obtain ⟨seg', hmem, hpage⟩ := ih (fun x hx => hb x (List.mem_cons_of_mem _ hx)) hv
      exact ⟨seg', List.mem_cons_of_mem _ hmem, hpage⟩

/-- Segments without the page leave the bytes of the page in memory alone. -/
theorem programMemory_of_not_hasPage (hb : ∀ seg ∈ segs, Bounds seg) {a : Nat}
    (hno : ∀ seg ∈ segs, ¬ seg.HasPage (roundDown a 4096)) (remaining : Nat)
    (M : Nat → Option (BitVec 8)) : programMemory name segs remaining M a = M a := by
  induction segs generalizing remaining M with
  | nil => rfl
  | cons seg segs ih =>
    rw [programMemory, ih (fun x hx => hb x (List.mem_cons_of_mem _ hx))
      fun x hx => hno x (List.mem_cons_of_mem _ hx)]
    exact overlay_of_none ((hb seg List.mem_cons_self).memory_of_not_hasPage
      (seg.count_le name remaining).2 (hno seg List.mem_cons_self))

/-- What has been written to memory stays written. -/
theorem programMemory_mono {a : Nat} {M : Nat → Option (BitVec 8)} (hM : M a ≠ none)
    (remaining : Nat) : programMemory name segs remaining M a ≠ none := by
  induction segs generalizing remaining M with
  | nil => exact hM
  | cons seg segs ih =>
    rw [programMemory]
    exact ih (fun hx => hM (overlay_eq_none.1 hx).2) _

/-- Every page brought into memory is written there. -/
theorem loadedPages_written (hb : ∀ seg ∈ segs, Bounds seg) {remaining v : Nat}
    {M : Nat → Option (BitVec 8)} (hv : v ∈ loadedPages name segs remaining) :
    ∃ a, roundDown a 4096 = v ∧ programMemory name segs remaining M a ≠ none := by
  induction segs generalizing remaining M with
  | nil => cases hv
  | cons seg segs ih =>
    rw [loadedPages, List.mem_append, ProgramSegment.mem_pages] at hv
    rw [programMemory]
    rcases hv with ⟨i, hi, rfl⟩ | hv
    · obtain ⟨a, hpage, ha⟩ := (hb seg List.mem_cons_self).memory_touches hi
      exact ⟨a, hpage, programMemory_mono (fun hx => ha (overlay_eq_none.1 hx).1) _⟩
    · exact ih (fun x hx => hb x (List.mem_cons_of_mem _ hx)) hv

/-- Segments without the page leave it alone in the page file as well, but for those whose part in
the file ends where the page starts. -/
theorem programFile_of_not_hasPage (hb : ∀ seg ∈ segs, Bounds seg) {zero : Nat → BitVec 8} {v : Nat}
    (hal : v % 4096 = 0) (hno : ∀ seg ∈ segs, ¬ seg.HasPage v)
    (W : Nat → Option (Nat → BitVec 8)) :
    programFile zero segs W v =
      if ∃ seg ∈ segs, seg.endLast = v then some (fun _ => 0#8) else W v := by
  induction segs generalizing W with
  | nil => rw [programFile, if_neg (by rintro ⟨seg, hmem, -⟩; cases hmem)]
  | cons seg segs ih =>
    rw [programFile, ih (fun x hx => hb x (List.mem_cons_of_mem _ hx))
      fun x hx => hno x (List.mem_cons_of_mem _ hx)]
    have hseg := @Bounds.file_other _ (hb seg List.mem_cons_self) zero _ hal
      (hno seg List.mem_cons_self)
    by_cases hlater : ∃ x ∈ segs, x.endLast = v
    · obtain ⟨x, hx, hend⟩ := hlater
      rw [if_pos ⟨x, hx, hend⟩, if_pos ⟨x, List.mem_cons_of_mem _ hx, hend⟩]
    · rw [if_neg hlater]
      by_cases hthis : seg.endLast = v
      · rw [if_pos ⟨seg, List.mem_cons_self, hthis⟩]
        rw [if_pos hthis.symm] at hseg
        exact overlay_of_some hseg
      · rw [if_neg fun hx => hthis hx.symm] at hseg
        rw [overlay_of_none hseg, if_neg]
        rintro ⟨x, hx, hend⟩
        rcases List.mem_cons.1 hx with rfl | hx
        · exact hthis hend
        · exact hlater ⟨x, hx, hend⟩

theorem programFile_append (zero : Nat → BitVec 8) (before after : List ProgramSegment)
    (W : Nat → Option (Nat → BitVec 8)) :
    programFile zero (before ++ after) W = programFile zero after (programFile zero before W) := by
  induction before generalizing W with
  | nil => rfl
  | cons x before ih => exact ih (overlay (x.file zero) W)

/-! ## The pages of one segment -/

section Segment

variable {before after : List ProgramSegment} {seg : ProgramSegment}
  (hb : ∀ x ∈ before ++ seg :: after, Bounds x)
  (hapart : (before ++ seg :: after).Pairwise ProgramSegment.Apart)
include hb hapart

omit hb in
/-- A page of one segment is no page of another. -/
theorem apart_of_hasPage {v : Nat} (hv : seg.HasPage v) :
    (∀ x ∈ before, ¬ x.HasPage v) ∧ ∀ x ∈ after, ¬ x.HasPage v := by
  rw [List.pairwise_append, List.pairwise_cons] at hapart
  obtain ⟨-, ⟨hafter, -⟩, hcross⟩ := hapart
  exact ⟨fun x hx hp => hcross x hx seg List.mem_cons_self v ⟨hp, hv⟩,
    fun x hx hp => hafter x hx v ⟨hv, hp⟩⟩

/-- The page file has what the segment has left there, unless the part in the file of a later
segment ends where the page starts. -/
theorem programFile_segment {zero : Nat → BitVec 8} {v : Nat} (hv : seg.HasPage v)
    {b : Nat → BitVec 8} (hseg : seg.file zero v = some b) (W : Nat → Option (Nat → BitVec 8)) :
    programFile zero (before ++ seg :: after) W v =
      some (if ∃ x ∈ after, x.endLast = v then fun _ => 0#8 else b) := by
  obtain ⟨-, hafter⟩ := apart_of_hasPage hapart hv
  have hbounds : ∀ x ∈ after, Bounds x := fun x hx =>
    hb x (List.mem_append_right _ (List.mem_cons_of_mem _ hx))
  rw [programFile_append, programFile, programFile_of_not_hasPage hbounds hv.1 hafter,
    overlay_of_some hseg]
  split <;> rfl

/-- A byte of the segment in memory, where its page has been brought in. -/
theorem programMemory_segment {a : Nat} (hlo : seg.virtualAddress ≤ a)
    (hv : seg.HasPage (roundDown a 4096)) {remaining : Nat}
    (hin : roundDown a 4096 ∈ loadedPages name (before ++ seg :: after) remaining)
    (M : Nat → Option (BitVec 8)) :
    programMemory name (before ++ seg :: after) remaining M a =
      some (if a < seg.virtualAddress + seg.sizeInFile then seg.data (a - seg.virtualAddress)
        else 0#8) := by
  induction before generalizing remaining M with
  | nil =>
    obtain ⟨-, hafter⟩ := @apart_of_hasPage [] after seg hapart _ hv
    have hbounds : ∀ x ∈ after, Bounds x := fun x hx => hb x (List.mem_cons_of_mem _ hx)
    have hself := hb seg List.mem_cons_self
    rw [List.nil_append, loadedPages, List.mem_append, ProgramSegment.mem_pages] at hin
    rcases hin with ⟨i, hi, hpage⟩ | hin
    · rw [List.nil_append, programMemory, programMemory_of_not_hasPage hbounds hafter]
      -- the page is among those copied for this segment
      have hhi : a < seg.first + 4096 * seg.count name remaining := by
        simp only [roundDown] at hpage
        omega
      refine overlay_of_some ?_
      rw [ProgramSegment.memory, if_pos ⟨hlo, hhi⟩]
    · obtain ⟨x, hx, hxv⟩ := mem_loadedPages hbounds hin
      exact absurd hxv (hafter x hx)
  | cons x before ih =>
    obtain ⟨hbefore, -⟩ := @apart_of_hasPage (x :: before) after seg hapart _ hv
    rw [List.cons_append, loadedPages, List.mem_append, ProgramSegment.mem_pages] at hin
    rcases hin with ⟨i, hi, hpage⟩ | hin
    · -- the pages of an earlier segment are others
      have hle := (x.count_le name remaining).2
      have hxv := (hb x List.mem_cons_self).hasPage (i := i) (by omega)
      rw [← hpage] at hxv
      exact absurd hxv (hbefore x List.mem_cons_self)
    · rw [List.cons_append, programMemory]
      exact ih (fun y hy => hb y (List.mem_cons_of_mem _ hy)) (List.pairwise_cons.1 hapart).2 hin _

end Segment

end Program

end FosMemory
