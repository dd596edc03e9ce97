import FosMemory.Kernel.Alive

/-!
# UserAccess — reads and writes of a user program

A user's read leaves the accessed bits behind and nothing else.  A user's write changes one byte of
the frame behind the page and sets the modified bit, so that from then on the byte is kept: by the
frame while the page is in memory, by the slot after an eviction.
-/

namespace FosMemory

open Lib

variable {c : Boot} {s t u : Kernel} {G H I : Ghost} {e : Nat}

/-- The byte of a page at the offset of `va`. -/
def pageByte (page : Nat → Word) (va : Nat) : BitVec 8 :=
  (page (va % 4096 / 4)).byte (va % 4)

/-- A page with the byte at the offset of `va` replaced. -/
def setPageByte (page : Nat → Word) (va : Nat) (b : BitVec 8) : Nat → Word :=
  Function.update page (va % 4096 / 4) ((page (va % 4096 / 4)).setByte (va % 4) b)

theorem pageByte_set_self (page : Nat → Word) (va : Nat) (b : BitVec 8) :
    pageByte (setPageByte page va b) va = b := by
  have hlt : va % 4 < 4 := Nat.mod_lt _ (by decide)
  rw [pageByte, setPageByte, Function.update_self, Word.byte_setByte_self hlt]

theorem pageByte_set_of_ne (page : Nat → Word) {va va' : Nat} (b : BitVec 8)
    (hne : va' % 4096 ≠ va % 4096) :
    pageByte (setPageByte page va b) va' = pageByte page va' := by
  have hlt : va' % 4 < 4 := Nat.mod_lt _ (by decide)
  rw [pageByte, setPageByte]
  by_cases hword : va' % 4096 / 4 = va % 4096 / 4
  · -- same word, so another byte of it
    have hbyte : va' % 4 ≠ va % 4 := by omega
    rw [hword, Function.update_self, Word.byte_setByte_of_ne hlt hbyte, pageByte, hword]
  · rw [Function.update_of_ne hword, pageByte]

/-! ## Steps that only move bits of entries or bytes of pages -/

/-- The elements do not see a change of directory and tables. -/
theorem WalkOnly.alive (h : WalkOnly c e s G t) (ho : Owned c s G) (hd : DiskFrames s G)
    (ha : Alive c s G e) : Acts c e s G t G := by
  have hst := h.envStep ho ha.base hd
  have hws := h.sameWs ho ha.base hd
  have hmax : t.wsMax e = s.wsMax e := hst.env.pageWSMaxSize
  refine ⟨⟨0, hst⟩, id, hst.base, ?_, ?_, hst.ddir ha.ddir⟩
  · exact ha.entries.congr hws hmax (by rw [h.rest.envs]) fun f v => Iff.rfl
  · exact ha.covered.congr hws hmax fun f v => Iff.rfl

theorem PageSet.alive {v f : Nat} {page : Nat → Word} {w : Word}
    (h : PageSet c e v f page w s G t) (hf : G.own f = some ⟨e, .page v⟩) (ho : Owned c s G)
    (hd : DiskFrames s G) (ha : Alive c s G e) : Acts c e s G t G := by
  have hst := h.envStep hf ho ha.base hd
  have hws := h.sameWs hf ho ha.base hd
  have hmax : t.wsMax e = s.wsMax e := hst.env.pageWSMaxSize
  refine ⟨⟨0, hst⟩, id, hst.base, ?_, ?_, hst.ddir ha.ddir⟩
  · exact ha.entries.congr hws hmax (by rw [h.rest.envs]) fun f v => Iff.rfl
  · exact ha.covered.congr hws hmax fun f v => Iff.rfl

/-- New contents of a page whose modified bit is set. -/
theorem PageSet.holds {v f : Nat} {page : Nat → Word} {w : Word} {p : (Nat → Word) → Prop}
    (h : PageSet c e v f page w s G t) (hf : G.own f = some ⟨e, .page v⟩)
    (hmod : w.has permModified = true) (hslot : ∃ d, G.slots e v = some d) (hp : p page) :
    Holds t G e v p := by
  constructor
  case slot => exact hslot
  case resident =>
    intro g hg
    rw [h.space.page_unique hf hg, h.page, h.pte_self]
    exact ⟨hp, .inl hmod⟩
  case stored => exact fun hno => absurd hf (hno f)

/-! ## Reading -/

section Read

variable (hs : Space c s G e) (hcr3 : s.cr3 = (s.envs e).envCr3) {va : Nat} (hva : va < userTop)
include hs hcr3 hva

/-- A read that completes: where it went and what it returned. -/
theorem Space.readByte_some {b : BitVec 8} (h : s.readByte true va = some (b, t)) :
    ∃ f k, G.Target e (roundDown va 4096) f k ∧ b = pageByte (t.mem f) va ∧
      PteSet c e (roundDown va 4096) (s.pteWord e (roundDown va 4096) ||| permUsed) s G t := by
  by_cases hex : ∃ f k, G.Target e (roundDown va 4096) f k
  · obtain ⟨f, k, ht⟩ := hex
    obtain ⟨t', htouch, hset⟩ := hs.touch_some hcr3 hva true false ht (Or.inr rfl)
    rw [Kernel.readByte, htouch] at h
    simp only [Option.map_some, Option.some.injEq, Prod.mk.injEq] at h
    obtain ⟨rfl, rfl⟩ := h
    exact ⟨f, k, ht, rfl, hset⟩
  · have hnone : ∀ f k, ¬ G.Target e (roundDown va 4096) f k := fun f k ht => hex ⟨f, k, ht⟩
    rw [Kernel.readByte, hs.touch_none hcr3 hva true false hnone] at h
    cases h

/-- A read faults exactly where nothing is mapped. -/
theorem Space.readByte_none (h : s.readByte true va = none) :
    Absent G e (roundDown va 4096) := by
  intro f k ht
  obtain ⟨t', htouch, -⟩ := hs.touch_some hcr3 hva true false ht (Or.inr rfl)
  rw [Kernel.readByte, htouch] at h
  cases h

/-- Writing faults where nothing is mapped and in the window. -/
theorem Space.writeByte_none {b : BitVec 8} (h : s.writeByte true va b = none) (f : Nat) :
    G.own f ≠ some ⟨e, .page (roundDown va 4096)⟩ := by
  intro hf
  obtain ⟨t', htouch, -⟩ := hs.touch_some (b := false) hcr3 hva true true hf
    (Or.inl rfl)
  rw [Kernel.writeByte, htouch] at h
  cases h

/-- A write that completes. -/
theorem Space.writeByte_some {b : BitVec 8} (h : s.writeByte true va b = some t) :
    ∃ f, G.own f = some ⟨e, .page (roundDown va 4096)⟩ ∧
      PageSet c e (roundDown va 4096) f (setPageByte (s.mem f) va b)
        (s.pteWord e (roundDown va 4096) ||| accessMark true) s G t := by
  by_cases hex : ∃ f k, G.Target e (roundDown va 4096) f k
  · obtain ⟨f, k, ht⟩ := hex
    cases k with
    | true =>
      rw [Kernel.writeByte, hs.touch_window hcr3 true ht] at h
      cases h
    | false =>
      obtain ⟨t', htouch, hset⟩ := hs.touch_some (b := false) hcr3 hva true true ht
        (Or.inl rfl)
      rw [Kernel.writeByte, htouch] at h
      simp only [Option.map_some, Option.some.injEq] at h
      have hpage := hset.space.setPage ht (setPageByte (t'.mem f) va b)
      have hall := hset.thenPage hpage
      have ht' : t'.setPage f (setPageByte (t'.mem f) va b) = t := h
      rw [ht', hset.pte_self, hset.mem_page ht] at hall
      exact ⟨f, ht, hall⟩
  · have hnone : ∀ f k, ¬ G.Target e (roundDown va 4096) f k := fun f k ht => hex ⟨f, k, ht⟩
    rw [Kernel.writeByte, hs.touch_none hcr3 hva true true hnone] at h
    cases h

end Read

/-- A read changes nothing but accessed bits. -/
theorem PteSet.quiet {v : Nat} {w : Word} (h : PteSet c e v w s G t)
    (hw : w.unmarked = (s.pteWord e v).unmarked) (ho : Owned c s G) (hb : Base c s G e)
    (hd : DiskFrames s G) : Quiet c e 0 s G t G :=
  ⟨h.envStep ho hb hd, id, h.sameWs ho hb hd, by rw [h.rest.envs],
    h.samePage_all hw, h.rest.diskFreeFrameList⟩

/-! ## What a read returns -/

section Value

variable {va : Nat}

/-- A read outside the window returns what the page holds. -/
theorem Holds.read {b b' : BitVec 8} (hp : Holds s G e (roundDown va 4096)
      fun page => pageByte page va = b) (hb : Base c s G e)
    (hcr3 : s.cr3 = (s.envs e).envCr3) (hva : va < userTop) (hwin : ¬ s.inWindow e va)
    (h : s.readByte true va = some (b', t)) : b' = b := by
  obtain ⟨f, k, ht, rfl, hset⟩ := hb.space.readByte_some hcr3 hva h
  cases k with
  | true => exact absurd (hb.array.window_iff.1 ⟨f, ht⟩) hwin
  | false =>
    rw [hset.mem_page ht]
    exact (hp.resident f ht).1

/-- A write is held from then on. -/
theorem Holds.written {b : BitVec 8} (hs : Space c s G e) (hst : Stored G e)
    (hcr3 : s.cr3 = (s.envs e).envCr3) (hva : va < userTop) (h : s.writeByte true va b = some t) :
    Holds t G e (roundDown va 4096) fun page => pageByte page va = b := by
  obtain ⟨f, hf, hpage⟩ := hs.writeByte_some hcr3 hva h
  refine hpage.holds hf ?_ (hst _ f hf) (pageByte_set_self _ _ _)
  exact has_mono (has_or_self _ _) (by decide)

/-- A write to one byte keeps the others. -/
theorem Holds.write_of_ne {va' : Nat} {b b' : BitVec 8} (hp : Holds s G e (roundDown va' 4096)
      fun page => pageByte page va' = b') (hs : Space c s G e)
    (hcr3 : s.cr3 = (s.envs e).envCr3) (hva : va < userTop) (h : s.writeByte true va b = some t)
    (hne : va' ≠ va) : Holds t G e (roundDown va' 4096) fun page => pageByte page va' = b' := by
  obtain ⟨f, hf, hpage⟩ := hs.writeByte_some hcr3 hva h
  by_cases hv : roundDown va' 4096 = roundDown va 4096
  · have hoff : va' % 4096 ≠ va % 4096 := by
      simp only [roundDown] at hv
      have h₁ := Nat.mod_le va 4096
      have h₂ := Nat.mod_le va' 4096
      omega
    rw [hv] at hp ⊢
    refine hpage.holds hf (has_mono (has_or_self _ _) (by decide)) hp.slot ?_
    rw [pageByte_set_of_ne _ _ hoff]
    exact (hp.resident f hf).1
  · exact hp.same (hpage.samePage hf hv)

end Value

end FosMemory
