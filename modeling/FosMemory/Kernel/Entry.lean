import Mathlib.Tactic.IntervalCases
import FosMemory.Layout

/-!
# Entry — page directory and page table entries

A 32-bit entry holds a frame number in its upper twenty bits and permission bits in its lower
twelve (`inc/mmu.h`).  The kernel builds entries with `CONSTRUCT_ENTRY`, reads the frame with
`EXTRACT_ADDRESS` and sets or clears permission bits one mask at a time; the lemmas below say
what each of these does to the frame number and to the bits outside the mask.
-/

namespace FosMemory

/-- A `uint32` in memory. -/
abbrev Word := BitVec 32

/-! ## Permission bits -/

def permPresent : Word := 0x001#32
def permWriteable : Word := 0x002#32
def permUser : Word := 0x004#32
def permUsed : Word := 0x020#32
def permModified : Word := 0x040#32

/-- `PERM_USER | PERM_WRITEABLE | PERM_PRESENT`. -/
def permUserPage : Word := permUser ||| permWriteable ||| permPresent

/-- `(entry & perm) == perm`. -/
def Word.has (w perm : Word) : Bool :=
  w &&& perm == perm

/-- `EXTRACT_ADDRESS(entry)`. -/
def extractAddress (w : Word) : Nat :=
  (w &&& ~~~0xFFF#32).toNat

/-- The number of the frame an entry names: `EXTRACT_ADDRESS(entry) >> 12`. -/
def Word.frame (w : Word) : Nat :=
  w.toNat / 4096

/-- `CONSTRUCT_ENTRY(phys_frame_address, permissions)`. -/
def constructEntry (physFrameAddress : Nat) (permissions : Word) : Word :=
  BitVec.ofNat 32 physFrameAddress ||| permissions

/-! ## Frame number -/

theorem Word.frame_eq_shift (w : Word) : w.frame = (w >>> 12).toNat := by
  simp [Word.frame, Nat.shiftRight_eq_div_pow]

theorem Word.frame_lt (w : Word) : w.frame < 1048576 := by
  have := w.isLt
  simp only [Word.frame]
  omega

theorem shift_eq_zero {perm : Word} (h : perm.toNat < 4096) : perm >>> 12 = 0#32 := by
  apply BitVec.eq_of_toNat_eq
  simp only [BitVec.toNat_ushiftRight, Nat.shiftRight_eq_div_pow, BitVec.toNat_ofNat]
  omega

theorem extractAddress_eq (w : Word) : extractAddress w = w.frame * 4096 := by
  have hmask : (w &&& ~~~0xFFF#32) = (w >>> 12) <<< 12 := by
    apply BitVec.eq_of_getLsbD_eq
    intro i hi
    have hbit : (~~~0xFFF#32).getLsbD i = decide (12 ≤ i) := by
      interval_cases i <;> rfl
    rw [BitVec.getLsbD_and, hbit, BitVec.getLsbD_shiftLeft, BitVec.getLsbD_ushiftRight]
    by_cases h12 : 12 ≤ i
    · have hsub : 12 + (i - 12) = i := by omega
      simp [h12, hi, hsub]
    · simp [h12]
  rw [extractAddress, hmask, Word.frame]
  have := w.isLt
  simp only [BitVec.toNat_shiftLeft, BitVec.toNat_ushiftRight, Nat.shiftRight_eq_div_pow,
    Nat.shiftLeft_eq]
  omega

@[simp] theorem extractAddress_zero : extractAddress 0#32 = 0 := by
  decide

@[simp] theorem frame_zero : Word.frame 0#32 = 0 := by
  decide

theorem frame_or {w perm : Word} (h : perm.toNat < 4096) : (w ||| perm).frame = w.frame := by
  rw [Word.frame_eq_shift, Word.frame_eq_shift, BitVec.ushiftRight_or_distrib, shift_eq_zero h]
  simp

theorem frame_clear {w perm : Word} (h : perm.toNat < 4096) :
    (w &&& ~~~perm).frame = w.frame := by
  have hsplit : (w &&& ~~~perm).toNat / 4096 = w.toNat / 4096 := by
    have hshift : (w &&& ~~~perm) >>> 12 = w >>> 12 := by
      have hzero := shift_eq_zero h
      apply BitVec.eq_of_getLsbD_eq
      intro i hi
      have hbit : perm.getLsbD (12 + i) = false := by
        have := congrArg (fun v : Word => v.getLsbD i) hzero
        simpa using this
      by_cases hlt : 12 + i < 32
      · rw [BitVec.getLsbD_ushiftRight, BitVec.getLsbD_ushiftRight, BitVec.getLsbD_and,
          BitVec.getLsbD_not, hbit]
        simp [hlt]
      · have hw : w.getLsbD (12 + i) = false := BitVec.getLsbD_of_ge w _ (by omega)
        simp [hw]
    have := congrArg BitVec.toNat hshift
    simpa [Nat.shiftRight_eq_div_pow] using this
  exact hsplit

theorem frame_constructEntry {f : Nat} {perm : Word} (hf : f < 1048576)
    (hperm : perm.toNat < 4096) : (constructEntry (f * 4096) perm).frame = f := by
  rw [constructEntry, frame_or hperm, Word.frame]
  simp only [BitVec.toNat_ofNat]
  omega

/-! ## Bits under a mask -/

theorem has_iff {w perm : Word} : w.has perm = true ↔ w &&& perm = perm := by
  simp [Word.has]

theorem has_or_self (w perm : Word) : (w ||| perm).has perm = true := by
  rw [has_iff]
  ext i hi
  cases hp : perm[i] <;> simp [hp]

theorem has_or {w p q : Word} (h : w.has p = true) : (w ||| q).has p = true := by
  rw [has_iff] at h ⊢
  ext i hi
  have hw := congrArg (fun v : Word => v[i]) h
  simp only [BitVec.getElem_and, BitVec.getElem_or] at hw ⊢
  cases hp : p[i] <;> simp_all

theorem has_clear {w p q : Word} (h : w.has p = true) (hpq : p &&& q = 0#32) :
    (w &&& ~~~q).has p = true := by
  rw [has_iff] at h ⊢
  ext i hi
  have hw := congrArg (fun v : Word => v[i]) h
  have hz := congrArg (fun v : Word => v[i]) hpq
  simp only [BitVec.getElem_and, BitVec.getElem_not, BitVec.getElem_zero] at hw hz ⊢
  cases hp : p[i] <;> simp_all

theorem has_of_has_or {w p q : Word} (h : w.has (p ||| q) = true) :
    w.has p = true ∧ w.has q = true := by
  rw [has_iff] at h
  constructor <;> rw [has_iff] <;> ext i hi
  all_goals
    have hw := congrArg (fun v : Word => v[i]) h
    simp only [BitVec.getElem_and, BitVec.getElem_or] at hw ⊢
    cases hp : p[i] <;> cases hq : q[i] <;> simp_all

theorem has_ne_zero {w p : Word} (h : w.has p = true) (hp : p ≠ 0#32) : w ≠ 0#32 := by
  rintro rfl
  rw [has_iff] at h
  simp only [BitVec.zero_and] at h
  exact hp h.symm

@[simp] theorem zero_has_present : Word.has 0#32 permPresent = false := by
  decide

/-- The permission bits of an entry are those it was built with. -/
theorem constructEntry_and (a : Nat) {p q : Word} (hq : q.toNat < 4096) :
    constructEntry (a * 4096) p &&& q = p &&& q := by
  apply BitVec.eq_of_getLsbD_eq
  intro i hi
  by_cases h12 : i < 12
  · have hbit : (BitVec.ofNat 32 (a * 4096)).getLsbD i = false := by
      have hmul : a * 4096 = 2 ^ 12 * a := by omega
      rw [BitVec.getLsbD_ofNat, hmul, Nat.testBit_two_pow_mul]
      simp [Nat.not_le.2 h12]
    rw [BitVec.getLsbD_and, constructEntry, BitVec.getLsbD_or, hbit, BitVec.getLsbD_and,
      Bool.false_or]
  · have hbit : q.getLsbD i = false := by
      have hle : (4096 : Nat) ≤ 2 ^ i := Nat.pow_le_pow_right (n := 2) (by decide) (Nat.not_lt.1 h12)
      exact Nat.testBit_lt_two_pow (Nat.lt_of_lt_of_le hq hle)
    rw [BitVec.getLsbD_and, BitVec.getLsbD_and, hbit, Bool.and_false, Bool.and_false]

theorem has_constructEntry (a : Nat) (perm : Word) : (constructEntry a perm).has perm = true :=
  has_or_self _ _

/-! ## Entries that name a frame -/

/-- The entry names frame `f` and has at least the permissions `p`. -/
structure Names (w : Word) (f : Nat) (p : Word) : Prop where
  frame_eq : w.frame = f
  has_perm : w.has p = true

theorem Names.present {w : Word} {f : Nat} {p : Word} (h : Names w f (p ||| permPresent)) :
    w.has permPresent = true :=
  (has_of_has_or h.has_perm).2

theorem Names.ne_zero {w : Word} {f : Nat} {p : Word} (h : Names w f (p ||| permPresent)) :
    w ≠ 0#32 :=
  has_ne_zero h.present (by decide)

theorem names_constructEntry {f : Nat} {perm : Word} (hf : f < 1048576)
    (hperm : perm.toNat < 4096) : Names (constructEntry (f * 4096) perm) f perm :=
  ⟨frame_constructEntry hf hperm, has_constructEntry _ _⟩

/-- Setting permission bits keeps what an entry names. -/
theorem Names.set {w : Word} {f : Nat} {p q : Word} (h : Names w f p) (hq : q.toNat < 4096) :
    Names (w ||| q) f p :=
  ⟨(frame_or hq).trans h.frame_eq, has_or h.has_perm⟩

/-- Clearing permission bits outside `p` keeps what an entry names. -/
theorem Names.clear {w : Word} {f : Nat} {p q : Word} (h : Names w f p) (hq : q.toNat < 4096)
    (hpq : p &&& q = 0#32) : Names (w &&& ~~~q) f p :=
  ⟨(frame_clear hq).trans h.frame_eq, has_clear h.has_perm hpq⟩

end FosMemory
