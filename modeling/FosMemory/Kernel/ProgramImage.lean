import FosMemory.Kernel.Program

/-!
# ProgramImage — the segments of an ELF image

`inc/elf.h` and the segment iterator of `kern/user_environment.c`.  An image is the bytes from
`ptr_program_start` on.  `programSegments` follows `PROGRAM_SEGMENT_FOREACH` from one `PT_LOAD`
header to the next; these turn out to be the load headers of the table, in order.
-/

namespace FosMemory

open Lib

/-- The bytes from `ptr_program_start` on. -/
abbrev Image := Nat → BitVec 8

namespace Image

variable (image : Image)

/-- The `uint16` at offset `k`. -/
def half (k : Nat) : Nat :=
  (image (k + 1) ++ image k).toNat

/-- The `uint32` at offset `k`. -/
def word (k : Nat) : Nat :=
  (image (k + 3) ++ image (k + 2) ++ image (k + 1) ++ image k).toNat

/-! ## struct Elf -/

def eMagic : Nat := image.word 0
def ePhoff : Nat := image.word 28
def ePhnum : Nat := image.half 44

/-! ## struct Proghdr -/

/-- The offset of `ph[index]`, the size of a header being 32 bytes. -/
def ph (index : Nat) : Nat := image.ePhoff + 32 * index

def pType (index : Nat) : Nat := image.word (image.ph index)
def pOffset (index : Nat) : Nat := image.word (image.ph index + 4)
def pVa (index : Nat) : Nat := image.word (image.ph index + 8)
def pFilesz (index : Nat) : Nat := image.word (image.ph index + 16)
def pMemsz (index : Nat) : Nat := image.word (image.ph index + 20)

end Image

/-- `ELF_MAGIC` -/
@[simp] def elfMagic : Nat := 0x464C457F

/-- `ELF_PROG_LOAD` -/
@[simp] def elfProgLoad : Nat := 1

/-! ## PROGRAM_SEGMENT_FOREACH -/

/-- What both iterators store in the segment. -/
def Image.segment (image : Image) (index : Nat) : ProgramSegment where
  virtualAddress := image.pVa index
  sizeInFile := image.pFilesz index
  sizeInMemory := image.pMemsz index
  data := fun k => image (image.pOffset index + k)

/-- The loop of both iterators: the first load header from `segmentId` on, or `e_phnum`.  The header
behind the table is read as well, but it does not matter what it says. -/
def skipToLoad (image : Image) (segmentId : Nat) : Nat :=
  if image.pType segmentId ≠ elfProgLoad ∧ segmentId < image.ePhnum then
    skipToLoad image (segmentId + 1)
  else segmentId
termination_by image.ePhnum - segmentId

/-- `PROGRAM_SEGMENT_FIRST`: the index of the header. -/
def programSegmentFirst (image : Image) : Nat :=
  skipToLoad image 0

/-- `PROGRAM_SEGMENT_NEXT`: the index of the next header. -/
def programSegmentNext (image : Image) (segmentId : Nat) : Nat :=
  skipToLoad image (segmentId + 1)

theorem le_skipToLoad (image : Image) (segmentId : Nat) : segmentId ≤ skipToLoad image segmentId := by
  fun_induction skipToLoad image segmentId with
  | case1 id _ ih => exact Nat.le_of_succ_le ih
  | case2 id _ => exact Nat.le_refl id

/-- The segments `PROGRAM_SEGMENT_FOREACH` visits from header `index` on. -/
def programSegmentsFrom (image : Image) (index : Nat) : List ProgramSegment :=
  if index < image.ePhnum then
    image.segment index :: programSegmentsFrom image (programSegmentNext image index)
  else []
termination_by image.ePhnum - index
decreasing_by
  have hle := le_skipToLoad image (index + 1)
  rw [programSegmentNext]
  omega

def programSegments (image : Image) : List ProgramSegment :=
  programSegmentsFrom image (programSegmentFirst image)

/-- The user program with the given image; without `ELF_MAGIC` the kernel panics. -/
def UserProgram.ofImage (name : String) (image : Image) : Option UserProgram :=
  if image.eMagic ≠ elfMagic then none
  else some { name := name, segments := programSegments image }

/-! ## The load headers -/

def Image.isLoad (image : Image) (index : Nat) : Bool :=
  decide (image.pType index = elfProgLoad)

/-- The segments of the load headers among the `m` headers from `index` on. -/
def Image.loads (image : Image) (index m : Nat) : List ProgramSegment :=
  ((List.range' index m).filter image.isLoad).map image.segment

theorem Image.loads_succ (image : Image) (index m : Nat) :
    image.loads index (m + 1) =
      if image.isLoad index then image.segment index :: image.loads (index + 1) m
      else image.loads (index + 1) m := by
  rw [Image.loads, List.range'_succ, List.filter_cons]
  split <;> rfl

theorem Image.mem_loads {image : Image} {index m : Nat} {seg : ProgramSegment} :
    seg ∈ image.loads index m ↔
      ∃ j, index ≤ j ∧ j < index + m ∧ image.isLoad j = true ∧ image.segment j = seg := by
  simp only [Image.loads, List.mem_map, List.mem_filter, List.mem_range'_1, and_assoc]

/-- The iterators visit every load header once, in order. -/
theorem programSegmentsFrom_skipToLoad (image : Image) (m : Nat) :
    ∀ index, index + m = image.ePhnum →
      programSegmentsFrom image (skipToLoad image index) = image.loads index m := by
  induction m with
  | zero =>
    intro index hend
    -- behind the table the loop stops at once
    have hno : ¬ index < image.ePhnum := by omega
    rw [skipToLoad, if_neg fun hx => hno hx.2, programSegmentsFrom, if_neg hno]
    rfl
  | succ m ih =>
    intro index hend
    have hlt : index < image.ePhnum := by omega
    rw [skipToLoad, image.loads_succ]
    by_cases hload : image.pType index = elfProgLoad
    · have hhead : image.isLoad index = true := decide_eq_true hload
      rw [if_neg fun hx => hx.1 hload, if_pos hhead, programSegmentsFrom, if_pos hlt,
        programSegmentNext, ih (index + 1) (by omega)]
    · rw [if_pos ⟨hload, hlt⟩, if_neg (by rw [Image.isLoad, decide_eq_true_eq]; exact hload)]
      exact ih (index + 1) (by omega)

theorem programSegments_eq (image : Image) : programSegments image = image.loads 0 image.ePhnum :=
  programSegmentsFrom_skipToLoad image image.ePhnum 0 (Nat.zero_add _)

/-- The load headers before one of them, and those behind it. -/
theorem programSegments_split {image : Image} {i : Nat} (hi : i < image.ePhnum)
    (hload : image.pType i = elfProgLoad) :
    programSegments image = image.loads 0 i ++
      image.segment i :: image.loads (i + 1) (image.ePhnum - (i + 1)) := by
  have hcount : image.ePhnum = i + (image.ePhnum - (i + 1) + 1) := by omega
  have hhead : image.isLoad i = true := decide_eq_true hload
  calc programSegments image
      = image.loads 0 (i + (image.ePhnum - (i + 1) + 1)) := by rw [← hcount, programSegments_eq]
    _ = image.loads 0 i ++ image.loads i (image.ePhnum - (i + 1) + 1) := by
        rw [Image.loads, ← List.range'_append_1, List.filter_append, List.map_append, Nat.zero_add]
        rfl
    _ = image.loads 0 i ++ image.segment i :: image.loads (i + 1) (image.ePhnum - (i + 1)) := by
        rw [image.loads_succ, if_pos hhead]

/-! ## Images with one segment -/

/-- `struct Elf` and one load header, with the data behind them. -/
def oneHeader (va filesz memsz : Word) : List Word :=
  [0x464C457F#32, 0#32, 0#32, 0#32, 0#32, 0#32, 0#32, 52#32, 0#32, 0#32, 0#32, 1#32, 0#32,
    1#32, 84#32, va, 0#32, filesz, memsz, 0#32, 0#32]

def oneSegment (va filesz memsz : Word) (data : Nat → BitVec 8) : Image := fun k =>
  if k < 84 then ((oneHeader va filesz memsz).getD (k / 4) 0#32).byte (k % 4) else data (k - 84)

theorem Word.bytes (w : Word) : w.byte 3 ++ w.byte 2 ++ w.byte 1 ++ w.byte 0 = w := by
  simp only [Word.byte]
  ext i hi
  simp only [BitVec.getElem_append, BitVec.getElem_extractLsb']
  grind

section OneSegment

variable (va filesz memsz : Word) (data : Nat → BitVec 8)

theorem oneSegment_byte {m b : Nat} (hm : m < 21) (hb : b < 4) :
    oneSegment va filesz memsz data (4 * m + b) =
      ((oneHeader va filesz memsz).getD m 0#32).byte b := by
  have hdiv : (4 * m + b) / 4 = m := by omega
  have hmod : (4 * m + b) % 4 = b := by omega
  rw [oneSegment, if_pos (by omega), hdiv, hmod]

theorem oneSegment_word {m : Nat} (hm : m < 21) :
    (oneSegment va filesz memsz data).word (4 * m) =
      ((oneHeader va filesz memsz).getD m 0#32).toNat := by
  have hbyte := fun b hb => oneSegment_byte va filesz memsz data (b := b) hm hb
  have hzero := hbyte 0 (by decide)
  rw [Nat.add_zero] at hzero
  rw [Image.word, hbyte 3 (by decide), hbyte 2 (by decide), hbyte 1 (by decide), hzero, Word.bytes]

theorem oneSegment_ph : (oneSegment va filesz memsz data).ph 0 = 52 :=
  congrArg (· + 32 * 0) (oneSegment_word va filesz memsz data (m := 7) (by decide))

theorem oneSegment_ePhnum : (oneSegment va filesz memsz data).ePhnum = 1 := by
  have hlow := oneSegment_byte va filesz memsz data (m := 11) (b := 0) (by decide) (by decide)
  have hhigh := oneSegment_byte va filesz memsz data (m := 11) (b := 1) (by decide) (by decide)
  have hone : (Word.byte 1#32 1 ++ Word.byte 1#32 0).toNat = 1 := by decide
  rw [Image.ePhnum, Image.half, hlow, hhigh]
  exact hone

theorem oneSegment_pType : (oneSegment va filesz memsz data).pType 0 = elfProgLoad := by
  rw [Image.pType, oneSegment_ph]
  exact oneSegment_word va filesz memsz data (m := 13) (by decide)

theorem oneSegment_pOffset : (oneSegment va filesz memsz data).pOffset 0 = 84 := by
  rw [Image.pOffset, oneSegment_ph]
  exact oneSegment_word va filesz memsz data (m := 14) (by decide)

theorem oneSegment_pVa : (oneSegment va filesz memsz data).pVa 0 = va.toNat := by
  rw [Image.pVa, oneSegment_ph]
  exact oneSegment_word va filesz memsz data (m := 15) (by decide)

theorem oneSegment_pFilesz : (oneSegment va filesz memsz data).pFilesz 0 = filesz.toNat := by
  rw [Image.pFilesz, oneSegment_ph]
  exact oneSegment_word va filesz memsz data (m := 17) (by decide)

theorem oneSegment_pMemsz : (oneSegment va filesz memsz data).pMemsz 0 = memsz.toNat := by
  rw [Image.pMemsz, oneSegment_ph]
  exact oneSegment_word va filesz memsz data (m := 18) (by decide)

theorem oneSegment_data (k : Nat) : oneSegment va filesz memsz data (84 + k) = data k := by
  rw [oneSegment, if_neg (by omega), Nat.add_sub_cancel_left]

/-- The program of such an image. -/
theorem ofImage_oneSegment (name : String) :
    UserProgram.ofImage name (oneSegment va filesz memsz data) = some
      { name := name
        segments := [⟨va.toNat, filesz.toNat, memsz.toNat, data⟩] } := by
  have hmagic : (oneSegment va filesz memsz data).eMagic = elfMagic :=
    oneSegment_word va filesz memsz data (m := 0) (by decide)
  have hload : (oneSegment va filesz memsz data).isLoad 0 = true :=
    decide_eq_true (oneSegment_pType va filesz memsz data)
  have hseg : (oneSegment va filesz memsz data).segment 0 =
      ⟨va.toNat, filesz.toNat, memsz.toNat, data⟩ := by
    simp only [Image.segment, oneSegment_pVa, oneSegment_pFilesz, oneSegment_pMemsz,
      oneSegment_pOffset, oneSegment_data]
  rw [UserProgram.ofImage, if_neg (not_not.2 hmagic), programSegments_eq, oneSegment_ePhnum,
    Image.loads_succ, if_pos hload, hseg]
  rfl

end OneSegment

end FosMemory
