import FosMemory.Kernel.ProgramImage
import FosMemory.Kernel.Retained
import FosMemory.Kernel.FrameResults

/-!
# LoadedBytes — what a new environment finds in memory and in the page file

`env_create` copies a segment twice: into the pages of the initial working set and, page by page, into
the page file.  The copy in memory is right.  The one in the page file is wrong in three places: a
segment that starts off a page boundary and ends before the next one, a page at which the part in the
file of a later segment ends, and the pages of zeros, taken from a zero page of which only the first
1024 bytes have been cleared.
-/

namespace FosMemory

open Lib

variable {c : Boot} {s t u : Kernel} {G H : Ghost} {e n i a : Nat} {prog : UserProgram}

/-! ## Copies of a byte -/

/-- The byte at `va` of `e` in the page file. -/
def Kernel.fileByte (s : Kernel) (e va : Nat) : Option (BitVec 8) :=
  match pfLookup s e va with
  | .ok dfn => if dfn = 0 then none else some (pageByte (s.disk dfn) va)
  | .error _ => none

theorem Alive.fileByte_eq (h : Alive c s G e) (ho : Owned c s G) (hd : DiskFrames s G)
    (ha : a < userTop) :
    s.fileByte e a = (G.slots e (roundDown a 4096)).map fun d => pageByte (s.disk d) a := by
  rw [Kernel.fileByte, h.base.slots.pfLookup_eq ho hd h.ddir ha]
  cases hslot : G.slots e (roundDown a 4096) with
  | none => rfl
  | some d =>
    have hpos := (hd.range e _ d hslot).1
    simp only [Option.getD_some, Option.map_some]
    rw [if_neg (by omega)]

/-- A read outside the window returns what the frame behind the page holds. -/
theorem SysInv.read_page (h : SysInv c s G) (hcur : s.curenv = some e) (ha : a < userTop)
    (hwin : ¬ s.inWindow e a) {x : BitVec 8} (hread : s.readByte true a = some (x, t)) :
    ∃ f, G.own f = some ⟨e, .page (roundDown a 4096)⟩ ∧ x = pageByte (s.mem f) a := by
  have hb := (h.current hcur).base
  obtain ⟨f, k, ht, rfl, hset⟩ := hb.space.readByte_some (h.isRunning hcur).cr3 ha hread
  cases k with
  | true => exact absurd (hb.array.window_iff.1 ⟨f, ht⟩) hwin
  | false => exact ⟨f, ht, by rw [hset.mem_page ht]⟩

/-- When `e` runs next. -/
theorem SysInv.envRun_read (h : SysInv c t H) (hlive : t.Live e) (ha : a < userTop)
    (hwin : ¬ t.inWindow e a) {x : BitVec 8}
    (hread : (FosMemory.envRun t e).readByte true a = some (x, u)) :
    ∃ f, H.own f = some ⟨e, .page (roundDown a 4096)⟩ ∧ x = pageByte (t.mem f) a := by
  have hrun := h.envRun hlive
  rw [FosMemory.envRun] at hrun hread
  by_cases hcur : t.curenv = some e
  · rw [if_pos hcur] at hrun hread
    exact hrun.read_page hcur ha hwin hread
  · rw [if_neg hcur] at hrun hread
    exact hrun.read_page rfl ha hwin hread

/-! ## The bytes of a segment -/

section Segment

variable (hcr : Created c e n prog s G t H) (hprog : Loadable n prog)
  {before after : List ProgramSegment} {seg : ProgramSegment}
  (hsplit : prog.segments = before ++ seg :: after) (hlo : seg.virtualAddress ≤ a)
  (hhi : a < seg.virtualAddress + seg.sizeInMemory)
include hprog hsplit hlo hhi

omit hlo hhi in
theorem Loadable.segment_ok : SegmentOk n seg := by
  refine hprog.ok seg ?_
  rw [hsplit]
  exact List.mem_append_right _ List.mem_cons_self

theorem Loadable.segment_page :
    a < userTop ∧ seg.HasPage (roundDown a 4096) ∧ roundDown a 4096 ≠ stackPage := by
  have hok := hprog.segment_ok hsplit
  have hpage := hok.bounds.page_of_addr hlo hhi
  refine ⟨hhi.trans hok.end_lt, hpage, fun hx => ?_⟩
  refine hprog.off_stack seg ?_ (hx ▸ hpage)
  rw [hsplit]
  exact List.mem_append_right _ List.mem_cons_self

include hcr

/-- Segments lie outside the window. -/
theorem Created.segment_window : ¬ t.inWindow e a := by
  obtain ⟨-, ⟨-, hfirst, hlimit⟩, -⟩ := hprog.segment_page hsplit hlo hhi
  have hpages : t.wsPages e = pagesOf (n * 12) := congrArg (fun m => pagesOf (m * 12)) hcr.size
  have hle := roundDown_le a
  rw [Kernel.inWindow, hpages]
  rintro ⟨hlow, hhigh⟩
  -- the window is made of whole pages
  have hpage : userPagesWSStart ≤ roundDown a 4096 := by
    simp only [userPagesWSStart] at hlow ⊢
    simp only [roundDown]
    omega
  rcases (hprog.segment_ok hsplit).window with hw | hw <;> omega

/-- The copy in memory. -/
theorem Created.segment_memory {f : Nat} (hf : H.own f = some ⟨e, .page (roundDown a 4096)⟩) :
    pageByte (t.mem f) a =
      if a < seg.virtualAddress + seg.sizeInFile then seg.data (a - seg.virtualAddress) else 0#8 := by
  obtain ⟨-, hpage, hstack⟩ := hprog.segment_page hsplit hlo hhi
  have hin := (hcr.pages _).1 ⟨f, hf⟩
  rw [initialPages, List.mem_append, List.mem_singleton] at hin
  have hloaded := hin.resolve_right hstack
  rw [hsplit] at hloaded
  have hbounds := hprog.bounds
  have hapart := hprog.apart
  rw [hsplit] at hbounds hapart
  have hbyte := programMemory_segment hbounds hapart hlo hpage hloaded fun _ => none
  rw [← hsplit] at hbyte
  exact hcr.byte a f _ hbyte hf

/-- The copy in the page file. -/
theorem Created.segment_file {b : Nat → BitVec 8}
    (hseg : seg.file (pageByte (s.mem 1)) (roundDown a 4096) = some b) :
    ∃ d, H.slots e (roundDown a 4096) = some d ∧ pageByte (t.disk d) a =
      if ∃ x ∈ after, x.endLast = roundDown a 4096 then 0#8 else b (a % 4096) := by
  obtain ⟨-, hpage, hstack⟩ := hprog.segment_page hsplit hlo hhi
  have hbounds := hprog.bounds
  have hapart := hprog.apart
  rw [hsplit] at hbounds hapart
  have hfile := programFile_segment hbounds hapart hpage hseg fun _ => none
  rw [← hsplit] at hfile
  obtain ⟨d, hd, hpageIs⟩ := hcr.file _ _ hstack hfile
  refine ⟨d, hd, ?_⟩
  rw [← pageByte_mod, hpageIs (a % 4096) (Nat.mod_lt a (by decide))]
  split <;> rfl

end Segment

/-! ## Images -/

/-- The part in the file of a later segment ends where the page of `a` starts.  The step for the last
page of that segment writes a page of zeros there. -/
def Image.Overwritten (image : Image) (i a : Nat) : Prop :=
  ∃ j, i < j ∧ j < image.ePhnum ∧ image.pType j = elfProgLoad ∧
    image.pVa j + image.pFilesz j = roundDown a 4096

/-- The part in the file starts off a page boundary and ends before the next one.  The steps for the
first and the last page then write the same page, the second with what follows the first in the
image. -/
def Image.Short (image : Image) (i : Nat) : Prop :=
  image.pVa i + image.pFilesz i < roundUp (image.pVa i) 4096

section Image

variable {name : String} {image : Image} (himage : UserProgram.ofImage name image = some prog)
  (hi : i < image.ePhnum) (hload : image.pType i = elfProgLoad)
include himage hi hload

omit hi hload in
theorem UserProgram.ofImage_segments : prog.segments = programSegments image := by
  rw [UserProgram.ofImage] at himage
  split at himage
  · cases himage
  · cases himage
    rfl

theorem Image.split : prog.segments = image.loads 0 i ++
    image.segment i :: image.loads (i + 1) (image.ePhnum - (i + 1)) := by
  rw [UserProgram.ofImage_segments himage]
  exact programSegments_split hi hload

omit himage hload in
theorem Image.overwritten_iff : image.Overwritten i a ↔
    ∃ x ∈ image.loads (i + 1) (image.ePhnum - (i + 1)), x.endLast = roundDown a 4096 := by
  have hend : i + 1 + (image.ePhnum - (i + 1)) = image.ePhnum := by omega
  constructor
  · rintro ⟨j, hij, hj, htype, hlast⟩
    exact ⟨image.segment j, Image.mem_loads.2
      ⟨j, hij, by rw [hend]; exact hj, decide_eq_true htype, rfl⟩, hlast⟩
  · rintro ⟨x, hx, hlast⟩
    obtain ⟨j, hij, hj, htype, rfl⟩ := Image.mem_loads.1 hx
    rw [hend] at hj
    exact ⟨j, hij, hj, of_decide_eq_true htype, hlast⟩

variable (hinv : SysInv c t H) (hlive : t.Live e) (hcr : Created c e n prog s G t H)
  (hprog : Loadable n prog) (hlo : image.pVa i ≤ a) (hhi : a < image.pVa i + image.pMemsz i)
include hinv hlive hcr hprog hlo hhi

/-- What `e` reads in its initial working set. -/
theorem Created.image_memory {x : BitVec 8}
    (hread : (envRun t e).readByte true a = some (x, u)) :
    x = if a < image.pVa i + image.pFilesz i then image (image.pOffset i + (a - image.pVa i))
      else 0#8 := by
  have hsplit := Image.split himage hi hload
  obtain ⟨hlt, -, -⟩ := hprog.segment_page hsplit hlo hhi
  have hwin := hcr.segment_window hprog hsplit hlo hhi
  obtain ⟨f, hf, rfl⟩ := hinv.envRun_read hlive hlt hwin hread
  exact hcr.segment_memory hprog hsplit hlo hhi hf

/-- What the page file has. -/
theorem Created.image_file {b : Nat → BitVec 8}
    (hseg : (image.segment i).file (pageByte (s.mem 1)) (roundDown a 4096) = some b) :
    (image.Overwritten i a → t.fileByte e a = some 0#8) ∧
      (¬ image.Overwritten i a → t.fileByte e a = some (b (a % 4096))) := by
  have hsplit := Image.split himage hi hload
  obtain ⟨hlt, -, -⟩ := hprog.segment_page hsplit hlo hhi
  obtain ⟨d, hd, hbyte⟩ := hcr.segment_file hprog hsplit hlo hhi hseg
  have hfile := (hinv.alive e hlive).fileByte_eq hinv.owned hinv.frames hlt
  rw [hd, Option.map_some, hbyte] at hfile
  rw [Image.overwritten_iff hi]
  constructor
  · intro hov
    rw [hfile, if_pos hov]
  · intro hov
    rw [hfile, if_neg hov]

end Image

/-! ## The part in the file -/

/-- Both copies of the byte at `a` are `b`: the one in the page file, and the one `e` reads where
the page is in its initial working set. -/
structure Copies (t : Kernel) (e a : Nat) (b : BitVec 8) : Prop where
  file : t.fileByte e a = some b
  memory : ∀ x u, (envRun t e).readByte true a = some (x, u) → x = b

/-- Byte `k` of the part in the file of segment `i` gets into the page file. -/
def Image.FiledRight (image : Image) (i k : Nat) : Prop :=
  (image.Overwritten i (image.pVa i + k) → image (image.pOffset i + k) = 0#8) ∧
    (¬ image.Overwritten i (image.pVa i + k) → image.Short i →
      image (image.pOffset i + (4096 + k)) = image (image.pOffset i + k))

section FilePart

variable {name : String} {image : Image} (himage : UserProgram.ofImage name image = some prog)
  (hi : i < image.ePhnum) (hload : image.pType i = elfProgLoad) (hinv : SysInv c t H)
  (hlive : t.Live e) (hcr : Created c e n prog s G t H) (hprog : Loadable n prog)
include himage hi hload hinv hlive hcr hprog

theorem Created.copies_iff {k : Nat} (hk : k < image.pFilesz i) :
    Copies t e (image.pVa i + k) (image (image.pOffset i + k)) ↔ image.FiledRight i k := by
  have hok := hprog.segment_ok (Image.split himage hi hload)
  have hsize : image.pFilesz i ≤ image.pMemsz i := hok.file_le
  have hlo : image.pVa i ≤ image.pVa i + k := Nat.le_add_right _ _
  have hhi : image.pVa i + k < image.pVa i + image.pMemsz i := by omega
  have hdiv : roundDown (image.pVa i + k) 4096 + (image.pVa i + k) % 4096 = image.pVa i + k :=
    Nat.sub_add_cancel (Nat.mod_le _ _)
  obtain ⟨b, hseg, hb⟩ := @Bounds.file_data _ hok.bounds (pageByte (s.mem 1)) _ _ _
    (roundDown_aligned (image.pVa i + k)) (Nat.mod_lt (image.pVa i + k) (by decide)) hdiv hk
  obtain ⟨hover, hkept⟩ := hcr.image_file himage hi hload hinv hlive hprog hlo hhi hseg
  rw [hb] at hkept
  constructor
  · intro hcopies
    constructor
    · -- the page has been cleared, so the byte must be zero
      intro hov
      exact (Option.some.inj ((hover hov).symm.trans hcopies.file)).symm
    · -- the page has been written with what lies a page further on
      intro hov hshort
      have hends : (image.segment i).endLast < (image.segment i).endFirst := hshort
      have hfile := (hkept hov).symm.trans hcopies.file
      rw [if_pos hends] at hfile
      exact Option.some.inj hfile
  · rintro ⟨hzero, hsame⟩
    constructor
    case file =>
      by_cases hov : image.Overwritten i (image.pVa i + k)
      · rw [hover hov, hzero hov]
      · rw [hkept hov]
        split
        · rename_i hshort
          exact congrArg some (hsame hov hshort)
        · rfl
    case memory =>
      -- the copy in memory is right in any case
      intro x u hread
      have hx := hcr.image_memory himage hi hload hinv hlive hprog hlo hhi hread
      rw [if_pos (by omega), Nat.add_sub_cancel_left] at hx
      exact hx

end FilePart

/-- What `env_create` establishes. -/
theorem SysRun.created (hbefore : SysRun c s) (hn : 1 ≤ n) (hwrap : n * 12 + 4095 < wordMod)
    (hprog : Loadable n prog) (hdone : envCreate s prog n = .ok (some e, t)) :
    ∃ G H, SysInv c s G ∧ SysInv c t H ∧ t.Live e ∧ Created c e n prog s G t H := by
  obtain ⟨G, hG⟩ := hbefore.inv
  obtain ⟨hmem, H, hcr⟩ := hG.created hn hwrap hprog hdone
  exact ⟨G, H, hG, hG.create hmem hcr, (hcr.live hG.nodup (hG.unused e hmem).1 e).2 (.inl rfl), hcr⟩

/-- Both copies of a byte of the part in the file are the byte of the image, exactly if no later
segment clears the page and the segment is not a short one, or if the bytes that are written instead
happen to be the same. -/
theorem envCreate_copies_iff {name : String} {image : Image} {k : Nat} (hbefore : SysRun c s)
    (hn : 1 ≤ n) (hwrap : n * 12 + 4095 < wordMod)
    (himage : UserProgram.ofImage name image = some prog) (hprog : Loadable n prog)
    (hdone : envCreate s prog n = .ok (some e, t)) (hi : i < image.ePhnum)
    (hload : image.pType i = elfProgLoad) (hk : k < image.pFilesz i) :
    Copies t e (image.pVa i + k) (image (image.pOffset i + k)) ↔ image.FiledRight i k := by
  obtain ⟨G, H, -, hinv, hlive, hcr⟩ := hbefore.created hn hwrap hprog hdone
  exact hcr.copies_iff himage hi hload hinv hlive hprog hk

/-! ## One segment -/

theorem Loadable.single {seg : ProgramSegment} {n : Nat} (hok : SegmentOk n seg) (name : String) :
    Loadable n ⟨name, [seg]⟩ :=
  ⟨fun _ hx => List.mem_singleton.1 hx ▸ hok, List.pairwise_singleton _ _⟩

/-- A program of one segment in a working set of one element. -/
theorem Boot.create_single (c : Boot) {seg : ProgramSegment} (hok : SegmentOk 1 seg) (name : String)
    (hframes : 7 + 2 * seg.cost ≤ c.freeFrameList.length) (hheap : 7 + 2 * seg.cost < 40000) :
    ∃ t H, envCreate c.state ⟨name, [seg]⟩ 1 = .ok (some 0, t) ∧
      Created c 0 1 ⟨name, [seg]⟩ c.state bootGhost t H := by
  have hcount : seg.count name 0 = 0 := Nat.le_zero.1 (seg.count_le name 0).1
  have hcost : 1 + 2 * pagesOf (1 * 12) + 2 * createCost ⟨name, [seg]⟩ 1 = 7 + 2 * seg.cost := by
    have hpages : pagesOf (1 * 12) = 1 := by decide
    rw [hpages, createCost, programCost, programCost, hcount]
    omega
  exact c.envCreate_first (Nat.le_refl 1) (by decide) (.single hok name)
    (by rw [hcost]; exact hframes) (by rw [hcost]; exact hheap)

/-- One byte at an address off a page boundary; `next` is the rest of the image. -/
def shortImage (next : BitVec 8) : Image :=
  oneSegment 0x800001#32 1#32 1#32 fun k => if k = 0 then 1#8 else next

theorem shortImage_created (next : BitVec 8) : ∃ prog t H,
    UserProgram.ofImage "" (shortImage next) = some prog ∧ Loadable 1 prog ∧
      envCreate smallBoot.state prog 1 = .ok (some 0, t) ∧
      Created smallBoot 0 1 prog smallBoot.state bootGhost t H := by
  have hlimit : roundUp (0x800001 + 1) 4096 = 0x801000 := by decide
  have hok : SegmentOk 1 ⟨0x800001, 1, 1, fun k => if k = 0 then 1#8 else next⟩ :=
    ⟨Nat.le_refl 1, show 0x800001 + 1 < userTop by decide,
      .inl (show roundUp (0x800001 + 1) 4096 ≤ userPagesWSStart by rw [hlimit]; decide),
      .inl (show roundUp (0x800001 + 1) 4096 ≤ stackPage by rw [hlimit]; decide)⟩
  have hcost : ProgramSegment.cost ⟨0x800001, 1, 1, fun k => if k = 0 then 1#8 else next⟩ = 2 := by
    simp only [ProgramSegment.cost, ProgramSegment.full, ProgramSegment.zeros,
      ProgramSegment.startLast, ProgramSegment.endFirst, ProgramSegment.endLast,
      ProgramSegment.startRemaining, roundUp, roundDown, wordMod]
  obtain ⟨t, H, hdone, hcr⟩ := smallBoot.create_single hok ""
    (by rw [smallBoot_frames, hcost]; decide) (by rw [hcost]; decide)
  exact ⟨_, t, H, ofImage_oneSegment _ _ _ _ "", .single hok "", hdone, hcr⟩

theorem shortImage_alone (next : BitVec 8) (a : Nat) : ¬ (shortImage next).Overwritten 0 a := by
  rintro ⟨j, hpos, hlt, -, -⟩
  rw [shortImage, oneSegment_ePhnum] at hlt
  omega

theorem shortImage_byte (next : BitVec 8) :
    shortImage next ((shortImage next).pOffset 0 + 0) = 1#8 ∧
      shortImage next ((shortImage next).pOffset 0 + (4096 + 0)) = next := by
  rw [shortImage, oneSegment_pOffset, oneSegment_data, oneSegment_data]
  exact ⟨rfl, rfl⟩

theorem shortImage_zero (next : BitVec 8) : 0 < (shortImage next).ePhnum ∧
    (shortImage next).pType 0 = elfProgLoad ∧ 0 < (shortImage next).pFilesz 0 := by
  rw [shortImage, oneSegment_ePhnum, oneSegment_pFilesz]
  exact ⟨by decide, oneSegment_pType _ _ _ _, by decide⟩

/-- The byte behind the page happens to be the same. -/
theorem envCreate_copies_short : ∃ prog t, UserProgram.ofImage "" (shortImage 1#8) = some prog ∧
    envCreate smallBoot.state prog 1 = .ok (some 0, t) ∧
      Copies t 0 ((shortImage 1#8).pVa 0 + 0) 1#8 := by
  obtain ⟨prog, t, H, himage, hprog, hdone, -⟩ := shortImage_created 1#8
  obtain ⟨hi, hload, hk⟩ := shortImage_zero 1#8
  obtain ⟨hfirst, hnext⟩ := shortImage_byte 1#8
  have hiff := envCreate_copies_iff .boot (Nat.le_refl 1) (by decide) himage hprog hdone hi hload hk
  rw [hfirst] at hiff
  exact ⟨prog, t, himage, hdone, hiff.2 ⟨fun hx => absurd hx (shortImage_alone 1#8 _),
    fun _ _ => by rw [hfirst, hnext]⟩⟩

/-- One byte at `0x800001`: the page file gets the byte 4096 places further on. -/
theorem envCreate_short_differs : ∃ prog t, UserProgram.ofImage "" (shortImage 0#8) = some prog ∧
    Loadable 1 prog ∧ envCreate smallBoot.state prog 1 = .ok (some 0, t) ∧
      0 < (shortImage 0#8).ePhnum ∧ (shortImage 0#8).pType 0 = elfProgLoad ∧
        0 < (shortImage 0#8).pFilesz 0 ∧ ¬ Copies t 0 ((shortImage 0#8).pVa 0 + 0)
          (shortImage 0#8 ((shortImage 0#8).pOffset 0 + 0)) := by
  obtain ⟨prog, t, H, himage, hprog, hdone, -⟩ := shortImage_created 0#8
  obtain ⟨hi, hload, hk⟩ := shortImage_zero 0#8
  obtain ⟨hfirst, hnext⟩ := shortImage_byte 0#8
  obtain ⟨G, I, -, hinv, hlive, hcr⟩ := SysRun.boot.created (Nat.le_refl 1) (by decide) hprog hdone
  refine ⟨prog, t, himage, hprog, hdone, hi, hload, hk, fun hcopies => ?_⟩
  have hright := (hcr.copies_iff himage hi hload hinv hlive hprog hk).1 hcopies
  have hshort : (shortImage 0#8).Short 0 := by
    rw [Image.Short, shortImage, oneSegment_pVa, oneSegment_pFilesz]
    decide
  have hsame := hright.2 (shortImage_alone 0#8 _) hshort
  rw [hfirst, hnext] at hsame
  exact absurd hsame (by decide)

end FosMemory
