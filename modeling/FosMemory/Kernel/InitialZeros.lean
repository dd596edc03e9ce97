import FosMemory.Kernel.LoadedBytes

/-!
# InitialZeros — the bytes of a new environment that the image says nothing about

The rest of a segment behind its part in the file, and the stack page.  Memory starts out with zeros
there.  The page file gets zeros up to the end of the page in which the part in the file ends, and the
contents of the zero page from there on.
-/

namespace FosMemory

open Lib

variable {c : Boot} {s t u : Kernel} {G H : Ghost} {e n i a : Nat} {prog : UserProgram}

/-! ## The zero page -/

/-- The page of `a` is in memory and will be written back. -/
def Kernel.Dirty (s : Kernel) (e a : Nat) : Prop :=
  s.present e a = true ∧ (s.pteWord e (roundDown a 4096)).has permModified = true

section Present

variable (hb : Base c t H e) (ha : a < userTop) (hwin : ¬ t.inWindow e a)
include hb ha hwin

/-- Outside the window what is present is a page. -/
theorem Base.present_page (hp : t.present e a = true) :
    ∃ f, H.own f = some ⟨e, .page (roundDown a 4096)⟩ := by
  obtain ⟨f, b, hf⟩ := (hb.space.present_iff ha).1 hp
  cases b with
  | true => exact absurd (hb.array.window_iff.1 ⟨f, hf⟩) hwin
  | false => exact ⟨f, hf⟩

omit hwin in
theorem Base.page_present {f : Nat} (hf : H.own f = some ⟨e, .page (roundDown a 4096)⟩) :
    t.present e a = true :=
  (hb.space.present_iff ha).2 ⟨f, false, hf⟩

end Present

/-- When `e` runs next it can read the pages in memory. -/
theorem SysInv.envRun_readable (h : SysInv c t H) (hlive : t.Live e) (ha : a < userTop) {f : Nat}
    (hf : H.own f = some ⟨e, .page (roundDown a 4096)⟩) :
    ∃ u, (FosMemory.envRun t e).readByte true a = some (pageByte (t.mem f) a, u) := by
  have hrun := h.envRun hlive
  have hcur : (FosMemory.envRun t e).curenv = some e := by
    rw [FosMemory.envRun]
    split
    · rename_i hcur
      exact hcur
    · rfl
  have hmem : (FosMemory.envRun t e).mem = t.mem := by
    rw [FosMemory.envRun]
    split <;> rfl
  obtain ⟨u, htouch, hset⟩ := (hrun.current hcur).base.space.touch_some (hrun.isRunning hcur).cr3 ha
    true false (b := false) hf (.inl rfl)
  refine ⟨u, ?_⟩
  have hpage : u.mem f = t.mem f := by rw [hset.mem_page hf, hmem]
  rw [Kernel.readByte, htouch, Option.map_some, ← hpage]
  rfl

section Later

variable (hinv : SysInv c t H) (hlive : t.Live e) (ha : a < userTop) (hwin : ¬ t.inWindow e a)
include hinv hlive ha hwin

end Later

/-! ## Segments -/

section Bss

variable {name : String} {image : Image} (himage : UserProgram.ofImage name image = some prog)
  (hi : i < image.ePhnum) (hload : image.pType i = elfProgLoad) (hG : SysInv c s G)
  (hinv : SysInv c t H) (hlive : t.Live e) (hcr : Created c e n prog s G t H)
  (hprog : Loadable n prog) (hlo : image.pVa i + image.pFilesz i ≤ a)
  (hhi : a < image.pVa i + image.pMemsz i)
include himage hi hload hG hinv hlive hcr hprog hlo hhi

end Bss

/-! ## The stack page -/

end FosMemory
