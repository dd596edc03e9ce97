import FosMemory.Kernel.InitEnv
import FosMemory.Lib.Overlay

/-!
# Contents — the bytes of pages in memory and in the page file

A step of the loader writes whole pages to the page file and single bytes to pages in memory.  Both
are partial maps: `Files` says which pages have been written to the page file and that the other
slots have been left alone, `Settles` adds the bytes written in memory and the marks these writes
leave in the page tables.  Neither pages nor elements come or go.
-/

namespace FosMemory

open Lib

variable {c : Boot} {s t u : Kernel} {G H I : Ghost} {e : Nat}

/-! ## Bytes of a page -/

/-- The bytes of a page are `b 0`, `b 1`, … -/
def PageIs (page : Nat → Word) (b : Nat → BitVec 8) : Prop :=
  ∀ o < 4096, pageByte page o = b o

/-- The byte at an address is the byte at its offset in the page. -/
theorem pageByte_add (page : Nat → Word) {v o : Nat} (hv : v % 4096 = 0) :
    pageByte page (v + o) = pageByte page o := by
  have hword : (v + o) % 4096 / 4 = o % 4096 / 4 := by omega
  have hbyte : (v + o) % 4 = o % 4 := by omega
  rw [pageByte, pageByte, hword, hbyte]

theorem pageByte_mod (page : Nat → Word) (a : Nat) : pageByte page (a % 4096) = pageByte page a := by
  have hword : a % 4096 % 4096 / 4 = a % 4096 / 4 := by omega
  have hbyte : a % 4096 % 4 = a % 4 := by omega
  rw [pageByte, pageByte, hword, hbyte]

/-- The bytes of a word of the image. -/
theorem ProgramSegment.byte_word (seg : ProgramSegment) (k : Nat) {b : Nat} (hb : b < 4) :
    (seg.word k).byte b = seg.data (k + b) := by
  apply BitVec.eq_of_getLsbD_eq
  intro i hi
  have hlt : 8 * b + i < 32 := by omega
  simp only [Word.byte, ProgramSegment.word, BitVec.getLsbD_extractLsb', BitVec.getLsbD_append, hi,
    decide_true, Bool.true_and]
  -- bit `8 * b + i` lies in the byte of the word that was put at position `b`
  interval_cases b
  · simp [hi]
  · have h₁ : ¬ 8 + i < 8 := by omega
    have h₂ : 8 + i - 8 = i := by omega
    simp [hi, h₁, h₂]
  · have h₁ : ¬ 16 + i < 8 := by omega
    have h₂ : ¬ 16 + i - 8 < 8 := by omega
    have h₃ : 16 + i - 8 - 8 = i := by omega
    simp [hi, h₁, h₂, h₃]
  · have h₁ : ¬ 24 + i < 8 := by omega
    have h₂ : ¬ 24 + i - 8 < 8 := by omega
    have h₃ : ¬ 24 + i - 8 - 8 < 8 := by omega
    have h₄ : 24 + i - 8 - 8 - 8 = i := by omega
    simp [h₁, h₂, h₃, h₄]

/-- A page of the image. -/
theorem ProgramSegment.pageIs (seg : ProgramSegment) (k : Nat) :
    PageIs (seg.page k) fun o => seg.data (k + o) := by
  intro o ho
  have hsum : k + 4 * (o % 4096 / 4) + o % 4 = k + o := by omega
  rw [pageByte, ProgramSegment.page, seg.byte_word _ (Nat.mod_lt _ (by decide)), hsum]

/-! ## Pages of the page file -/

/-- The pages `W` of `e` are in the page file with the given bytes; the other slots are as they
were. -/
structure Files (e : Nat) (W : Nat → Option (Nat → BitVec 8)) (s : Kernel) (G : Ghost) (t : Kernel)
    (H : Ghost) : Prop where
  written : ∀ v b, W v = some b → ∃ d, H.slots e v = some d ∧ PageIs (t.disk d) b
  kept : ∀ v, W v = none →
    H.slots e v = G.slots e v ∧ ∀ d, G.slots e v = some d → t.disk d = s.disk d

section Files

variable {W W' : Nat → Option (Nat → BitVec 8)}

theorem Files.of_disk (e : Nat) (G : Ghost) (hdisk : t.disk = s.disk) :
    Files e (fun _ => none) s G t G := by
  constructor
  case written =>
    intro v b hw
    cases hw
  case kept => exact fun v _ => ⟨rfl, fun d _ => by rw [hdisk]⟩

/-- The later of two steps decides. -/
theorem Files.trans (h : Files e W s G t H) (h' : Files e W' t H u I) :
    Files e (overlay W' W) s G u I := by
  constructor
  case written =>
    intro v b hw
    rcases overlay_eq_some.1 hw with hw | ⟨hno, hw⟩
    · exact h'.written v b hw
    · obtain ⟨d, hd, hb⟩ := h.written v b hw
      obtain ⟨hslot, hdisk⟩ := h'.kept v hno
      exact ⟨d, by rw [hslot, hd], by rw [hdisk d hd]; exact hb⟩
  case kept =>
    intro v hw
    obtain ⟨hno', hno⟩ := overlay_eq_none.1 hw
    obtain ⟨hslot, hdisk⟩ := h.kept v hno
    obtain ⟨hslot', hdisk'⟩ := h'.kept v hno'
    refine ⟨hslot'.trans hslot, fun d hd => ?_⟩
    rw [hdisk' d (by rw [hslot, hd]), hdisk d hd]

theorem Files.of_eq (h : Files e W s G t H) (hW : ∀ v, W v = W' v) : Files e W' s G t H := by
  obtain rfl : W = W' := funext hW
  exact h

end Files

/-! ## Steps that keep pages and elements -/

/-- The pages `W` have been written to the page file and the bytes `M` to memory; at most `m` slots
are new. -/
structure Settles (c : Boot) (e : Nat) (W : Nat → Option (Nat → BitVec 8))
    (M : Nat → Option (BitVec 8)) (m : Nat) (s : Kernel) (G : Ghost) (t : Kernel) (H : Ghost) :
    Prop where
  step : EnvStep c e (2 * m) s G t H
  held : NoHeld G → NoHeld H
  own : ∀ f v, H.own f = some ⟨e, .page v⟩ ↔ G.own f = some ⟨e, .page v⟩
  ws : SameWs e s t
  last : (t.envs e).pageLastWSIndex = (s.envs e).pageLastWSIndex
  files : Files e W s G t H
  byte : ∀ a f, G.own f = some ⟨e, .page (roundDown a 4096)⟩ →
    pageByte (t.mem f) a = (M a).getD (pageByte (s.mem f) a)
  used : ∀ v f, G.own f = some ⟨e, .page v⟩ → (s.pteWord e v).has permUsed = true →
    (t.pteWord e v).has permUsed = true
  touched : ∀ a f, G.own f = some ⟨e, .page (roundDown a 4096)⟩ → M a ≠ none →
    (t.pteWord e (roundDown a 4096)).has permUsed = true
  diskList : s.diskFreeFrameList.length ≤ t.diskFreeFrameList.length + m
  tables : (t.envs e).tableLastWSIndex = (s.envs e).tableLastWSIndex

section Settles

variable {W W' : Nat → Option (Nat → BitVec 8)} {M M' : Nat → Option (BitVec 8)} {m m' : Nat}

theorem Settles.refl (ho : Owned c s G) (hb : Base c s G e) (hd : DiskFrames s G) :
    Settles c e (fun _ => none) (fun _ => none) 0 s G s G :=
  ⟨EnvStep.refl ho hb hd, id, fun _ _ => Iff.rfl, SameWs.refl e s, rfl, Files.of_disk e G rfl,
    fun _ _ _ => rfl, fun _ _ _ hx => hx, fun _ _ _ hx => absurd rfl hx, Nat.le_refl _, rfl⟩

theorem Settles.trans (h : Settles c e W M m s G t H) (h' : Settles c e W' M' m' t H u I) :
    Settles c e (overlay W' W) (overlay M' M) (m + m') s G u I := by
  have hstep := h.step.trans h'.step
  rw [← Nat.mul_add] at hstep
  constructor
  case step => exact hstep
  case held => exact fun hno => h'.held (h.held hno)
  case own => exact fun f v => (h'.own f v).trans (h.own f v)
  case ws => exact h.ws.trans h'.ws h.step.env.pageWSMaxSize
  case last => exact h'.last.trans h.last
  case files => exact h.files.trans h'.files
  case byte =>
    intro a f hf
    rw [h'.byte a f ((h.own f _).2 hf), h.byte a f hf, overlay_getD]
  case used => exact fun v f hf hx => h'.used v f ((h.own f v).2 hf) (h.used v f hf hx)
  case touched =>
    intro a f hf hM
    have hf' := (h.own f _).2 hf
    by_cases hM' : M' a = none
    · -- the first step has left the mark, the second keeps it
      refine h'.used _ f hf' (h.touched a f hf fun hx => hM ?_)
      exact overlay_eq_none.2 ⟨hM', hx⟩
    · exact h'.touched a f hf' hM'
  case diskList =>
    have h₁ := h.diskList
    have h₂ := h'.diskList
    omega
  case tables => exact h'.tables.trans h.tables

theorem Settles.mono (h : Settles c e W M m s G t H) (hm : m ≤ m') : Settles c e W M m' s G t H :=
  ⟨h.step.mono (by omega), h.held, h.own, h.ws, h.last, h.files, h.byte, h.used, h.touched, by
    have := h.diskList
    omega, h.tables⟩

/-- The maps matter up to their values. -/
theorem Settles.of_eq (h : Settles c e W M m s G t H) (hW : ∀ v, W v = W' v)
    (hM : ∀ a, M a = M' a) : Settles c e W' M' m s G t H := by
  obtain rfl : W = W' := funext hW
  obtain rfl : M = M' := funext hM
  exact h

theorem Settles.max (h : Settles c e W M m s G t H) : t.wsMax e = s.wsMax e :=
  h.step.env.pageWSMaxSize

theorem Settles.cr3 (h : Settles c e W M m s G t H) (hcr3 : s.cr3 = (s.envs e).envCr3) :
    t.cr3 = (t.envs e).envCr3 := by
  rw [h.step.run.cr3, h.step.env.envCr3, hcr3]

theorem Settles.entries (h : Settles c e W M m s G t H) (hent : Entries s G e) : Entries t H e :=
  hent.congr h.ws h.max h.last h.own

theorem Settles.covered (h : Settles c e W M m s G t H) (hcov : Covered s G e) : Covered t H e :=
  hcov.congr h.ws h.max h.own

/-- What is left of the resources. -/
theorem Settles.enough (h : Settles c e W M m s G t H) {k : Nat} (hen : Enough s (2 * (m + k))) :
    Enough t (2 * k) :=
  Enough.after (by rw [← Nat.mul_add]; exact hen) h.step.spent

end Settles

/-! ## Single steps -/

/-- One byte of a page in memory. -/
theorem PageSet.settles {a f : Nat} {b : BitVec 8} {w : Word}
    (h : PageSet c e (roundDown a 4096) f (setPageByte (s.mem f) a b) w s G t)
    (hf : G.own f = some ⟨e, .page (roundDown a 4096)⟩)
    (hw : w = s.pteWord e (roundDown a 4096) ||| accessMark true) (ho : Owned c s G)
    (hb : Base c s G e) (hd : DiskFrames s G) :
    Settles c e (fun _ => none) (single a b) 0 s G t G := by
  have hmark : (t.pteWord e (roundDown a 4096)).has permUsed = true := by
    rw [h.pte_self, hw]
    exact has_mono (has_or_self _ _) (by decide)
  have hown : ∀ {x g : Nat}, G.own g = some ⟨e, .page (roundDown x 4096)⟩ →
      roundDown x 4096 ≠ roundDown a 4096 → t.mem g = s.mem g :=
    fun hg hne => (h.samePage hf hne).mem _ hg
  constructor
  case step => exact h.envStep hf ho hb hd
  case held => exact id
  case own => exact fun _ _ => Iff.rfl
  case ws => exact h.sameWs hf ho hb hd
  case last => rw [h.rest.envs]
  case files => exact Files.of_disk e G h.rest.disk
  case byte =>
    intro x g hg
    by_cases hxa : x = a
    · subst hxa
      rw [hb.space.page_unique hf hg, h.page, pageByte_set_self, single_self, Option.getD_some]
    · rw [single_of_ne _ hxa, Option.getD_none]
      by_cases hpage : roundDown x 4096 = roundDown a 4096
      · -- another byte of the same page
        have hoff : x % 4096 ≠ a % 4096 := by
          have h₁ := Nat.mod_le x 4096
          have h₂ := Nat.mod_le a 4096
          simp only [roundDown] at hpage
          omega
        rw [hpage] at hg
        rw [hb.space.page_unique hf hg, h.page, pageByte_set_of_ne _ _ hoff]
      · rw [hown hg hpage]
  case used =>
    intro v g hg hx
    by_cases hv : v = roundDown a 4096
    · rw [hv]
      exact hmark
    · rw [h.pte v g false hv hg]
      exact hx
  case touched =>
    intro x g _ hM
    by_cases hxa : x = a
    · rw [hxa]
      exact hmark
    · exact absurd (single_of_ne _ hxa) hM
  case diskList => rw [h.rest.diskFreeFrameList, Nat.add_zero]
  case tables => rw [h.rest.envs]

/-- Marks in the entry of a page. -/
theorem PteSet.settles {v f : Nat} {w : Word} (h : PteSet c e v w s G t)
    (hf : G.own f = some ⟨e, .page v⟩)
    (hw : (s.pteWord e v).has permUsed = true → w.has permUsed = true) (ho : Owned c s G)
    (hb : Base c s G e) (hd : DiskFrames s G) :
    Settles c e (fun _ => none) (fun _ => none) 0 s G t G := by
  constructor
  case step => exact h.envStep ho hb hd
  case held => exact id
  case own => exact fun _ _ => Iff.rfl
  case ws => exact h.sameWs ho hb hd
  case last => rw [h.rest.envs]
  case files => exact Files.of_disk e G h.rest.disk
  case byte =>
    intro a g hg
    rw [h.mem_page hg, Option.getD_none]
  case used =>
    intro v' g hg hx
    by_cases hv : v' = v
    · subst hv
      rw [h.pte_self]
      exact hw hx
    · rw [h.pte v' g false hv hg]
      exact hx
  case touched => exact fun _ _ _ hx => absurd rfl hx
  case diskList => rw [h.rest.diskFreeFrameList, Nat.add_zero]
  case tables => rw [h.rest.envs]

/-- Writing a frame nobody has, such as the temporary page. -/
theorem OnlyFrame.settles {g : Nat} (h : OnlyFrame g s t) (ho : Owned c s G) (hb : Base c s G e)
    (hd : DiskFrames s G) (hg : G.own g = none) (hk : ¬ c.KernelFrame g) (h1 : g ≠ 1) :
    Settles c e (fun _ => none) (fun _ => none) 0 s G t G := by
  have hmem : ∀ f o, G.own f = some o → t.mem f = s.mem f := by
    intro f o hf
    refine h.mem f ?_
    rintro rfl
    rw [hg] at hf
    cases hf
  have hspace : Space c t G e :=
    hb.space.congr (fun _ _ _ => Iff.rfl) rfl (fun f r _ hf => hmem f _ hf)
      (by rw [h.same.virtualAddresses]) (by rw [h.rest.envs]) (by rw [h.rest.envs])
  have hst := EnvStep.of_write ho hb hd h.same h.rest
    (fun f hf => h.mem f (by rintro rfl; exact hk hf)) (fun f o hf _ => hmem f o hf) hspace
    (h.mem 1 fun hx => h1 hx.symm)
  have hkeeps : Keeps e (fun _ => true) s G t G :=
    ⟨fun _ _ _ => Iff.rfl, fun f r _ hf => hmem f _ hf,
      fun _ _ _ _ => by rw [h.same.virtualAddresses]⟩
  have hpte : ∀ v f, G.own f = some ⟨e, .page v⟩ → t.pteWord e v = s.pteWord e v := by
    intro v f hf
    obtain ⟨-, -, tb, htb, -⟩ := hb.space.target v f false hf
    rw [hst.base.space.pteWord_eq htb, hb.space.pteWord_eq htb, hmem tb _ htb]
  constructor
  case step => exact hst
  case held => exact id
  case own => exact fun _ _ => Iff.rfl
  case ws => exact SameWs.of_keeps hb.array hst.base.array ho hst.owned hkeeps fun _ => rfl
  case last => rw [h.rest.envs]
  case files => exact Files.of_disk e G h.rest.disk
  case byte =>
    intro a f hf
    rw [hmem f _ hf, Option.getD_none]
  case used =>
    intro v f hf hx
    rw [hpte v f hf]
    exact hx
  case touched => exact fun _ _ _ hx => absurd rfl hx
  case diskList => rw [h.rest.diskFreeFrameList, Nat.add_zero]
  case tables => rw [h.rest.envs]

/-- A page that has been given a slot and written to it. -/
theorem Slotted.settles {v d : Nat} {page : Nat → Word} {b : Nat → BitVec 8}
    (h : Slotted c e v d 2 s G t H) (ho : Owned c s G) (hb : Base c s G e)
    (hdisk : t.disk = Function.update s.disk d page) (hpage : PageIs page b) :
    Settles c e (single v b) (fun _ => none) 1 s G t H := by
  have hother : ∀ v', v' ≠ v → H.slots e v' = G.slots e v' := by
    intro v' hne
    rw [h.slots, G.setSlot_slots, if_neg fun hx => hne hx.2]
  constructor
  case step => exact h.filed.envStep hb fun _ => h.ddir
  case held => exact h.filed.held
  case own => exact fun f v' => h.filed.keeps.own f _ rfl
  case ws => exact h.filed.sameWs hb ho
  case last => exact h.filed.last
  case files =>
    refine ⟨fun v' b' hw => ?_, fun v' hw => ?_⟩
    · by_cases hv : v' = v
      · subst hv
        rw [single_self, Option.some.injEq] at hw
        rw [← hw]
        refine ⟨d, h.self, ?_⟩
        rw [hdisk, Function.update_self]
        exact hpage
      · rw [single_of_ne _ hv] at hw
        cases hw
    · have hv : v' ≠ v := by
        rintro rfl
        rw [single_self] at hw
        cases hw
      refine ⟨hother v' hv, fun d' hd' => ?_⟩
      -- two pages have two disk frames
      have hne : d' ≠ d := by
        rintro rfl
        exact hv (h.filed.frames.inj e v' e v d' (by rw [hother v' hv]; exact hd') h.self).2
      rw [hdisk, Function.update_of_ne hne]
  case byte =>
    intro a f hf
    rw [h.filed.keeps.mem f _ rfl hf, Option.getD_none]
  case used =>
    intro v' f hf hx
    rw [h.filed.pteWord (b := false) hb.space hf]
    exact hx
  case touched => exact fun _ _ _ hx => absurd rfl hx
  case diskList =>
    rcases h.list with ⟨-, hl⟩ | ⟨-, hl⟩
    · rw [hl]
      exact Nat.le_succ _
    · rw [hl, List.length_cons]
  case tables => rw [h.filed.env]

end FosMemory
