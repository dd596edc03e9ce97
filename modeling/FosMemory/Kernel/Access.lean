import FosMemory.Kernel.Entries

/-!
# Access — accesses to the pages of an environment

What the processor does on an access through the directory of an environment, and the functions of
the kernel that rewrite one entry of a page table: `pt_set_page_permissions`, `pf_read_env_page`.
`PteSet` is a change of one entry, with the contents of every frame outside directory and tables
kept.
-/

namespace FosMemory

open Lib

variable {c : Boot} {s t u : Kernel} {G H I : Ghost} {e : Nat}

/-! ## Permission bits -/

theorem has_mono {w p q : Word} (h : w.has p = true) (hq : q &&& p = q) : w.has q = true := by
  rw [has_iff] at h ⊢
  rw [← hq, BitVec.and_comm q p, ← BitVec.and_assoc, h]

theorem not_has_or {w p q : Word} (h : w.has p = false) (hpq : p &&& q = 0#32) :
    (w ||| q).has p = false := by
  rw [← Bool.not_eq_true, has_iff] at h ⊢
  intro hx
  rw [BitVec.and_comm, BitVec.and_or_distrib_left, hpq, BitVec.or_zero, BitVec.and_comm] at hx
  exact h hx

theorem not_has_clear {w p q : Word} (h : w.has p = false) : (w &&& ~~~q).has p = false := by
  rw [← Bool.not_eq_true] at h ⊢
  intro hx
  refine h ?_
  rw [has_iff] at hx ⊢
  ext i hi
  have hbit := congrArg (fun v : Word => v[i]) hx
  simp only [BitVec.getElem_and, BitVec.getElem_not] at hbit ⊢
  cases hp : p[i] <;> simp_all

theorem accessPerm_userPage (user write : Bool) :
    accessPerm user write &&& permUserPage = accessPerm user write := by
  cases user <;> cases write <;> decide

theorem accessPerm_window (user : Bool) :
    accessPerm user false &&& permWindow = accessPerm user false := by
  cases user <;> decide

theorem accessPerm_present (user write : Bool) :
    permPresent &&& accessPerm user write = permPresent := by
  cases user <;> cases write <;> decide

theorem accessPerm_writeable (user : Bool) :
    permWriteable &&& accessPerm user true = permWriteable := by
  cases user <;> decide

theorem accessMark_lt (write : Bool) : (accessMark write).toNat < 4096 := by
  cases write <;> decide

/-- Bits that say nothing about the frame and the permissions. -/
def Word.isMark (m : Word) : Prop :=
  m.toNat < 4096 ∧ permUserPage &&& m = 0#32

theorem accessMark_isMark (write : Bool) : (accessMark write).isMark := by
  cases write <;> exact ⟨by decide, by decide⟩

theorem permUsed_isMark : permUsed.isMark :=
  ⟨by decide, by decide⟩

theorem permModified_isMark : permModified.isMark :=
  ⟨by decide, by decide⟩

theorem Word.isMark.part {m p : Word} (h : m.isMark) (hp : p &&& permUserPage = p) :
    p &&& m = 0#32 := by
  rw [← hp, BitVec.and_assoc, h.2, BitVec.and_zero]

theorem entryFor_set {f : Nat} {w m : Word} {b : Bool} (h : EntryFor f w b) (hm : m.isMark) :
    EntryFor f (w ||| m) b := by
  cases b with
  | false => exact Names.set h hm.1
  | true => exact ⟨h.1.set hm.1, not_has_or h.2 (hm.part (by decide))⟩

theorem entryFor_clear {f : Nat} {w m : Word} {b : Bool} (h : EntryFor f w b) (hm : m.isMark) :
    EntryFor f (w &&& ~~~m) b := by
  cases b with
  | false => exact Names.clear h hm.1 hm.2
  | true => exact ⟨h.1.clear hm.1 (hm.part (by decide)), not_has_clear h.2⟩

/-! ## One entry changes -/

/-- The pages of the array. -/
def Role.isWs : Role → Bool
  | .ws _ => true
  | .dir | .table _ | .page _ | .ddir | .dtable _ | .held => false

theorem Role.inDisk_of_inWalk {r : Role} (h : r.inWalk = true) : r.inDisk = false := by
  cases r <;> first | rfl | cases h

theorem Role.isWs_of_inWalk {r : Role} (h : r.inWalk = true) : r.isWs = false := by
  cases r <;> first | rfl | cases h

/-- Only directory and tables of `e` have changed. -/
structure WalkOnly (c : Boot) (e : Nat) (s : Kernel) (G : Ghost) (t : Kernel) : Prop where
  same : SameFrames s t
  rest : SameRest s t
  mem : ∀ f, (∀ r, r.inWalk = true → G.own f ≠ some ⟨e, r⟩) → t.mem f = s.mem f
  space : Space c t G e

theorem WalkOnly.refl (h : Space c s G e) : WalkOnly c e s G s :=
  ⟨SameFrames.refl s, SameRest.refl s, fun _ _ => rfl, h⟩

theorem WalkOnly.trans (h : WalkOnly c e s G t) (h' : WalkOnly c e t G u) : WalkOnly c e s G u :=
  ⟨h.same.trans h'.same, h.rest.trans h'.rest, fun f hf => (h'.mem f hf).trans (h.mem f hf),
    h'.space⟩

section WalkOnly

variable (h : WalkOnly c e s G t)
include h

theorem WalkOnly.mem_page {f v : Nat} (hf : G.own f = some ⟨e, .page v⟩) : t.mem f = s.mem f := by
  refine h.mem f fun r hr hx => ?_
  rw [hf] at hx
  cases hx
  cases hr

theorem WalkOnly.mem_ws {f k : Nat} (hf : G.own f = some ⟨e, .ws k⟩) : t.mem f = s.mem f := by
  refine h.mem f fun r hr hx => ?_
  rw [hf] at hx
  cases hx
  cases hr

theorem WalkOnly.envStep (ho : Owned c s G) (hb : Base c s G e) (hd : DiskFrames s G) :
    EnvStep c e 0 s G t G := by
  refine EnvStep.of_write ho hb hd h.same h.rest (fun f hf => h.mem f fun r _ hx => ?_) ?_ h.space
    (h.mem 1 fun r _ => ho.own_low (by decide) _)
  · exact ho.not_kernelFrame (by simp [hx]) hf
  · intro f o hf hor
    refine h.mem f fun r hr hx => ?_
    rw [hf] at hx
    cases hx
    rcases hor with hne | hdisk
    · exact hne rfl
    · rw [Role.inDisk_of_inWalk hr] at hdisk
      cases hdisk

theorem WalkOnly.sameWs (ho : Owned c s G) (hb : Base c s G e) (hd : DiskFrames s G) :
    SameWs e s t := by
  have hst := h.envStep ho hb hd
  have hk : Keeps e Role.isWs s G t G := by
    refine ⟨fun _ _ _ => Iff.rfl, fun f r hr hf => h.mem f fun r' hr' hx => ?_,
      fun _ _ _ _ => by rw [h.same.virtualAddresses]⟩
    rw [hf] at hx
    cases hx
    rw [Role.isWs_of_inWalk hr'] at hr
    cases hr
  exact SameWs.of_keeps hb.array hst.base.array ho hst.owned hk (fun _ => rfl)

/-- Pages whose entry has changed in its accessed bit at most. -/
theorem WalkOnly.samePage {v : Nat}
    (hpte : ∀ f, G.own f = some ⟨e, .page v⟩ →
      (t.pteWord e v).unmarked = (s.pteWord e v).unmarked) : SamePage e v s G t G :=
  ⟨fun _ => Iff.rfl, fun _ hf => h.mem_page hf, hpte, rfl, fun _ _ => by rw [h.rest.disk]⟩

end WalkOnly

/-- The entry of page `v` of `e` is `w` now. -/
structure PteSet (c : Boot) (e v : Nat) (w : Word) (s : Kernel) (G : Ghost) (t : Kernel) : Prop
    extends WalkOnly c e s G t where
  pte_self : t.pteWord e v = w
  pte : ∀ v' f b, v' ≠ v → G.Target e v' f b → t.pteWord e v' = s.pteWord e v'

theorem PteSet.trans {v : Nat} {w w' : Word} (h : PteSet c e v w s G t)
    (h' : PteSet c e v w' t G u) : PteSet c e v w' s G u :=
  ⟨h.toWalkOnly.trans h'.toWalkOnly, h'.pte_self,
    fun v' f b hne ht => (h'.pte v' f b hne ht).trans (h.pte v' f b hne ht)⟩

/-- Pages other than `v`. -/
theorem PteSet.samePage_ne {v v' : Nat} {w : Word} (h : PteSet c e v w s G t) (hne : v' ≠ v) :
    SamePage e v' s G t G :=
  h.toWalkOnly.samePage fun f hf => by rw [h.pte v' f false hne hf]

theorem PteSet.samePage_all {v : Nat} {w : Word} (h : PteSet c e v w s G t)
    (hw : w.unmarked = (s.pteWord e v).unmarked) (v' : Nat) : SamePage e v' s G t G := by
  by_cases hv : v' = v
  · subst hv
    exact h.toWalkOnly.samePage fun f hf => by rw [h.pte_self, hw]
  · exact h.samePage_ne hv

theorem unmarked_or (w : Word) : (w ||| permUsed).unmarked = w.unmarked := by
  rw [Word.unmarked, Word.unmarked]
  ext i hi
  simp only [BitVec.getElem_and, BitVec.getElem_or, BitVec.getElem_not]
  cases permUsed[i] <;> simp

theorem unmarked_clear (w : Word) : (w &&& ~~~permUsed).unmarked = w.unmarked := by
  rw [Word.unmarked, Word.unmarked]
  ext i hi
  simp only [BitVec.getElem_and, BitVec.getElem_not]
  cases permUsed[i] <;> simp

/-- The modified bit does not depend on the accessed bit. -/
theorem unmarked_modified {w w' : Word} (h : w.unmarked = w'.unmarked) :
    w.has permModified = w'.has permModified := by
  have hand : ∀ x : Word, x.unmarked &&& permModified = x &&& permModified := by
    intro x
    rw [Word.unmarked, BitVec.and_assoc]
    have hclear : ~~~permUsed &&& permModified = permModified := by decide
    rw [hclear]
  rw [Word.has, Word.has, ← hand w, ← hand w', h]

section Entry

variable (h : Space c s G e)
include h

/-- A store in the table. -/
theorem Space.pteSet {tb v f : Nat} {b : Bool} {w : Word} (ht : G.Target e v f b)
    (htb : G.own tb = some ⟨e, .table (pdx v)⟩) (hw : EntryFor f w b) :
    PteSet c e v w s G (s.setWord tb (ptx v) w) := by
  have hspace := h.markPte ht htb hw
  obtain ⟨hal, hv, -⟩ := h.target v f b ht
  constructor
  case toWalkOnly =>
    exact ⟨SameFrames.setWord s _ _ _, ⟨rfl, rfl, rfl, rfl, rfl, rfl, rfl⟩,
      fun g hg => Kernel.setWord_mem_frame (by rintro rfl; exact hg _ rfl htb), hspace⟩
  case pte_self => rw [hspace.pteWord_eq htb, Kernel.setWord_mem_self]
  case pte =>
    intro v' f' b' hne ht'
    obtain ⟨hal', hv', tb', htb', -⟩ := h.target v' f' b' ht'
    rw [hspace.pteWord_eq htb', h.pteWord_eq htb', Kernel.setWord_mem, if_neg]
    rintro ⟨rfl, hptx⟩
    rw [htb] at htb'
    injection htb' with hx
    injection hx with _ hx
    injection hx with hpdx
    exact hne (page_inj hal hal' hv hv' hpdx.symm hptx)

/-- A mark in a directory entry changes no table entry. -/
theorem Space.pdeSet {tb v f i : Nat} {b : Bool} {w : Word} (ht : G.Target e v f b)
    (htb : G.own tb = some ⟨e, .table i⟩) (hw : Names w tb permUserPage) :
    PteSet c e v (s.pteWord e v) s G (s.setWord (s.dirFrame e) i w) := by
  have hspace := h.markPde htb hw
  have hpte : ∀ v' f' b', G.Target e v' f' b' →
      (s.setWord (s.dirFrame e) i w).pteWord e v' = s.pteWord e v' := by
    intro v' f' b' ht'
    obtain ⟨-, -, tb', htb', -⟩ := h.target v' f' b' ht'
    rw [hspace.pteWord_eq htb', h.pteWord_eq htb', Kernel.setWord_mem_frame]
    rintro rfl
    rw [h.dir_own] at htb'
    cases htb'
  constructor
  case toWalkOnly =>
    exact ⟨SameFrames.setWord s _ _ _, ⟨rfl, rfl, rfl, rfl, rfl, rfl, rfl⟩,
      fun g hg => Kernel.setWord_mem_frame (by rintro rfl; exact hg .dir rfl h.dir_own), hspace⟩
  case pte_self => exact hpte v f b ht
  case pte => exact fun v' f' b' _ ht' => hpte v' f' b' ht'

end Entry

/-! ## Touching a page -/

/-- `e` runs in its own address space. -/
structure Running (s : Kernel) (e : Nat) : Prop where
  curenv : s.curenv = some e
  cr3 : s.cr3 = (s.envs e).envCr3

theorem Running.of_same (h : Running s e) (hrun : SameRun s t)
    (henv : SameEnv (s.envs e) (t.envs e)) : Running t e :=
  ⟨by rw [hrun.curenv, h.curenv], by rw [hrun.cr3, henv.envCr3, h.cr3]⟩

section Touch

variable (h : Space c s G e) (hcr3 : s.cr3 = (s.envs e).envCr3) {va : Nat} (hva : va < userTop)
include h hcr3

/-- The window is read-only. -/
theorem Space.touch_window (user : Bool) {f : Nat} (ht : G.Target e (roundDown va 4096) f true) :
    s.touch user true va = none := by
  have hfd : s.cr3 / 4096 = s.dirFrame e := by
    rw [hcr3]
    rfl
  obtain ⟨-, -, tb, htb, hw⟩ := h.target _ f true ht
  rw [pdx_roundDown] at htb
  rw [ptx_roundDown] at hw
  simp only [Kernel.touch, hfd]
  rw [if_neg]
  rintro ⟨-, h₂⟩
  rw [(h.table tb _ htb).2.frame_eq] at h₂
  have := has_mono h₂ (accessPerm_writeable user)
  rw [hw.2] at this
  cases this

include hva

/-- An access the processor lets through. -/
theorem Space.touch_some (user write : Bool) {f : Nat} {b : Bool}
    (ht : G.Target e (roundDown va 4096) f b) (hallow : b = false ∨ write = false) :
    ∃ t, s.touch user write va = some (f, t) ∧
      PteSet c e (roundDown va 4096) (s.pteWord e (roundDown va 4096) ||| accessMark write) s G t := by
  obtain ⟨-, -, tb, htb, hw⟩ := h.target _ f b ht
  have htb₀ := htb
  have hw₀ := hw
  rw [pdx_roundDown] at htb
  rw [ptx_roundDown] at hw
  have hpde := (h.table tb _ htb).2
  have hfd : s.cr3 / 4096 = s.dirFrame e := by
    rw [hcr3]
    rfl
  have hhas₁ : (s.mem (s.dirFrame e) (pdx va)).has (accessPerm user write) = true :=
    has_mono hpde.has_perm (accessPerm_userPage user write)
  have hhas₂ : (s.mem tb (ptx va)).has (accessPerm user write) = true := by
    cases b with
    | false => exact has_mono hw.has_perm (accessPerm_userPage user write)
    | true =>
      have hread : write = false := hallow.resolve_left (by simp)
      subst hread
      exact has_mono hw.1.has_perm (accessPerm_window user)
  have hkernel : isKernelAddress va = false := not_kernelAddress hva
  -- first the mark in the directory, then the one in the table
  have hdir := h.pdeSet ht htb (hpde.set (q := permUsed) (by decide))
  have hentry : EntryFor f (s.mem tb (ptx va) ||| accessMark write) b :=
    entryFor_set hw (accessMark_isMark write)
  have htab := hdir.space.pteSet ht htb₀ hentry
  rw [ptx_roundDown] at htab
  have hself : s.pteWord e (roundDown va 4096) = s.mem tb (ptx va) := by
    rw [h.pteWord_eq htb₀, ptx_roundDown]
  rw [hself]
  refine ⟨_, ?_, hdir.trans htab⟩
  simp only [Kernel.touch, hfd, hpde.frame_eq, hhas₁, hhas₂, and_self, if_true, hkernel,
    Bool.false_eq_true, if_false, entryFor_frame hw]

/-- Where nothing is mapped the access faults. -/
theorem Space.touch_none (user write : Bool)
    (hnone : ∀ f b, ¬ G.Target e (roundDown va 4096) f b) : s.touch user write va = none := by
  have hfd : s.cr3 / 4096 = s.dirFrame e := by
    rw [hcr3]
    rfl
  have hzero : ∀ w : Word, w = 0#32 → w.has (accessPerm user write) = false := by
    rintro w rfl
    rw [← Bool.not_eq_true]
    intro hx
    have := has_mono hx (accessPerm_present user write)
    rw [zero_has_present] at this
    cases this
  have hle := roundDown_le va
  simp only [Kernel.touch, hfd]
  rw [if_neg]
  rintro ⟨h₁, h₂⟩
  rcases h.lookup hva with hpde | ⟨tb, hpde, htb⟩
  · rw [hzero _ hpde] at h₁
    cases h₁
  · have htb' := htb
    rw [← pdx_roundDown] at htb'
    have hpte := (h.pte_eq_zero_iff (roundDown_aligned va) (by omega) htb').2 hnone
    rw [ptx_roundDown] at hpte
    rw [hpde.frame_eq, hzero _ hpte] at h₂
    cases h₂

end Touch

/-! ## pt_set_page_permissions and pt_get_page_permissions -/

section Permissions

variable {va : Nat}

theorem Space.store_entry (ho : Owned c s G) {tb : Nat}
    (htb : G.own tb = some ⟨e, .table (pdx va)⟩) (w : Word) :
    s.store (s.virtualAddresses tb + 4 * ptx va) w = .ok (s.setWord tb (ptx va) w) :=
  store_pte ho.inv.map (Space.table_va ho htb) va w

variable (h : Space c s G e) (ho : Owned c s G)
include h ho

/-- The word `pt_set_page_permissions` and the replacement code look at. -/
theorem Space.load_entry {tb : Nat} (htb : G.own tb = some ⟨e, .table (pdx va)⟩) :
    s.load (s.virtualAddresses tb + 4 * ptx va) = .ok (s.pteWord e (roundDown va 4096)) := by
  have htb' := htb
  rw [← pdx_roundDown] at htb'
  rw [load_pte ho.inv.map (Space.table_va ho htb) va, h.pteWord_eq htb', ptx_roundDown]

variable (hva : va < userTop)
include hva

theorem Space.ptSetPagePermissions_spec {f : Nat} {b : Bool} (toSet toClear : Word)
    (ht : G.Target e (roundDown va 4096) f b) (hset : toSet.isMark) (hclear : toClear.isMark) :
    ∃ t, ptSetPagePermissions s e va toSet toClear = .ok t ∧
      PteSet c e (roundDown va 4096)
        ((s.pteWord e (roundDown va 4096) ||| toSet) &&& ~~~toClear) s G t := by
  obtain ⟨-, -, tb, htb, hw⟩ := h.target _ f b ht
  have htb₀ := htb
  rw [pdx_roundDown] at htb
  have hpde := (h.table tb _ htb).2
  have hself : s.mem tb (ptx (roundDown va 4096)) = s.pteWord e (roundDown va 4096) :=
    (h.pteWord_eq htb₀).symm
  rw [hself] at hw
  obtain ⟨w, hw₁⟩ : ∃ w, w = s.pteWord e (roundDown va 4096) ||| toSet := ⟨_, rfl⟩
  have he₁ : EntryFor f w b := by
    rw [hw₁]
    exact entryFor_set hw hset
  have hset₁ := h.pteSet ht htb₀ he₁
  have hset₂ := hset₁.space.pteSet ht htb₀ (entryFor_clear he₁ hclear)
  rw [ptx_roundDown] at hset₁ hset₂
  have ho₁ : Owned c (s.setWord tb (ptx va) w) G := ho.setWord (by simp [htb]) _ _
  have hload₂ := hset₁.space.load_entry ho₁ htb
  rw [hset₁.pte_self] at hload₂
  have hsameva : (s.setWord tb (ptx va) w).virtualAddresses = s.virtualAddresses := rfl
  have hstore₂ := Space.store_entry ho₁ htb (w &&& ~~~toClear)
  refine ⟨_, ?_, hw₁ ▸ hset₁.trans hset₂⟩
  simp only [ptSetPagePermissions, load_pde ho.inv.map (h.dirAt ho) va, ok_bind, hpde.present,
    if_true, tablePointer_user hva, hpde.frame_eq, h.load_entry ho htb, ← hw₁,
    Space.store_entry ho htb]
  rw [hsameva] at hload₂ hstore₂
  rw [hload₂, ok_bind, hstore₂]

theorem Space.ptGetPagePermissions_eq {f : Nat} {b : Bool}
    (ht : G.Target e (roundDown va 4096) f b) :
    ptGetPagePermissions s e va = .ok (s.pteWord e (roundDown va 4096) &&& 0xFFF#32) := by
  obtain ⟨-, -, tb, htb, -⟩ := h.target _ f b ht
  rw [pdx_roundDown] at htb
  have hpde := (h.table tb _ htb).2
  simp only [ptGetPagePermissions, load_pde ho.inv.map (h.dirAt ho) va, ok_bind, hpde.present,
    if_true, tablePointer_user hva, hpde.frame_eq, h.load_entry ho htb]

end Permissions

/-! ## pf_read_env_page -/

theorem roundDown_idem (va : Nat) : roundDown (roundDown va 4096) 4096 = roundDown va 4096 := by
  have := roundDown_aligned va
  rw [roundDown, this]
  rfl

/-- The contents of a page have been replaced; its entry is `w` now. -/
structure PageSet (c : Boot) (e v f : Nat) (page : Nat → Word) (w : Word) (s : Kernel) (G : Ghost)
    (t : Kernel) : Prop where
  same : SameFrames s t
  rest : SameRest s t
  mem : ∀ g, g ≠ f → (∀ r, r.inWalk = true → G.own g ≠ some ⟨e, r⟩) → t.mem g = s.mem g
  page : t.mem f = page
  space : Space c t G e
  pte_self : t.pteWord e v = w
  pte : ∀ v' g b, v' ≠ v → G.Target e v' g b → t.pteWord e v' = s.pteWord e v'

/-- Replacing the contents of a page. -/
theorem Space.setPage (h : Space c s G e) {v f : Nat} (hf : G.own f = some ⟨e, .page v⟩)
    (page : Nat → Word) : PageSet c e v f page (s.pteWord e v) s G (s.setPage f page) := by
  have hmem : ∀ g, g ≠ f → (s.setPage f page).mem g = s.mem g :=
    fun g hg => Function.update_of_ne hg _ _
  have hspace : Space c (s.setPage f page) G e := by
    refine h.congr (fun _ _ _ => Iff.rfl) rfl (fun g r hr hg => hmem g ?_) rfl rfl rfl
    rintro rfl
    rw [hf] at hg
    cases hg
    cases hr
  have hpte : ∀ v' g b, G.Target e v' g b → (s.setPage f page).pteWord e v' = s.pteWord e v' := by
    intro v' g b ht
    obtain ⟨-, -, tb, htb, -⟩ := h.target v' g b ht
    rw [hspace.pteWord_eq htb, h.pteWord_eq htb, hmem]
    rintro rfl
    rw [hf] at htb
    cases htb
  constructor
  case same => exact ⟨rfl, rfl, rfl, rfl, rfl, rfl, rfl, rfl⟩
  case rest => exact ⟨rfl, rfl, rfl, rfl, rfl, rfl, rfl⟩
  case mem => exact fun g hg _ => hmem g hg
  case page => exact Function.update_self _ _ _
  case space => exact hspace
  case pte_self => exact hpte v f false hf
  case pte => exact fun v' g b _ ht => hpte v' g b ht

theorem PteSet.thenPage {v f : Nat} {w w' : Word} {page : Nat → Word} (h : PteSet c e v w s G t)
    (h' : PageSet c e v f page w' t G u) : PageSet c e v f page w' s G u := by
  constructor
  case same => exact h.same.trans h'.same
  case rest => exact h.rest.trans h'.rest
  case mem => exact fun g hg hw => (h'.mem g hg hw).trans (h.mem g hw)
  case page => exact h'.page
  case space => exact h'.space
  case pte_self => exact h'.pte_self
  case pte => exact fun v' g b hne ht => (h'.pte v' g b hne ht).trans (h.pte v' g b hne ht)

theorem PageSet.thenPte {v f : Nat} {w w' : Word} {page : Nat → Word}
    (hf : G.own f = some ⟨e, .page v⟩) (h : PageSet c e v f page w s G t)
    (h' : PteSet c e v w' t G u) : PageSet c e v f page w' s G u := by
  constructor
  case same => exact h.same.trans h'.same
  case rest => exact h.rest.trans h'.rest
  case mem => exact fun g hg hw => (h'.mem g hw).trans (h.mem g hg hw)
  case page => rw [h'.mem_page hf, h.page]
  case space => exact h'.space
  case pte_self => exact h'.pte_self
  case pte => exact fun v' g b hne ht => (h'.pte v' g b hne ht).trans (h.pte v' g b hne ht)

section PageSet

variable {v f : Nat} {page : Nat → Word} {w : Word} (h : PageSet c e v f page w s G t)
  (hf : G.own f = some ⟨e, .page v⟩)
include h hf

theorem PageSet.mem_of_role {g : Nat} {o : Owner} (hg : G.own g = some o) (hne : o ≠ ⟨e, .page v⟩)
    (hwalk : ∀ r, r.inWalk = true → o ≠ ⟨e, r⟩) : t.mem g = s.mem g := by
  refine h.mem g ?_ fun r hr hx => ?_
  · rintro rfl
    rw [hf] at hg
    exact hne (Option.some.inj hg).symm
  · rw [hg] at hx
    exact hwalk r hr (Option.some.inj hx)

theorem PageSet.envStep (ho : Owned c s G) (hb : Base c s G e) (hd : DiskFrames s G) :
    EnvStep c e 0 s G t G := by
  refine EnvStep.of_write ho hb hd h.same h.rest (fun g hg => h.mem g ?_ fun r _ hx => ?_) ?_
    h.space (h.mem 1 (ho.low_ne (by decide) (by simp [hf])) fun r _ => ho.own_low (by decide) _)
  · rintro rfl
    exact ho.not_kernelFrame (by simp [hf]) hg
  · exact ho.not_kernelFrame (by simp [hx]) hg
  · intro g o hg hor
    refine h.mem_of_role hf hg ?_ fun r hr hx => ?_
    · rintro rfl
      rcases hor with hne | hdisk
      · exact hne rfl
      · cases hdisk
    · subst hx
      rcases hor with hne | hdisk
      · exact hne rfl
      · rw [Role.inDisk_of_inWalk hr] at hdisk
        cases hdisk

theorem PageSet.sameWs (ho : Owned c s G) (hb : Base c s G e) (hd : DiskFrames s G) :
    SameWs e s t := by
  have hst := h.envStep hf ho hb hd
  have hk : Keeps e Role.isWs s G t G := by
    refine ⟨fun _ _ _ => Iff.rfl, fun g r hr hg => h.mem_of_role hf hg ?_ fun r' hr' hx => ?_,
      fun _ _ _ _ => by rw [h.same.virtualAddresses]⟩
    · intro hx
      cases hx
      cases hr
    · cases hx
      rw [Role.isWs_of_inWalk hr'] at hr
      cases hr
  exact SameWs.of_keeps hb.array hst.base.array ho hst.owned hk (fun _ => rfl)

theorem PageSet.samePage {v' : Nat} (hne : v' ≠ v) : SamePage e v' s G t G := by
  refine ⟨fun _ => Iff.rfl, fun g hg => h.mem_of_role hf hg ?_ fun r hr hx => ?_,
    fun g hg => by rw [h.pte v' g false hne hg], rfl, fun _ _ => by rw [h.rest.disk]⟩
  · intro hx
    cases hx
    exact hne rfl
  · cases hx
    cases hr

end PageSet

section Read

variable (ho : Owned c s G) (hb : Base c s G e) (hd : DiskFrames s G) (hrun : Running s e) {va f : Nat}
  (hva : va < userTop) (hf : G.own f = some ⟨e, .page (roundDown va 4096)⟩)
include ho hb hd hva

/-- A page without a slot. -/
theorem Base.pfReadEnvPage_none (hslot : G.slots e (roundDown va 4096) = none) :
    pfReadEnvPage s e va = .ok (.pageNotExistInPf, s) := by
  have hle := roundDown_le va
  by_cases hdir : (s.envs e).diskEnvPgdir = 0
  · simp only [pfReadEnvPage, hdir, if_true]
  · have hlook := hb.slots.pfLookup_eq ho hd hdir (v := roundDown va 4096) (by omega)
    rw [roundDown_idem, hslot, Option.getD_none] at hlook
    simp only [pfReadEnvPage, if_neg hdir, hlook, ok_bind, if_true]

include hrun hf

/-- A page with a slot is read from the disk; its modified bit is clear afterwards. -/
theorem Base.pfReadEnvPage_some {d : Nat} (hslot : G.slots e (roundDown va 4096) = some d) :
    ∃ t, pfReadEnvPage s e va = .ok (.ok, t) ∧
      PageSet c e (roundDown va 4096) f (s.disk d)
        ((s.pteWord e (roundDown va 4096) ||| accessMark true) &&& ~~~permModified) s G t := by
  have hle := roundDown_le va
  have hva' : roundDown va 4096 < userTop := by omega
  have hdir : (s.envs e).diskEnvPgdir ≠ 0 := by
    intro hx
    rw [hb.slots.no_slots ho hx] at hslot
    cases hslot
  have hlook := hb.slots.pfLookup_eq ho hd hdir (v := roundDown va 4096) hva'
  rw [roundDown_idem, hslot, Option.getD_some] at hlook
  have hd0 : d ≠ 0 := by
    have := (hd.range e _ d hslot).1
    omega
  have ht : G.Target e (roundDown (roundDown va 4096) 4096) f false := by
    rw [roundDown_idem]
    exact hf
  -- the processor writes through the entry, the frame gets the page, the bit is cleared
  obtain ⟨s₁, htouch, h₁⟩ := hb.space.touch_some hrun.cr3 hva' false true ht (.inl rfl)
  rw [roundDown_idem] at h₁
  have h₂ := h₁.space.setPage hf (s₁.disk d)
  have hst := (h₁.thenPage h₂).envStep hf ho hb hd
  obtain ⟨s₃, hperm, h₃⟩ := h₂.space.ptSetPagePermissions_spec hst.owned hva' 0#32
    permModified ht ⟨by decide, by decide⟩ permModified_isMark
  rw [roundDown_idem, h₂.pte_self, h₁.pte_self, BitVec.or_zero] at h₃
  have hcur : (s₁.setPage f (s₁.disk d)).curenv = some e := by
    rw [h₂.rest.curenv, h₁.rest.curenv, hrun.curenv]
  refine ⟨s₃, ?_, ?_⟩
  · simp only [pfReadEnvPage, if_neg hdir, hlook, ok_bind, if_neg hd0, readDiskPage,
      Kernel.kernelTouch, htouch, hcur, hperm]
  · have hdisk : s₁.disk d = s.disk d := by rw [h₁.rest.disk]
    rw [hdisk] at h₂ h₃
    exact (h₁.thenPage h₂).thenPte hf h₃

end Read

end FosMemory
