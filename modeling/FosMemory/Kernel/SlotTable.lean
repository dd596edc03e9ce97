import FosMemory.Kernel.MapSpec

/-!
# SlotTable — the disk tables of an environment

`SlotTable` says that the two-level disk table of an environment holds exactly the disk frames the
record gives to its pages, `DiskFrames` that every disk frame is either on `disk_free_frame_list`
or in one slot.  The specifications of the lookup functions of `kern/file_manager.c` follow:
creating the directory or a table adds no slot, and a slot is looked up, filled or cleared by one
word.
-/

namespace FosMemory

open Lib

variable {c : Boot} {s t u : Kernel} {G H I : Ghost} {e : Nat}

/-! ## The invariants -/

/-- The word of a disk table for a slot. -/
def slotWord : Option Nat → Word
  | none => 0#32
  | some d => BitVec.ofNat 32 d

structure SlotTable (s : Kernel) (G : Ghost) (e : Nat) : Prop where
  dir_at : ∀ f, G.own f = some ⟨e, .ddir⟩ → s.virtualAddresses f = (s.envs e).diskEnvPgdir
  dir_exists : (s.envs e).diskEnvPgdir ≠ 0 → ∃ f, G.own f = some ⟨e, .ddir⟩
  pde : ∀ fd, G.own fd = some ⟨e, .ddir⟩ → ∀ i < 955, s.mem fd i = 0#32 ∨
    ∃ tb, Names (s.mem fd i) tb permPresent ∧ G.own tb = some ⟨e, .dtable i⟩
  table : ∀ tb i, G.own tb = some ⟨e, .dtable i⟩ →
    i < 955 ∧ ∃ fd, G.own fd = some ⟨e, .ddir⟩ ∧ Names (s.mem fd i) tb permPresent
  entry : ∀ tb i, G.own tb = some ⟨e, .dtable i⟩ → ∀ j < 1024,
    s.mem tb j = slotWord (G.slots e (entryAddress i j))
  slot : ∀ v d, G.slots e v = some d → v % 4096 = 0 ∧ v < userTop ∧
    ∃ tb, G.own tb = some ⟨e, .dtable (pdx v)⟩

/-- Every disk frame is on the list or in one slot. -/
structure DiskFrames (s : Kernel) (G : Ghost) : Prop where
  nodup : s.diskFreeFrameList.Nodup
  free_iff : ∀ d, d ∈ s.diskFreeFrameList ↔
    1 ≤ d ∧ d < pagesPerFile ∧ ∀ e v, G.slots e v ≠ some d
  range : ∀ e v d, G.slots e v = some d → 1 ≤ d ∧ d < pagesPerFile
  inj : ∀ e v e' v' d, G.slots e v = some d → G.slots e' v' = some d → e = e' ∧ v = v'

/-- The roles the disk tables are made of. -/
def Role.inDisk : Role → Bool
  | .ddir | .dtable _ => true
  | .dir | .table _ | .page _ | .ws _ | .held => false

/-- Everything but the disk tables. -/
def Role.offDisk : Role → Bool
  | .ddir | .dtable _ => false
  | .dir | .table _ | .page _ | .ws _ | .held => true

theorem slotWord_inj {a b : Option Nat} (ha : ∀ d, a = some d → 1 ≤ d ∧ d < pagesPerFile)
    (hb : ∀ d, b = some d → 1 ≤ d ∧ d < pagesPerFile) (h : slotWord a = slotWord b) : a = b := by
  have hnat : ∀ x : Option Nat, (∀ d, x = some d → 1 ≤ d ∧ d < pagesPerFile) →
      (slotWord x).toNat = x.getD 0 := by
    intro x hx
    cases x with
    | none => rfl
    | some d =>
      have := hx d rfl
      simp only [pagesPerFile] at this
      simp only [slotWord, BitVec.toNat_ofNat, Option.getD_some]
      omega
  have heq : a.getD 0 = b.getD 0 := by rw [← hnat a ha, ← hnat b hb, h]
  cases a with
  | none =>
    cases b with
    | none => rfl
    | some d =>
      have := hb d rfl
      simp only [Option.getD_none, Option.getD_some] at heq
      omega
  | some d =>
    have := ha d rfl
    cases b with
    | none =>
      simp only [Option.getD_none, Option.getD_some] at heq
      omega
    | some d' =>
      simp only [Option.getD_some] at heq
      rw [heq]

theorem slotWord_toNat {a : Option Nat} (ha : ∀ d, a = some d → 1 ≤ d ∧ d < pagesPerFile) :
    (slotWord a).toNat = a.getD 0 := by
  cases a with
  | none => rfl
  | some d =>
    have := ha d rfl
    simp only [pagesPerFile] at this
    simp only [slotWord, BitVec.toNat_ofNat, Option.getD_some]
    omega

/-- `SlotTable` reads the disk tables and the slots. -/
theorem SlotTable.congr (h : SlotTable s G e)
    (hown : ∀ f r, r.inDisk = true → (H.own f = some ⟨e, r⟩ ↔ G.own f = some ⟨e, r⟩))
    (hmem : ∀ f r, r.inDisk = true → G.own f = some ⟨e, r⟩ → t.mem f = s.mem f)
    (hva : ∀ f r, r.inDisk = true → G.own f = some ⟨e, r⟩ →
      t.virtualAddresses f = s.virtualAddresses f)
    (henv : (t.envs e).diskEnvPgdir = (s.envs e).diskEnvPgdir)
    (hslots : H.slots e = G.slots e) : SlotTable t H e := by
  have hdir : ∀ f, H.own f = some ⟨e, .ddir⟩ ↔ G.own f = some ⟨e, .ddir⟩ := fun f => hown f _ rfl
  have htab : ∀ f i, H.own f = some ⟨e, .dtable i⟩ ↔ G.own f = some ⟨e, .dtable i⟩ :=
    fun f i => hown f _ rfl
  constructor
  case dir_at =>
    intro f hf
    rw [hdir] at hf
    rw [hva f _ rfl hf, henv]
    exact h.dir_at f hf
  case dir_exists =>
    intro hne
    rw [henv] at hne
    obtain ⟨f, hf⟩ := h.dir_exists hne
    exact ⟨f, (hdir f).2 hf⟩
  case pde =>
    intro fd hfd i hi
    rw [hdir] at hfd
    rw [hmem fd _ rfl hfd]
    refine (h.pde fd hfd i hi).imp id ?_
    rintro ⟨tb, hn, htb⟩
    exact ⟨tb, hn, (htab tb i).2 htb⟩
  case table =>
    intro tb i htb
    obtain ⟨hi, fd, hfd, hn⟩ := h.table tb i ((htab tb i).1 htb)
    refine ⟨hi, fd, (hdir fd).2 hfd, ?_⟩
    rw [hmem fd _ rfl hfd]
    exact hn
  case entry =>
    intro tb i htb j hj
    rw [htab] at htb
    rw [hmem tb _ rfl htb, hslots]
    exact h.entry tb i htb j hj
  case slot =>
    intro v d hd
    rw [hslots] at hd
    obtain ⟨hal, hv, tb, htb⟩ := h.slot v d hd
    exact ⟨hal, hv, tb, (htab tb _).2 htb⟩

theorem SlotTable.of_local {e' : Nat} (h : SlotTable s G e') (hst : Local e s G t H)
    (hne : e' ≠ e) : SlotTable t H e' := by
  have hk := hst.keeps e' hne
  exact h.congr (fun f r _ => hk.own f r rfl) (fun f r _ hf => hk.mem f r rfl hf)
    (fun f r _ hf => hk.va f r rfl hf) (by rw [hst.envs e' hne]) (hst.slots e' hne)

theorem SlotTable.of_keeps {P : Role → Bool} (h : SlotTable s G e) (hk : Keeps e P s G t H)
    (hP : ∀ r, r.inDisk = true → P r = true)
    (henv : (t.envs e).diskEnvPgdir = (s.envs e).diskEnvPgdir)
    (hslots : H.slots e = G.slots e) : SlotTable t H e :=
  h.congr (fun f r hr => hk.own f r (hP r hr)) (fun f r hr hf => hk.mem f r (hP r hr) hf)
    (fun f r hr hf => hk.va f r (hP r hr) hf) henv hslots

theorem DiskFrames.congr (h : DiskFrames s G) (hlist : t.diskFreeFrameList = s.diskFreeFrameList)
    (hslots : H.slots = G.slots) : DiskFrames t H := by
  constructor
  · rw [hlist]
    exact h.nodup
  · rw [hlist, hslots]
    exact h.free_iff
  · rw [hslots]
    exact h.range
  · rw [hslots]
    exact h.inj

/-! ## Lookup -/

/-- The disk directory has one frame. -/
theorem SlotTable.dir_unique (h : SlotTable s G e) (ho : Owned c s G) {f f' : Nat}
    (hf : G.own f = some ⟨e, .ddir⟩) (hf' : G.own f' = some ⟨e, .ddir⟩) : f = f' := by
  have hva := h.dir_at f hf
  have hva' := h.dir_at f' hf'
  exact ho.inv.map.virtualAddresses_inj (ho.heap hf rfl).1 (hva.trans hva'.symm)

theorem SlotTable.table_unique (h : SlotTable s G e) (ho : Owned c s G) {tb tb' i : Nat}
    (htb : G.own tb = some ⟨e, .dtable i⟩) (htb' : G.own tb' = some ⟨e, .dtable i⟩) : tb = tb' := by
  obtain ⟨-, fd, hfd, hn⟩ := h.table tb i htb
  obtain ⟨-, fd', hfd', hn'⟩ := h.table tb' i htb'
  have heq := h.dir_unique ho hfd hfd'
  subst heq
  rw [← hn.frame_eq, hn'.frame_eq]

theorem SlotTable.dirAt (h : SlotTable s G e) (ho : Owned c s G) {fd : Nat}
    (hfd : G.own fd = some ⟨e, .ddir⟩) : DirAt s (s.envs e).diskEnvPgdir fd := by
  refine ⟨h.dir_at fd hfd, ?_⟩
  rw [← h.dir_at fd hfd]
  exact (ho.heap hfd rfl).1

/-- The entry of an address in the disk directory. -/
theorem SlotTable.lookup (h : SlotTable s G e) {fd v : Nat} (hfd : G.own fd = some ⟨e, .ddir⟩)
    (hv : v < userTop) : s.mem fd (pdx v) = 0#32 ∨
      ∃ tb, Names (s.mem fd (pdx v)) tb permPresent ∧ G.own tb = some ⟨e, .dtable (pdx v)⟩ :=
  h.pde fd hfd _ (pdx_user hv)

/-- Without a table there is no slot. -/
theorem SlotTable.slot_none (h : SlotTable s G e) {v : Nat}
    (hno : ∀ tb, G.own tb ≠ some ⟨e, .dtable (pdx v)⟩) : G.slots e (roundDown v 4096) = none := by
  cases hs : G.slots e (roundDown v 4096) with
  | none => rfl
  | some d =>
    obtain ⟨-, -, tb, htb⟩ := h.slot _ d hs
    rw [pdx_roundDown] at htb
    exact absurd htb (hno tb)

theorem entryAddress_roundDown {v : Nat} (hv : v < userTop) :
    entryAddress (pdx v) (ptx v) = roundDown v 4096 := by
  have hle := roundDown_le v
  simp only [userTop] at hv
  rw [← pdx_roundDown, ← ptx_roundDown]
  exact entryAddress_eq (roundDown_aligned v) (by omega)

/-- The word of a slot. -/
theorem SlotTable.load_slot (h : SlotTable s G e) (ho : Owned c s G) {tb v : Nat}
    (hv : v < userTop) (htb : G.own tb = some ⟨e, .dtable (pdx v)⟩) :
    s.load (s.virtualAddresses tb + 4 * ptx v) =
      .ok (slotWord (G.slots e (roundDown v 4096))) := by
  rw [load_pte ho.inv.map (ho.heap htb rfl).1 v, h.entry tb _ htb _ (ptx_lt v),
    entryAddress_roundDown hv]

theorem names_present_ne_zero {w : Word} {f : Nat} (h : Names w f permPresent) : w ≠ 0#32 :=
  has_ne_zero h.has_perm (by decide)

/-- `get_disk_page_table` without creation. -/
theorem SlotTable.getDiskPageTable_find (h : SlotTable s G e) (ho : Owned c s G) {fd v : Nat}
    (hfd : G.own fd = some ⟨e, .ddir⟩) (hv : v < userTop) :
    (∃ tb, G.own tb = some ⟨e, .dtable (pdx v)⟩ ∧
        getDiskPageTable s (s.envs e).diskEnvPgdir v false = .ok (s.virtualAddresses tb, s)) ∨
      ((∀ tb, G.own tb ≠ some ⟨e, .dtable (pdx v)⟩) ∧
        getDiskPageTable s (s.envs e).diskEnvPgdir v false = .ok (0, s)) := by
  have hload := load_pde ho.inv.map (h.dirAt ho hfd) v
  rcases h.lookup hfd hv with hzero | ⟨tb, hn, htb⟩
  · refine .inr ⟨?_, ?_⟩
    · intro tb htb
      obtain ⟨-, fd', hfd', hn⟩ := h.table tb _ htb
      rw [h.dir_unique ho hfd' hfd] at hn
      exact names_present_ne_zero hn hzero
    · simp only [getDiskPageTable, hload, ok_bind, tablePointer_user hv, hzero, if_true,
        Bool.false_eq_true, if_false]
  · refine .inl ⟨tb, htb, ?_⟩
    simp only [getDiskPageTable, hload, ok_bind, tablePointer_user hv,
      names_present_ne_zero hn, if_false, hn.frame_eq]

/-- The lookup of `pf_update_env_page` and `pf_read_env_page`. -/
theorem SlotTable.pfLookup_eq (h : SlotTable s G e) (ho : Owned c s G) (hd : DiskFrames s G)
    {v : Nat} (hdir : (s.envs e).diskEnvPgdir ≠ 0) (hv : v < userTop) :
    pfLookup s e v = .ok ((G.slots e (roundDown v 4096)).getD 0) := by
  obtain ⟨fd, hfd⟩ := h.dir_exists hdir
  rcases h.getDiskPageTable_find ho hfd hv with ⟨tb, htb, hget⟩ | ⟨hno, hget⟩
  · have hne := (ho.heap htb rfl).1
    have hslot := slotWord_toNat (a := G.slots e (roundDown v 4096)) (fun d hx => hd.range e _ d hx)
    simp only [pfLookup, hget, ok_bind, hne, if_false, h.load_slot ho hv htb, hslot]
  · simp only [pfLookup, hget, ok_bind, if_true, h.slot_none hno, Option.getD_none]

end FosMemory
