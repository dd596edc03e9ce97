import FosMemory.Kernel.FrameResults
import FosMemory.Kernel.LoadOrder
import FosMemory.Lib.Positional

/-!
# UseHistory — what the time stamps of LRU say

A page in memory is given a history: whether it was used in each of the intervals between two
updates of the time stamps, and whether its entry was made by `env_page_ws_set_entry`.  After an
update the stamp of the page is this history, read as a number.
-/

namespace FosMemory

open Lib

variable {c : Boot} {s t u : Kernel} {G H : Ghost} {e n : Nat} {prog : UserProgram}

/-! ## Histories -/

/-- The uses of a page since it was loaded. -/
structure UseHistory where
  /-- the intervals that have ended, latest first -/
  bits : List Bool
  /-- the current interval -/
  current : Bool
  /-- the entry was made by `env_page_ws_set_entry` -/
  fromSet : Bool

/-- A page that has just been mapped. -/
def UseHistory.loaded (fromSet : Bool) : UseHistory where
  bits := []
  current := true
  fromSet := fromSet

def UseHistory.used (h : UseHistory) : UseHistory :=
  { h with current := true }

/-- An interval ends. -/
def UseHistory.tick (h : UseHistory) : UseHistory :=
  { h with bits := h.current :: h.bits, current := false }

/-- The bits of the intervals, continued by one more for the entry. -/
def UseHistory.code (h : UseHistory) : List Bool :=
  h.bits ++ [h.fromSet]

/-- Bit `h_i`. -/
def UseHistory.bit (h : UseHistory) (i : Nat) : Bool :=
  h.code.getD i false

/-- The part of the history that fits into a time stamp. -/
def UseHistory.recent (h : UseHistory) : List Bool :=
  (List.range 16).map h.bit

theorem UseHistory.recent_eq (h : UseHistory) : h.recent = window 16 h.code :=
  rfl

theorem UseHistory.code_tick (h : UseHistory) : h.tick.code = h.current :: h.code :=
  rfl

/-! ## Time stamps -/

/-- Time stamp `w` is the number a history stands for: sixteen digits in base four, doubled. -/
def Encodes (w : Word) (h : UseHistory) : Prop :=
  w.toNat = 2 * weigh 4 h.recent

theorem aged_toNat (used : Bool) (w : Word) :
    (aged used w).toNat = w.toNat / 4 + used.toNat * 2147483648 := by
  have hlt := w.isLt
  have hshift : (w >>> 2).toNat = w.toNat / 4 := by
    rw [BitVec.toNat_ushiftRight, Nat.shiftRight_eq_div_pow]
  cases used with
  | false => simp [aged, hshift]
  | true =>
    have hsmall : w.toNat / 4 < 2 ^ 31 := by omega
    have hor : (2 : Nat) ^ 31 * 1 + w.toNat / 4 = 2 ^ 31 * 1 ||| w.toNat / 4 :=
      Nat.two_pow_add_eq_or_of_lt hsmall 1
    have htop : (0x80000000#32 : Word).toNat = 2 ^ 31 * 1 := by decide
    rw [aged, if_pos rfl, BitVec.toNat_or, hshift, htop, Nat.or_comm, ← hor]
    simp only [Bool.toNat_true]
    omega

/-- The shift by two makes room for the bit of the interval that ends. -/
theorem Encodes.tick {w : Word} {h : UseHistory} (hw : Encodes w h) :
    Encodes (aged h.current w) h.tick := by
  rw [Encodes, UseHistory.recent_eq, weigh_window_succ] at hw
  rw [Encodes, UseHistory.recent_eq, UseHistory.code_tick, weigh_window_cons, aged_toNat, hw]
  have hbit := Bool.toNat_le (h.code.getD 15 false)
  have hpow : (4 : Nat) ^ 15 = 1073741824 := by norm_num
  rw [hpow]
  omega

theorem encodes_loaded (b : Bool) :
    Encodes (if b then 0x80000000#32 else 0#32) (UseHistory.loaded b) := by
  have hcode : (UseHistory.loaded b).code = [b] := rfl
  rw [Encodes, UseHistory.recent_eq, hcode, weigh_window_cons, weigh_window_nil]
  cases b <;> decide

/-- The history of page `v` of `e` after a step from `s` to `t`.  Time stamps are updated on every
tick and every fault; a page is mapped when it arrives; the processor sets the accessed bit of a
page that is read or written. -/
def advance (e : Nat) (s t : Kernel) (op : SysOp) (hist : Nat → UseHistory) (v : Nat) :
    UseHistory :=
  if s.curenv = some e then
    match op with
    | .user .tick => (hist v).tick
    | .user (.fault _) => if v ∈ arrivedPages e s t then .loaded true else (hist v).tick
    | .user (.read va) | .user (.write va _) =>
      if roundDown va 4096 = v then (hist v).used else hist v
    | .user (.allocateMem _ _) | .user (.freeMem _ _) | .create _ _ | .run _ | .select _ | .idle =>
      hist v
  else hist v

/-- Runs from the creation of `e` on with LRU selected throughout, and the histories of its
pages. -/
inductive HistoryRun (c : Boot) (e n : Nat) (prog : UserProgram) :
    Kernel → (Nat → UseHistory) → Prop
  | created {s t : Kernel} (before : SysRun c s) (size : 1 ≤ n) (wrap : n * 12 + 4095 < wordMod)
      (program : Loadable n prog) (done : envCreate s prog n = .ok (some e, t)) :
      HistoryRun c e n prog t fun v => .loaded (decide (v = stackPage))
  | step {s t : Kernel} {hist : Nat → UseHistory} {op : SysOp} (run : HistoryRun c e n prog s hist)
      (lru : s.pageRepAlgoType = .lru) (next : SysStep s op t) :
      HistoryRun c e n prog t (advance e s t op hist)

/-- Stamp and accessed bit of every page of the working set agree with the history. -/
def Recorded (s : Kernel) (e : Nat) (hist : Nat → UseHistory) : Prop :=
  ∀ i < s.wsMax e, ∀ v, s.wsPage e i = some v →
    Encodes (s.wsStamp e i) (hist v) ∧ (s.pteWord e v).has permUsed = (hist v).current

theorem Untouched.recorded {hist : Nat → UseHistory} (h : Untouched e s t)
    (hrec : Recorded s e hist) : Recorded t e hist := by
  intro i hi v hv
  rw [h.size] at hi
  rw [h.page i hi] at hv
  rw [h.stamp i hi, h.pte i hi v hv]
  exact hrec i hi v hv

/-- An update of the time stamps ends an interval of every page. -/
theorem Ticked.recorded {hist : Nat → UseHistory} (h : Ticked c e (s.wsMax e) s G t)
    (hrec : Recorded s e hist) : Recorded t e fun v => (hist v).tick := by
  intro i hi v hv
  have hmax : t.wsMax e = s.wsMax e := h.step.env.pageWSMaxSize
  rw [hmax] at hi
  rw [h.page hi] at hv
  obtain ⟨hstamp, hused⟩ := hrec i hi v hv
  rw [h.stamp i hi v hv, h.pte i hi v hv, if_pos hi, if_pos hi, hused]
  exact ⟨hstamp.tick, clear_has_used _⟩

/-- A page that comes in gets a history of its own, the others keep theirs. -/
theorem Replaced.recorded {va i : Nat} {hist : Nat → UseHistory} (h : Replaced e va i s t)
    (hsize : t.wsMax e = s.wsMax e) (hpte : ∀ k < s.wsMax e, k ≠ i → ∀ v, s.wsPage e k = some v →
      t.pteWord e v = s.pteWord e v)
    (hnew : ∀ k < s.wsMax e, s.wsPage e k ≠ some (roundDown va 4096))
    (hrec : Recorded s e hist) :
    Recorded t e fun v => if v = roundDown va 4096 then .loaded true else hist v := by
  intro k hk v hv
  rw [hsize] at hk
  by_cases hki : k = i
  · subst hki
    rw [h.placed] at hv
    cases hv
    simp only [if_true, h.stamp, h.used]
    exact ⟨encodes_loaded true, rfl⟩
  · obtain ⟨hpage, hstamp⟩ := h.kept k hk hki
    rw [hpage] at hv
    have hne : v ≠ roundDown va 4096 := by
      rintro rfl
      exact hnew k hk hv
    simp only [if_neg hne, hstamp, hpte k hk hki v hv]
    exact hrec k hk v hv

/-! ## The steps of a run -/

/-- Presence depends on the record only. -/
theorem Space.present_eq (hs : Space c s G e) (ht : Space c t G e) {va : Nat} (hva : va < userTop) :
    s.present e va = t.present e va :=
  Bool.eq_iff_iff.2 ((hs.present_iff hva).trans (ht.present_iff hva).symm)

/-- An access sets the accessed bit of its page and of no other. -/
theorem recorded_access {va : Nat} {hist : Nat → UseHistory} (hst : Steady e s t)
    (hws : SameWs e s t) (hself : (t.pteWord e (roundDown va 4096)).has permUsed = true)
    (hother : ∀ i < s.wsMax e, ∀ v, v ≠ roundDown va 4096 → s.wsPage e i = some v →
      t.pteWord e v = s.pteWord e v) (hrec : Recorded s e hist) :
    Recorded t e fun v => if roundDown va 4096 = v then (hist v).used else hist v := by
  intro i hi v hv
  rw [hst.size] at hi
  rw [hst.page i hi] at hv
  obtain ⟨hstamp, hused⟩ := hrec i hi v hv
  rw [hws.stamp hi]
  by_cases hva : roundDown va 4096 = v
  · subst hva
    simp only [if_true]
    exact ⟨hstamp, hself⟩
  · simp only [if_neg hva, hother i hi v (Ne.symm hva) hv]
    exact ⟨hstamp, hused⟩

section User

variable (h : SysInv c s G) (hcur : s.curenv = some e) {hist : Nat → UseHistory}
  (hrec : Recorded s e hist)
include h hcur hrec

/-- A fault: the update, and then the page table or the page. -/
theorem SysInv.fault_recorded (hlru : s.pageRepAlgoType = .lru) {va : Nat} (hva : va < userTop)
    (habs : s.present e va = false) (hdone : trapPageFault s e va = .ok t) :
    Recorded t e (advance e s t (.user (.fault va)) hist) := by
  have ha := h.current hcur
  obtain ⟨u, H, hu, haged, -, hf⟩ := h.trapPageFault_spec hcur hva habs hdone
  obtain ⟨u', hu', htick⟩ := h.onTrap_lru hcur hlru
  obtain rfl : u = u' := Except.ok.inj (hu.symm.trans hu')
  have hacts := haged.acts ha
  have hrec' := htick.recorded hrec
  have habs' : u.present e va = false := by
    refine hacts.alive.base.not_present hva (fun f hf => ?_) ?_
    · exact ha.base.absent_of_present hva habs f false hf
    · rw [inWindow_congr hacts.env]
      exact (ha.base.absent_iff.1 (ha.base.absent_of_present hva habs)).2
  rcases hf with hq | hf
  · -- nothing has arrived
    have hun := hq.untouched hacts.alive.entries
    have hnone : arrivedPages e s t = [] :=
      (haged.steady.trans hun.toSteady).symm.evictedPages_eq ha
    have hadv : advance e s t (.user (.fault va)) hist = fun v => (hist v).tick := by
      funext v
      simp [advance, hcur, hnone]
    rw [hadv]
    exact hun.recorded hrec'
  · have hsize : t.wsMax e = u.wsMax e := (hf.acts hacts.alive).env.pageWSMaxSize
    obtain ⟨i, hrep, hpte⟩ : ∃ i, Replaced e va i u t ∧ ∀ k < u.wsMax e, k ≠ i → ∀ v,
        u.wsPage e k = some v → t.pteWord e v = u.pteWord e v := by
      have hent := hacts.alive.entries
      have hb := hacts.alive.base
      have hnone := ha.base.absent_of_present hva habs
      by_cases hfull : ∀ k < u.wsMax e, u.wsPage e k ≠ none
      · obtain ⟨i, w, hvic, hrep, hpte⟩ := hf.replaced_full hb hent hnone hfull
        -- the scan of LRU changes nothing
        have hw : w = u := by
          obtain ⟨j, -, hrun, -⟩ := hb.array.lruVictim_spec hacts.owned hent.last
          rw [victim, hacts.run.pageRepAlgoType, hlru] at hvic
          simp only [hrun, ok_bind] at hvic
          exact (Prod.mk.inj (Except.ok.inj hvic)).2.symm
        subst hw
        refine ⟨i, hrep, fun k hk hki v hv => ?_⟩
        obtain ⟨f, hf'⟩ := hent.page k hk v hv
        exact hpte v f hf' fun hx => hki (hent.inj k hk i hrep.index v hv hx)
      · simp only [not_forall, not_not] at hfull
        obtain ⟨k, hk, hnone'⟩ := hfull
        obtain ⟨m, -, hrep, -, -, hpte⟩ := hf.replaced_room hb hent hnone ⟨k, hk, hnone'⟩
        refine ⟨_, hrep, fun k hk _ v hv => ?_⟩
        obtain ⟨f, hf'⟩ := hent.page k hk v hv
        exact hpte v f hf'
    have harr : arrivedPages e s t = [roundDown va 4096] := by
      have hacts' := hf.acts hacts.alive
      have hsame : arrivedPages e s t = arrivedPages e u t := by
        refine List.filter_congr fun v hv => ?_
        obtain ⟨k, hk, hkv⟩ := List.mem_filterMap.1 hv
        obtain ⟨-, hlt, -⟩ :=
          hacts'.alive.entries.target hacts'.alive.base (List.mem_range.1 hk) hkv
        rw [ha.base.space.present_eq hacts.alive.base.space hlt]
      rw [hsame]
      exact hrep.arrivedPages_eq hacts.alive hsize habs'
    have hadv : advance e s t (.user (.fault va)) hist =
        fun v => if v = roundDown va 4096 then .loaded true else (hist v).tick := by
      funext v
      simp [advance, hcur, harr]
    rw [hadv]
    refine hrep.recorded hsize hpte (fun k hk hx => ?_) hrec'
    have hp := hacts.alive.present hk hx
    rw [present_roundDown, habs'] at hp
    cases hp

/-- Everything else the environment does. -/
theorem SysInv.user_recorded (hlru : s.pageRepAlgoType = .lru) {op : UserOp}
    (hact : UserStep s e op t) : Recorded t e (advance e s t (.user op) hist) := by
  have ha := h.current hcur
  have hb := ha.base
  have hcr3 := (h.isRunning hcur).cr3
  cases hact with
  | fault hva habs hdone => exact h.fault_recorded hcur hrec hlru hva habs hdone
  | tick hdone =>
    obtain ⟨u, hu, htick⟩ := h.onTrap_lru hcur hlru
    obtain rfl : t = u := Except.ok.inj (hdone.symm.trans hu)
    have hadv : advance e s t (.user .tick) hist = fun v => (hist v).tick := by
      funext v
      simp [advance, hcur]
    rw [hadv]
    exact htick.recorded hrec
  | @read va b _ hva hdone =>
    obtain ⟨f, k, ht, -, hset⟩ := hb.space.readByte_some hcr3 hva hdone
    have hadv : advance e s t (.user (.read va)) hist =
        fun v => if roundDown va 4096 = v then (hist v).used else hist v := by
      funext v
      simp [advance, hcur]
    rw [hadv]
    refine recorded_access (hset.toWalkOnly.steady h.owned hb h.frames)
      (hset.toWalkOnly.sameWs h.owned hb h.frames) ?_ (fun i hi v hne hv => ?_) hrec
    · rw [hset.pte_self]
      exact has_or_self _ _
    · obtain ⟨g, hg⟩ := ha.entries.page i hi v hv
      exact hset.pte v g false hne hg
  | @write va b _ hva hdone =>
    obtain ⟨f, hf, hset⟩ := hb.space.writeByte_some hcr3 hva hdone
    have hadv : advance e s t (.user (.write va b)) hist =
        fun v => if roundDown va 4096 = v then (hist v).used else hist v := by
      funext v
      simp [advance, hcur]
    rw [hadv]
    refine recorded_access (hset.steady hf h.owned hb h.frames)
      (hset.sameWs hf h.owned hb h.frames) ?_ (fun i hi v hne hv => ?_) hrec
    · rw [hset.pte_self]
      exact has_mono (has_or_self _ (accessMark true)) (by decide)
    · obtain ⟨g, hg⟩ := ha.entries.page i hi v hv
      exact hset.pte v g false hne hg
  | @allocateMem va size _ hrange hdone =>
    obtain ⟨I, hl⟩ := h.allocateMem_listed hcur hrange hdone
    have hadv : advance e s t (.user (.allocateMem va size)) hist = hist := by
      funext v
      simp [advance]
    rw [hadv]
    exact (hl.untouched h.owned ha).recorded hrec
  | @freeMem va size _ hpos hrange hdone =>
    obtain ⟨I, hret⟩ := h.freeMem_returned hcur hpos hrange hdone
    have hadv : advance e s t (.user (.freeMem va size)) hist = hist := by
      funext v
      simp [advance]
    rw [hadv]
    intro i hi v hv
    have hmax : t.wsMax e = s.wsMax e := hret.acts.env.pageWSMaxSize
    obtain ⟨f, hf⟩ := hret.acts.alive.entries.page i hi v hv
    rw [hmax] at hi
    obtain ⟨hv', hstamp⟩ := hret.element i hi v hv
    rw [hstamp, hret.pte v f hf]
    exact hrec i hi v hv'

end User

/-- Every step keeps stamps and bits in agreement with the histories. -/
theorem SysInv.step_recorded (h : SysInv c s G) (hlive : s.Live e) {hist : Nat → UseHistory}
    (hrec : Recorded s e hist) (hlru : s.pageRepAlgoType = .lru) {op : SysOp}
    (hnext : SysStep s op t) :
    ∃ H, SysInv c t H ∧ t.Live e ∧ Recorded t e (advance e s t op hist) := by
  obtain ⟨H, hinv, hlive', ⟨hun, hother⟩ | ⟨act, rfl, hcur, hact⟩⟩ := h.step_live hlive hnext
  · have hadv : advance e s t op hist = hist := by
      funext v
      cases op with
      | user act => simp only [advance, if_neg (hother act rfl)]
      | create | run | select | idle =>
        simp only [advance]
        split <;> rfl
    rw [hadv]
    exact ⟨H, hinv, hlive', hun.recorded hrec⟩
  · exact ⟨H, hinv, hlive', h.user_recorded hcur hrec hlru hact⟩

/-- The stack page comes last. -/
theorem Loadable.stack_last (h : Loadable n prog) {i v : Nat}
    (hv : (initialPages prog n)[i]? = some v) :
    v = stackPage ↔ i + 1 = (initialPages prog n).length := by
  have hlen : (initialPages prog n).length =
      (loadedPages prog.name prog.segments (n - 1)).length + 1 := by
    rw [initialPages, List.length_append, List.length_singleton]
  rw [hlen, Nat.add_right_cancel_iff]
  rw [initialPages, List.getElem?_append] at hv
  constructor
  · rintro rfl
    by_contra hne
    split at hv
    · exact h.stack_not_mem _ _ (List.mem_of_getElem? hv)
    · obtain ⟨hlt, -⟩ := List.getElem?_eq_some_iff.1 hv
      rw [List.length_singleton] at hlt
      omega
  · rintro rfl
    rw [if_neg (lt_irrefl _), Nat.sub_self] at hv
    exact (Option.some.inj hv).symm

/-- `env_create` loads the segments with stamp zero and makes the entry of the stack page with
`env_page_ws_set_entry`. -/
theorem SysInv.created_recorded (h : SysInv c s G) (hn : 1 ≤ n) (hwrap : n * 12 + 4095 < wordMod)
    (hprog : Loadable n prog) (hdone : envCreate s prog n = .ok (some e, t)) :
    ∃ H, SysInv c t H ∧ t.Live e ∧
      Recorded t e fun v => .loaded (decide (v = stackPage)) := by
  obtain ⟨hmem, H, hcr⟩ := h.created hn hwrap hprog hdone
  refine ⟨H, h.create hmem hcr, (hcr.live h.nodup (h.unused e hmem).1 e).2 (.inl rfl), ?_⟩
  intro i hi v hv
  rw [hcr.size] at hi
  have hel := hcr.element i hi
  rw [hv] at hel
  obtain ⟨hlt, hget⟩ := List.getElem?_eq_some_iff.1 hel.symm
  obtain ⟨f, hf⟩ := (hcr.pages v).2 (by rw [← hget]; exact List.getElem_mem hlt)
  refine ⟨?_, by rw [hcr.used v f hf]; rfl⟩
  -- the last element is the stack page, and no other is
  have hlast := hprog.stack_last hel.symm
  rw [hcr.stamp i hlt]
  have henc := encodes_loaded (decide (v = stackPage))
  simp only [decide_eq_true_eq, hlast] at henc ⊢
  exact henc

theorem HistoryRun.inv {hist : Nat → UseHistory} (h : HistoryRun c e n prog s hist) :
    ∃ G, SysInv c s G ∧ s.Live e ∧ Recorded s e hist := by
  induction h with
  | created hbefore hn hwrap hprog hdone =>
    obtain ⟨G, hG⟩ := hbefore.inv
    exact hG.created_recorded hn hwrap hprog hdone
  | step _ hlru hnext ih =>
    obtain ⟨G, hG, hlive, hrec⟩ := ih
    exact hG.step_recorded hlive hrec hlru hnext

end FosMemory
