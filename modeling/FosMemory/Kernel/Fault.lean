import FosMemory.Kernel.Effects

/-!
# Fault — what `page_fault_handler` does

The handler first makes room: with a full working set it evicts one page, in any case it ends up
with an empty element.  Then it brings the page in, from its slot or as a new stack page, or
refuses it.  Each part is specified by what it does to the pages, to the elements and to the
environment as a whole.
-/

namespace FosMemory

open Lib

variable {c : Boot} {s t u : Kernel} {G H I : Ghost} {e : Nat}

/-! ## Eviction -/

/-- Page `v` in frame `f` has been evicted, every other page is as it was. -/
structure Evicts (e v f : Nat) (s : Kernel) (G : Ghost) (t : Kernel) (H : Ghost) : Prop
    extends PageOut e v f s G t H where
  other : ∀ v', v' ≠ v → SamePage e v' s G t H
  mem_self : t.mem f = s.mem f
  own_self : H.own f = none
  free : G.slots e v ≠ none → t.freeFrameList = f :: s.freeFrameList
  diskList : t.diskFreeFrameList = s.diskFreeFrameList

/-- Accessed bits that were cleared before. -/
theorem Evicts.of_walk {v f : Nat} (h : WalkOnly c e s G t)
    (hpte : ∀ v f, G.own f = some ⟨e, .page v⟩ →
      (t.pteWord e v).unmarked = (s.pteWord e v).unmarked)
    (h' : Evicts e v f t G u H) : Evicts e v f s G u H := by
  have hf := h'.toPageOut.before
  constructor
  case toPageOut =>
    refine ⟨hf, h'.gone, h'.slot, fun d hd => ?_⟩
    rw [h'.disk d hd, unmarked_modified (hpte v f hf), h.mem_page hf, h.rest.disk]
  case other =>
    intro v' hne
    exact (h.samePage fun g hg => hpte v' g hg).trans (h'.other v' hne)
  case mem_self => rw [h'.mem_self, h.mem_page hf]
  case own_self => exact h'.own_self
  case free =>
    intro hs
    rw [h'.free hs, h.same.freeFrameList]
  case diskList => rw [h'.diskList, h.rest.diskFreeFrameList]

/-- The window is looked at afterwards. -/
theorem Evicts.after {v f : Nat} (h : Evicts e v f s G t H) (h' : Looked c e t H u) :
    Evicts e v f s G u H := by
  constructor
  case toPageOut =>
    refine ⟨h.toPageOut.before, h.gone, h.slot, fun d hd => ?_⟩
    rw [h'.rest.disk, h.disk d hd]
  case other => exact fun v' hne => (h.other v' hne).trans (h'.samePage v')
  case mem_self =>
    rw [h'.mem f fun r _ hx => ?_, h.mem_self]
    rw [h.own_self] at hx
    cases hx
  case own_self => exact h.own_self
  case free =>
    intro hs
    rw [h'.same.freeFrameList, h.free hs]
  case diskList => rw [h'.rest.diskFreeFrameList, h.diskList]

/-- What `evict` leaves. -/
structure Evicted (c : Boot) (e i v f : Nat) (s : Kernel) (G : Ghost) (t : Kernel) (H : Ghost) :
    Prop where
  step : EnvStep c e 1 s G t H
  pages : Evicts e v f s G t H
  held : NoHeld G → NoHeld H
  last : (t.envs e).pageLastWSIndex = (s.envs e).pageLastWSIndex
  va : t.wsVa e i = 0
  flag : t.wsFlag e i = 1#8
  rest : ∀ k < s.wsMax e, k ≠ i → t.wsVa e k = s.wsVa e k ∧ t.wsFlag e k = s.wsFlag e k ∧
    t.wsStamp e k = s.wsStamp e k
  pte : ∀ v' g, v' ≠ v → G.own g = some ⟨e, .page v'⟩ → t.pteWord e v' = s.pteWord e v'

/-- The write-back: the slot of the page is written if the page was modified. -/
structure WrittenBack (c : Boot) (e v f : Nat) (s : Kernel) (G : Ghost) (t : Kernel) (H : Ghost) :
    Prop where
  filed : Filed c e 1 s G t H
  slots : H.slots = G.slots
  ddir : (s.envs e).diskEnvPgdir ≠ 0 → (t.envs e).diskEnvPgdir ≠ 0
  diskList : t.diskFreeFrameList = s.diskFreeFrameList
  disk_self : ∀ d, G.slots e v = some d →
    t.disk d = if (s.pteWord e v).has permModified then s.mem f else s.disk d
  disk : ∀ v' d, v' ≠ v → G.slots e v' = some d → t.disk d = s.disk d
  free : G.slots e v ≠ none → t.freeFrameList = s.freeFrameList
  mem : G.slots e v ≠ none → t.mem = s.mem

section Evict

variable (ho : Owned c s G) (hb : Base c s G e) (hd : DiskFrames s G) {v f : Nat}
  (hf : G.own f = some ⟨e, .page v⟩)
include ho hb hd hf

/-- `pf_update_env_page`, called only for a modified page. -/
theorem Base.writeBack_spec :
    Ensures (fun _ => ¬ Enough s 1) (fun t => ∃ H, WrittenBack c e v f s G t H)
      (if s.pteWord e v &&& permModified = 0#32 then .ok s
      else do
        let (_, s) ← pfUpdateEnvPage s e v f
        .ok s) := by
  obtain ⟨hal, hvt, -⟩ := hb.space.target v f false hf
  have hdown : roundDown v 4096 = v := roundDown_eq hal
  have hrefl := Filed.refl ho hb.slots hd
  by_cases hmod : s.pteWord e v &&& permModified = 0#32
  · rw [if_pos hmod, ensures_ok]
    rw [and_permModified] at hmod
    refine ⟨G, hrefl.mono (by omega), rfl, id, rfl, fun d _ => ?_, fun _ _ _ _ => rfl,
      fun _ => rfl, fun _ => rfl⟩
    rw [hmod, if_neg (by simp)]
  · rw [if_neg hmod]
    have hdirty : (s.pteWord e v).has permModified = true := by
      rw [and_permModified, Bool.eq_false_iff] at hmod
      exact not_not.1 hmod
    cases hslot : G.slots e v with
    | some d =>
      have hup := pfUpdateEnvPage_eq ho hb.space hb.slots hd hvt (f := f) (by simp [hf])
        (by rw [hdown]; exact hslot)
      simp only [hup, ok_bind, ensures_ok]
      refine ⟨G, (hrefl.write hslot (s.mem f)).mono (by omega), rfl, id, rfl, ?_, ?_,
        fun _ => rfl, fun _ => rfl⟩
      · intro d' hd'
        rw [hslot] at hd'
        cases hd'
        rw [hdirty, if_pos rfl]
        exact Function.update_self _ _ _
      · intro v' d' hne hd'
        refine Function.update_of_ne ?_ _ _
        rintro rfl
        exact hne (hd.inj e v' e v d' hd' hslot).2
    | none =>
      refine (SlotTable.pfUpdateEnvPage_none ho hb.slots hd hvt f
        (by rw [hdown]; exact hslot)).bind ?_
      rintro ⟨r, t⟩ ⟨-, H, hfile, hslots, hdisk, hlist, hdir⟩
      refine ⟨H, hfile, hslots, fun _ => hdir, hlist, ?_, fun v' d _ _ => by rw [hdisk],
        fun hx => absurd hslot hx, fun hx => absurd hslot hx⟩
      intro d hd'
      rw [hslot] at hd'
      cases hd'

omit hd in
/-- The rest of `evict`: the page is unmapped and the element is cleared. -/
theorem WrittenBack.evict_rest {i : Nat} {s₁ : Kernel} {G₁ : Ghost}
    (hwr : WrittenBack c e v f s G s₁ G₁) (hi : i < s.wsMax e) :
    ∃ s₂ s₃ H, unmapFrame s₁ (s.envs e).envPageDirectory v = .ok s₂ ∧
      envPageWSClearEntry s₂ e i = .ok s₃ ∧ Evicted c e i v f s G s₃ H := by
  obtain ⟨hal, hvt, -⟩ := hb.space.target v f false hf
  have hdown : roundDown v 4096 = v := roundDown_eq hal
  have hst₁ := hwr.filed.envStep hb hwr.ddir
  have hf₁ : G₁.own f = some ⟨e, .page v⟩ := (hwr.filed.keeps.own f _ rfl).2 hf
  obtain ⟨s₂, hun, hrem⟩ := hst₁.base.space.unmapFrame_page hst₁.owned (v := v)
    (by rw [hdown]; exact hf₁)
  rw [hdown] at hrem
  have hst₂ := hrem.envStep hst₁.base hst₁.frames
  rw [hst₁.env.envPageDirectory] at hun
  have hmax₁ : s₁.wsMax e = s.wsMax e := hst₁.env.pageWSMaxSize
  have hmax₂ : s₂.wsMax e = s.wsMax e := hst₂.env.pageWSMaxSize.trans hmax₁
  obtain ⟨s₃, hclear, hset⟩ := hst₂.base.array.envPageWSClearEntry_spec hst₂.owned (i := i)
    (by rw [hmax₂]; exact hi)
  have hst₃ := hset.only.envStep hst₂.owned hst₂.base hst₂.frames
  have hws₁ := hwr.filed.sameWs hb ho
  have hws₂ := hrem.sameWs hst₁.base hst₁.owned hst₁.frames
  have hws := hws₁.trans hws₂ hmax₁
  have hself : (G₁.setOwn f none).own f = none := G₁.setOwn_self f none
  refine ⟨s₂, s₃, G₁.setOwn f none, hun, hclear, ((hst₁.trans hst₂).trans hst₃).mono (by omega), ?_,
    ?_, ?_, hset.va, hset.flag, ?_, ?_⟩
  · constructor
    case toPageOut =>
      refine ⟨hf, hst₁.base.space.page_gone hf₁, ?_, ?_⟩
      · show G₁.slots e v = _
        rw [hwr.slots]
      · intro d hd'
        rw [hset.only.rest.disk, hrem.rest.disk, hwr.disk_self d hd']
    case other =>
      intro v' hne
      have h₁ : SamePage e v' s G s₁ G₁ :=
        hwr.filed.samePage hb (by rw [hwr.slots]) fun d hd' => hwr.disk v' d hne hd'
      exact (h₁.trans (hrem.samePage hne)).trans (hset.only.samePage hst₂.base.space v')
    case mem_self =>
      rw [hset.only.mem f fun k hx => ?_, hrem.mem_self, hwr.filed.keeps.mem f _ rfl hf]
      rw [hself] at hx
      cases hx
    case own_self => exact hself
    case free =>
      intro hs
      rw [hset.only.same.freeFrameList, hrem.free, hwr.free hs]
    case diskList =>
      rw [hset.only.rest.diskFreeFrameList, hrem.rest.diskFreeFrameList, hwr.diskList]
  · exact fun hno => (hwr.filed.held hno).setOwn_none f
  · rw [hset.only.rest.envs, hrem.rest.envs, hwr.filed.last]
  · intro k hk hne
    obtain ⟨hva, hflag, hstamp⟩ := hset.rest k (by rw [hmax₂]; exact hk) hne
    rw [hva, hflag, hstamp]
    exact ⟨hws.va hk, hws.flag hk, hws.stamp hk⟩
  · intro v' g hne hg
    have hg₁ : G₁.own g = some ⟨e, .page v'⟩ := (hwr.filed.keeps.own g _ rfl).2 hg
    have hg₂ : (G₁.setOwn f none).own g = some ⟨e, .page v'⟩ := ((hrem.samePage hne).own g).2 hg₁
    rw [hset.only.pteWord (b := false) hst₂.base.space hg₂, hrem.pte v' g hne hg₁,
      hwr.filed.pteWord (b := false) hb.space hg]

/-- `evict`. -/
theorem Base.evict_spec {i : Nat} (hent : Entries s G e) (hi : i < s.wsMax e)
    (hv : s.wsPage e i = some v) :
    Ensures (fun _ => ¬ Enough s 1) (fun t => ∃ H, Evicted c e i v f s G t H) (evict s e i) := by
  obtain ⟨hal, hvt, tb, htb, hw⟩ := hb.space.target v f false hf
  have hdown : roundDown v 4096 = v := roundDown_eq hal
  have hframe : (s.mem tb (ptx v)).frame = f := hw.frame_eq
  have hram : (s.mem tb (ptx v)).frame < c.numberOfFrames := by
    rw [hframe]
    exact (ho.in_ram f (by simp [hf])).1
  have hinfo := getFrameInfo_user ho.inv.map (hb.space.dirAt ho) hvt (hb.space.table tb _ htb).2
    (Space.table_va ho htb) (entryFor_ne_zero hw) hram
  have hload := hb.space.load_entry ho htb
  rw [hframe] at hinfo
  rw [hdown] at hload
  have hwb := hb.writeBack_spec ho hd hf
  simp only [evict, hent.getVirtualAddress hb hi hv ho, ok_bind, hinfo, hload]
  by_cases hmod : s.pteWord e v &&& permModified = 0#32
  · rw [if_pos hmod, ensures_ok] at hwb
    obtain ⟨G₁, hwr⟩ := hwb
    obtain ⟨s₂, s₃, H, hun, hclear, hev⟩ := hwr.evict_rest ho hb hf hi
    simp only [if_pos hmod, hun, ok_bind, hclear, ensures_ok]
    exact ⟨H, hev⟩
  · rw [if_neg hmod, ensures_bind] at hwb
    rw [if_neg hmod]
    refine hwb.bind ?_
    rintro ⟨r, s₁⟩ ⟨G₁, hwr⟩
    obtain ⟨s₂, s₃, H, hun, hclear, hev⟩ := hwr.evict_rest ho hb hf hi
    simp only [hun, ok_bind, hclear, ensures_ok]
    exact ⟨H, hev⟩

end Evict

/-! ## Making room -/

/-- How the element was found: with a full working set it is the one `victim` picks, and entries
other than its page's are as `victim` leaves them; otherwise it is the first empty element in
circular order. -/
def Choice (e i : Nat) (s : Kernel) (G : Ghost) (t : Kernel) : Prop :=
  ((∀ k < s.wsMax e, s.wsPage e k ≠ none) ∧
    ∃ w, victim s e (s.envs e).pageLastWSIndex = .ok (i, w) ∧ ∀ v f, s.wsPage e i ≠ some v →
      G.own f = some ⟨e, .page v⟩ → t.pteWord e v = w.pteWord e v) ∨
  ((∃ k < s.wsMax e, s.wsPage e k = none) ∧
    (∃ m < s.wsMax e, i = ((s.envs e).pageLastWSIndex + m) % s.wsMax e ∧
      (∀ j < m, s.wsPage e (((s.envs e).pageLastWSIndex + j) % s.wsMax e) ≠ none) ∧
      s.wsPage e i = none) ∧
    ∀ v f, G.own f = some ⟨e, .page v⟩ → t.pteWord e v = s.pteWord e v)

/-- There is an empty element `i`; at most one page has been evicted. -/
structure Room (c : Boot) (e i : Nat) (s : Kernel) (G : Ghost) (t : Kernel) (H : Ghost) :
    Prop where
  step : EnvStep c e 1 s G t H
  held : NoHeld G → NoHeld H
  index : i < s.wsMax e
  empty : t.wsPage e i = none
  entries : Entries t H e
  covered : Covered s G e → Covered t H e
  diskList : t.diskFreeFrameList = s.diskFreeFrameList
  pages : ((∃ k < s.wsMax e, s.wsPage e k = none) ∧ t.freeFrameList = s.freeFrameList ∧
      ∀ v, SamePage e v s G t H) ∨
    ((∀ k < s.wsMax e, s.wsPage e k ≠ none) ∧ ∃ v f, s.wsPage e i = some v ∧
      Evicts e v f s G t H)
  last : (t.envs e).pageLastWSIndex = (s.envs e).pageLastWSIndex
  rest : ∀ k < s.wsMax e, k ≠ i → t.wsVa e k = s.wsVa e k ∧ t.wsFlag e k = s.wsFlag e k ∧
    t.wsStamp e k = s.wsStamp e k
  choice : Choice e i s G t

section Room

variable (ho : Owned c s G) (hb : Base c s G e) (hd : DiskFrames s G) (hent : Entries s G e)
  (hcr3 : s.cr3 = (s.envs e).envCr3)
include ho hb hd hent hcr3

theorem Base.makeRoom_spec :
    Ensures (fun _ => ¬ Enough s 1) (fun r => ∃ H, Room c e r.1 s G r.2 H) (makeRoom s e) := by
  have hcount := s.wsCount_le e (s.wsMax e)
  have hget := hb.array.envPageWSGetSize_eq ho
  have hmaxeq : (s.envs e).pageWSMaxSize = s.wsMax e := rfl
  by_cases hfull : ∀ k < s.wsMax e, s.wsPage e k ≠ none
  · -- a full working set: one page goes
    have hsize : (s.envs e).pageWSMaxSize ≤ s.wsCount e (s.wsMax e) := by
      rw [(s.wsCount_eq_iff e _).2 hfull]
    obtain ⟨i, s₁, hi, hvic, hwalk, hpte⟩ := hb.victim_spec ho hd hent hfull hent.last
    have hst₁ := hwalk.envStep ho hb hd
    have hws₁ := hwalk.sameWs ho hb hd
    have hmax₁ : s₁.wsMax e = s.wsMax e := hst₁.env.pageWSMaxSize
    have hlast₁ : (s₁.envs e).pageLastWSIndex = (s.envs e).pageLastWSIndex := by
      rw [hwalk.rest.envs]
    have hent₁ : Entries s₁ G e := hent.congr hws₁ hmax₁ hlast₁ (fun _ _ => Iff.rfl)
    obtain ⟨v, hv⟩ := Option.ne_none_iff_exists'.1 (hfull i hi)
    have hv₁ : s₁.wsPage e i = some v := by
      rw [hws₁.page hi]
      exact hv
    obtain ⟨f, hf⟩ := hent.page i hi v hv
    have hi₁ : i < s₁.wsMax e := by
      rw [hmax₁]
      exact hi
    simp only [makeRoom, hget, ok_bind, if_pos hsize, hvic]
    have hev := hst₁.base.evict_spec hst₁.owned hst₁.frames hf hent₁ hi₁ hv₁
    refine (hev.mono (F := fun _ => ¬ Enough s 1)
      (fun _ hx hen => hx (hen.after (k := 0) (m := 1) hst₁.spent)) fun _ hr => hr).bind ?_
    rintro s₂ ⟨H, hev⟩
    -- the element of the victim is the first empty one
    have hst₂ := hev.step
    have hmax₂ : s₂.wsMax e = s.wsMax e := hst₂.env.pageWSMaxSize.trans hmax₁
    have hcr₂ : s₂.cr3 = (s₂.envs e).envCr3 := by
      rw [hst₂.run.cr3, hst₂.env.envCr3, hwalk.rest.cr3, hst₁.env.envCr3]
      exact hcr3
    have hi₂ : i < s₂.wsMax e := by
      rw [hmax₂]
      exact hi
    obtain ⟨m, s₃, hm, hsearch, hlook, hskip, -⟩ := hst₂.base.emptySlot_spec hst₂.owned hst₂.frames
      hcr₂ hi₂ ⟨i, hi₂, by rw [hev.flag]; decide⟩
    have hm0 : m = 0 := by
      by_contra hne
      have := hskip 0 (by omega)
      rw [Nat.add_zero, Nat.mod_eq_of_lt (by rw [hmax₂]; exact hi), hev.flag] at this
      exact absurd this (by decide)
    subst hm0
    have hhere : (i + 0) % s₂.wsMax e = i := Nat.mod_eq_of_lt (by rw [hmax₂]; exact hi)
    rw [hhere] at hsearch
    have hst₃ := hlook.toWalkOnly.envStep hst₂.owned hst₂.base hst₂.frames
    have hws₃ := hlook.toWalkOnly.sameWs hst₂.owned hst₂.base hst₂.frames
    have hmax₃ : s₃.wsMax e = s₂.wsMax e := hst₃.env.pageWSMaxSize
    have hi₂ : i < s₂.wsMax e := by
      rw [hmax₂]
      exact hi
    simp only [hsearch, ensures_ok]
    have hown : ∀ v', v' ≠ v → ∀ g, H.own g = some ⟨e, .page v'⟩ ↔ G.own g = some ⟨e, .page v'⟩ :=
      fun v' hne g => (hev.pages.other v' hne).own g
    have hrest : ∀ k < s₁.wsMax e, k ≠ i →
        s₂.wsVa e k = s₁.wsVa e k ∧ s₂.wsFlag e k = s₁.wsFlag e k :=
      fun k hk hne => ⟨(hev.rest k hk hne).1, (hev.rest k hk hne).2.1⟩
    have hent₂ : Entries s₂ H e :=
      hent₁.erase hst₂.env.pageWSMaxSize (by rw [hev.last]; exact hent₁.last) hi₁ hrest hown hv₁
        hev.flag hev.va
    refine ⟨H, ((hst₁.trans hst₂).trans hst₃).mono (by omega), hev.held, hi, ?_, ?_, ?_, ?_, ?_, ?_,
      ?_, ?_⟩
    · rw [hws₃.page hi₂]
      exact wsPage_eq_none (by rw [hev.flag]; decide)
    · exact hent₂.congr hws₃ hmax₃ (by rw [hlook.rest.envs]) (fun _ _ => Iff.rfl)
    · intro hcov
      have hcov₁ : Covered s₁ G e := hcov.congr hws₁ hmax₁ (fun _ _ => Iff.rfl)
      have hcov₂ : Covered s₂ H e :=
        hcov₁.erase hst₂.env.pageWSMaxSize hrest hown hv₁ hev.pages.gone
      exact hcov₂.congr hws₃ hmax₃ (fun _ _ => Iff.rfl)
    · rw [hlook.rest.diskFreeFrameList, hev.pages.diskList, hwalk.rest.diskFreeFrameList]
    · exact .inr ⟨hfull, v, f, hv, (Evicts.of_walk hwalk hpte hev.pages).after hlook⟩
    · rw [hlook.rest.envs, hev.last, hlast₁]
    · intro k hk hne
      have hk₁ : k < s₁.wsMax e := by
        rw [hmax₁]
        exact hk
      have hk₂ : k < s₂.wsMax e := by
        rw [hmax₂]
        exact hk
      obtain ⟨hva, hflag, hstamp⟩ := hev.rest k hk₁ hne
      rw [hws₃.va hk₂, hws₃.flag hk₂, hws₃.stamp hk₂, hva, hflag, hstamp]
      exact ⟨hws₁.va hk, hws₁.flag hk, hws₁.stamp hk⟩
    · refine .inl ⟨hfull, s₁, hvic, fun v' g hne hg => ?_⟩
      have hvv : v' ≠ v := by
        rintro rfl
        exact hne hv
      rw [hlook.pte v' g ((hown v' hvv g).2 hg), hev.pte v' g hvv hg]
  · -- an element is empty already
    have hex : ∃ k < s.wsMax e, s.wsPage e k = none := by
      by_contra hno
      exact hfull fun k hk hx => hno ⟨k, hk, hx⟩
    have hsize : ¬ (s.envs e).pageWSMaxSize ≤ s.wsCount e (s.wsMax e) := by
      intro hle
      exact hfull ((s.wsCount_eq_iff e _).1 (by omega))
    have hexflag : ∃ k < s.wsMax e, s.wsFlag e k ≠ 0#8 := by
      obtain ⟨k, hk, hnone⟩ := hex
      refine ⟨k, hk, fun hx => ?_⟩
      rw [wsPage_eq_some hx] at hnone
      cases hnone
    obtain ⟨m, s₁, hm, hsearch, hlook, hskip, hflag⟩ :=
      hb.emptySlot_spec ho hd hcr3 hent.last hexflag
    have hst₁ := hlook.toWalkOnly.envStep ho hb hd
    have hws₁ := hlook.toWalkOnly.sameWs ho hb hd
    have hmax₁ : s₁.wsMax e = s.wsMax e := hst₁.env.pageWSMaxSize
    have hi : ((s.envs e).pageLastWSIndex + m) % s.wsMax e < s.wsMax e :=
      Nat.mod_lt _ hb.array.size_pos
    simp only [makeRoom, hget, ok_bind, if_neg hsize, hsearch, ensures_ok]
    refine ⟨G, hst₁.mono (by omega), id, hi, ?_, ?_, ?_, hlook.rest.diskFreeFrameList, ?_,
      by rw [hlook.rest.envs], fun k hk _ => ⟨hws₁.va hk, hws₁.flag hk, hws₁.stamp hk⟩, ?_⟩
    · rw [hws₁.page hi]
      exact wsPage_eq_none hflag
    · exact hent.congr hws₁ hmax₁ (by rw [hlook.rest.envs]) (fun _ _ => Iff.rfl)
    · exact fun hcov => hcov.congr hws₁ hmax₁ (fun _ _ => Iff.rfl)
    · exact .inl ⟨hex, hlook.same.freeFrameList, hlook.samePage⟩
    · refine .inr ⟨hex, ⟨m, hm, rfl, fun j hj hx => ?_, wsPage_eq_none hflag⟩, hlook.pte⟩
      rw [wsPage_eq_some (hskip j hj)] at hx
      cases hx

end Room

end FosMemory
