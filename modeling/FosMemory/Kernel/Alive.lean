import FosMemory.Kernel.Handler

/-!
# Alive — the invariant of a live environment and the contents of its pages

`Alive` is what holds of an environment between operations.  `Holds` says that a page of the
environment has contents in `p`, wherever they are at the moment: in memory, and then also on the
disk unless the modified bit is set, or on the disk alone.  A fault, an eviction or a reload moves
the contents and does not change them.
-/

namespace FosMemory

open Lib

variable {c : Boot} {s t u : Kernel} {G H I : Ghost} {e : Nat}

/-! ## Live environments -/

structure Alive (c : Boot) (s : Kernel) (G : Ghost) (e : Nat) : Prop where
  base : Base c s G e
  entries : Entries s G e
  covered : Covered s G e
  ddir : (s.envs e).diskEnvPgdir ≠ 0

/-- Every page in memory has a slot in the page file. -/
def Stored (G : Ghost) (e : Nat) : Prop :=
  ∀ v f, G.own f = some ⟨e, .page v⟩ → ∃ d, G.slots e v = some d

/-- An operation on behalf of `e`. -/
structure Acts (c : Boot) (e : Nat) (s : Kernel) (G : Ghost) (t : Kernel) (H : Ghost) : Prop where
  step : ∃ k, EnvStep c e k s G t H
  held : NoHeld G → NoHeld H
  alive : Alive c t H e

theorem Acts.owned (h : Acts c e s G t H) : Owned c t H := by
  obtain ⟨k, hst⟩ := h.step
  exact hst.owned

theorem Acts.frames (h : Acts c e s G t H) : DiskFrames t H := by
  obtain ⟨k, hst⟩ := h.step
  exact hst.frames

theorem Acts.others (h : Acts c e s G t H) : Local e s G t H := by
  obtain ⟨k, hst⟩ := h.step
  exact hst.others

theorem Acts.run (h : Acts c e s G t H) : SameRun s t := by
  obtain ⟨k, hst⟩ := h.step
  exact hst.run

theorem Acts.env (h : Acts c e s G t H) : SameEnv (s.envs e) (t.envs e) := by
  obtain ⟨k, hst⟩ := h.step
  exact hst.env

theorem Acts.lost (h : Acts c e s G t H) : H.lost = G.lost := by
  obtain ⟨k, hst⟩ := h.step
  exact hst.lost

theorem Acts.trans (h : Acts c e s G t H) (h' : Acts c e t H u I) : Acts c e s G u I := by
  obtain ⟨k, hst⟩ := h.step
  obtain ⟨m, hst'⟩ := h'.step
  exact ⟨⟨k + m, hst.trans hst'⟩, fun hno => h'.held (h.held hno), h'.alive⟩

/-- Operations that keep pages and elements. -/
theorem Quiet.acts {k : Nat} (h : Quiet c e k s G t H) (ha : Alive c s G e) :
    Acts c e s G t H :=
  ⟨⟨k, h.step⟩, h.held,
    ⟨h.step.base, h.entries ha.entries, h.covered ha.covered, h.step.ddir ha.ddir⟩⟩

theorem Faulted.acts {va : Nat} (h : Faulted c e va s G t H) (ha : Alive c s G e) :
    Acts c e s G t H :=
  ⟨⟨5, h.step⟩, h.held, ⟨h.step.base, h.entries, h.covered ha.covered, h.step.ddir ha.ddir⟩⟩

theorem Rejected.acts {va : Nat} (h : Rejected c e va s G t H) (ha : Alive c s G e) :
    Acts c e s G t H :=
  ⟨⟨3, h.step⟩, h.held, ⟨h.step.base, h.entries, h.covered ha.covered, h.step.ddir ha.ddir⟩⟩

/-- An environment that is not at work. -/
theorem Alive.of_local {e' : Nat} (h : Alive c s G e') (ho : Owned c s G) (ho' : Owned c t H)
    (hst : Local e s G t H) (hne : e' ≠ e) : Alive c t H e' := by
  have hbase := h.base.of_local hst hne
  have hkeep := hst.keeps e' hne
  have henv := hst.envs e' hne
  have hws : SameWs e' s t := SameWs.of_keeps h.base.array hbase.array ho ho' hkeep fun _ => rfl
  have hmax : t.wsMax e' = s.wsMax e' := by rw [Kernel.wsMax, henv]
  refine ⟨hbase, ?_, ?_, by rw [henv]; exact h.ddir⟩
  · exact h.entries.congr hws hmax (by rw [henv]) fun f v => hkeep.own f _ rfl
  · exact h.covered.congr hws hmax fun f v => hkeep.own f _ rfl

theorem Stored.of_local {e' : Nat} (h : Stored G e') (hst : Local e s G t H) (hne : e' ≠ e) :
    Stored H e' := by
  intro v f hf
  rw [hst.slots e' hne]
  exact h v f (((hst.keeps e' hne).own f _ rfl).1 hf)

/-! ## Contents of a page -/

structure Holds (s : Kernel) (G : Ghost) (e v : Nat) (p : (Nat → Word) → Prop) : Prop where
  slot : ∃ d, G.slots e v = some d
  resident : ∀ f, G.own f = some ⟨e, .page v⟩ → p (s.mem f) ∧
    ((s.pteWord e v).has permModified = true ∨ ∀ d, G.slots e v = some d → p (s.disk d))
  stored : (∀ f, G.own f ≠ some ⟨e, .page v⟩) → ∀ d, G.slots e v = some d → p (s.disk d)

section Holds

variable {v : Nat} {p : (Nat → Word) → Prop}

theorem Holds.same (h : Holds s G e v p) (hs : SamePage e v s G t H) : Holds t H e v p := by
  constructor
  case slot =>
    rw [hs.slot]
    exact h.slot
  case resident =>
    intro f hf
    have hf' := (hs.own f).1 hf
    obtain ⟨hp, hmod⟩ := h.resident f hf'
    rw [hs.mem f hf', unmarked_modified (hs.pte f hf'), hs.slot]
    refine ⟨hp, hmod.imp_right fun hdisk d hd => ?_⟩
    rw [hs.disk d hd]
    exact hdisk d hd
  case stored =>
    intro hno d hd
    rw [hs.slot] at hd
    rw [hs.disk d hd]
    exact h.stored (fun f hf => hno f ((hs.own f).2 hf)) d hd

/-- An eviction writes back what the disk does not have yet. -/
theorem Holds.out {f : Nat} (h : Holds s G e v p) (ho : PageOut e v f s G t H) :
    Holds t H e v p := by
  obtain ⟨hp, hmod⟩ := h.resident f ho.before
  constructor
  case slot =>
    rw [ho.slot]
    exact h.slot
  case resident => exact fun g hg => absurd hg (ho.gone g)
  case stored =>
    intro _ d hd
    rw [ho.slot] at hd
    rw [ho.disk d hd]
    split
    · exact hp
    · rename_i hclean
      exact (hmod.resolve_left hclean) d hd

/-- A reload brings back what the disk has. -/
theorem Holds.back {f d : Nat} (h : Holds s G e v p) (hi : PageIn e v f d s G t H)
    (huniq : ∀ g, H.own g = some ⟨e, .page v⟩ → g = f) : Holds t H e v p := by
  have hp : p (s.disk d) := h.stored hi.absent d hi.before
  constructor
  case slot => exact ⟨d, hi.slot⟩
  case resident =>
    intro g hg
    rw [huniq g hg, hi.mem]
    refine ⟨hp, .inr fun d' hd' => ?_⟩
    rw [hi.slot] at hd'
    cases hd'
    rw [hi.disk]
    exact hp
  case stored => exact fun hno => absurd hi.page (hno f)

theorem Holds.mono {q : (Nat → Word) → Prop} (h : Holds s G e v p) (hpq : ∀ x, p x → q x) :
    Holds s G e v q :=
  ⟨h.slot, fun f hf => ⟨hpq _ (h.resident f hf).1, (h.resident f hf).2.imp_right
    fun hd d hx => hpq _ (hd d hx)⟩, fun hno d hd => hpq _ (h.stored hno d hd)⟩

/-- Pages of an environment that is not at work. -/
theorem Holds.of_local {e' : Nat} (h : Holds s G e' v p) (hst : Local e s G t H)
    (hs : Space c s G e') (hne : e' ≠ e) : Holds t H e' v p :=
  h.same (SamePage.of_local hst hs hne)

end Holds

/-! ## Faults carry the contents -/

section Carry

variable {v va : Nat} {p : (Nat → Word) → Prop}

theorem Room.holds {i : Nat} (h : Room c e i s G t H) (hp : Holds s G e v p) :
    Holds t H e v p := by
  rcases h.pages with ⟨-, -, hsame⟩ | ⟨-, v₀, f₀, -, hev⟩
  · exact hp.same (hsame v)
  · by_cases hv : v = v₀
    · subst hv
      exact hp.out hev.toPageOut
    · exact hp.same (hev.other v hv)

/-- A page has one frame. -/
theorem Space.page_unique (h : Space c s G e) {f g : Nat} (hf : G.own f = some ⟨e, .page v⟩)
    (hg : G.own g = some ⟨e, .page v⟩) : g = f :=
  (h.target_unique (a := false) (b := false) hf hg).1

theorem Brought.holds {i q : Nat} (h : Brought c e q i s G t H) (hp : Holds s G e v p) :
    Holds t H e v p := by
  by_cases hv : v = q
  · subst hv
    obtain ⟨f, rest, -, harr⟩ := h.page
    rcases harr with ⟨d, hin, -⟩ | hnew
    · exact hp.back hin fun g hg => h.step.base.space.page_unique hin.page hg
    · -- a page that holds something has a slot, so it is not granted anew
      obtain ⟨d, hd⟩ := hp.slot
      rw [hnew.before] at hd
      cases hd
  · exact hp.same (h.other v hv)

theorem Faulted.holds (h : Faulted c e va s G t H) (hp : Holds s G e v p) : Holds t H e v p := by
  obtain ⟨i, u, I, hroom, hbr⟩ := h.parts
  exact hbr.holds (hroom.holds hp)

theorem Quiet.holds {k : Nat} (h : Quiet c e k s G t H) (hp : Holds s G e v p) : Holds t H e v p :=
  hp.same (h.same v)

theorem Rejected.holds (h : Rejected c e va s G t H) (hp : Holds s G e v p) :
    Holds t H e v p := by
  obtain ⟨i, u, I, hroom, hq⟩ := h.parts
  exact hq.holds (hroom.holds hp)

/-! ## Faults keep every page stored -/

theorem Quiet.stored {k : Nat} (h : Quiet c e k s G t H) (hst : Stored G e) : Stored H e := by
  intro v f hf
  rw [(h.same v).slot]
  exact hst v f (((h.same v).own f).1 hf)

theorem Room.stored {i : Nat} (h : Room c e i s G t H) (hst : Stored G e) : Stored H e := by
  intro v f hf
  rw [h.slots]
  exact hst v f (h.page_own hf)

/-- A page that comes in has a slot, or gets one while the page file has room. -/
theorem Brought.stored {i q : Nat} (h : Brought c e q i s G t H) (hst : Stored G e)
    (hroom : s.diskFreeFrameList ≠ [] ∨ G.slots e q ≠ none) : Stored H e := by
  intro v f hf
  by_cases hv : v = q
  · subst hv
    obtain ⟨g, rest, -, harr⟩ := h.page
    rcases harr with ⟨d, hin, -⟩ | hnew
    · exact ⟨d, hin.slot⟩
    · rcases hnew.slot with ⟨hx, -⟩ | ⟨d, -, hd⟩
      · exact (hroom.elim (fun hne => hne hx) fun hne => hne hnew.before).elim
      · exact ⟨d, hd⟩
  · rw [(h.other v hv).slot]
    exact hst v f (((h.other v hv).own f).1 hf)

theorem Faulted.stored (h : Faulted c e va s G t H) (hst : Stored G e)
    (hroom : s.diskFreeFrameList ≠ [] ∨ G.slots e (roundDown va 4096) ≠ none) : Stored H e := by
  obtain ⟨i, u, I, hr, hbr⟩ := h.parts
  refine hbr.stored (hr.stored hst) ?_
  rw [hr.diskList, hr.slots]
  exact hroom

theorem Rejected.stored (h : Rejected c e va s G t H) (hst : Stored G e) : Stored H e := by
  obtain ⟨i, u, I, hr, hq⟩ := h.parts
  exact hq.stored (hr.stored hst)

end Carry

end FosMemory
