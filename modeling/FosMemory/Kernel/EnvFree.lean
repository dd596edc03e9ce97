import FosMemory.Kernel.NewEnv

/-!
# EnvFree — what `env_free` gives back

`env_free` closes the window, drops its page tables, unmaps the pages of the working set and
releases the array, the page tables, the directory and the page file.  A resident page that shares a
page table with the window is not unmapped, since its table is gone by then: its frame is lost.
`Destroyed` says exactly what is given back.
-/

namespace FosMemory

open Lib

variable {c : Boot} {s t u : Kernel} {G H I : Ghost} {e : Nat}

/-! ## Steps of the release -/

/-- The roles that closing the window and unmapping pages leave alone. -/
def Role.offPages : Role → Bool
  | .ws _ | .ddir | .dtable _ => true
  | .dir | .table _ | .page _ | .held => false

/-- A step that takes frames of `e` away and gives out none.  The frames in the roles `P` stay. -/
structure Releases (c : Boot) (e : Nat) (P : Role → Bool) (s : Kernel) (G : Ghost) (t : Kernel)
    (H : Ghost) : Prop where
  owned : Owned c t H
  others : Local e s G t H
  own : ∀ f o, H.own f = some o → G.own f = some o
  keeps : Keeps e P s G t H
  slots : H.slots = G.slots
  rest : SameRest s t
  spent : Spent s t 0

section Releases

variable {P Q : Role → Bool}

theorem Releases.refl (ho : Owned c s G) (P : Role → Bool) : Releases c e P s G s G :=
  ⟨ho, Local.refl e s G, fun _ _ hf => hf, Keeps.refl e P s G, rfl, SameRest.refl s, Spent.refl s⟩

theorem Releases.trans (h : Releases c e P s G t H) (h' : Releases c e P t H u I) :
    Releases c e P s G u I :=
  ⟨h'.owned, h.others.trans h'.others, fun f o hf => h.own f o (h'.own f o hf),
    h.keeps.trans h'.keeps, h'.slots.trans h.slots, h.rest.trans h'.rest, h.spent.trans h'.spent⟩

theorem Releases.mono (h : Releases c e P s G t H) (hPQ : ∀ r, Q r = true → P r = true) :
    Releases c e Q s G t H :=
  ⟨h.owned, h.others, h.own, h.keeps.mono hPQ, h.slots, h.rest, h.spent⟩

/-- The disk tables stay. -/
theorem Releases.slotTable (h : Releases c e P s G t H) (hP : ∀ r, r.inDisk = true → P r = true)
    (hs : SlotTable s G e) : SlotTable t H e :=
  hs.of_keeps h.keeps hP (by rw [h.rest.envs]) (by rw [h.slots])

theorem Releases.frames (h : Releases c e P s G t H) (hd : DiskFrames s G) : DiskFrames t H :=
  hd.congr h.rest.diskFreeFrameList h.slots

end Releases

theorem Role.offPages_of_inDisk {r : Role} (h : r.inDisk = true) : r.offPages = true := by
  cases r <;> first | rfl | cases h

/-! ## Closing the window -/

/-- Pages of the window have been unmapped: those that `shut` names. -/
structure Shut (c : Boot) (e : Nat) (shut : Nat → Bool) (s : Kernel) (G : Ghost) (t : Kernel)
    (H : Ghost) : Prop where
  releases : Releases c e Role.offPages s G t H
  space : Space c t H e
  block : KeepsBlock e s G t
  own : H.own = G.own
  lost : H.lost = G.lost
  win : ∀ k, H.win e k = (G.win e k && !shut k)

theorem Shut.refl (ho : Owned c s G) (hs : Space c s G e) :
    Shut c e (fun _ => false) s G s G :=
  ⟨Releases.refl ho _, hs, fun _ _ hb => hb, rfl, rfl, fun k => by simp⟩

theorem Shut.trans {a b : Nat → Bool} (h : Shut c e a s G t H) (h' : Shut c e b t H u I) :
    Shut c e (fun k => a k || b k) s G u I where
  releases := h.releases.trans h'.releases
  space := h'.space
  block := by
    have henv : (t.envs e).ptrPageWorkingSet = (s.envs e).ptrPageWorkingSet := by
      rw [h.releases.rest.envs]
    exact h.block.trans h'.block (h.releases.keeps.wsAt rfl henv) henv
  own := h'.own.trans h.own
  lost := h'.lost.trans h.lost
  win := by
    intro k
    rw [h'.win, h.win, Bool.not_or, Bool.and_assoc]

section Window

variable (h : Space c s G e) (ho : Owned c s G) {f k : Nat}
  (hf : G.own f = some ⟨e, .ws k⟩) (hwin : G.win e k = true)
  (huniq : ∀ g, G.own g = some ⟨e, .ws k⟩ → g = f)
include h ho hf hwin huniq

/-- The entry of page `k` of the window is cleared. -/
theorem Space.shutPage {tb : Nat}
    (htb : G.own tb = some ⟨e, .table (pdx (userPagesWSStart + 4096 * k))⟩) :
    Shut c e (· == k) s G
      ((decrementReferences s f).setWord tb (ptx (userPagesWSStart + 4096 * k)) 0#32)
      (G.setWin e k false) := by
  obtain ⟨v, hv⟩ : ∃ v, v = userPagesWSStart + 4096 * k := ⟨_, rfl⟩
  obtain ⟨t, ht⟩ : ∃ t, t = (decrementReferences s f).setWord tb (ptx v) 0#32 := ⟨_, rfl⟩
  rw [← hv] at htb
  rw [← hv, ← ht]
  obtain ⟨hal, hlt, -⟩ := h.target v f true ⟨k, hf, hwin, hv⟩
  have htbn : G.own tb ≠ none := by simp [htb]
  have hwin' : ∀ j, (G.setWin e k false).win e j = (G.win e j && !(j == k)) := by
    intro j
    by_cases hj : j = k
    · rw [hj, G.setWin_self]
      simp
    · simp [Ghost.setWin, hj]
  have hmem : ∀ g j, t.mem g j = if g = tb ∧ j = ptx v then 0#32 else s.mem g j := by
    intro g j
    rw [ht, Kernel.setWord_mem, decrementReferences_mem]
  have hframe : ∀ g, g ≠ tb → t.mem g = s.mem g := by
    intro g hg
    rw [ht, Kernel.setWord_mem_frame hg, decrementReferences_mem]
  have hva : t.virtualAddresses = s.virtualAddresses := by
    rw [ht]
    exact decrementReferences_virtualAddresses
  have hrest : SameRest s t := by
    have hdec := decrementReferences_sameRest (s := s) (f := f)
    rw [ht]
    exact ⟨hdec.disk, hdec.diskFreeFrameList, hdec.envs, hdec.envFreeList, hdec.curenv, hdec.cr3,
      hdec.pageRepAlgoType⟩
  have hblock : ∀ p n, Block s p n → Block t p n := by
    intro p n hb
    rw [ht]
    exact decrementReferences_block hb
  have hown : Owned c t (G.setWin e k false) := by
    rw [ht]
    exact (ho.closeWindow hf hwin huniq).setWord htbn _ _
  -- of what is mapped only page `k` of the window goes
  have htarget : ∀ v' g b, v' ≠ v →
      ((G.setWin e k false).Target e v' g b ↔ G.Target e v' g b) := by
    intro v' g b hvv
    cases b with
    | false => exact Iff.rfl
    | true =>
      refine exists_congr fun j => and_congr_right fun _ => ?_
      rw [hwin']
      by_cases hj : j = k
      · subst hj
        simp only [beq_self_eq_true, Bool.not_true, Bool.and_false, Bool.false_eq_true, false_and,
          false_iff, not_and]
        exact fun _ hx => hvv (hx.trans hv.symm)
      · simp [hj]
  have hnone : ∀ g b, ¬ (G.setWin e k false).Target e v g b := by
    intro g b hx
    cases b with
    | false =>
      have := (h.target_unique (a := true) (b := false) ⟨k, hf, hwin, hv⟩ hx).2
      cases this
    | true =>
      obtain ⟨j, -, hw, hvj⟩ := hx
      have hjk : j = k := by
        rw [hv] at hvj
        omega
      rw [hwin', hjk] at hw
      simp at hw
  have hspace : Space c t (G.setWin e k false) e :=
    h.setPte (w := 0#32) hal hlt htb (fun _ _ _ => Iff.rfl) htarget (.inl ⟨rfl, hnone⟩)
      (fun g _ _ _ j => hmem g j) (by rw [hva]) (by rw [hrest.envs]) (by rw [hrest.envs])
  have hne : ∀ g o, G.own g = some o → (∀ i, o ≠ ⟨e, .table i⟩) → g ≠ tb := by
    rintro g o hg hx rfl
    rw [htb] at hg
    cases hg
    exact hx _ rfl
  have hlocal : Local e s G t (G.setWin e k false) := by
    refine Local.of_frame (f := tb) hrest (fun e' hx => ?_) rfl (fun _ _ => rfl)
      (fun o hx => ?_) (fun o hx => ?_) (fun g o hg hx => ?_) (fun _ _ _ _ => by rw [hva])
      (fun _ _ n _ hb => hblock _ n hb) (hframe 1 (ho.low_ne (by decide) htbn))
    · simp [Ghost.setWin, hx]
    · rw [htb] at hx
      cases hx
      rfl
    · have hx' : G.own tb = some o := hx
      rw [htb] at hx'
      cases hx'
      rfl
    · refine hframe g (hne g o hg fun i hoi => hx ?_)
      rw [hoi]
  refine ⟨⟨hown, hlocal, fun _ _ hg => hg, ⟨fun _ _ _ => Iff.rfl, fun g r hr hg => ?_,
    fun _ _ _ _ => by rw [hva]⟩, rfl, hrest, ?_⟩, hspace, fun n _ hb => hblock _ n hb, rfl, rfl,
    hwin'⟩
  · refine hframe g (hne g _ hg fun i hx => ?_)
    cases hx
    cases hr
  · have href := (ho.ws hf).2
    rw [hwin, if_pos rfl] at href
    rw [ht]
    exact decrementReferences_spent (by omega)

/-- `unmap_frame` of page `k` of the window. -/
theorem Space.unmapFrame_window :
    ∃ t H, unmapFrame s (s.envs e).envPageDirectory (userPagesWSStart + 4096 * k) = .ok t ∧
      Shut c e (· == k) s G t H := by
  obtain ⟨-, hlt, tb, htb, hw⟩ := h.target _ f true ⟨k, hf, hwin, rfl⟩
  have hframe := entryFor_frame hw
  have hram : (s.mem tb (ptx (userPagesWSStart + 4096 * k))).frame < c.numberOfFrames := by
    rw [hframe]
    exact (ho.in_ram f (by simp [hf])).1
  have hun := unmapFrame_user ho.inv.map (h.dirAt ho) hlt (h.table tb _ htb).2
    (Space.table_va ho htb) (entryFor_ne_zero hw) hram
  rw [hframe] at hun
  exact ⟨_, _, hun, h.shutPage ho hf hwin huniq htb⟩

end Window

/-- The first loop of `__remove_pws_user_pages`. -/
theorem Base.shutWindow (ho : Owned c s G) (hb : Base c s G e) :
    ∃ t H, forRange (fun k s => unmapFrame s (s.envs e).envPageDirectory
        (userPagesWSStart + 4096 * k)) 0 (s.wsPages e) s = .ok t ∧
      Shut c e (fun _ => true) s G t H := by
  have hloop : Ensures (fun _ => False)
      (fun t => ∃ H, Shut c e (fun k => decide (k < 0 + s.wsPages e)) s G t H)
      (forRange (fun k s => unmapFrame s (s.envs e).envPageDirectory
        (userPagesWSStart + 4096 * k)) 0 (s.wsPages e) s) := by
    refine forRange_ensures
      (I := fun i t => ∃ H, Shut c e (fun k => decide (k < i)) s G t H) ?_ ?_
    · rintro i t - hi ⟨H, hs⟩
      rw [Nat.zero_add] at hi
      obtain ⟨f, hf⟩ := hb.array.frame i hi
      have hf' : H.own f = some ⟨e, .ws i⟩ := by
        rw [hs.own]
        exact hf
      have hwin : H.win e i = true := by
        rw [hs.win, hb.array.win]
        simp [hi]
      have huniq : ∀ g, H.own g = some ⟨e, .ws i⟩ → g = f := by
        intro g hg
        rw [hs.own] at hg
        exact hb.array.ws_unique ho hf hg
      obtain ⟨u, I, hu, hs'⟩ := hs.space.unmapFrame_window hs.releases.owned hf' hwin huniq
      rw [hu, ensures_ok]
      refine ⟨I, ?_⟩
      have hset : (fun k => decide (k < i) || (k == i)) = fun k => decide (k < i + 1) := by
        funext k
        rw [Bool.eq_iff_iff]
        simp only [Bool.or_eq_true, decide_eq_true_eq, beq_iff_eq]
        omega
      rw [← hset]
      exact hs.trans hs'
    · refine ⟨G, ?_⟩
      have hset : (fun k : Nat => decide (k < 0)) = fun _ => false := by
        funext k
        simp
      rw [hset]
      exact Shut.refl ho hb.space
  obtain ⟨t, ht, H, hs⟩ := hloop.exists_ok
  refine ⟨t, H, ht, ⟨hs.releases, hs.space, hs.block, hs.own, hs.lost, fun k => ?_⟩⟩
  rw [hs.win, hb.array.win, Nat.zero_add]
  simp

/-! ## Leaving frames -/

/-- The owners that `gone` describes have left; the frames that `mislaid` describes are lost. -/
structure Leaves (c : Boot) (e : Nat) (gone mislaid : Owner → Prop) (s : Kernel) (G : Ghost)
    (t : Kernel) (H : Ghost) : Prop where
  releases : Releases c e Role.offPages s G t H
  space : Space c t H e
  block : KeepsBlock e s G t
  own : ∀ f o, H.own f = some o ↔ G.own f = some o ∧ ¬ gone o
  lost : ∀ f, H.lost f ↔ G.lost f ∨ ∃ o, G.own f = some o ∧ mislaid o
  win : H.win = G.win

section Leaves

variable {gone mislaid gone' mislaid' : Owner → Prop}

theorem Leaves.refl (ho : Owned c s G) (hs : Space c s G e) :
    Leaves c e (fun _ => False) (fun _ => False) s G s G :=
  ⟨Releases.refl ho _, hs, fun _ _ hb => hb, fun f o => by simp, fun f => by simp, rfl⟩

theorem Leaves.trans (h : Leaves c e gone mislaid s G t H) (h' : Leaves c e gone' mislaid' t H u I) :
    Leaves c e (fun o => gone o ∨ gone' o) (fun o => mislaid o ∨ mislaid' o ∧ ¬ gone o) s G u I where
  releases := h.releases.trans h'.releases
  space := h'.space
  block := by
    have henv : (t.envs e).ptrPageWorkingSet = (s.envs e).ptrPageWorkingSet := by
      rw [h.releases.rest.envs]
    exact h.block.trans h'.block (h.releases.keeps.wsAt rfl henv) henv
  own := by
    intro f o
    rw [h'.own, h.own, not_or, and_assoc]
  lost := by
    intro f
    rw [h'.lost, h.lost, or_assoc]
    refine or_congr_right ?_
    constructor
    · rintro (⟨o, ho, hm⟩ | ⟨o, ho, hm⟩)
      · exact ⟨o, ho, .inl hm⟩
      · obtain ⟨ho, hg⟩ := (h.own f o).1 ho
        exact ⟨o, ho, .inr ⟨hm, hg⟩⟩
    · rintro ⟨o, ho, hm | ⟨hm, hg⟩⟩
      · exact .inl ⟨o, ho, hm⟩
      · exact .inr ⟨o, (h.own f o).2 ⟨ho, hg⟩, hm⟩
  win := h'.win.trans h.win

/-- The same step, described by other predicates on the owners there are. -/
theorem Leaves.congr (h : Leaves c e gone mislaid s G t H)
    (hgone : ∀ f o, G.own f = some o → (gone' o ↔ gone o))
    (hmis : ∀ f o, G.own f = some o → (mislaid' o ↔ mislaid o)) :
    Leaves c e gone' mislaid' s G t H where
  releases := h.releases
  space := h.space
  block := h.block
  own := fun f o => (h.own f o).trans (and_congr_right fun hf => not_congr (hgone f o hf).symm)
  lost := fun f => (h.lost f).trans
    (or_congr_right (exists_congr fun o => and_congr_right fun hf => (hmis f o hf).symm))
  win := h.win

end Leaves

/-! ## Dropping a table with its pages -/

/-- A page whose entry is in table `i`. -/
def PageOf (e i : Nat) (o : Owner) : Prop :=
  ∃ v, o = ⟨e, .page v⟩ ∧ pdx v = i

/-- Table `i` and the pages whose entries are in it. -/
def OfTable (e i : Nat) (o : Owner) : Prop :=
  o = ⟨e, .table i⟩ ∨ PageOf e i o

/-- The pages of table `i` are nobody's any more, their frames are lost. -/
def Ghost.losePages (G : Ghost) (e i : Nat) : Ghost :=
  { G with
    own := fun f =>
      match G.own f with
      | some ⟨e', .page v⟩ => if e' = e ∧ pdx v = i then none else some ⟨e', .page v⟩
      | o => o
    lost := fun f => G.lost f ∨ ∃ o, G.own f = some o ∧ PageOf e i o }

theorem Ghost.losePages_eq_some {i f : Nat} {o : Owner} :
    (G.losePages e i).own f = some o ↔ G.own f = some o ∧ ¬ PageOf e i o := by
  have hpage : ∀ e' v, PageOf e i ⟨e', .page v⟩ ↔ e' = e ∧ pdx v = i := by
    intro e' v
    constructor
    · rintro ⟨v', heq, hv⟩
      cases heq
      exact ⟨rfl, hv⟩
    · rintro ⟨rfl, hv⟩
      exact ⟨v, rfl, hv⟩
  have hother : ∀ e' r, (∀ v, r ≠ .page v) → ¬ PageOf e i ⟨e', r⟩ := by
    rintro e' r hr ⟨v, heq, -⟩
    injection heq with _ hrole
    exact hr v hrole
  rw [Ghost.losePages]
  dsimp only
  cases hf : G.own f with
  | none => simp
  | some p =>
    obtain ⟨e', r⟩ := p
    cases r with
    | page v =>
      dsimp only
      by_cases hx : e' = e ∧ pdx v = i
      · rw [if_pos hx]
        refine ⟨fun h => absurd h (by simp), fun h => ?_⟩
        obtain ⟨heq, hn⟩ := h
        cases heq
        exact absurd ((hpage e' v).2 hx) hn
      · rw [if_neg hx]
        refine ⟨fun h => ⟨h, ?_⟩, fun h => h.1⟩
        cases h
        exact fun hp => hx ((hpage e' v).1 hp)
    | _ =>
      dsimp only
      refine ⟨fun h => ⟨h, ?_⟩, fun h => h.1⟩
      cases h
      exact hother _ _ (by simp)

theorem Owned.losePages (h : Owned c s G) (i : Nat) : Owned c s (G.losePages e i) := by
  refine ⟨h.inv, fun f => ?_, fun f hf => ?_, fun f o ho => ?_⟩
  · rw [h.free_iff]
    refine and_congr_right fun _ => and_congr_right fun _ => ?_
    constructor
    · rintro ⟨hn, hl⟩
      refine ⟨?_, ?_⟩
      · by_contra hsome
        obtain ⟨o, ho⟩ := Option.ne_none_iff_exists'.1 hsome
        rw [(Ghost.losePages_eq_some.1 ho).1] at hn
        cases hn
      · rintro (hx | ⟨o, ho, -⟩)
        · exact hl hx
        · rw [ho] at hn
          cases hn
    · rintro ⟨hn, hl⟩
      refine ⟨?_, fun hx => hl (.inl hx)⟩
      by_contra hsome
      obtain ⟨o, ho⟩ := Option.ne_none_iff_exists'.1 hsome
      by_cases hp : PageOf e i o
      · exact hl (.inr ⟨o, ho, hp⟩)
      · rw [Ghost.losePages_eq_some.2 ⟨ho, hp⟩] at hn
        cases hn
  · obtain ⟨o, ho⟩ := Option.ne_none_iff_exists'.1 hf
    obtain ⟨hold, hp⟩ := Ghost.losePages_eq_some.1 ho
    obtain ⟨hlt, hres, hl⟩ := h.in_ram f (by simp [hold])
    refine ⟨hlt, hres, ?_⟩
    rintro (hx | ⟨o', ho', hp'⟩)
    · exact hl hx
    · rw [hold] at ho'
      cases ho'
      exact hp hp'
  · exact h.use f o (Ghost.losePages_eq_some.1 ho).1

theorem Local.losePages (s : Kernel) (G : Ghost) (e i : Nat) :
    Local e s G s (G.losePages e i) := by
  refine ⟨fun e' he => ⟨fun f r _ => ?_, fun _ _ _ _ => rfl, fun _ _ _ _ => rfl⟩, fun _ _ => rfl,
    fun _ _ => rfl, fun _ _ => rfl, fun _ _ _ _ _ => rfl, fun _ _ _ _ hb => hb, rfl⟩
  rw [Ghost.losePages_eq_some]
  refine ⟨fun hx => hx.1, fun hx => ⟨hx, ?_⟩⟩
  rintro ⟨v, heq, -⟩
  cases heq
  exact he rfl

/-- A table is taken out of the directory, whatever it maps. -/
theorem Space.loseTable (h : Space c s G e) {g i : Nat} (hg : G.own g = some ⟨e, .table i⟩)
    (hwalk : ∀ f r, r.inWalk = true →
      (H.own f = some ⟨e, r⟩ ↔ f ≠ g ∧ G.own f = some ⟨e, r⟩))
    (htarget : ∀ v f b, H.Target e v f b ↔ G.Target e v f b ∧ pdx v ≠ i)
    (hzero : t.mem (s.dirFrame e) i = 0#32)
    (hdir : ∀ k, k ≠ i → t.mem (s.dirFrame e) k = s.mem (s.dirFrame e) k)
    (hmem : ∀ f k, f ≠ g → G.own f = some ⟨e, .table k⟩ → t.mem f = s.mem f)
    (hva : t.virtualAddresses (s.dirFrame e) = s.virtualAddresses (s.dirFrame e))
    (henvs : t.envs e = s.envs e) : Space c t H e := by
  have hfd : t.dirFrame e = s.dirFrame e := by
    rw [Kernel.dirFrame, henvs]
    rfl
  have hi := (h.table g i hg).1
  have hdne : s.dirFrame e ≠ g := by
    intro heq
    have hx := h.dir_own
    rw [heq, hg] at hx
    cases hx
  have hother : ∀ f k, f ≠ g → G.own f = some ⟨e, .table k⟩ → k ≠ i := by
    rintro f k hf hx rfl
    exact hf (h.table_unique hx hg)
  constructor
  case dir_own =>
    rw [hfd]
    exact (hwalk _ _ rfl).2 ⟨hdne, h.dir_own⟩
  case dir_unique =>
    intro f hf
    rw [hfd]
    exact h.dir_unique f ((hwalk f _ rfl).1 hf).2
  case cr3_eq =>
    rw [hfd, henvs]
    exact h.cr3_eq
  case dir_at =>
    rw [hfd, henvs, hva]
    exact h.dir_at
  case pde =>
    intro k hk
    rw [hfd]
    by_cases hki : k = i
    · subst hki
      exact .inl hzero
    · rw [hdir k hki]
      refine (h.pde k hk).imp id ?_
      rintro ⟨tb, hn, htb⟩
      refine ⟨tb, hn, (hwalk tb _ rfl).2 ⟨?_, htb⟩⟩
      rintro rfl
      rw [hg] at htb
      cases htb
      exact hki rfl
  case kernel_pde =>
    intro k hle hlt h957 h959
    rw [hfd, hdir k (by omega)]
    exact h.kernel_pde k hle hlt h957 h959
  case table =>
    intro tb k htb
    obtain ⟨hne, htb⟩ := (hwalk tb _ rfl).1 htb
    rw [hfd, hdir k (hother tb k hne htb)]
    exact h.table tb k htb
  case pte =>
    intro tb k htb j hj
    obtain ⟨hne, htb⟩ := (hwalk tb _ rfl).1 htb
    rw [hmem tb k hne htb]
    have hk := (h.table tb k htb).1
    refine (h.pte tb k htb j hj).imp id ?_
    rintro ⟨f, b, ht, hw⟩
    refine ⟨f, b, (htarget _ _ _).2 ⟨ht, ?_⟩, hw⟩
    rw [pdx_entryAddress (by omega) hj]
    exact hother tb k hne htb
  case target =>
    intro v f b ht
    obtain ⟨hold, hvi⟩ := (htarget v f b).1 ht
    obtain ⟨hal, hv, tb, htb, hw⟩ := h.target v f b hold
    have hne : tb ≠ g := by
      rintro rfl
      rw [hg] at htb
      cases htb
      exact hvi rfl
    refine ⟨hal, hv, tb, (hwalk tb _ rfl).2 ⟨hne, htb⟩, ?_⟩
    rw [hmem tb _ hne htb]
    exact hw

/-- A page table is released and its directory entry cleared; the pages it maps are not unmapped. -/
theorem Space.releaseTable (h : Space c s G e) (ho : Owned c s G) (hwin : ∀ k, G.win e k = false)
    {tb i : Nat} (htb : G.own tb = some ⟨e, .table i⟩) :
    ∃ t u H, kfree s (s.virtualAddresses tb) = .ok t ∧
      t.store ((s.envs e).envPageDirectory + 4 * i) 0#32 = .ok u ∧
      Leaves c e (OfTable e i) (PageOf e i) s G u H := by
  have hi := (h.table tb i htb).1
  have htb' : (G.losePages e i).own tb = some ⟨e, .table i⟩ := by
    refine Ghost.losePages_eq_some.2 ⟨htb, ?_⟩
    rintro ⟨v, heq, -⟩
    cases heq
  obtain ⟨t, hfree, hfr⟩ := (ho.losePages i).release htb' rfl
  obtain ⟨H, hH⟩ : ∃ H, H = (G.losePages e i).setOwn tb none := ⟨_, rfl⟩
  have howned : Owned c t H := by
    rw [hH]
    exact hfr.owned
  have hlocal : Local e s G t H := by
    rw [hH]
    exact (Local.losePages s G e i).trans hfr.others
  have hown : ∀ f o, H.own f = some o ↔ G.own f = some o ∧ ¬ OfTable e i o := by
    intro f o
    rw [hH, Ghost.setOwn_eq_some, Ghost.losePages_eq_some]
    constructor
    · rintro (⟨-, hx⟩ | ⟨hne, hx, hp⟩)
      · cases hx
      · refine ⟨hx, ?_⟩
        rintro (rfl | hp')
        · exact hne (h.table_unique hx htb)
        · exact hp hp'
    · rintro ⟨hx, hn⟩
      refine .inr ⟨?_, hx, fun hp => hn (.inr hp)⟩
      rintro rfl
      rw [htb] at hx
      cases hx
      exact hn (.inl rfl)
  have hdir : H.own (s.dirFrame e) = some ⟨e, .dir⟩ := by
    refine (hown _ _).2 ⟨h.dir_own, ?_⟩
    rintro (heq | ⟨v, heq, -⟩)
    · cases heq
    · cases heq
  have hdne : s.dirFrame e ≠ tb := by
    rintro heq
    have hx := h.dir_own
    rw [heq, htb] at hx
    cases hx
  have hdirt : DirAt t (s.envs e).envPageDirectory (s.dirFrame e) :=
    ⟨(hfr.va _ hdne).trans (h.dirAt ho).va_eq, (h.dirAt ho).ne_zero⟩
  have hstore := hdirt.store howned.inv.map (show i < 1024 by omega) 0#32
  have hnk : ∀ g o, G.own g = some o → t.mem g = s.mem g := fun g o hg =>
    hfr.mem g (ho.not_kernelFrame (by simp [hg]))
  obtain ⟨u, hu⟩ : ∃ u, u = t.setWord (s.dirFrame e) i 0#32 := ⟨_, rfl⟩
  have hmem : ∀ g o, g ≠ s.dirFrame e → G.own g = some o → u.mem g = s.mem g := by
    intro g o hg hx
    rw [hu, Kernel.setWord_mem_frame hg, hnk g o hx]
  have hva : ∀ g, g ≠ tb → u.virtualAddresses g = s.virtualAddresses g := by
    intro g hg
    rw [hu]
    exact hfr.va g hg
  have hrest : SameRest s u := by
    rw [hu]
    exact hfr.same.trans ⟨rfl, rfl, rfl, rfl, rfl, rfl, rfl⟩
  have htarget : ∀ v f b, H.Target e v f b ↔ G.Target e v f b ∧ pdx v ≠ i := by
    intro v f b
    cases b with
    | false =>
      refine (hown f _).trans (and_congr_right fun _ => not_congr ⟨?_, fun hv => .inr ⟨v, rfl, hv⟩⟩)
      rintro (heq | ⟨v', heq, hv⟩)
      · cases heq
      · cases heq
        exact hv
    | true =>
      -- the window is closed
      have hwinH : H.win = G.win := by
        rw [hH]
        rfl
      constructor
      · rintro ⟨k, -, hw, -⟩
        rw [hwinH, hwin] at hw
        cases hw
      · rintro ⟨⟨k, -, hw, -⟩, -⟩
        rw [hwin] at hw
        cases hw
  have hspace : Space c u H e := by
    refine h.loseTable htb (fun f r hr => ?_) htarget (by rw [hu, Kernel.setWord_mem_self])
      (fun k hk => ?_) (fun f k hne hf => hmem f _ ?_ hf) (hva _ hdne) (by rw [hrest.envs])
    · rw [hown, and_comm]
      refine and_congr_left fun hf => ⟨fun hn => ?_, fun hne => ?_⟩
      · rintro rfl
        rw [htb] at hf
        cases hf
        exact hn (.inl rfl)
      · rintro (heq | ⟨v, heq, -⟩)
        · cases heq
          exact hne (h.table_unique hf htb)
        · cases heq
          cases hr
    · rw [hu, Kernel.setWord_mem, if_neg fun hx => hk hx.2, hnk _ _ h.dir_own]
    · rintro rfl
      rw [h.dir_own] at hf
      cases hf
  refine ⟨t, u, H, hfree, by rw [hstore, hu], ⟨?_, hspace, ?_, hown, ?_, by rw [hH]; rfl⟩⟩
  · constructor
    case owned =>
      rw [hu]
      exact howned.setWord (by simp [hdir]) i 0#32
    case others =>
      rw [hu]
      exact hlocal.trans (Local.setWord howned hdir rfl i 0#32)
    case own => exact fun f o hf => ((hown f o).1 hf).1
    case keeps =>
      have hne : ∀ g r, r.offPages = true → G.own g = some ⟨e, r⟩ → g ≠ tb ∧ g ≠ s.dirFrame e := by
        intro g r hr hg
        constructor
        · rintro rfl
          rw [htb] at hg
          cases hg
          cases hr
        · rintro rfl
          rw [h.dir_own] at hg
          cases hg
          cases hr
      refine ⟨fun g r hr => (hown g _).trans (and_iff_left ?_), fun g r hr hg =>
        hmem g _ (hne g r hr hg).2 hg, fun g r hr hg => hva g (hne g r hr hg).1⟩
      rintro (heq | ⟨v, heq, -⟩)
      · cases heq
        cases hr
      · cases heq
        cases hr
    case slots =>
      rw [hH]
      rfl
    case rest => exact hrest
    case spent =>
      rw [hu]
      exact hfr.spent
  · intro n hw hblk
    rw [hu]
    refine hfr.block e n ?_ hblk
    obtain ⟨g, hg, hat⟩ := hw
    exact ⟨g, Ghost.losePages_eq_some.2 ⟨hg, fun ⟨v, heq, _⟩ => by cases heq⟩, hat⟩
  · intro f
    rw [hH]
    exact Iff.rfl

/-! ## The tables of the window -/

/-- Number of page tables of the window of `e`. -/
def Kernel.windowTables (s : Kernel) (e : Nat) : Nat :=
  (s.wsMax e * 12 + (ptSize - 1)) / ptSize

/-- The entry of page `v` is in one of the first `n` tables of the window. -/
def BesideWindow (n v : Nat) : Prop :=
  ∃ k < n, pdx v = pdx (userPagesWSStart + ptSize * k)

/-- The first `n` tables of the window with the pages they map. -/
def OfWindow (e n : Nat) (o : Owner) : Prop :=
  ∃ k < n, OfTable e (pdx (userPagesWSStart + ptSize * k)) o

theorem pdx_window {k : Nat} (hk : k < 300) : pdx (userPagesWSStart + ptSize * k) = 640 + k := by
  simp only [pdx, userPagesWSStart, ptSize]
  omega

/-- The second loop of `__remove_pws_user_pages`. -/
theorem Space.releaseTables (h : Space c s G e) (ho : Owned c s G) (hwin : ∀ k, G.win e k = false)
    {n : Nat} (hn : n < 300)
    (htables : ∀ k < n, ∃ tb, G.own tb = some ⟨e, .table (pdx (userPagesWSStart + ptSize * k))⟩) :
    ∃ t H, forRange (fun k s => do
        let dir := (s.envs e).envPageDirectory
        let (table, _) ← getPageTable s dir (userPagesWSStart + ptSize * k)
        let s ← kfree s table
        s.store (dir + 4 * pdx (userPagesWSStart + ptSize * k)) 0#32) 0 n s = .ok t ∧
      Leaves c e (OfWindow e n) (fun o => ∃ v, o = ⟨e, .page v⟩ ∧ BesideWindow n v) s G t H := by
  have hloop := forRange_ensures (E := fun _ : Stop => False) (a := 0) (n := n) (s := s)
    (I := fun i t => ∃ H, Leaves c e (OfWindow e i)
      (fun o => ∃ v, o = ⟨e, .page v⟩ ∧ BesideWindow i v) s G t H)
    (b := fun k s => do
      let dir := (s.envs e).envPageDirectory
      let (table, _) ← getPageTable s dir (userPagesWSStart + ptSize * k)
      let s ← kfree s table
      s.store (dir + 4 * pdx (userPagesWSStart + ptSize * k)) 0#32) ?_ ⟨G, ?_⟩
  · rw [Nat.zero_add] at hloop
    obtain ⟨t, ht, H, hl⟩ := hloop.exists_ok
    exact ⟨t, H, ht, hl⟩
  · rintro i t - hi ⟨H, hl⟩
    rw [Nat.zero_add] at hi
    obtain ⟨tb, htb⟩ := htables i hi
    have hpi := pdx_window (show i < 300 by omega)
    have hnew : ∀ k < i, pdx (userPagesWSStart + ptSize * k) ≠
        pdx (userPagesWSStart + ptSize * i) := by
      intro k hk
      rw [hpi, pdx_window (show k < 300 by omega)]
      omega
    have htb' : H.own tb = some ⟨e, .table (pdx (userPagesWSStart + ptSize * i))⟩ := by
      refine (hl.own tb _).2 ⟨htb, ?_⟩
      rintro ⟨k, hk, heq | ⟨v, heq, -⟩⟩
      · injection heq with _ heq
        injection heq with heq
        exact hnew k hk heq.symm
      · cases heq
    have hlt : userPagesWSStart + ptSize * i < 0xEEC00000 := by
      simp only [userPagesWSStart, ptSize]
      omega
    have ho' := hl.releases.owned
    have hget := getPageTable_user ho'.inv.map (hl.space.dirAt ho') hlt (hl.space.table tb _ htb').2
    obtain ⟨t₁, u, I, hfree, hstore, hl'⟩ := hl.space.releaseTable ho'
      (fun k => by rw [hl.win, hwin]) htb'
    simp only [hget, ok_bind, hfree, hstore, ensures_ok]
    refine ⟨I, (hl.trans hl').congr (fun _ o _ => ?_) fun _ o _ => ?_⟩
    · constructor
      · rintro ⟨k, hk, ho⟩
        by_cases hki : k = i
        · subst hki
          exact .inr ho
        · exact .inl ⟨k, by omega, ho⟩
      · rintro (⟨k, hk, ho⟩ | ho)
        · exact ⟨k, by omega, ho⟩
        · exact ⟨i, by omega, ho⟩
    · constructor
      · rintro ⟨v, rfl, k, hk, hv⟩
        by_cases hki : k = i
        · subst hki
          refine .inr ⟨⟨v, rfl, hv⟩, ?_⟩
          rintro ⟨j, hj, heq | ⟨v', heq, hv'⟩⟩
          · cases heq
          · cases heq
            exact hnew j hj (hv'.symm.trans hv)
        · exact .inl ⟨v, rfl, k, by omega, hv⟩
      · rintro (⟨v, rfl, k, hk, hv⟩ | ⟨⟨v, rfl, hv⟩, -⟩)
        · exact ⟨v, rfl, k, by omega, hv⟩
        · exact ⟨v, rfl, i, by omega, hv⟩
  · refine (Leaves.refl ho h).congr (fun _ o _ => ?_) fun _ o _ => ?_
    · simp [OfWindow]
    · simp [BesideWindow]

/-! ## The pages of the working set -/

section Elements

variable (h : Releases c e Role.offPages s G t H) (ha : WsArray s G e) (ho : Owned c s G)
include h ha ho

/-- The array can still be read. -/
theorem Releases.load_word {j : Nat} (hj : j < 3 * s.wsMax e) :
    t.load ((s.envs e).ptrPageWorkingSet + 4 * j) = .ok (s.wsWord e j) := by
  obtain ⟨f, hf⟩ := ha.frame _ (WsArray.index_lt hj)
  have hva : t.virtualAddresses f = s.virtualAddresses f := h.keeps.va f _ rfl hf
  have hat := (ha.at_page f _ hf).2
  have hheap := isHeapPage_iff.1 (ha.frame_heap ho hf)
  have hb := h.owned.inv.map.backed_heap (f := f) (by rw [hva]; exact (ho.ws hf).1)
  rw [hva, hat] at hb
  have haddr : (s.envs e).ptrPageWorkingSet + 4 * j =
      (s.envs e).ptrPageWorkingSet + 4096 * (j / 1024) + 4 * (j % 1024) := by omega
  have hback : t.Backed ((s.envs e).ptrPageWorkingSet + 4 * j) f := by
    rw [haddr, Kernel.Backed, t.kernelEntry_page hheap.2.2 (Nat.mod_lt _ (by decide))]
    exact hb
  rw [hback.load, ha.word_offset ho, h.keeps.mem f _ rfl hf, ha.wsWord_eq ho hf rfl]

variable {i : Nat} (hi : i < s.wsMax e)
include hi

theorem Releases.virtualAddress_eq :
    envPageWSGetVirtualAddress t e i = .ok (roundDown (s.wsVa e i) 4096) := by
  have hassert : assertIndex t e i = .ok () := by
    rw [assertIndex, h.rest.envs, if_pos hi]
  have haddr : wsAddress t e i = (s.envs e).ptrPageWorkingSet + 4 * (3 * i) := by
    rw [wsAddress, h.rest.envs]
    omega
  rw [envPageWSGetVirtualAddress, hassert, ok_bind, wsVirtualAddress, haddr,
    h.load_word ha ho (by omega)]
  rfl

theorem Releases.empty_eq : wsEmpty t e i = .ok (s.wsFlag e i).toNat := by
  have hal := (ha.bounds ho).1
  have haddr : wsAddress t e i + 4 = (s.envs e).ptrPageWorkingSet + 4 * (3 * i + 1) := by
    rw [wsAddress, h.rest.envs]
    omega
  have hmod : ((s.envs e).ptrPageWorkingSet + 4 * (3 * i + 1)) % 4 = 0 := by omega
  rw [wsEmpty, Kernel.loadByte, haddr, hmod, Nat.sub_zero, h.load_word ha ho (by omega)]
  rfl

end Elements

/-- `unmap_frame` in the user half, once the window is closed. -/
theorem Space.unmapPage (h : Space c s G e) (ho : Owned c s G) (hwin : ∀ k, G.win e k = false)
    {v : Nat} (hal : v % 4096 = 0) (hv : v < userTop) :
    ∃ t H, unmapFrame s (s.envs e).envPageDirectory v = .ok t ∧
      Leaves c e (· = ⟨e, .page v⟩) (fun _ => False) s G t H := by
  have hround := roundDown_eq hal
  by_cases hex : ∃ f, G.own f = some ⟨e, .page v⟩
  · obtain ⟨f, hf⟩ := hex
    obtain ⟨t, hun, hr⟩ := h.unmapFrame_page ho (v := v) (by rw [hround]; exact hf)
    rw [hround] at hr
    have hkeep : ∀ r, Role.offPages r = true → Role.apart v r = true := by
      intro r hr
      cases r <;> first | rfl | cases hr
    refine ⟨t, G.setOwn f none, hun, ⟨hr.moves.owned, hr.moves.others, ?_,
      hr.moves.keeps.mono hkeep, rfl, hr.rest, hr.moves.spent⟩, hr.moves.space, hr.moves.block, ?_,
      fun g => by simp [Ghost.setOwn], rfl⟩
    · intro g o hg
      rcases Ghost.setOwn_eq_some.1 hg with ⟨-, hx⟩ | ⟨-, hx⟩
      · cases hx
      · exact hx
    · intro g o
      rw [Ghost.setOwn_eq_some]
      constructor
      · rintro (⟨-, hx⟩ | ⟨hne, hx⟩)
        · cases hx
        · refine ⟨hx, ?_⟩
          rintro rfl
          exact hne (h.target_unique (a := false) (b := false) hf hx).1
      · rintro ⟨hx, hne⟩
        refine .inr ⟨?_, hx⟩
        rintro rfl
        rw [hf] at hx
        cases hx
        exact hne rfl
  · have hnone : ∀ g b, ¬ G.Target e (roundDown v 4096) g b := by
      intro g b ht
      rw [hround] at ht
      cases b with
      | false => exact hex ⟨g, ht⟩
      | true =>
        obtain ⟨k, -, hw, -⟩ := ht
        rw [hwin] at hw
        cases hw
    refine ⟨s, G, h.unmapFrame_none ho hv hnone, (Leaves.refl ho h).congr (fun f o hf => ?_)
      fun _ _ _ => Iff.rfl⟩
    refine iff_false_intro ?_
    rintro rfl
    exact hex ⟨f, hf⟩

/-- The loop of `env_free` over the working set. -/
theorem Alive.freePages (ha : Alive c s G e) (ho : Owned c s G)
    (h : Releases c e Role.offPages s G t H) (hs : Space c t H e)
    (hwin : ∀ k, H.win e k = false) :
    ∃ u I, forRange (freePage e) 0 (s.wsMax e) t = .ok u ∧
      Leaves c e (fun o => ∃ v, o = ⟨e, .page v⟩) (fun _ => False) t H u I := by
  have hloop := forRange_ensures (E := fun _ : Stop => False) (a := 0) (n := s.wsMax e) (s := t)
    (b := freePage e)
    (I := fun i u => ∃ I, Leaves c e
      (fun o => ∃ k < i, ∃ v, s.wsPage e k = some v ∧ o = ⟨e, .page v⟩) (fun _ => False) t H u I)
    ?_ ⟨H, (Leaves.refl h.owned hs).congr (fun _ o _ => by simp) fun _ _ _ => Iff.rfl⟩
  · rw [Nat.zero_add] at hloop
    obtain ⟨u, hu, I, hl⟩ := hloop.exists_ok
    refine ⟨u, I, hu, hl.congr (fun f o hf => ?_) fun _ _ _ => Iff.rfl⟩
    constructor
    · rintro ⟨v, rfl⟩
      -- every page in memory has its element
      obtain ⟨k, hk, hv⟩ := ha.covered v f (h.own f _ hf)
      exact ⟨k, hk, v, hv, rfl⟩
    · rintro ⟨k, -, v, -, rfl⟩
      exact ⟨v, rfl⟩
  · rintro i u - hi ⟨I, hl⟩
    rw [Nat.zero_add] at hi
    have hr := h.trans hl.releases
    rw [freePage, hr.virtualAddress_eq ha.base.array ho hi, ok_bind,
      hr.empty_eq ha.base.array ho hi, ok_bind]
    by_cases hflag : s.wsFlag e i = 0#8
    · have hpage : s.wsPage e i = some (s.wsVa e i) := by
        rw [Kernel.wsPage, if_pos hflag]
      obtain ⟨f, hf⟩ := ha.entries.page i hi _ hpage
      obtain ⟨hal, hlt, -⟩ := ha.base.space.target _ f false hf
      have hzero : (s.wsFlag e i).toNat = 0 := by
        rw [hflag]
        rfl
      rw [if_pos hzero, roundDown_eq hal]
      obtain ⟨w, J, hw, hl'⟩ := hl.space.unmapPage hr.owned (fun k => by rw [hl.win, hwin]) hal hlt
      rw [hw, ensures_ok]
      refine ⟨J, (hl.trans hl').congr (fun _ o _ => ?_) fun _ o _ => by simp⟩
      constructor
      · rintro ⟨k, hk, v, hv, rfl⟩
        by_cases hki : k = i
        · subst hki
          rw [hpage] at hv
          cases hv
          exact .inr rfl
        · exact .inl ⟨k, by omega, v, hv, rfl⟩
      · rintro (⟨k, hk, v, hv, rfl⟩ | rfl)
        · exact ⟨k, by omega, v, hv, rfl⟩
        · exact ⟨i, by omega, _, hpage, rfl⟩
    · have hpage : s.wsPage e i = none := by
        rw [Kernel.wsPage, if_neg hflag]
      have hne : (s.wsFlag e i).toNat ≠ 0 := fun hz => hflag (BitVec.eq_of_toNat_eq hz)
      rw [if_neg hne, ensures_ok]
      refine ⟨I, hl.congr (fun _ o _ => ?_) fun _ _ _ => Iff.rfl⟩
      constructor
      · rintro ⟨k, hk, v, hv, rfl⟩
        refine ⟨k, ?_, v, hv, rfl⟩
        by_contra hge
        have hki : k = i := by omega
        rw [hki, hpage] at hv
        cases hv
      · rintro ⟨k, hk, v, hv, rfl⟩
        exact ⟨k, by omega, v, hv, rfl⟩

/-! ## The array, the tables and the directory -/

/-- What is left while the page tables are released: tables with a number from `i` on, the
directory, in frame `fd`, that names them, and the disk tables. -/
structure Dismantled (c : Boot) (e fd i : Nat) (s : Kernel) (G : Ghost) (t : Kernel) (H : Ghost) :
    Prop where
  releases : Releases c e Role.inDisk s G t H
  dir : H.own fd = some ⟨e, .dir⟩
  dir_unique : ∀ f, H.own f = some ⟨e, .dir⟩ → f = fd
  dir_at : DirAt t (s.envs e).envPageDirectory fd
  pde : ∀ k, i ≤ k → k < 955 → t.mem fd k = 0#32 ∨
    ∃ tb, Names (t.mem fd k) tb permUserPage ∧ H.own tb = some ⟨e, .table k⟩
  table : ∀ tb k, H.own tb = some ⟨e, .table k⟩ →
    i ≤ k ∧ k < 955 ∧ Names (t.mem fd k) tb permUserPage
  roles : ∀ f r, H.own f = some ⟨e, r⟩ → r = .dir ∨ r.inDisk = true ∨ ∃ k, r = .table k
  lost : H.lost = G.lost
  win : H.win = G.win

/-- `kfree` of the array, once nothing but the array and the walk is left. -/
theorem Space.dismantle (h : Space c s G e) (ho : Owned c s G) {p n : Nat} (hn : 1 ≤ n)
    (hblk : Block s p n) (hal : p % 4096 = 0)
    (hframe : ∀ k < n, ∃ f, G.own f = some ⟨e, .ws k⟩)
    (hat : ∀ f k, G.own f = some ⟨e, .ws k⟩ → k < n ∧ s.virtualAddresses f = p + 4096 * k)
    (hwin : ∀ k, G.win e k = false) (hpage : ∀ f v, G.own f ≠ some ⟨e, .page v⟩)
    (hheld : ∀ f, G.own f ≠ some ⟨e, .held⟩) :
    ∃ t, kfree s p = .ok t ∧ Dismantled c e (s.dirFrame e) 0 s G t (G.dropWs e) := by
  have hin : ∀ g, InBlock s p n g ↔ ∃ k, G.own g = some ⟨e, .ws k⟩ := by
    intro g
    constructor
    · rintro ⟨hle, hlt⟩
      have hpne : s.virtualAddresses g ≠ 0 := by
        intro hz
        obtain ⟨f, hf⟩ := hframe 0 (by omega)
        have := (ho.ws hf).1
        have := (hat f 0 hf).2
        omega
      have hga := ho.inv.map.heap_aligned hpne
      obtain ⟨f, hf⟩ := hframe ((s.virtualAddresses g - p) / 4096) (by omega)
      have hva := (hat f _ hf).2
      -- the page has one frame
      have hfg : f = g := by
        refine ho.inv.map.virtualAddresses_inj (ho.ws hf).1 ?_
        omega
      exact ⟨_, hfg ▸ hf⟩
    · rintro ⟨k, hg⟩
      obtain ⟨hk, hva⟩ := hat g k hg
      exact ⟨by omega, by omega⟩
  obtain ⟨t, ht, howned, hmem, hva, hblock, hspent, hrest⟩ := ho.kfreeWs hblk hin hwin
  have hown : ∀ f e' r, (∀ k, r ≠ .ws k ∨ e' ≠ e) →
      ((G.dropWs e).own f = some ⟨e', r⟩ ↔ G.own f = some ⟨e', r⟩) := by
    intro f e' r hr
    rw [Ghost.dropWs_eq_some]
    refine and_iff_left ?_
    rintro k heq
    cases heq
    rcases hr k with hx | hx
    · exact hx rfl
    · exact hx rfl
  have hnk : ∀ f o, G.own f = some o → t.mem f = s.mem f := fun f o hf =>
    hmem f (ho.not_kernelFrame (by simp [hf]))
  have hdir : (G.dropWs e).own (s.dirFrame e) = some ⟨e, .dir⟩ :=
    (hown _ _ _ fun k => .inl (by simp)).2 h.dir_own
  refine ⟨t, ht, ⟨?_, hdir, fun f hf => ?_, ?_, fun k _ hk => ?_, fun tb k hf => ?_,
    fun f r hf => ?_, rfl, rfl⟩⟩
  · constructor
    case owned => exact howned
    case others =>
      refine ⟨fun e' he => ⟨fun f r _ => hown f e' r fun _ => .inr he,
        fun f r _ hf => hnk f _ hf, fun f r _ hf => ?_⟩, fun _ _ => rfl, fun _ _ => rfl,
        fun _ _ => by rw [hrest.envs], fun _ _ _ _ _ => by rw [hrest.disk], fun e' he => ?_,
        hmem 1 (c.low_not_kernelFrame (by decide))⟩
      · exact hva f _ ((hown f e' r fun _ => .inr he).2 hf)
      · rintro m ⟨g, hg, hgat⟩ hb
        refine hblock _ m (fun heq => ?_) hb
        -- the first page of the released array belongs to `e`
        obtain ⟨k, hk⟩ := (hin g).1 ⟨by omega, by omega⟩
        rw [hg] at hk
        cases hk
        exact he rfl
    case own => exact fun f o hf => (Ghost.dropWs_eq_some.1 hf).1
    case keeps =>
      have hr : ∀ r, Role.inDisk r = true → ∀ k, r ≠ .ws k ∨ e ≠ e := by
        rintro r hr k
        left
        rintro rfl
        cases hr
      exact ⟨fun f r hx => hown f e r (hr r hx), fun f r _ hf => hnk f _ hf,
        fun f r hx hf => hva f _ ((hown f e r (hr r hx)).2 hf)⟩
    case slots => rfl
    case rest => exact hrest
    case spent => exact hspent
  · exact h.dir_unique f (Ghost.dropWs_eq_some.1 hf).1
  · have hd := h.dirAt ho
    exact ⟨(hva _ _ hdir).trans hd.va_eq, hd.ne_zero⟩
  · rw [hnk _ _ h.dir_own]
    refine (h.pde k hk).imp id ?_
    rintro ⟨tb, hnm, htb⟩
    exact ⟨tb, hnm, (hown _ _ _ fun k => .inl (by simp)).2 htb⟩
  · obtain ⟨hk, hnm⟩ := h.table tb k (Ghost.dropWs_eq_some.1 hf).1
    rw [hnk _ _ h.dir_own]
    exact ⟨Nat.zero_le k, hk, hnm⟩
  · obtain ⟨hf, hne⟩ := Ghost.dropWs_eq_some.1 hf
    cases r with
    | dir => exact .inl rfl
    | table k => exact .inr (.inr ⟨k, rfl⟩)
    | ddir => exact .inr (.inl rfl)
    | dtable k => exact .inr (.inl rfl)
    | ws k => exact absurd rfl (hne k)
    | page v => exact absurd hf (hpage f v)
    | held => exact absurd hf (hheld f)

/-- The release of one heap page of the walk. -/
theorem Freed.releases {f : Nat} {r : Role} (h : Freed c e f s G t) (ho : Owned c s G)
    (hf : G.own f = some ⟨e, r⟩) (hr : r.inDisk = false) :
    Releases c e Role.inDisk s G t (G.setOwn f none) := by
  have hne : ∀ g r', r'.inDisk = true → G.own g = some ⟨e, r'⟩ → g ≠ f := by
    rintro g r' hr' hg rfl
    rw [hf] at hg
    cases hg
    rw [hr] at hr'
    cases hr'
  have hsub : ∀ g o, (G.setOwn f none).own g = some o → G.own g = some o := by
    intro g o hg
    rcases Ghost.setOwn_eq_some.1 hg with ⟨-, hx⟩ | ⟨-, hx⟩
    · cases hx
    · exact hx
  exact ⟨h.owned, h.others, hsub, ⟨fun g r' hr' => ⟨hsub g _, fun hg =>
      Ghost.setOwn_eq_some.2 (.inr ⟨hne g r' hr' hg, hg⟩)⟩,
    fun g _ _ hg => h.mem g (ho.not_kernelFrame (by simp [hg])),
    fun g r' hr' hg => h.va g (hne g r' hr' hg)⟩, rfl, h.same, h.spent⟩

/-- One round of the loop of `env_free` over the page directory. -/
theorem Dismantled.freeTable {fd i : Nat} (h : Dismantled c e fd i s G t H) (hi : i < 955) :
    ∃ u I, freeUserTable e i t = .ok u ∧ Dismantled c e fd (i + 1) s G u I := by
  have ho := h.releases.owned
  have hload := h.dir_at.load ho.inv.map (show i < 1024 by omega)
  rw [freeUserTable, h.releases.rest.envs, hload, ok_bind]
  rcases h.pde i (Nat.le_refl i) hi with hzero | ⟨tb, hnm, htb⟩
  · rw [if_pos hzero]
    refine ⟨t, H, rfl, h.releases, h.dir, h.dir_unique, h.dir_at,
      fun k hk => h.pde k (by omega), fun tb k hf => ?_, h.roles, h.lost, h.win⟩
    obtain ⟨hle, hk, hnm⟩ := h.table tb k hf
    refine ⟨?_, hk, hnm⟩
    by_contra hge
    have hki : k = i := by omega
    subst hki
    rw [hzero] at hnm
    exact hnm.ne_zero rfl
  · have hptr : kheapVirtualAddress t (t.mem fd i).toNat = t.virtualAddresses tb :=
      congrArg t.virtualAddresses hnm.frame_eq
    obtain ⟨u, hu, hfr⟩ := ho.release htb rfl
    have hrel := hfr.releases ho htb rfl
    have hne : fd ≠ tb := by
      rintro rfl
      have := h.dir
      rw [htb] at this
      cases this
    have hmem : u.mem fd = t.mem fd := hfr.mem fd (ho.not_kernelFrame (by simp [h.dir]))
    refine ⟨u, H.setOwn tb none, ?_, h.releases.trans hrel, ?_, fun f hf => ?_, ?_,
      fun k hk hlt => ?_, fun tb' k hf => ?_, fun f r hf => h.roles f r (hrel.own f _ hf), h.lost,
      h.win⟩
    · rw [if_neg hnm.ne_zero, hptr, hu]
    · rw [H.setOwn_of_ne none hne]
      exact h.dir
    · exact h.dir_unique f (hrel.own f _ hf)
    · exact ⟨(hfr.va fd hne).trans h.dir_at.va_eq, h.dir_at.ne_zero⟩
    · rw [hmem]
      refine (h.pde k (by omega) hlt).imp id ?_
      rintro ⟨tb', hnm', htb'⟩
      refine ⟨tb', hnm', ?_⟩
      rw [H.setOwn_of_ne none]
      · exact htb'
      · rintro rfl
        rw [htb] at htb'
        cases htb'
        omega
    · rcases Ghost.setOwn_eq_some.1 hf with ⟨-, hx⟩ | ⟨hne', hx⟩
      · cases hx
      · obtain ⟨hle, hk, hnm'⟩ := h.table tb' k hx
        refine ⟨?_, hk, by rw [hmem]; exact hnm'⟩
        by_contra hge
        have hki : k = i := by omega
        subst hki
        -- the entry names one table
        exact hne' (hnm'.frame_eq.symm.trans hnm.frame_eq)

/-- The loop over the page directory and the release of the directory: nothing but the disk tables
is left. -/
theorem Dismantled.freeWalk {fd : Nat} (h : Dismantled c e fd 0 s G t H) :
    ∃ u v I, forRange (freeUserTable e) 0 955 t = .ok u ∧
      kfree u (u.envs e).envPageDirectory = .ok v ∧ Releases c e Role.inDisk s G v I ∧
      I.lost = G.lost ∧ I.win = G.win ∧ ∀ f r, I.own f = some ⟨e, r⟩ → r.inDisk = true := by
  have hloop : Ensures (fun _ => False) (fun u => ∃ I, Dismantled c e fd (0 + 955) s G u I)
      (forRange (freeUserTable e) 0 955 t) := by
    refine forRange_ensures (I := fun i u => ∃ I, Dismantled c e fd i s G u I) ?_ ⟨H, h⟩
    rintro i u - hi ⟨I, hd⟩
    obtain ⟨w, J, hw, hd'⟩ := hd.freeTable (by omega)
    rw [hw]
    exact ⟨J, hd'⟩
  obtain ⟨u, hu, I, hd⟩ := hloop.exists_ok
  obtain ⟨w, hw, hfr⟩ := hd.releases.owned.release hd.dir rfl
  rw [hd.dir_at.va_eq, ← hd.releases.rest.envs] at hw
  have hrel := hfr.releases hd.releases.owned hd.dir rfl
  refine ⟨u, w, I.setOwn fd none, hu, hw, hd.releases.trans hrel, hd.lost, hd.win, fun f r hf => ?_⟩
  have hold := hrel.own f _ hf
  rcases hd.roles f r hold with rfl | hr | ⟨k, rfl⟩
  · rcases Ghost.setOwn_eq_some.1 hf with ⟨-, hx⟩ | ⟨hne, -⟩
    · cases hx
    · exact absurd (hd.dir_unique f hold) hne
  · exact hr
  · have := hd.table f k hold
    omega

/-! ## env_free -/

/-- The tables of the window exist. -/
theorem Base.window_table (hb : Base c s G e) {k : Nat} (hk : k < s.windowTables e) :
    ∃ tb, G.own tb = some ⟨e, .table (pdx (userPagesWSStart + ptSize * k))⟩ := by
  have hpage : 1024 * k < s.wsPages e := by
    simp only [Kernel.windowTables, Kernel.wsMax, Kernel.wsPages, pagesOf, ptSize] at hk ⊢
    omega
  obtain ⟨f, hf⟩ := hb.array.frame _ hpage
  have hwin : G.win e (1024 * k) = true := by
    rw [hb.array.win]
    exact decide_eq_true hpage
  obtain ⟨-, -, tb, htb, -⟩ := hb.space.target _ f true ⟨1024 * k, hf, hwin, rfl⟩
  have haddr : userPagesWSStart + 4096 * (1024 * k) = userPagesWSStart + ptSize * k := by
    simp only [ptSize]
    omega
  rw [haddr] at htb
  exact ⟨tb, htb⟩

/-- `__remove_pws_user_pages`: the window is closed, its tables are gone with all they map. -/
theorem Base.removePwsUserPages_spec (ho : Owned c s G) (hb : Base c s G e) :
    ∃ t H, removePwsUserPages s e = .ok t ∧ (∀ k, H.win e k = false) ∧
      Releases c e Role.offPages s G t H ∧ Space c t H e ∧ KeepsBlock e s G t ∧
      (∀ f o, H.own f = some o ↔ G.own f = some o ∧ ¬ OfWindow e (s.windowTables e) o) ∧
      ∀ f, H.lost f ↔ G.lost f ∨
        ∃ v, G.own f = some ⟨e, .page v⟩ ∧ BesideWindow (s.windowTables e) v := by
  have hlt := hb.array.size_lt ho
  obtain ⟨t, H, ht, hs⟩ := hb.shutWindow ho
  have hwin : ∀ k, H.win e k = false := by
    intro k
    rw [hs.win, Bool.not_true, Bool.and_false]
  obtain ⟨u, I, hu, hl⟩ := hs.space.releaseTables hs.releases.owned hwin
    (n := s.windowTables e)
    (by simp only [Kernel.windowTables, Kernel.wsMax, ptSize]; omega)
    fun k hk => by rw [hs.own]; exact hb.window_table hk
  have henv : (t.envs e).ptrPageWorkingSet = (s.envs e).ptrPageWorkingSet := by
    rw [hs.releases.rest.envs]
  refine ⟨u, I, ?_, fun k => by rw [hl.win, hwin], hs.releases.trans hl.releases, hl.space,
    hs.block.trans hl.block (hs.releases.keeps.wsAt rfl henv) henv, fun f o => ?_, fun f => ?_⟩
  · have hbytes : (s.envs e).pageWSMaxSize * 12 % wordMod = (s.envs e).pageWSMaxSize * 12 :=
      Nat.mod_eq_of_lt (by simp only [wordMod]; omega)
    rw [Kernel.wsPages] at ht
    rw [Kernel.windowTables, Kernel.wsMax] at hu
    rw [removePwsUserPages, hbytes, hb.array.uptr, ht, ok_bind]
    exact hu
  · rw [hl.own, hs.own]
  · rw [hl.lost, hs.lost, hs.own]
    refine or_congr_right ⟨?_, ?_⟩
    · rintro ⟨o, hf, v, rfl, hv⟩
      exact ⟨v, hf, hv⟩
    · rintro ⟨v, hf, hv⟩
      exact ⟨_, hf, v, rfl, hv⟩

/-- What `env_free` leaves: nothing of `e`, and what the others had. -/
structure Destroyed (c : Boot) (e : Nat) (s : Kernel) (G : Ghost) (t : Kernel) (H : Ghost) :
    Prop where
  owned : Owned c t H
  frames : DiskFrames t H
  others : Local e s G t H
  unused : Unused H e
  ddir : (t.envs e).diskEnvPgdir = 0
  lost : ∀ f, H.lost f ↔ G.lost f ∨
    ∃ v, G.own f = some ⟨e, .page v⟩ ∧ BesideWindow (s.windowTables e) v
  envFreeList : t.envFreeList = e :: s.envFreeList
  curenv : t.curenv = s.curenv
  cr3 : t.cr3 = s.cr3
  policy : t.pageRepAlgoType = s.pageRepAlgoType
  disk : t.disk = s.disk
  spent : Spent s t 0

/-- `free_environment`, once nothing of `e` is left. -/
theorem Emptied.destroyed (h : Emptied c e s G t H) (hown : ∀ f r, G.own f = some ⟨e, r⟩ →
    r.inDisk = true) (hwin : ∀ k, G.win e k = false) :
    Unused H e ∧ Owned c (freeEnvironment t e) H ∧ DiskFrames (freeEnvironment t e) H ∧
      Local e t H (freeEnvironment t e) H := by
  have hunused : Unused H e := by
    refine ⟨fun f r hf => ?_, fun k => by rw [h.filed.win, hwin], h.slots⟩
    cases hr : r.inDisk with
    | true => exact h.own f r hr hf
    | false =>
      have hoff : r.offDisk = true := by
        cases r <;> first | rfl | cases hr
      rw [hown f r ((h.filed.keeps.own f r hoff).1 hf)] at hr
      cases hr
  have howned : Owned c (freeEnvironment t e) H := Owned.withRun (h.filed.owned.setEnv e Env.zero)
  refine ⟨hunused, howned, h.filed.frames.congr rfl rfl, ?_⟩
  refine ⟨fun e' _ => ⟨fun _ _ _ => Iff.rfl, fun _ _ _ _ => rfl, fun _ _ _ _ => rfl⟩,
    fun _ _ => rfl, fun _ _ => rfl, fun e' he => ?_, fun _ _ _ _ _ => rfl, fun _ _ _ _ hb => hb, rfl⟩
  exact Function.update_of_ne he _ _

/-- `env_free` of a live environment. -/
theorem Alive.envFree_spec (ha : Alive c s G e) (ho : Owned c s G) (hd : DiskFrames s G)
    (hno : NoHeld G) : ∃ t H, envFree s e = .ok t ∧ Destroyed c e s G t H := by
  obtain ⟨s₁, G₁, h₁, hwin₁, hr₁, hs₁, hb₁, hown₁, hlost₁⟩ := ha.base.removePwsUserPages_spec ho
  obtain ⟨s₂, G₂, h₂, hl₂⟩ := ha.freePages ho hr₁ hs₁ hwin₁
  have hr₂ := hr₁.trans hl₂.releases
  have hwin₂ : ∀ k, G₂.win e k = false := fun k => by rw [hl₂.win, hwin₁]
  have henv₁ : (s₁.envs e).ptrPageWorkingSet = (s.envs e).ptrPageWorkingSet := by
    rw [hr₁.rest.envs]
  have hb₂ := hb₁.trans hl₂.block (hr₁.keeps.wsAt rfl henv₁) henv₁
  -- the array is where it was
  have hws : ∀ f k, G₂.own f = some ⟨e, .ws k⟩ ↔ G.own f = some ⟨e, .ws k⟩ := fun f k =>
    hr₂.keeps.own f _ rfl
  obtain ⟨s₃, h₃, hdis⟩ := hl₂.space.dismantle hr₂.owned (ha.base.array.pages_pos)
    (hb₂ _ ha.base.array.wsAt ha.base.array.block) (ha.base.array.bounds ho).1
    (fun k hk => (ha.base.array.frame k hk).imp fun f hf => (hws f k).2 hf)
    (fun f k hf => by
      have hf' := (hws f k).1 hf
      rw [hr₂.keeps.va f _ rfl hf']
      exact ha.base.array.at_page f k hf')
    hwin₂ (fun f v hf => ((hl₂.own f _).1 hf).2 ⟨v, rfl⟩)
    (fun f hf => hno f e (hr₂.own f _ hf))
  obtain ⟨s₄, s₅, G₅, h₄, h₅, hr₅, hlost₅, hwin₅, hown₅⟩ := hdis.freeWalk
  have hr := (hr₂.mono fun _ => Role.offPages_of_inDisk).trans hr₅
  have henv₂ : s₂.envs = s.envs := hr₂.rest.envs
  have henv₅ : s₅.envs = s.envs := hr.rest.envs
  obtain ⟨s₆, G₆, h₆, hem⟩ := (hr.slotTable (fun _ hx => hx) ha.base.slots).pfFreeEnv_spec hr.owned
    (hr.frames hd) (by rw [henv₅]; exact ha.ddir)
  obtain ⟨hunused, howned, hframes, hlocal⟩ := hem.destroyed hown₅ fun k => by
    rw [hwin₅, hwin₂]
  refine ⟨freeEnvironment s₆ e, G₆, ?_, ?_⟩
  · have henv₁' : s₁.envs = s.envs := hr₁.rest.envs
    have henv₃ : s₃.envs = s.envs := hdis.releases.rest.envs.trans henv₂
    rw [envFree, h₁, ok_bind, henv₁', h₂, ok_bind, henv₂, h₃, ok_bind, h₄, ok_bind, h₅, ok_bind,
      h₆]
    rfl
  · constructor
    case owned => exact howned
    case frames => exact hframes
    case others => exact (hr.others.trans hem.filed.others).trans hlocal
    case unused => exact hunused
    case ddir =>
      show (Function.update s₆.envs e Env.zero e).diskEnvPgdir = 0
      rw [Function.update_self]
      rfl
    case lost =>
      intro f
      rw [hem.filed.lost, hlost₅, hl₂.lost, hlost₁]
      simp
    case envFreeList =>
      show e :: s₆.envFreeList = _
      rw [hem.filed.run.envFreeList, hr.rest.envFreeList]
    case curenv => exact hem.filed.run.curenv.trans hr.rest.curenv
    case cr3 => exact hem.filed.run.cr3.trans hr.rest.cr3
    case policy => exact hem.filed.run.pageRepAlgoType.trans hr.rest.pageRepAlgoType
    case disk => exact hem.disk.trans hr.rest.disk
    case spent => exact hr.spent.trans hem.filed.spent

end FosMemory
