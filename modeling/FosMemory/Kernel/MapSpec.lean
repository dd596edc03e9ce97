import FosMemory.Kernel.AddressSpace

/-!
# MapSpec — mapping and unmapping in an environment's address space

What `create_page_table`, `map_frame`, `loadtime_map_frame` and `unmap_frame` do to a directory
that satisfies `Space`, in terms of the record: a held frame becomes a user page, a user page goes
back to the list, everything else stays.
-/

namespace FosMemory

open Lib

variable {c : Boot} {s t u : Kernel} {G H I : Ghost} {e : Nat}

/-! ## Changes confined to one environment -/

/-- A step inside environment `e` that keeps the frames in the roles `P` and uses at most `k`
frames. -/
structure Moves (c : Boot) (e : Nat) (P : Role → Bool) (k : Nat) (s : Kernel) (G : Ghost)
    (t : Kernel) (H : Ghost) : Prop where
  owned : Owned c t H
  space : Space c t H e
  others : Local e s G t H
  keeps : Keeps e P s G t H
  block : KeepsBlock e s G t
  win : H.win = G.win
  lost : H.lost = G.lost
  spent : Spent s t k

/-- `env` fields a step of the fault path leaves alone. -/
structure SameEnv (a b : Env) : Prop where
  envPageDirectory : b.envPageDirectory = a.envPageDirectory
  envCr3 : b.envCr3 = a.envCr3
  pageWSMaxSize : b.pageWSMaxSize = a.pageWSMaxSize
  ptrPageWorkingSet : b.ptrPageWorkingSet = a.ptrPageWorkingSet
  uptrPws : b.uptrPws = a.uptrPws
  progName : b.progName = a.progName

theorem SameEnv.refl (a : Env) : SameEnv a a :=
  ⟨rfl, rfl, rfl, rfl, rfl, rfl⟩

theorem Moves.trans {P : Role → Bool} {k m : Nat} (h : Moves c e P k s G t H)
    (h' : Moves c e P m t H u I) (hP : P (.ws 0) = true)
    (henv : (t.envs e).ptrPageWorkingSet = (s.envs e).ptrPageWorkingSet) :
    Moves c e P (k + m) s G u I :=
  ⟨h'.owned, h'.space, h.others.trans h'.others, h.keeps.trans h'.keeps,
    h.block.trans h'.block (h.keeps.wsAt hP henv) henv, h'.win.trans h.win,
    h'.lost.trans h.lost, h.spent.trans h'.spent⟩

theorem Moves.mono {P Q : Role → Bool} {k m : Nat} (h : Moves c e P k s G t H)
    (hPQ : ∀ r, Q r = true → P r = true) (hkm : k ≤ m) : Moves c e Q m s G t H :=
  ⟨h.owned, h.space, h.others, h.keeps.mono hPQ, h.block, h.win, h.lost, h.spent.mono hkm⟩

/-- A record that changes at one frame, which is and remains `e`'s or nobody's. -/
theorem Local.of_change {f : Nat}
    (hwin : ∀ e', e' ≠ e → H.win e' = G.win e') (hslots : ∀ e', e' ≠ e → H.slots e' = G.slots e')
    (henvs : ∀ e', e' ≠ e → t.envs e' = s.envs e')
    (hdisk : ∀ e' v d, e' ≠ e → G.slots e' v = some d → t.disk d = s.disk d)
    (hown : ∀ g, g ≠ f → H.own g = G.own g) (hold : ∀ o, G.own f = some o → o.env = e)
    (hnew : ∀ o, H.own f = some o → o.env = e)
    (hmem : ∀ g o, G.own g = some o → o.env ≠ e → t.mem g = s.mem g)
    (hva : ∀ g o, G.own g = some o → o.env ≠ e → t.virtualAddresses g = s.virtualAddresses g)
    (hblock : ∀ e', e' ≠ e → KeepsBlock e' s G t) (hzero : t.mem 1 = s.mem 1) :
    Local e s G t H := by
  refine ⟨?_, hwin, hslots, henvs, hdisk, hblock, hzero⟩
  intro e' he
  refine ⟨?_, ?_, ?_⟩
  · intro g r _
    by_cases hg : g = f
    · subst hg
      exact ⟨fun hx => absurd (hnew _ hx) he, fun hx => absurd (hold _ hx) he⟩
    · rw [hown g hg]
  · exact fun g r _ hg => hmem g _ hg he
  · exact fun g r _ hg => hva g _ hg he

theorem Local.of_frame {f : Nat} (hsame : SameRest s t)
    (hwin : ∀ e', e' ≠ e → H.win e' = G.win e') (hslots : H.slots = G.slots)
    (hown : ∀ g, g ≠ f → H.own g = G.own g) (hold : ∀ o, G.own f = some o → o.env = e)
    (hnew : ∀ o, H.own f = some o → o.env = e)
    (hmem : ∀ g o, G.own g = some o → o.env ≠ e → t.mem g = s.mem g)
    (hva : ∀ g o, G.own g = some o → o.env ≠ e → t.virtualAddresses g = s.virtualAddresses g)
    (hblock : ∀ e', e' ≠ e → KeepsBlock e' s G t) (hzero : t.mem 1 = s.mem 1) :
    Local e s G t H :=
  Local.of_change hwin (fun _ _ => by rw [hslots]) (fun _ _ => by rw [hsame.envs])
    (fun _ _ _ _ _ => by rw [hsame.disk]) hown hold hnew hmem hva hblock hzero

/-- Writing a word of a frame of `e`. -/
theorem Local.setWord {f : Nat} {o : Owner} (ho : Owned c s G) (hf : G.own f = some o)
    (he : o.env = e) (j : Nat) (w : Word) : Local e s G (s.setWord f j w) G := by
  refine Local.of_frame (f := f) ⟨rfl, rfl, rfl, rfl, rfl, rfl, rfl⟩ (fun _ _ => rfl) rfl
    (fun _ _ => rfl) (fun p hp => ?_) (fun p hp => ?_) (fun g p hg hne => ?_) (fun _ _ _ _ => rfl)
    (fun _ _ _ _ hb => hb) (Kernel.setWord_mem_frame (ho.low_ne (by decide) (by simp [hf])))
  · rw [hf] at hp
    cases hp
    exact he
  · rw [hf] at hp
    cases hp
    exact he
  · refine Kernel.setWord_mem_frame ?_
    rintro rfl
    rw [hf] at hg
    cases hg
    exact hne he

/-! ## create_page_table -/

/-- Everything but the directory and the tables. -/
def Role.offWalk : Role → Bool
  | .dir | .table _ => false
  | .page _ | .ws _ | .ddir | .dtable _ | .held => true

theorem NewTable.kmalloced_block {fd i g p q n : Nat} (h : NewTable c s t fd i g p)
    (hb : Block s q n) : Block t q n := by
  obtain ⟨⟨u, hnew, rfl⟩, -⟩ := h
  exact hnew.kmalloced.block hb

/-- The record after `create_page_table`. -/
theorem Space.createTable (h : Space c s G e) (ho : Owned c s G) {i g p : Nat} (hi : i < 955)
    (hzero : s.mem (s.dirFrame e) i = 0#32) (hnew : NewTable c s t (s.dirFrame e) i g p) :
    Moves c e Role.offWalk 1 s G t (G.setOwn g (some ⟨e, .table i⟩)) ∧ SameRest s t := by
  have hfd : G.own (s.dirFrame e) ≠ none := by simp [h.dir_own]
  have hnk := ho.not_kernelFrame hfd
  have hgfree : g ∈ s.freeFrameList := by
    rw [hnew.free_eq]
    exact List.mem_cons_self
  have hg := ho.own_free hgfree
  have hne : ∀ f, G.own f ≠ none → f ≠ g := by
    rintro f hf rfl
    exact hf hg
  have hmem : ∀ f, G.own f ≠ none → f ≠ s.dirFrame e → t.mem f = s.mem f :=
    fun f hf hfd' => hnew.mem_of_ne (ho.not_kernelFrame hf) (hne f hf) hfd'
  have hva : ∀ f, G.own f ≠ none → t.virtualAddresses f = s.virtualAddresses f := by
    intro f hf
    rw [hnew.va_eq, Function.update_of_ne (hne f hf)]
  have howned : Owned c t (G.setOwn g (some ⟨e, .table i⟩)) := by
    obtain ⟨⟨u, hpage, rfl⟩, hfg⟩ := id hnew
    have hu := ho.newPage hpage (r := .table i) rfl e
    have hg' : (G.setOwn g (some ⟨e, .table i⟩)).own g ≠ none := by simp
    have hfd' : (G.setOwn g (some ⟨e, .table i⟩)).own (s.dirFrame e) ≠ none := by
      rw [G.setOwn_of_ne _ (hne _ hfd)]
      exact hfd
    have hzeroed : Owned c (u.zeroFrame g) (G.setOwn g (some ⟨e, .table i⟩)) := by
      refine hu.congr ⟨rfl, rfl, rfl, rfl, rfl, rfl, rfl, rfl⟩ (fun f hf => ?_) rfl rfl rfl
      exact u.zeroFrame_mem_frame (by rintro rfl; exact hu.not_kernelFrame hg' hf)
    exact hzeroed.setWord hfd' _ _
  have hkeep : ∀ e', KeepsBlock e' s G t := fun e' n _ hb => hnew.kmalloced_block hb
  refine ⟨⟨howned, ?_, ?_, ?_, hkeep e, rfl, rfl, ?_⟩, hnew.same⟩
  · refine h.newTable hi hzero hg (hnew.names ho.inv hnk) ?_ (fun j hj => hnew.mem_table hj) ?_
      (hva _ hfd) (by rw [hnew.same.envs])
    · intro k hk
      rw [hnew.mem_dir hnk, if_neg hk]
    · intro f k hf
      refine hmem f (by simp [hf]) ?_
      rintro rfl
      rw [h.dir_own] at hf
      cases hf
  · refine Local.of_frame (f := g) hnew.same (fun _ _ => rfl) rfl
      (fun f hf => G.setOwn_of_ne _ hf) (by simp [hg]) ?_ ?_ ?_ (fun e' _ => hkeep e')
      (hnew.mem_of_ne (c.low_not_kernelFrame (by decide)) (ho.low_ne_free (by decide) hgfree)
        (ho.low_ne (by decide) hfd))
    · intro o ho'
      rw [G.setOwn_self] at ho'
      cases ho'
      rfl
    · intro f o hf he
      refine hmem f (by simp [hf]) ?_
      rintro rfl
      rw [h.dir_own] at hf
      cases hf
      exact he rfl
    · exact fun f o hf _ => hva f (by simp [hf])
  · refine ⟨?_, ?_, ?_⟩
    · intro f r hr
      rw [Ghost.setOwn_eq_some]
      constructor
      · rintro (⟨-, hx⟩ | ⟨-, hx⟩)
        · cases hx
          cases hr
        · exact hx
      · exact fun hx => .inr ⟨hne f (by simp [hx]), hx⟩
    · intro f r hr hf
      refine hmem f (by simp [hf]) ?_
      rintro rfl
      rw [h.dir_own] at hf
      cases hf
      cases hr
    · exact fun f r _ hf => hva f (by simp [hf])
  · refine ⟨?_, ?_⟩
    · rw [hnew.free_eq]
      exact Nat.le_refl _
    · rw [hnew.top_eq]

/-- Table faults and the first part of `map_frame`. -/
theorem Space.createPageTable_spec (h : Space c s G e) (ho : Owned c s G) (v : Nat) :
    Ensures (fun _ => ¬ Enough s 1)
      (fun r => (¬ Enough s 1 ∧ r = (0, s)) ∨ ∃ g, G.own g = none ∧
        NewTable c s r.2 (s.dirFrame e) (pdx v) g r.1 ∧ r.1 ≠ 0)
      (createPageTable s (s.envs e).envPageDirectory v) := by
  refine (FosMemory.createPageTable_spec ho.inv (h.dirAt ho) v).mono ?_ ?_
  · rintro x ⟨hnil, -⟩ hen
    have := hen.1
    rw [hnil] at this
    simp at this
  · rintro ⟨p, t⟩ (⟨hp, ht, hfull⟩ | ⟨g, hnew, hp⟩)
    · simp only at hp ht
      refine .inl ⟨fun hen => ?_, by rw [hp, ht]⟩
      have := hen.2
      omega
    · refine .inr ⟨g, ho.own_free ?_, hnew, hp⟩
      rw [hnew.free_eq]
      exact List.mem_cons_self

/-- The entries of mapped pages do not move when a table is created. -/
theorem Space.pteWord_createTable (h : Space c s G e) (ho : Owned c s G) {i g p v f : Nat}
    {b : Bool} (hzero : s.mem (s.dirFrame e) i = 0#32)
    (hnew : NewTable c s t (s.dirFrame e) i g p) (ht : G.Target e v f b) :
    t.pteWord e v = s.pteWord e v := by
  obtain ⟨-, -, tb, htb, -⟩ := h.target v f b ht
  have hnames := (h.table tb _ htb).2
  have hfd : G.own (s.dirFrame e) ≠ none := by simp [h.dir_own]
  have hdir : t.dirFrame e = s.dirFrame e := by
    rw [Kernel.dirFrame, hnew.same.envs]
    rfl
  have hpde : t.mem (s.dirFrame e) (pdx v) = s.mem (s.dirFrame e) (pdx v) := by
    rw [hnew.mem_dir (ho.not_kernelFrame hfd), if_neg]
    rintro rfl
    exact hnames.ne_zero hzero
  have htbn : G.own tb ≠ none := by simp [htb]
  have htg : tb ≠ g := by
    rintro rfl
    refine ho.not_free htbn ?_
    rw [hnew.free_eq]
    exact List.mem_cons_self
  have htd : tb ≠ s.dirFrame e := by
    rintro rfl
    rw [h.dir_own] at htb
    cases htb
  rw [Kernel.pteWord, hdir, hpde, hnames.frame_eq,
    hnew.mem_of_ne (ho.not_kernelFrame htbn) htg htd, ← h.pteWord_eq htb]

/-! ## A held frame becomes a page -/

/-- Everything apart from the walk and from page `v`. -/
def Role.apart (v : Nat) : Role → Bool
  | .dir | .table _ | .held => false
  | .ws _ | .ddir | .dtable _ => true
  | .page v' => v' != v

theorem Role.offWalk_of_apart {v : Nat} {r : Role} (h : r.apart v = true) : r.offWalk = true := by
  cases r <;> first | rfl | cases h

/-- Frame `f`, held before, is mapped at page `v` with permissions `perm`. -/
structure Placed (c : Boot) (e f v : Nat) (perm : Word) (k : Nat) (s : Kernel) (G : Ghost)
    (t : Kernel) (H : Ghost) : Prop where
  moves : Moves c e (Role.apart v) k s G t H
  page : H.own f = some ⟨e, .page v⟩
  rest : SameRest s t
  slots : H.slots = G.slots
  mem_self : t.mem f = s.mem f
  pte_self : t.pteWord e v = frameEntry f perm
  pte : ∀ v' g, G.own g = some ⟨e, .page v'⟩ → t.pteWord e v' = s.pteWord e v'
  held : ∀ g e', H.own g = some ⟨e', .held⟩ ↔ g ≠ f ∧ G.own g = some ⟨e', .held⟩

theorem entryFor_frameEntry {f : Nat} {perm : Word} (hf : f < 1048576) (hperm : perm.toNat < 4096)
    (hhas : (perm ||| permPresent).has permUserPage = true) :
    EntryFor f (frameEntry f perm) false := by
  have hlt : (perm ||| permPresent).toNat < 4096 := by
    rw [BitVec.toNat_or]
    exact Nat.or_lt_two_pow (n := 12) hperm (by decide)
  refine ⟨frame_constructEntry hf hlt, ?_⟩
  have hall : (frameEntry f perm).has (perm ||| permPresent) = true := has_constructEntry _ _
  rw [has_iff] at hall hhas ⊢
  rw [← hhas, ← BitVec.and_assoc, hall]

/-- An empty entry of an existing table is filled. -/
theorem Space.fillPage (h : Space c s G e) (ho : Owned c s G) {f v tb : Nat} {perm : Word}
    (hf : G.own f = some ⟨e, .held⟩) (hal : v % 4096 = 0) (hv : v < userTop)
    (htb : G.own tb = some ⟨e, .table (pdx v)⟩) (hnone : ∀ g b, ¬ G.Target e v g b)
    (hperm : perm.toNat < 4096) (hhas : (perm ||| permPresent).has permUserPage = true) :
    Placed c e f v perm 0 s G
      ((incrementReferences s f).setWord tb (ptx v) (frameEntry f perm))
      (G.setOwn f (some ⟨e, .page v⟩)) := by
  have hfn : G.own f ≠ none := by simp [hf]
  have htbn : G.own tb ≠ none := by simp [htb]
  have hne : ∀ g o, o ≠ ⟨e, .held⟩ → G.own g = some o → g ≠ f := by
    rintro g o hne hg rfl
    rw [hf] at hg
    cases hg
    exact hne rfl
  have htf : tb ≠ f := hne tb _ (by simp) htb
  have hown : ∀ g o, o ≠ ⟨e, .held⟩ → o ≠ ⟨e, .page v⟩ →
      ((G.setOwn f (some ⟨e, .page v⟩)).own g = some o ↔ G.own g = some o) := by
    intro g o hh hp
    rw [Ghost.setOwn_eq_some]
    constructor
    · rintro (⟨-, hx⟩ | ⟨-, hx⟩)
      · cases hx
        exact absurd rfl hp
      · exact hx
    · exact fun hx => .inr ⟨hne g o hh hx, hx⟩
  have hself : ∀ g, (G.setOwn f (some ⟨e, .page v⟩)).own g = some ⟨e, .page v⟩ ↔ g = f := by
    intro g
    rw [Ghost.setOwn_eq_some]
    constructor
    · rintro (⟨hx, -⟩ | ⟨-, hx⟩)
      · exact hx
      · exact absurd hx (hnone g false)
    · exact fun hx => .inl ⟨hx, rfl⟩
  have howned : Owned c (incrementReferences s f) (G.setOwn f (some ⟨e, .page v⟩)) :=
    ho.fill hf v
  have hmem : ∀ g j, ((incrementReferences s f).setWord tb (ptx v) (frameEntry f perm)).mem g j =
      if g = tb ∧ j = ptx v then frameEntry f perm else s.mem g j :=
    fun g j => (incrementReferences s f).setWord_mem tb (ptx v) _ g j
  have hframe : ∀ g, g ≠ tb →
      ((incrementReferences s f).setWord tb (ptx v) (frameEntry f perm)).mem g = s.mem g :=
    fun g hg => Kernel.setWord_mem_frame hg
  have hspace : Space c ((incrementReferences s f).setWord tb (ptx v) (frameEntry f perm))
      (G.setOwn f (some ⟨e, .page v⟩)) e := by
    refine h.setPte (w := frameEntry f perm) hal hv htb ?_ ?_ (.inr ⟨f, false,
      entryFor_frameEntry (ho.lt hfn) hperm hhas, (hself f).2 rfl, ?_⟩)
      (fun g r _ _ j => hmem g j) rfl rfl rfl
    · intro g r hr
      refine hown g _ ?_ ?_ <;> (intro hx; cases hx; cases hr)
    · intro v' g b hvv
      cases b with
      | false => exact hown g _ (by simp) (by simpa using hvv)
      | true =>
        refine exists_congr fun k => ?_
        rw [hown g _ (by simp) (by simp)]
        rfl
    · intro f' b' ht
      cases b' with
      | false => exact ⟨(hself f').1 ht, rfl⟩
      | true =>
        obtain ⟨k, hk, hw⟩ := ht
        exact absurd ⟨k, (hown f' _ (by simp) (by simp)).1 hk, hw⟩ (hnone f' true)
  constructor
  case moves =>
    refine ⟨?_, hspace, ?_, ?_, fun n _ hb => hb, rfl, rfl, ?_⟩
    · refine howned.setWord ?_ _ _
      rw [G.setOwn_of_ne _ htf]
      exact htbn
    · refine Local.of_frame (f := f) ⟨rfl, rfl, rfl, rfl, rfl, rfl, rfl⟩ (fun _ _ => rfl) rfl
        (fun g hg => G.setOwn_of_ne _ hg) ?_ ?_ ?_ (fun _ _ _ _ => rfl)
        (fun _ _ _ _ hb => hb) (Kernel.setWord_mem_frame (ho.low_ne (by decide) htbn))
      · intro o hx
        rw [hf] at hx
        cases hx
        rfl
      · intro o hx
        rw [G.setOwn_self] at hx
        cases hx
        rfl
      · intro g o hg he
        refine hframe g ?_
        rintro rfl
        rw [htb] at hg
        cases hg
        exact he rfl
    · refine ⟨?_, ?_, fun _ _ _ _ => rfl⟩
      · intro g r hr
        refine hown g _ ?_ ?_
        · intro hx
          cases hx
          cases hr
        · intro hx
          cases hx
          simp [Role.apart] at hr
      · intro g r hr hg
        refine hframe g ?_
        rintro rfl
        rw [htb] at hg
        cases hg
        cases hr
    · exact ⟨Nat.le_refl _, Nat.le_refl _⟩
  case page => exact (hself f).2 rfl
  case rest => exact ⟨rfl, rfl, rfl, rfl, rfl, rfl, rfl⟩
  case slots => rfl
  case mem_self => exact hframe f (Ne.symm htf)
  case pte_self =>
    have htb' : (G.setOwn f (some ⟨e, .page v⟩)).own tb = some ⟨e, .table (pdx v)⟩ := by
      rw [G.setOwn_of_ne _ htf]
      exact htb
    rw [hspace.pteWord_eq htb', hmem, if_pos ⟨rfl, rfl⟩]
  case pte =>
    intro v' g hg
    have hvv : v' ≠ v := by
      rintro rfl
      exact hnone g false hg
    obtain ⟨hal', hv', tb', htb', -⟩ := h.target v' g false hg
    have htb'' : (G.setOwn f (some ⟨e, .page v⟩)).own tb' = some ⟨e, .table (pdx v')⟩ := by
      rw [G.setOwn_of_ne _ (hne tb' _ (by simp) htb')]
      exact htb'
    rw [hspace.pteWord_eq htb'', h.pteWord_eq htb', hmem, if_neg]
    rintro ⟨rfl, hptx⟩
    rw [htb] at htb'
    injection htb' with hx
    injection hx with _ hx
    injection hx with hpdx
    exact hvv (page_inj hal hal' hv hv' hpdx.symm hptx)
  case held =>
    intro g e'
    rw [Ghost.setOwn_eq_some]
    constructor
    · rintro (⟨-, hx⟩ | hx)
      · cases hx
      · exact hx
    · exact .inr

/-- The same after a table has been created. -/
theorem Placed.afterTable {f v g i p : Nat} {perm : Word} (h : Space c s G e) (ho : Owned c s G)
    (hi : i < 955) (hzero : s.mem (s.dirFrame e) i = 0#32)
    (hnew : NewTable c s t (s.dirFrame e) i g p) (hf : G.own f = some ⟨e, .held⟩)
    (hp : Placed c e f v perm 0 t (G.setOwn g (some ⟨e, .table i⟩)) u H) :
    Placed c e f v perm 1 s G u H := by
  obtain ⟨hmoves, hsame⟩ := h.createTable ho hi hzero hnew
  have hmoves' := hmoves.mono (Q := Role.apart v) (fun _ hr => Role.offWalk_of_apart hr)
    (Nat.le_refl 1)
  have henv : (t.envs e).ptrPageWorkingSet = (s.envs e).ptrPageWorkingSet := by rw [hsame.envs]
  have hkeep : ∀ f' r, r.offWalk = true →
      ((G.setOwn g (some ⟨e, .table i⟩)).own f' = some ⟨e, r⟩ ↔ G.own f' = some ⟨e, r⟩) :=
    hmoves.keeps.own
  constructor
  case moves => exact hmoves'.trans hp.moves rfl henv
  case page => exact hp.page
  case rest => exact hsame.trans hp.rest
  case slots => exact hp.slots
  case mem_self => rw [hp.mem_self, hmoves.keeps.mem f _ rfl hf]
  case pte_self => exact hp.pte_self
  case pte =>
    intro v' f' hf'
    rw [hp.pte v' f' ((hkeep f' _ rfl).2 hf'),
      h.pteWord_createTable (b := false) ho hzero hnew hf']
  case held =>
    intro f' e'
    rw [hp.held, Ghost.setOwn_eq_some]
    constructor
    · rintro ⟨hne, ⟨-, hx⟩ | ⟨-, hx⟩⟩
      · cases hx
      · exact ⟨hne, hx⟩
    · rintro ⟨hne, hx⟩
      refine ⟨hne, .inr ⟨?_, hx⟩⟩
      rintro rfl
      have hgfree : f' ∈ s.freeFrameList := by
        rw [hnew.free_eq]
        exact List.mem_cons_self
      rw [ho.own_free hgfree] at hx
      cases hx

/-! ## map_frame and loadtime_map_frame -/

theorem pdx_roundDown (v : Nat) : pdx (roundDown v 4096) = pdx v := by
  simp only [pdx, roundDown]
  omega

theorem ptx_roundDown (v : Nat) : ptx (roundDown v 4096) = ptx v := by
  simp only [ptx, roundDown]
  omega

theorem roundDown_aligned (v : Nat) : roundDown v 4096 % 4096 = 0 := by
  simp only [roundDown]
  omega

theorem roundDown_le (v : Nat) : roundDown v 4096 ≤ v := by
  simp only [roundDown]
  omega

theorem roundDown_eq {v : Nat} (h : v % 4096 = 0) : roundDown v 4096 = v := by
  simp only [roundDown]
  omega

section MapHeld

variable {f v : Nat} {perm : Word}

/-- Creating the table and entering the frame. -/
theorem Space.enterNew (h : Space c s G e) (ho : Owned c s G) (hf : G.own f = some ⟨e, .held⟩)
    (hv : v < userTop) (hnone : ∀ g b, ¬ G.Target e (roundDown v 4096) g b)
    (hperm : perm.toNat < 4096) (hhas : (perm ||| permPresent).has permUserPage = true)
    (hzero : s.mem (s.dirFrame e) (pdx v) = 0#32) {g p : Nat}
    (hnew : NewTable c s t (s.dirFrame e) (pdx v) g p) :
    t.virtualAddresses g = p ∧ t.mem g (ptx v) = 0#32 ∧
      enterFrame t p f v perm =
        .ok ((incrementReferences t f).setWord g (ptx v) (frameEntry f perm)) ∧
      ∃ H, Placed c e f (roundDown v 4096) perm 1 s G
        ((incrementReferences t f).setWord g (ptx v) (frameEntry f perm)) H := by
  have hi := pdx_user hv
  obtain ⟨hmoves, -⟩ := h.createTable ho hi hzero hnew
  have hfn : G.own f ≠ none := by simp [hf]
  have hg : t.virtualAddresses g = p := by
    rw [hnew.va_eq, Function.update_self]
  have hgne : t.virtualAddresses g ≠ 0 := by
    rw [hg]
    exact hnew.p_ne
  have henter := enterFrame_eq hmoves.owned.inv.map hgne v (ho.lt hfn) perm
  rw [hg] at henter
  refine ⟨hg, hnew.mem_table (ptx_lt v), henter, ?_⟩
  have hf' := (hmoves.keeps.own f .held rfl).2 hf
  have hnone' : ∀ f' b, ¬ (G.setOwn g (some ⟨e, .table (pdx v)⟩)).Target e (roundDown v 4096) f'
      b := by
    intro f' b ht
    refine hnone f' b ?_
    cases b with
    | false => exact (hmoves.keeps.own f' _ rfl).1 ht
    | true =>
      obtain ⟨k, hk, hw⟩ := ht
      exact ⟨k, (hmoves.keeps.own f' _ rfl).1 hk, hw⟩
  have htb : (G.setOwn g (some ⟨e, .table (pdx v)⟩)).own g =
      some ⟨e, .table (pdx (roundDown v 4096))⟩ := by
    rw [G.setOwn_self, pdx_roundDown]
  have hle := roundDown_le v
  have hplaced := hmoves.space.fillPage hmoves.owned hf' (roundDown_aligned v) (by omega) htb
    hnone' hperm hhas
  rw [ptx_roundDown] at hplaced
  exact ⟨_, hplaced.afterTable h ho hi hzero hnew hf⟩

/-- Entering the frame in a table that exists. -/
theorem Space.enterOld (h : Space c s G e) (ho : Owned c s G) (hf : G.own f = some ⟨e, .held⟩)
    (hv : v < userTop) (hnone : ∀ g b, ¬ G.Target e (roundDown v 4096) g b)
    (hperm : perm.toNat < 4096) (hhas : (perm ||| permPresent).has permUserPage = true) {tb : Nat}
    (htb : G.own tb = some ⟨e, .table (pdx v)⟩) :
    s.mem tb (ptx v) = 0#32 ∧
      ∃ H, Placed c e f (roundDown v 4096) perm 1 s G
        ((incrementReferences s f).setWord tb (ptx v) (frameEntry f perm)) H := by
  have hle := roundDown_le v
  have hv' : roundDown v 4096 < userTop := by omega
  have htb' := htb
  rw [← pdx_roundDown] at htb'
  have hzero := (h.pte_eq_zero_iff (roundDown_aligned v) hv' htb').2 hnone
  have hplaced := h.fillPage ho hf (roundDown_aligned v) hv' htb' hnone hperm hhas
  rw [ptx_roundDown] at hzero hplaced
  exact ⟨hzero, _, { hplaced with moves := hplaced.moves.mono (fun _ hr => hr) (by omega) }⟩

/-- `map_frame` of a held frame at a page where nothing is mapped. -/
theorem Space.mapFrame_held (h : Space c s G e) (ho : Owned c s G)
    (hf : G.own f = some ⟨e, .held⟩) (hv : v < userTop)
    (hnone : ∀ g b, ¬ G.Target e (roundDown v 4096) g b) (hperm : perm.toNat < 4096)
    (hhas : (perm ||| permPresent).has permUserPage = true) :
    Ensures (fun _ => ¬ Enough s 1)
      (fun t => ∃ H, Placed c e f (roundDown v 4096) perm 1 s G t H)
      (mapFrame s (s.envs e).envPageDirectory f v perm) := by
  have hd := h.dirAt ho
  have hfn : G.own f ≠ none := by simp [hf]
  have hflt := ho.lt hfn
  rcases h.lookup hv with hzero | ⟨tb, hnames, htb⟩
  · simp only [mapFrame, mapFrameWith, getPageTable_user_none ho.inv.map hd hv hzero, ok_bind,
      if_true]
    refine (h.createPageTable_spec ho v).bind ?_
    rintro ⟨p, t⟩ (⟨hno, hr⟩ | ⟨g, -, hnew, hp⟩)
    · -- no table: the entry is looked up through `NULL`
      cases hr
      have hlt := ptx_lt v
      have hload := ho.inv.map.load_null (a := 0 + 4 * ptx v) (by omega)
      simp only [hload, error_bind, ensures_error]
      exact hno
    · simp only at hnew hp
      obtain ⟨hg, hmem, henter, hplaced⟩ := h.enterNew ho hf hv hnone hperm hhas hzero hnew
      have hinv := hnew.inv ho.inv hd.ne
      have hne : t.virtualAddresses g ≠ 0 := by
        rw [hg]
        exact hp
      have hload := load_pte hinv.map hne v
      rw [hg] at hload
      simp only [hload, ok_bind, hmem, zero_has_present, Bool.false_eq_true, if_false, henter,
        ensures_ok]
      exact hplaced
  · obtain ⟨hzero, hplaced⟩ := h.enterOld ho hf hv hnone hperm hhas htb
    rw [mapFrame, mapFrameWith_user_zero ho.inv.map hd hv hnames (Space.table_va ho htb) hzero hflt]
    exact hplaced

/-- `loadtime_map_frame` of a held frame at a page where nothing is mapped. -/
theorem Space.loadtimeMapFrame_held (h : Space c s G e) (ho : Owned c s G)
    (hf : G.own f = some ⟨e, .held⟩) (hv : v < userTop)
    (hnone : ∀ g b, ¬ G.Target e (roundDown v 4096) g b) (hperm : perm.toNat < 4096)
    (hhas : (perm ||| permPresent).has permUserPage = true) :
    Ensures (fun _ => ¬ Enough s 1)
      (fun t => ∃ H, Placed c e f (roundDown v 4096) perm 1 s G t H)
      (loadtimeMapFrame s (s.envs e).envPageDirectory f v perm) := by
  have hd := h.dirAt ho
  have hfn : G.own f ≠ none := by simp [hf]
  have hflt := ho.lt hfn
  rcases h.lookup hv with hzero | ⟨tb, hnames, htb⟩
  · simp only [loadtimeMapFrame, load_pde ho.inv.map hd v, ok_bind, tablePointer_user hv, hzero,
      if_true]
    refine (h.createPageTable_spec ho v).bind ?_
    rintro ⟨p, t⟩ (⟨hno, hr⟩ | ⟨g, -, hnew, hp⟩)
    · cases hr
      have hlt := ptx_lt v
      have hmap : KernelMap c (incrementReferences s f) :=
        ho.inv.map.congr (fun _ _ => rfl) rfl rfl rfl rfl rfl rfl
      have hstore := hmap.store_null (a := 0 + 4 * ptx v) (by omega)
        (constructEntry (toPhysicalAddress f) (perm ||| permPresent))
      simp only [enterFrame, hstore, ensures_error]
      exact hno
    · simp only at hnew hp
      obtain ⟨-, -, henter, hplaced⟩ := h.enterNew ho hf hv hnone hperm hhas hzero hnew
      simp only [henter, ensures_ok]
      exact hplaced
  · obtain ⟨-, hplaced⟩ := h.enterOld ho hf hv hnone hperm hhas htb
    have henter := enterFrame_eq ho.inv.map (Space.table_va ho htb) v hflt perm
    simp only [loadtimeMapFrame, load_pde ho.inv.map hd v, ok_bind, tablePointer_user hv,
      hnames.ne_zero, if_false, hnames.frame_eq, henter, ensures_ok]
    exact hplaced

end MapHeld

/-! ## allocate_frame -/

/-- Everything but held frames. -/
def Role.notHeld : Role → Bool
  | .held => false
  | .dir | .table _ | .page _ | .ws _ | .ddir | .dtable _ => true

/-- `allocate_frame` on behalf of `e`. -/
theorem Space.hold (h : Space c s G e) (ho : Owned c s G) {f : Nat} {rest : List Nat}
    (hfree : s.freeFrameList = f :: rest) :
    Moves c e Role.notHeld 1 s G (takeFrame s f rest) (G.setOwn f (some ⟨e, .held⟩)) := by
  have hg : G.own f = none := ho.own_free (by rw [hfree]; exact List.mem_cons_self)
  have hown : ∀ g o, o ≠ ⟨e, .held⟩ →
      ((G.setOwn f (some ⟨e, .held⟩)).own g = some o ↔ G.own g = some o) := by
    intro g o hne
    rw [Ghost.setOwn_eq_some]
    constructor
    · rintro (⟨-, hx⟩ | ⟨-, hx⟩)
      · cases hx
        exact absurd rfl hne
      · exact hx
    · intro hx
      refine .inr ⟨?_, hx⟩
      rintro rfl
      rw [hg] at hx
      cases hx
  refine ⟨ho.hold hfree e, ?_, ?_, ?_, fun n _ hb => hb, rfl, rfl, takeFrame_spent hfree⟩
  · refine h.congr ?_ rfl (fun _ _ _ _ => rfl) rfl rfl rfl
    intro g r hr
    refine hown g _ ?_
    intro hx
    cases hx
    cases hr
  · refine Local.of_frame (f := f) ⟨rfl, rfl, rfl, rfl, rfl, rfl, rfl⟩ (fun _ _ => rfl) rfl
      (fun g hne => G.setOwn_of_ne _ hne) (by simp [hg]) ?_ (fun _ _ _ _ => rfl)
      (fun _ _ _ _ => rfl) (fun _ _ _ _ hb => hb) rfl
    intro o hx
    rw [G.setOwn_self] at hx
    cases hx
    rfl
  · refine ⟨fun g r hr => hown g _ ?_, fun _ _ _ _ => rfl, fun _ _ _ _ => rfl⟩
    intro hx
    cases hx
    cases hr

/-- The frame `allocate_frame` returns. -/
theorem Space.allocateFrame_spec (h : Space c s G e) (ho : Owned c s G) :
    Ensures (fun _ => ¬ Enough s 1)
      (fun r => G.own r.1 = none ∧ SameRest s r.2 ∧ r.2.mem = s.mem ∧
        s.freeFrameList = r.1 :: r.2.freeFrameList ∧
        Moves c e Role.notHeld 1 s G r.2 (G.setOwn r.1 (some ⟨e, .held⟩)))
      (allocateFrame s) := by
  refine (FosMemory.allocateFrame_spec s).mono ?_ ?_
  · rintro x ⟨hnil, -⟩ hen
    have := hen.1
    rw [hnil] at this
    simp at this
  · rintro ⟨f, t⟩ ⟨rest, hfree, ht⟩
    simp only at hfree ht
    subst ht
    refine ⟨ho.own_free ?_, ⟨rfl, rfl, rfl, rfl, rfl, rfl, rfl⟩, rfl, hfree, h.hold ho hfree⟩
    rw [hfree]
    exact List.mem_cons_self

theorem Role.notHeld_of_apart {v : Nat} {r : Role} (h : r.apart v = true) : r.notHeld = true := by
  cases r <;> first | rfl | cases h

/-- A frame is allocated and then placed. -/
theorem Placed.afterAllocate {f v k : Nat} {perm : Word} (hsame : SameRest s t) (hmem : t.mem = s.mem)
    (hm : Moves c e Role.notHeld 1 s G t (G.setOwn f (some ⟨e, .held⟩)))
    (hp : Placed c e f v perm k t (G.setOwn f (some ⟨e, .held⟩)) u H) :
    Placed c e f v perm (1 + k) s G u H := by
  have henv : (t.envs e).ptrPageWorkingSet = (s.envs e).ptrPageWorkingSet := by rw [hsame.envs]
  have hfd : t.dirFrame e = s.dirFrame e := by
    rw [Kernel.dirFrame, hsame.envs]
    rfl
  constructor
  case moves =>
    exact (hm.mono (fun _ hr => Role.notHeld_of_apart hr) (Nat.le_refl 1)).trans hp.moves rfl henv
  case page => exact hp.page
  case rest => exact hsame.trans hp.rest
  case slots => exact hp.slots
  case mem_self => rw [hp.mem_self, hmem]
  case pte_self => exact hp.pte_self
  case pte =>
    intro v' g hg
    rw [hp.pte v' g ((hm.keeps.own g _ rfl).2 hg), Kernel.pteWord, Kernel.pteWord, hfd, hmem]
  case held =>
    intro g e'
    rw [hp.held, Ghost.setOwn_eq_some]
    constructor
    · rintro ⟨hne, ⟨hx, -⟩ | ⟨-, hx⟩⟩
      · exact absurd hx hne
      · exact ⟨hne, hx⟩
    · rintro ⟨hne, hx⟩
      exact ⟨hne, .inr ⟨hne, hx⟩⟩

/-! ## unmap_frame -/

/-- The user page `v` in frame `f` has been unmapped. -/
structure Removed (c : Boot) (e f v : Nat) (s : Kernel) (G : Ghost) (t : Kernel) : Prop where
  moves : Moves c e (Role.apart v) 0 s G t (G.setOwn f none)
  rest : SameRest s t
  pte : ∀ v' g, v' ≠ v → G.own g = some ⟨e, .page v'⟩ → t.pteWord e v' = s.pteWord e v'
  mem_self : t.mem f = s.mem f
  free : t.freeFrameList = f :: s.freeFrameList

theorem Space.clearPage (h : Space c s G e) (ho : Owned c s G) {f v tb : Nat}
    (hf : G.own f = some ⟨e, .page v⟩) (htb : G.own tb = some ⟨e, .table (pdx v)⟩) :
    Removed c e f v s G ((decrementReferences s f).setWord tb (ptx v) 0#32) := by
  obtain ⟨hal, hv, -⟩ := h.target v f false hf
  have htbn : G.own tb ≠ none := by simp [htb]
  have hne : ∀ g o, o ≠ ⟨e, .page v⟩ → G.own g = some o → g ≠ f := by
    rintro g o hne hg rfl
    rw [hf] at hg
    cases hg
    exact hne rfl
  have htf : tb ≠ f := hne tb _ (by simp) htb
  have hown : ∀ g o, o ≠ ⟨e, .page v⟩ → ((G.setOwn f none).own g = some o ↔ G.own g = some o) := by
    intro g o hp
    rw [Ghost.setOwn_eq_some]
    constructor
    · rintro (⟨-, hx⟩ | ⟨-, hx⟩)
      · cases hx
      · exact hx
    · exact fun hx => .inr ⟨hne g o hp hx, hx⟩
  have hself : ∀ g, (G.setOwn f none).own g ≠ some ⟨e, .page v⟩ := by
    intro g hx
    rcases Ghost.setOwn_eq_some.1 hx with ⟨-, hx⟩ | ⟨hgf, hx⟩
    · cases hx
    · exact hgf (h.target_unique (a := false) (b := false) hf hx).1
  have hmem : ∀ g j, ((decrementReferences s f).setWord tb (ptx v) 0#32).mem g j =
      if g = tb ∧ j = ptx v then 0#32 else s.mem g j := by
    intro g j
    rw [Kernel.setWord_mem, decrementReferences_mem]
  have hframe : ∀ g, g ≠ tb →
      ((decrementReferences s f).setWord tb (ptx v) 0#32).mem g = s.mem g := by
    intro g hg
    rw [Kernel.setWord_mem_frame hg, decrementReferences_mem]
  have hva : ((decrementReferences s f).setWord tb (ptx v) 0#32).virtualAddresses =
      s.virtualAddresses := decrementReferences_virtualAddresses
  have hrest : SameRest s ((decrementReferences s f).setWord tb (ptx v) 0#32) := by
    have hdec := decrementReferences_sameRest (s := s) (f := f)
    exact ⟨hdec.disk, hdec.diskFreeFrameList, hdec.envs, hdec.envFreeList, hdec.curenv, hdec.cr3,
      hdec.pageRepAlgoType⟩
  have hspace : Space c ((decrementReferences s f).setWord tb (ptx v) 0#32) (G.setOwn f none) e := by
    refine h.setPte (w := 0#32) hal hv htb ?_ ?_ (.inl ⟨rfl, ?_⟩) (fun g r _ _ j => hmem g j)
      (by rw [hva]) (by rw [hrest.envs]) (by rw [hrest.envs])
    · intro g r hr
      refine hown g _ ?_
      intro hx
      cases hx
      cases hr
    · intro v' g b hvv
      cases b with
      | false => exact hown g _ (by simpa using hvv)
      | true =>
        refine exists_congr fun k => ?_
        rw [hown g _ (by simp)]
        rfl
    · intro g b ht
      cases b with
      | false => exact hself g ht
      | true =>
        obtain ⟨k, hk, hw⟩ := ht
        have hold : G.Target e v g true := ⟨k, (hown g _ (by simp)).1 hk, hw⟩
        have := (h.target_unique (a := false) hf hold).2
        cases this
  constructor
  case moves =>
    refine ⟨?_, hspace, ?_, ?_, ?_, rfl, rfl, ?_⟩
    · refine (ho.drop hf).setWord ?_ _ _
      rw [G.setOwn_of_ne _ htf]
      exact htbn
    · refine Local.of_frame (f := f) hrest (fun _ _ => rfl) rfl (fun g hg => G.setOwn_of_ne _ hg)
        ?_ ?_ ?_ (fun g _ _ _ => by rw [hva]) (fun _ _ _ _ hb => decrementReferences_block hb)
        (hframe 1 (ho.low_ne (by decide) htbn))
      · intro o hx
        rw [hf] at hx
        cases hx
        rfl
      · intro o hx
        rw [G.setOwn_self] at hx
        cases hx
      · intro g o hg he
        refine hframe g ?_
        rintro rfl
        rw [htb] at hg
        cases hg
        exact he rfl
    · refine ⟨?_, ?_, fun g _ _ _ => by rw [hva]⟩
      · intro g r hr
        refine hown g _ ?_
        intro hx
        cases hx
        simp [Role.apart] at hr
      · intro g r hr hg
        refine hframe g ?_
        rintro rfl
        rw [htb] at hg
        cases hg
        cases hr
    · exact fun n _ hb => decrementReferences_block hb
    · exact decrementReferences_spent (by rw [(ho.page hf).2])
  case rest => exact hrest
  case pte =>
    intro v' g hvv hg
    obtain ⟨hal', hv', tb', htb', -⟩ := h.target v' g false hg
    have htb'' : (G.setOwn f none).own tb' = some ⟨e, .table (pdx v')⟩ :=
      (hown tb' _ (by simp)).2 htb'
    rw [hspace.pteWord_eq htb'', h.pteWord_eq htb', hmem, if_neg]
    rintro ⟨rfl, hptx⟩
    rw [htb] at htb'
    injection htb' with hx
    injection hx with _ hx
    injection hx with hpdx
    exact hvv (page_inj hal hal' hv hv' hpdx.symm hptx)
  case mem_self => exact hframe f (Ne.symm htf)
  case free =>
    have hone := (ho.page hf).2
    show (decrementReferences s f).freeFrameList = _
    rw [decrementReferences_freeFrameList (by omega), if_pos hone]

/-- `unmap_frame` of a user page: one word of its table, and the count of its frame. -/
theorem Space.unmapFrame_page_eq (h : Space c s G e) (ho : Owned c s G) {f v : Nat}
    (hf : G.own f = some ⟨e, .page (roundDown v 4096)⟩) :
    ∃ tb t, G.own tb = some ⟨e, .table (pdx v)⟩ ∧
      unmapFrame s (s.envs e).envPageDirectory v = .ok t ∧
      t.mem = (s.setWord tb (ptx v) 0#32).mem ∧ Removed c e f (roundDown v 4096) s G t := by
  obtain ⟨-, hlt, tb, htb, hw⟩ := h.target _ f false hf
  have hv : v < userTop := by
    simp only [roundDown, userTop] at hlt ⊢
    omega
  have hremoved := h.clearPage ho hf htb
  rw [pdx_roundDown] at htb
  rw [ptx_roundDown] at hw hremoved
  have hframe : (s.mem tb (ptx v)).frame = f := hw.frame_eq
  have hram : (s.mem tb (ptx v)).frame < c.numberOfFrames := by
    rw [hframe]
    exact (ho.in_ram f (by simp [hf])).1
  have hun := unmapFrame_user ho.inv.map (h.dirAt ho) hv (h.table tb _ htb).2
    (Space.table_va ho htb) (entryFor_ne_zero hw) hram
  rw [hframe] at hun
  refine ⟨tb, _, htb, hun, ?_, hremoved⟩
  rw [Kernel.setWord, decrementReferences_mem]
  rfl

/-- `unmap_frame` of a user page. -/
theorem Space.unmapFrame_page (h : Space c s G e) (ho : Owned c s G) {f v : Nat}
    (hf : G.own f = some ⟨e, .page (roundDown v 4096)⟩) :
    ∃ t, unmapFrame s (s.envs e).envPageDirectory v = .ok t ∧
      Removed c e f (roundDown v 4096) s G t := by
  obtain ⟨tb, t, -, hun, -, hremoved⟩ := h.unmapFrame_page_eq ho hf
  exact ⟨t, hun, hremoved⟩

/-- `unmap_frame` where nothing is mapped. -/
theorem Space.unmapFrame_none (h : Space c s G e) (ho : Owned c s G) {v : Nat} (hv : v < userTop)
    (hnone : ∀ g b, ¬ G.Target e (roundDown v 4096) g b) :
    unmapFrame s (s.envs e).envPageDirectory v = .ok s := by
  rcases h.lookup hv with hzero | ⟨tb, hnames, htb⟩
  · exact unmapFrame_user_none ho.inv.map (h.dirAt ho) hv hzero
  · have hle := roundDown_le v
    have htb' := htb
    rw [← pdx_roundDown] at htb'
    have hzero := (h.pte_eq_zero_iff (roundDown_aligned v) (by omega) htb').2 hnone
    rw [ptx_roundDown] at hzero
    exact unmapFrame_user_zero ho.inv.map (h.dirAt ho) hv hnames (Space.table_va ho htb) hzero

end FosMemory
