import FosMemory.Kernel.Ownership

/-!
# AddressSpace — the user half of an environment's directory

`Space` says that the directory of an environment, its page tables and the frames behind its pages
are the ones the record gives it, and that the window shows its own working set array and nothing
else.  Every operation on the user half is a change of one entry (`Space.setPte`) or of one table.
-/

namespace FosMemory

open Lib

/-! ## The invariant -/

/-- The frame of the page directory of `e`. -/
def Kernel.dirFrame (s : Kernel) (e : Nat) : Nat :=
  (s.envs e).envCr3 / 4096

/-- The page table entry for `v` in the directory of `e`. -/
def Kernel.pteWord (s : Kernel) (e v : Nat) : Word :=
  s.mem (s.mem (s.dirFrame e) (pdx v)).frame (ptx v)

/-- The permissions of a page of the window. -/
def permWindow : Word := permUser ||| permPresent

/-- Frame `f` belongs behind page `v` of `e`: as a user page, or as a page of the window. -/
def Ghost.Target (G : Ghost) (e v f : Nat) : Bool → Prop
  | false => G.own f = some ⟨e, .page v⟩
  | true => ∃ k, G.own f = some ⟨e, .ws k⟩ ∧ G.win e k = true ∧ v = userPagesWSStart + 4096 * k

/-- An entry for a user page (`false`) or for a page of the window (`true`). -/
def EntryFor (f : Nat) (w : Word) : Bool → Prop
  | false => Names w f permUserPage
  | true => Names w f permWindow ∧ w.has permWriteable = false

structure Space (c : Boot) (s : Kernel) (G : Ghost) (e : Nat) : Prop where
  dir_own : G.own (s.dirFrame e) = some ⟨e, .dir⟩
  dir_unique : ∀ f, G.own f = some ⟨e, .dir⟩ → f = s.dirFrame e
  cr3_eq : (s.envs e).envCr3 = s.dirFrame e * 4096
  dir_at : s.virtualAddresses (s.dirFrame e) = (s.envs e).envPageDirectory
  pde : ∀ i < 955, s.mem (s.dirFrame e) i = 0#32 ∨
    ∃ t, Names (s.mem (s.dirFrame e) i) t permUserPage ∧ G.own t = some ⟨e, .table i⟩
  kernel_pde : ∀ i, 955 ≤ i → i < 1024 → i ≠ 957 → i ≠ 959 →
    s.mem (s.dirFrame e) i = c.dirEntry i
  table : ∀ t i, G.own t = some ⟨e, .table i⟩ →
    i < 955 ∧ Names (s.mem (s.dirFrame e) i) t permUserPage
  pte : ∀ t i, G.own t = some ⟨e, .table i⟩ → ∀ j < 1024, s.mem t j = 0#32 ∨
    ∃ f b, G.Target e (entryAddress i j) f b ∧ EntryFor f (s.mem t j) b
  target : ∀ v f b, G.Target e v f b → v % 4096 = 0 ∧ v < userTop ∧
    ∃ t, G.own t = some ⟨e, .table (pdx v)⟩ ∧ EntryFor f (s.mem t (ptx v)) b

/-! ## Frame conditions -/

/-- The frames of `e` in the roles `P` are the same and hold the same. -/
structure Keeps (e : Nat) (P : Role → Bool) (s : Kernel) (G : Ghost) (t : Kernel) (H : Ghost) :
    Prop where
  own : ∀ f r, P r = true → (H.own f = some ⟨e, r⟩ ↔ G.own f = some ⟨e, r⟩)
  mem : ∀ f r, P r = true → G.own f = some ⟨e, r⟩ → t.mem f = s.mem f
  va : ∀ f r, P r = true → G.own f = some ⟨e, r⟩ → t.virtualAddresses f = s.virtualAddresses f

theorem Keeps.refl (e : Nat) (P : Role → Bool) (s : Kernel) (G : Ghost) : Keeps e P s G s G :=
  ⟨fun _ _ _ => Iff.rfl, fun _ _ _ _ => rfl, fun _ _ _ _ => rfl⟩

theorem Keeps.trans {e : Nat} {P : Role → Bool} {s t u : Kernel} {G H I : Ghost}
    (h : Keeps e P s G t H) (h' : Keeps e P t H u I) : Keeps e P s G u I := by
  constructor
  case own => exact fun f r hr => (h'.own f r hr).trans (h.own f r hr)
  case mem =>
    intro f r hr hf
    rw [h'.mem f r hr ((h.own f r hr).2 hf), h.mem f r hr hf]
  case va =>
    intro f r hr hf
    rw [h'.va f r hr ((h.own f r hr).2 hf), h.va f r hr hf]

theorem Keeps.mono {e : Nat} {P Q : Role → Bool} {s t : Kernel} {G H : Ghost}
    (h : Keeps e P s G t H) (hPQ : ∀ r, Q r = true → P r = true) : Keeps e Q s G t H :=
  ⟨fun f r hr => h.own f r (hPQ r hr), fun f r hr => h.mem f r (hPQ r hr),
    fun f r hr => h.va f r (hPQ r hr)⟩

/-- The working set array of `e` starts at one of its frames. -/
def WsAt (s : Kernel) (G : Ghost) (e : Nat) : Prop :=
  ∃ f, G.own f = some ⟨e, .ws 0⟩ ∧ s.virtualAddresses f = (s.envs e).ptrPageWorkingSet

/-- The block of the working set array of `e` is still there. -/
def KeepsBlock (e : Nat) (s : Kernel) (G : Ghost) (t : Kernel) : Prop :=
  ∀ n, WsAt s G e → Block s (s.envs e).ptrPageWorkingSet n →
    Block t (s.envs e).ptrPageWorkingSet n

/-- Only things of environment `e` have changed. -/
structure Local (e : Nat) (s : Kernel) (G : Ghost) (t : Kernel) (H : Ghost) : Prop where
  keeps : ∀ e', e' ≠ e → Keeps e' (fun _ => true) s G t H
  win : ∀ e', e' ≠ e → H.win e' = G.win e'
  slots : ∀ e', e' ≠ e → H.slots e' = G.slots e'
  envs : ∀ e', e' ≠ e → t.envs e' = s.envs e'
  disk : ∀ e' v d, e' ≠ e → G.slots e' v = some d → t.disk d = s.disk d
  block : ∀ e', e' ≠ e → KeepsBlock e' s G t
  /-- the shared zero page is never written -/
  zeroPage : t.mem 1 = s.mem 1

theorem Local.refl (e : Nat) (s : Kernel) (G : Ghost) : Local e s G s G :=
  ⟨fun e' _ => Keeps.refl e' _ s G, fun _ _ => rfl, fun _ _ => rfl, fun _ _ => rfl,
    fun _ _ _ _ _ => rfl, fun _ _ _ _ hb => hb, rfl⟩

/-- The array stays where it is. -/
theorem Keeps.wsAt {e : Nat} {P : Role → Bool} {s t : Kernel} {G H : Ghost}
    (h : Keeps e P s G t H) (hP : P (.ws 0) = true)
    (henv : (t.envs e).ptrPageWorkingSet = (s.envs e).ptrPageWorkingSet) (hw : WsAt s G e) :
    WsAt t H e := by
  obtain ⟨f, hf, hva⟩ := hw
  exact ⟨f, (h.own f _ hP).2 hf, by rw [h.va f _ hP hf, henv, hva]⟩

theorem KeepsBlock.trans {e : Nat} {s t u : Kernel} {G H : Ghost} (h : KeepsBlock e s G t)
    (h' : KeepsBlock e t H u) (hw : WsAt s G e → WsAt t H e)
    (henv : (t.envs e).ptrPageWorkingSet = (s.envs e).ptrPageWorkingSet) : KeepsBlock e s G u := by
  intro n hs hb
  have hb' := h' n (hw hs) (by rw [henv]; exact h n hs hb)
  rwa [henv] at hb'

theorem Local.trans {e : Nat} {s t u : Kernel} {G H I : Ghost} (h : Local e s G t H)
    (h' : Local e t H u I) : Local e s G u I := by
  constructor
  case keeps => exact fun e' he => (h.keeps e' he).trans (h'.keeps e' he)
  case win => exact fun e' he => (h'.win e' he).trans (h.win e' he)
  case slots => exact fun e' he => (h'.slots e' he).trans (h.slots e' he)
  case envs => exact fun e' he => (h'.envs e' he).trans (h.envs e' he)
  case disk =>
    intro e' v d he hd
    rw [h'.disk e' v d he (by rw [h.slots e' he]; exact hd), h.disk e' v d he hd]
  case block =>
    intro e' he
    have henv : (t.envs e').ptrPageWorkingSet = (s.envs e').ptrPageWorkingSet := by
      rw [h.envs e' he]
    exact (h.block e' he).trans (h'.block e' he) ((h.keeps e' he).wsAt rfl henv) henv
  case zeroPage => exact h'.zeroPage.trans h.zeroPage

/-- The roles the user half is made of. -/
def Role.inSpace : Role → Bool
  | .dir | .table _ | .page _ | .ws _ => true
  | .ddir | .dtable _ | .held => false

/-- The roles whose contents the user half is made of. -/
def Role.inWalk : Role → Bool
  | .dir | .table _ => true
  | .page _ | .ws _ | .ddir | .dtable _ | .held => false

section Space

variable {c : Boot} {s t : Kernel} {G H : Ghost} {e : Nat}

theorem Ghost.Target.congr {v f : Nat} {b : Bool}
    (hown : ∀ f r, r.inSpace = true → (H.own f = some ⟨e, r⟩ ↔ G.own f = some ⟨e, r⟩))
    (hwin : H.win e = G.win e) : H.Target e v f b ↔ G.Target e v f b := by
  cases b with
  | false => exact hown f (.page v) rfl
  | true =>
    refine exists_congr fun k => ?_
    rw [hown f (.ws k) rfl, hwin]

/-- `Space` reads the directory, the tables and the record. -/
theorem Space.congr (h : Space c s G e)
    (hown : ∀ f r, r.inSpace = true → (H.own f = some ⟨e, r⟩ ↔ G.own f = some ⟨e, r⟩))
    (hwin : H.win e = G.win e)
    (hmem : ∀ f r, r.inWalk = true → G.own f = some ⟨e, r⟩ → t.mem f = s.mem f)
    (hva : t.virtualAddresses (s.dirFrame e) = s.virtualAddresses (s.dirFrame e))
    (hcr3 : (t.envs e).envCr3 = (s.envs e).envCr3)
    (hdir : (t.envs e).envPageDirectory = (s.envs e).envPageDirectory) : Space c t H e := by
  have hfd : t.dirFrame e = s.dirFrame e := by
    rw [Kernel.dirFrame, hcr3]
    rfl
  have hmd : t.mem (s.dirFrame e) = s.mem (s.dirFrame e) := hmem _ .dir rfl h.dir_own
  have htable : ∀ g i, H.own g = some ⟨e, .table i⟩ ↔ G.own g = some ⟨e, .table i⟩ :=
    fun g i => hown g (.table i) rfl
  have htarget : ∀ v f b, H.Target e v f b ↔ G.Target e v f b :=
    fun v f b => Ghost.Target.congr hown hwin
  constructor
  case dir_own =>
    rw [hfd]
    exact (hown _ .dir rfl).2 h.dir_own
  case dir_unique =>
    intro f hf
    rw [hfd]
    exact h.dir_unique f ((hown f .dir rfl).1 hf)
  case cr3_eq =>
    rw [hfd, hcr3]
    exact h.cr3_eq
  case dir_at =>
    rw [hfd, hdir, hva]
    exact h.dir_at
  case pde =>
    intro i hi
    rw [hfd, hmd]
    refine (h.pde i hi).imp id ?_
    rintro ⟨tb, hnames, htb⟩
    exact ⟨tb, hnames, (htable tb i).2 htb⟩
  case kernel_pde =>
    intro i hle hlt h957 h959
    rw [hfd, hmd]
    exact h.kernel_pde i hle hlt h957 h959
  case table =>
    intro tb i htb
    rw [hfd, hmd]
    exact h.table tb i ((htable tb i).1 htb)
  case pte =>
    intro tb i htb j hj
    have hold := (htable tb i).1 htb
    rw [hmem tb _ rfl hold]
    refine (h.pte tb i hold j hj).imp id ?_
    rintro ⟨f, b, ht, hw⟩
    exact ⟨f, b, (htarget _ _ _).2 ht, hw⟩
  case target =>
    intro v f b hv
    obtain ⟨hal, hlt, tb, htb, hw⟩ := h.target v f b ((htarget v f b).1 hv)
    refine ⟨hal, hlt, tb, (htable tb _).2 htb, ?_⟩
    rw [hmem tb _ rfl htb]
    exact hw

/-- The user half of another environment. -/
theorem Space.of_local {e' : Nat} (h : Space c s G e') (hst : Local e s G t H) (hne : e' ≠ e) :
    Space c t H e' := by
  have hk := hst.keeps e' hne
  have henv := hst.envs e' hne
  exact h.congr (fun f r _ => hk.own f r rfl) (hst.win e' hne)
    (fun f r _ hf => hk.mem f r rfl hf) (hk.va _ .dir rfl h.dir_own) (by rw [henv]) (by rw [henv])

/-! ## Lookup -/

theorem Space.dirAt (h : Space c s G e) (ho : Owned c s G) :
    DirAt s (s.envs e).envPageDirectory (s.dirFrame e) := by
  refine ⟨h.dir_at, ?_⟩
  rw [← h.dir_at]
  exact (ho.heap h.dir_own rfl).1

theorem Space.table_va (ho : Owned c s G) {tb i : Nat} (htb : G.own tb = some ⟨e, .table i⟩) :
    s.virtualAddresses tb ≠ 0 :=
  (ho.heap htb rfl).1

/-- The table of an address, if there is one. -/
theorem Space.lookup (h : Space c s G e) {v : Nat} (hv : v < userTop) :
    s.mem (s.dirFrame e) (pdx v) = 0#32 ∨
      ∃ tb, Names (s.mem (s.dirFrame e) (pdx v)) tb permUserPage ∧
        G.own tb = some ⟨e, .table (pdx v)⟩ :=
  h.pde _ (pdx_user hv)

/-- The entry word of an address whose table is known. -/
theorem Space.pteWord_eq (h : Space c s G e) {tb v : Nat}
    (htb : G.own tb = some ⟨e, .table (pdx v)⟩) : s.pteWord e v = s.mem tb (ptx v) := by
  rw [Kernel.pteWord, (h.table tb _ htb).2.frame_eq]

/-- A table number has one frame. -/
theorem Space.table_unique (h : Space c s G e) {tb tb' i : Nat}
    (htb : G.own tb = some ⟨e, .table i⟩) (htb' : G.own tb' = some ⟨e, .table i⟩) : tb = tb' := by
  rw [← (h.table tb i htb).2.frame_eq, (h.table tb' i htb').2.frame_eq]

theorem entryFor_names {f : Nat} {w : Word} {b : Bool} (h : EntryFor f w b) :
    Names w f permWindow := by
  cases b with
  | false =>
    have hperm := has_of_has_or h.has_perm
    have huser := has_of_has_or hperm.1
    refine ⟨h.frame_eq, ?_⟩
    have h₁ := has_iff.1 huser.1
    have h₂ := has_iff.1 hperm.2
    rw [has_iff, permWindow, BitVec.and_or_distrib_left, h₁, h₂]
  | true => exact h.1

theorem entryFor_ne_zero {f : Nat} {w : Word} {b : Bool} (h : EntryFor f w b) : w ≠ 0#32 :=
  (entryFor_names h).ne_zero

theorem entryFor_present {f : Nat} {w : Word} {b : Bool} (h : EntryFor f w b) :
    w.has permPresent = true :=
  (entryFor_names h).present

theorem entryFor_frame {f : Nat} {w : Word} {b : Bool} (h : EntryFor f w b) : w.frame = f :=
  (entryFor_names h).frame_eq

theorem target_own {v f : Nat} {b : Bool} (h : G.Target e v f b) : G.own f ≠ none := by
  cases b with
  | false => simp [show G.own f = _ from h]
  | true =>
    obtain ⟨k, hk, -⟩ := h
    simp [hk]

/-- The frame and the kind of what is mapped at a page are determined. -/
theorem Space.target_unique (h : Space c s G e) {v f f' : Nat} {a b : Bool}
    (hf : G.Target e v f a) (hf' : G.Target e v f' b) : f' = f ∧ b = a := by
  obtain ⟨-, -, tb, htb, hw⟩ := h.target v f a hf
  obtain ⟨-, -, tb', htb', hw'⟩ := h.target v f' b hf'
  have heq := h.table_unique htb htb'
  subst heq
  have hframe : f' = f := by rw [← entryFor_frame hw', entryFor_frame hw]
  subst hframe
  refine ⟨rfl, ?_⟩
  -- a frame that is a user page is no page of the array
  cases a <;> cases b
  · rfl
  · obtain ⟨k, hk, -⟩ := hf'
    rw [show G.own f' = _ from hf] at hk
    cases hk
  · obtain ⟨k, hk, -⟩ := hf
    rw [show G.own f' = _ from hf'] at hk
    cases hk
  · rfl

/-- The entry for a page is zero exactly when nothing is mapped there. -/
theorem Space.pte_eq_zero_iff (h : Space c s G e) {tb v : Nat} (hal : v % 4096 = 0)
    (hv : v < userTop) (htb : G.own tb = some ⟨e, .table (pdx v)⟩) :
    s.mem tb (ptx v) = 0#32 ↔ ∀ f b, ¬ G.Target e v f b := by
  constructor
  · intro hzero f b ht
    obtain ⟨-, -, tb', htb', hw⟩ := h.target v f b ht
    have heq := h.table_unique htb htb'
    subst heq
    exact entryFor_ne_zero hw hzero
  · intro hnone
    rcases h.pte tb _ htb _ (ptx_lt v) with hzero | ⟨f, b, ht, -⟩
    · exact hzero
    · simp only [userTop] at hv
      rw [entryAddress_eq hal (by omega)] at ht
      exact absurd ht (hnone f b)

/-! ## One entry changes -/

/-- Two pages have different entries. -/
theorem page_inj {v v' : Nat} (hal : v % 4096 = 0) (hal' : v' % 4096 = 0) (hv : v < userTop)
    (hv' : v' < userTop) (hpdx : pdx v' = pdx v) (hptx : ptx v' = ptx v) : v' = v := by
  simp only [userTop] at hv hv'
  rw [← entryAddress_eq hal (by omega), ← entryAddress_eq hal' (by omega), hpdx, hptx]

/-- The entry of page `v` becomes `w`, and the record of what is mapped there changes with it. -/
theorem Space.setPte (h : Space c s G e) {tb v : Nat} {w : Word} (hal : v % 4096 = 0)
    (hv : v < userTop) (htb : G.own tb = some ⟨e, .table (pdx v)⟩)
    (hrole : ∀ f r, r.inWalk = true → (H.own f = some ⟨e, r⟩ ↔ G.own f = some ⟨e, r⟩))
    (hother : ∀ v' f b, v' ≠ v → (H.Target e v' f b ↔ G.Target e v' f b))
    (hthis : (w = 0#32 ∧ ∀ f b, ¬ H.Target e v f b) ∨
      ∃ f b, EntryFor f w b ∧ H.Target e v f b ∧ ∀ f' b', H.Target e v f' b' → f' = f ∧ b' = b)
    (hmem : ∀ f r, r.inWalk = true → G.own f = some ⟨e, r⟩ →
      ∀ j, t.mem f j = if f = tb ∧ j = ptx v then w else s.mem f j)
    (hva : t.virtualAddresses (s.dirFrame e) = s.virtualAddresses (s.dirFrame e))
    (hcr3 : (t.envs e).envCr3 = (s.envs e).envCr3)
    (hdir : (t.envs e).envPageDirectory = (s.envs e).envPageDirectory) : Space c t H e := by
  have hfd : t.dirFrame e = s.dirFrame e := by
    rw [Kernel.dirFrame, hcr3]
    rfl
  have hne : s.dirFrame e ≠ tb := by
    intro heq
    have hown := h.dir_own
    rw [heq, htb] at hown
    cases hown
  have hmd : t.mem (s.dirFrame e) = s.mem (s.dirFrame e) := by
    funext j
    rw [hmem _ .dir rfl h.dir_own, if_neg (fun hx => hne hx.1)]
  have htable : ∀ g i, H.own g = some ⟨e, .table i⟩ ↔ G.own g = some ⟨e, .table i⟩ :=
    fun g i => hrole g (.table i) rfl
  constructor
  case dir_own =>
    rw [hfd]
    exact (hrole _ .dir rfl).2 h.dir_own
  case dir_unique =>
    intro f hf
    rw [hfd]
    exact h.dir_unique f ((hrole f .dir rfl).1 hf)
  case cr3_eq =>
    rw [hfd, hcr3]
    exact h.cr3_eq
  case dir_at =>
    rw [hfd, hdir, hva]
    exact h.dir_at
  case pde =>
    intro i hi
    rw [hfd, hmd]
    refine (h.pde i hi).imp id ?_
    rintro ⟨tb', hnames, htb'⟩
    exact ⟨tb', hnames, (htable tb' i).2 htb'⟩
  case kernel_pde =>
    intro i hle hlt h957 h959
    rw [hfd, hmd]
    exact h.kernel_pde i hle hlt h957 h959
  case table =>
    intro tb' i htb'
    rw [hfd, hmd]
    exact h.table tb' i ((htable tb' i).1 htb')
  case pte =>
    intro tb' i htb' j hj
    have hold := (htable tb' i).1 htb'
    rw [hmem tb' _ rfl hold]
    by_cases hx : tb' = tb ∧ j = ptx v
    · -- the entry that changes
      obtain ⟨rfl, rfl⟩ := hx
      rw [htb] at hold
      cases hold
      have haddr : entryAddress (pdx v) (ptx v) = v := by
        simp only [userTop] at hv
        exact entryAddress_eq hal (by omega)
      rw [if_pos ⟨rfl, rfl⟩, haddr]
      rcases hthis with ⟨hw, -⟩ | ⟨f, b, hw, ht, -⟩
      · exact .inl hw
      · exact .inr ⟨f, b, ht, hw⟩
    · rw [if_neg hx]
      refine (h.pte tb' i hold j hj).imp id ?_
      rintro ⟨f, b, ht, hw⟩
      refine ⟨f, b, (hother _ _ _ ?_).2 ht, hw⟩
      intro heq
      have hi := (h.table tb' i hold).1
      have hpdx : pdx (entryAddress i j) = i := pdx_entryAddress (by omega) hj
      have hptx : ptx (entryAddress i j) = j := ptx_entryAddress hj
      rw [heq] at hpdx hptx
      subst hpdx hptx
      exact hx ⟨h.table_unique hold htb, rfl⟩
  case target =>
    intro v' f b ht
    by_cases hvv : v' = v
    · subst hvv
      rcases hthis with ⟨-, hnone⟩ | ⟨f₀, b₀, hw, -, huniq⟩
      · exact absurd ht (hnone f b)
      · obtain ⟨rfl, rfl⟩ := huniq f b ht
        refine ⟨hal, hv, tb, (htable tb _).2 htb, ?_⟩
        rw [hmem tb _ rfl htb, if_pos ⟨rfl, rfl⟩]
        exact hw
    · obtain ⟨hal', hlt', tb', htb', hw⟩ := h.target v' f b ((hother v' f b hvv).1 ht)
      refine ⟨hal', hlt', tb', (htable tb' _).2 htb', ?_⟩
      rw [hmem tb' _ rfl htb', if_neg]
      · exact hw
      · rintro ⟨rfl, hptx⟩
        rw [htb] at htb'
        have hpdx : pdx v' = pdx v := by
          have := Option.some.inj htb'
          injection this with _ hrole
          injection hrole with hi
          exact hi.symm
        exact hvv (page_inj hal hal' hv hlt' hpdx hptx)

/-- Marks in the entry of a page. -/
theorem Space.markPte (h : Space c s G e) {tb v f : Nat} {b : Bool} {w : Word}
    (ht : G.Target e v f b) (htb : G.own tb = some ⟨e, .table (pdx v)⟩) (hw : EntryFor f w b) :
    Space c (s.setWord tb (ptx v) w) G e := by
  obtain ⟨hal, hv, -⟩ := h.target v f b ht
  refine h.setPte hal hv htb (fun _ _ _ => Iff.rfl) (fun _ _ _ _ => Iff.rfl)
    (.inr ⟨f, b, hw, ht, fun f' b' ht' => h.target_unique ht ht'⟩) ?_ rfl rfl rfl
  intro g r _ _ j
  exact s.setWord_mem tb (ptx v) w g j

/-- Marks in a directory entry. -/
theorem Space.markPde (h : Space c s G e) {tb i : Nat} {w : Word}
    (htb : G.own tb = some ⟨e, .table i⟩) (hw : Names w tb permUserPage) :
    Space c (s.setWord (s.dirFrame e) i w) G e := by
  have hi := (h.table tb i htb).1
  have hmem : ∀ j, (s.setWord (s.dirFrame e) i w).mem (s.dirFrame e) j =
      if j = i then w else s.mem (s.dirFrame e) j := by
    intro j
    rw [s.setWord_mem]
    simp
  have htab : ∀ g k, G.own g = some ⟨e, .table k⟩ →
      (s.setWord (s.dirFrame e) i w).mem g = s.mem g := by
    intro g k hg
    refine Kernel.setWord_mem_frame ?_
    rintro rfl
    rw [h.dir_own] at hg
    cases hg
  constructor
  case dir_own => exact h.dir_own
  case dir_unique => exact h.dir_unique
  case cr3_eq => exact h.cr3_eq
  case dir_at => exact h.dir_at
  case pde =>
    intro k hk
    rw [show (s.setWord (s.dirFrame e) i w).dirFrame e = s.dirFrame e from rfl, hmem]
    split
    · rename_i heq
      subst heq
      exact .inr ⟨tb, hw, htb⟩
    · exact h.pde k hk
  case kernel_pde =>
    intro k hle hlt h957 h959
    rw [show (s.setWord (s.dirFrame e) i w).dirFrame e = s.dirFrame e from rfl, hmem,
      if_neg (by omega)]
    exact h.kernel_pde k hle hlt h957 h959
  case table =>
    intro tb' k htb'
    rw [show (s.setWord (s.dirFrame e) i w).dirFrame e = s.dirFrame e from rfl, hmem]
    split
    · rename_i heq
      subst heq
      rw [h.table_unique htb' htb]
      exact ⟨hi, hw⟩
    · exact h.table tb' k htb'
  case pte =>
    intro tb' k htb' j hj
    rw [htab tb' k htb']
    exact h.pte tb' k htb' j hj
  case target =>
    intro v f b ht
    obtain ⟨hal, hv, tb', htb', hw'⟩ := h.target v f b ht
    refine ⟨hal, hv, tb', htb', ?_⟩
    rw [htab tb' _ htb']
    exact hw'

/-! ## Tables come and go -/

theorem target_setOwn_of_not_space {v f g : Nat} {b : Bool} {o : Option Owner}
    (hold : ∀ r, r = .page v ∨ (∃ k, r = .ws k) → G.own g ≠ some ⟨e, r⟩)
    (hnew : ∀ r, r = .page v ∨ (∃ k, r = .ws k) → o ≠ some ⟨e, r⟩) :
    (G.setOwn g o).Target e v f b ↔ G.Target e v f b := by
  have hiff : ∀ r, r = .page v ∨ (∃ k, r = .ws k) →
      ((G.setOwn g o).own f = some ⟨e, r⟩ ↔ G.own f = some ⟨e, r⟩) := by
    intro r hr
    rw [Ghost.setOwn_eq_some]
    constructor
    · rintro (⟨-, ho⟩ | ⟨-, hx⟩)
      · exact absurd ho (hnew r hr)
      · exact hx
    · intro hx
      refine .inr ⟨?_, hx⟩
      rintro rfl
      exact hold r hr hx
  cases b with
  | false => exact hiff _ (.inl rfl)
  | true =>
    refine exists_congr fun k => ?_
    rw [hiff _ (.inr ⟨k, rfl⟩)]
    rfl

/-- A new empty table is entered in the directory. -/
theorem Space.newTable (h : Space c s G e) {g i : Nat} (hi : i < 955)
    (hzero : s.mem (s.dirFrame e) i = 0#32) (hg : G.own g = none)
    (hnames : Names (t.mem (s.dirFrame e) i) g permUserPage)
    (hdir : ∀ k, k ≠ i → t.mem (s.dirFrame e) k = s.mem (s.dirFrame e) k)
    (hempty : ∀ j < 1024, t.mem g j = 0#32)
    (hmem : ∀ f k, G.own f = some ⟨e, .table k⟩ → t.mem f = s.mem f)
    (hva : t.virtualAddresses (s.dirFrame e) = s.virtualAddresses (s.dirFrame e))
    (henvs : t.envs e = s.envs e) : Space c t (G.setOwn g (some ⟨e, .table i⟩)) e := by
  have hfd : t.dirFrame e = s.dirFrame e := by
    rw [Kernel.dirFrame, henvs]
    rfl
  have hne : ∀ f, G.own f ≠ none → f ≠ g := by
    rintro f hf rfl
    exact hf hg
  have htarget : ∀ v f b, (G.setOwn g (some ⟨e, .table i⟩)).Target e v f b ↔ G.Target e v f b := by
    intro v f b
    refine target_setOwn_of_not_space (fun r _ => by simp [hg]) (fun r hr hx => ?_)
    cases hx
    rcases hr with hr | ⟨k, hr⟩ <;> cases hr
  have htable : ∀ f k, (G.setOwn g (some ⟨e, .table i⟩)).own f = some ⟨e, .table k⟩ ↔
      (f = g ∧ k = i) ∨ G.own f = some ⟨e, .table k⟩ := by
    intro f k
    rw [Ghost.setOwn_eq_some]
    constructor
    · rintro (⟨hf, hx⟩ | ⟨-, hx⟩)
      · cases hx
        exact .inl ⟨hf, rfl⟩
      · exact .inr hx
    · rintro (⟨rfl, rfl⟩ | hx)
      · exact .inl ⟨rfl, rfl⟩
      · exact .inr ⟨hne f (by simp [hx]), hx⟩
  have hold : ∀ f k, G.own f = some ⟨e, .table k⟩ → k ≠ i := by
    rintro f k hf rfl
    exact (h.table f k hf).2.ne_zero hzero
  constructor
  case dir_own =>
    rw [hfd, G.setOwn_of_ne _ (hne _ (by simp [h.dir_own]))]
    exact h.dir_own
  case dir_unique =>
    intro f hf
    rw [hfd]
    rcases Ghost.setOwn_eq_some.1 hf with ⟨-, hx⟩ | ⟨-, hx⟩
    · cases hx
    · exact h.dir_unique f hx
  case cr3_eq =>
    rw [hfd, henvs]
    exact h.cr3_eq
  case dir_at =>
    rw [hfd, henvs, hva]
    exact h.dir_at
  case pde =>
    intro k hk
    rw [hfd]
    by_cases hki : k = i
    · subst hki
      exact .inr ⟨g, hnames, (htable g k).2 (.inl ⟨rfl, rfl⟩)⟩
    · rw [hdir k hki]
      refine (h.pde k hk).imp id ?_
      rintro ⟨tb, hn, htb⟩
      exact ⟨tb, hn, (htable tb k).2 (.inr htb)⟩
  case kernel_pde =>
    intro k hle hlt h957 h959
    rw [hfd, hdir k (by omega)]
    exact h.kernel_pde k hle hlt h957 h959
  case table =>
    intro tb k htb
    rw [hfd]
    rcases (htable tb k).1 htb with ⟨rfl, rfl⟩ | htb
    · exact ⟨hi, hnames⟩
    · rw [hdir k (hold tb k htb)]
      exact h.table tb k htb
  case pte =>
    intro tb k htb j hj
    rcases (htable tb k).1 htb with ⟨rfl, rfl⟩ | htb
    · exact .inl (hempty j hj)
    · rw [hmem tb k htb]
      refine (h.pte tb k htb j hj).imp id ?_
      rintro ⟨f, b, ht, hw⟩
      exact ⟨f, b, (htarget _ _ _).2 ht, hw⟩
  case target =>
    intro v f b ht
    obtain ⟨hal, hv, tb, htb, hw⟩ := h.target v f b ((htarget v f b).1 ht)
    refine ⟨hal, hv, tb, (htable tb _).2 (.inr htb), ?_⟩
    rw [hmem tb _ htb]
    exact hw

/-- A table that maps nothing is taken out of the directory. -/
theorem Space.dropTable (h : Space c s G e) {g i : Nat} (hg : G.own g = some ⟨e, .table i⟩)
    (hempty : ∀ v f b, G.Target e v f b → pdx v ≠ i)
    (hzero : t.mem (s.dirFrame e) i = 0#32)
    (hdir : ∀ k, k ≠ i → t.mem (s.dirFrame e) k = s.mem (s.dirFrame e) k)
    (hmem : ∀ f k, f ≠ g → G.own f = some ⟨e, .table k⟩ → t.mem f = s.mem f)
    (hva : t.virtualAddresses (s.dirFrame e) = s.virtualAddresses (s.dirFrame e))
    (henvs : t.envs e = s.envs e) : Space c t (G.setOwn g none) e := by
  have hfd : t.dirFrame e = s.dirFrame e := by
    rw [Kernel.dirFrame, henvs]
    rfl
  have hi := (h.table g i hg).1
  have htarget : ∀ v f b, (G.setOwn g none).Target e v f b ↔ G.Target e v f b := by
    intro v f b
    refine target_setOwn_of_not_space (fun r hr hx => ?_) (fun r _ hx => by cases hx)
    rw [hg] at hx
    cases hx
    rcases hr with hr | ⟨k, hr⟩ <;> cases hr
  have htable : ∀ f k, (G.setOwn g none).own f = some ⟨e, .table k⟩ ↔
      f ≠ g ∧ G.own f = some ⟨e, .table k⟩ := by
    intro f k
    rw [Ghost.setOwn_eq_some]
    constructor
    · rintro (⟨-, hx⟩ | hx)
      · cases hx
      · exact hx
    · exact .inr
  have hother : ∀ f k, f ≠ g → G.own f = some ⟨e, .table k⟩ → k ≠ i := by
    rintro f k hf hx rfl
    exact hf (h.table_unique hx hg)
  constructor
  case dir_own =>
    rw [hfd, G.setOwn_of_ne]
    · exact h.dir_own
    · rintro heq
      have hx := h.dir_own
      rw [heq, hg] at hx
      cases hx
  case dir_unique =>
    intro f hf
    rw [hfd]
    rcases Ghost.setOwn_eq_some.1 hf with ⟨-, hx⟩ | ⟨-, hx⟩
    · cases hx
    · exact h.dir_unique f hx
  case cr3_eq =>
    rw [hfd, henvs]
    exact h.cr3_eq
  case dir_at =>
    rw [hfd, henvs, hva]
    exact h.dir_at
  case pde =>
    intro k hk
    rw [hfd]
    by_cases hki : k = i
    · subst hki
      exact .inl hzero
    · rw [hdir k hki]
      refine (h.pde k hk).imp id ?_
      rintro ⟨tb, hn, htb⟩
      refine ⟨tb, hn, (htable tb k).2 ⟨?_, htb⟩⟩
      rintro rfl
      rw [hg] at htb
      cases htb
      exact hki rfl
  case kernel_pde =>
    intro k hle hlt h957 h959
    rw [hfd, hdir k (by omega)]
    exact h.kernel_pde k hle hlt h957 h959
  case table =>
    intro tb k htb
    obtain ⟨hne, htb⟩ := (htable tb k).1 htb
    rw [hfd, hdir k (hother tb k hne htb)]
    exact h.table tb k htb
  case pte =>
    intro tb k htb j hj
    obtain ⟨hne, htb⟩ := (htable tb k).1 htb
    rw [hmem tb k hne htb]
    refine (h.pte tb k htb j hj).imp id ?_
    rintro ⟨f, b, ht, hw⟩
    exact ⟨f, b, (htarget _ _ _).2 ht, hw⟩
  case target =>
    intro v f b ht
    have hold := (htarget v f b).1 ht
    obtain ⟨hal, hv, tb, htb, hw⟩ := h.target v f b hold
    have hne : tb ≠ g := by
      rintro rfl
      rw [hg] at htb
      have := hempty v f b hold
      cases htb
      exact this rfl
    refine ⟨hal, hv, tb, (htable tb _).2 ⟨hne, htb⟩, ?_⟩
    rw [hmem tb _ hne htb]
    exact hw

end Space

end FosMemory
