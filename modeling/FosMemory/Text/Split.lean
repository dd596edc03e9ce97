import Mathlib.Order.Basic
import Mathlib.Data.Nat.Basic
import FosMemory.Lib.Runs
import FosMemory.Lib.WhileLoop

/-!
# Split — `strsplit` of `lib/string.c`

The string is split in place: separators become NUL, and `argv` gets the addresses of the runs
between them, `MAX_ARGUMENTS - 1` at most.  Memory and `argv` are functions of the address and of
the index.
-/

namespace FosMemory
namespace Text

open Lib

/-! ## The function -/

/-- `MAX_ARGUMENTS` of `inc/string.h`. -/
def maxArguments : Nat := 16

/-- `strchr`, whose result is only tested here; `s` are the characters before the NUL. -/
def strchr : List Nat → Nat → Bool
  | [], _ => false
  | d :: s, c => if d = c then true else strchr s c

/-- The variables of `strsplit` and the memory it writes. -/
structure Splitter where
  mem : Nat → Nat
  string : Nat
  argv : Nat → Nat
  argc : Nat

section Source

variable (splitChars : List Nat)

/-- `while (*string && strchr(SPLIT_CHARS, *string)) *string++ = 0;` -/
def trim (fuel : Nat) (s : Splitter) : Option Splitter :=
  whileLoop (fun s : Splitter => s.mem s.string ≠ 0 ∧ strchr splitChars (s.mem s.string) = true)
    (fun s => { s with mem := Function.update s.mem s.string 0, string := s.string + 1 }) fuel s

/-- `while (*string && !strchr(SPLIT_CHARS, *string)) string++;` -/
def scanPast (fuel : Nat) (s : Splitter) : Option Splitter :=
  whileLoop (fun s : Splitter => s.mem s.string ≠ 0 ∧ strchr splitChars (s.mem s.string) = false)
    (fun s => { s with string := s.string + 1 }) fuel s

/-- `while (1) { … }` with the two ways out of it. -/
def splitLoop : Nat → Splitter → Option (Nat × Splitter)
  | 0, _ => none
  | fuel + 1, s => do
    let s ← trim splitChars fuel s
    if s.mem s.string = 0 then
      return (1, { s with argv := Function.update s.argv s.argc 0 })
    else if s.argc = maxArguments - 1 then
      return (0, s)
    else do
      let s ← scanPast splitChars fuel
        { s with argv := Function.update s.argv s.argc s.string, argc := s.argc + 1 }
      splitLoop fuel s

/-- `strsplit`: the result, `argv`, `argc` and the memory. -/
def strsplit (mem : Nat → Nat) (string : Nat) (argv : Nat → Nat) (fuel : Nat) :
    Option (Nat × Splitter) :=
  splitLoop splitChars fuel
    { mem := mem, string := string, argv := Function.update argv 0 0, argc := 0 }

end Source

/-! ## The string -/

/-- At address `b` of memory lies a string of length `n`. -/
structure StringAt (mem : Nat → Nat) (b n : Nat) : Prop where
  char : ∀ i, i < n → mem (b + i) ≠ 0
  nul : mem (b + n) = 0

/-- The split characters of the string at `b`. -/
def SplitAt (splitChars : List Nat) (mem : Nat → Nat) (b i : Nat) : Prop :=
  strchr splitChars (mem (b + i)) = true

instance (splitChars : List Nat) (mem : Nat → Nat) (b : Nat) :
    DecidablePred (SplitAt splitChars mem b) :=
  fun i => inferInstanceAs (Decidable (strchr splitChars (mem (b + i)) = true))

/-- What the loop has done when it stands at the place `p` of the string. -/
structure Progress (splitChars : List Nat) (mem : Nat → Nat) (b n : Nat) (argv : Nat → Nat)
    (p : Nat) (s : Splitter) : Prop where
  place : s.string = b + p
  le : p ≤ n
  argc : s.argc = (starts (SplitAt splitChars mem b) p).length
  room : s.argc ≤ maxArguments - 1
  args : ∀ i a, (starts (SplitAt splitChars mem b) p)[i]? = some a → s.argv i = b + a
  argvOthers : ∀ i, maxArguments - 1 < i → s.argv i = argv i
  trimmed : ∀ i, i < p → SplitAt splitChars mem b i → s.mem (b + i) = 0
  kept : ∀ x, ¬ (∃ i, i < p ∧ SplitAt splitChars mem b i ∧ x = b + i) → s.mem x = mem x

section Rules

variable {splitChars : List Nat} {mem : Nat → Nat} {b n : Nat} {argv : Nat → Nat} {p : Nat}
  {s : Splitter}

/-- Ahead of the place the string is as it was. -/
theorem Progress.ahead_of (h : Progress splitChars mem b n argv p s) {i : Nat} (hi : p ≤ i) :
    s.mem (b + i) = mem (b + i) := by
  refine h.kept _ ?_
  rintro ⟨j, hj, -, heq⟩
  omega

theorem Progress.ahead (h : Progress splitChars mem b n argv p s) :
    s.mem s.string = mem (b + p) := by
  rw [h.place]
  exact h.ahead_of le_rfl

/-- `*string++ = 0` at a separator. -/
theorem Progress.cleared (h : Progress splitChars mem b n argv p s) (hpn : p < n)
    (hsep : SplitAt splitChars mem b p) :
    Progress splitChars mem b n argv (p + 1)
      { s with mem := Function.update s.mem s.string 0, string := s.string + 1 } := by
  obtain ⟨hplace, -, hargc, hroom, hargs, hothers, htrimmed, hkept⟩ := h
  have hstarts : starts (SplitAt splitChars mem b) (p + 1) =
      starts (SplitAt splitChars mem b) p :=
    starts_of_sep (Nat.le_succ p) fun i hi hip =>
      (Nat.le_antisymm hi (Nat.le_of_lt_succ hip)) ▸ hsep
  constructor
  case place => rw [hplace, Nat.add_assoc]
  case le => exact hpn
  case argc => rwa [hstarts]
  case room => exact hroom
  case args => rwa [hstarts]
  case argvOthers => exact hothers
  case trimmed =>
    intro i hi hisep
    rw [hplace]
    dsimp only
    rcases Nat.lt_or_eq_of_le (Nat.le_of_lt_succ hi) with hlt | rfl
    · rw [Function.update_of_ne (by omega)]
      exact htrimmed i hlt hisep
    · exact Function.update_self _ _ _
  case kept =>
    intro x hx
    rw [hplace]
    dsimp only
    rw [Function.update_of_ne]
    · exact hkept x fun ⟨i, hi, hisep, heq⟩ => hx ⟨i, Nat.lt_succ_of_lt hi, hisep, heq⟩
    · rintro rfl
      exact hx ⟨p, Nat.lt_succ_self p, hsep, rfl⟩

/-- The first loop stops at the next character that is no separator, or at the end. -/
theorem Progress.trim_ends (h : Progress splitChars mem b n argv p s) (hstr : StringAt mem b n) :
    ∃ q t, EndsWith (fun fuel => trim splitChars fuel s) t ∧
      Progress splitChars mem b n argv q t ∧ p ≤ q ∧
      (∀ i, p ≤ i → i < q → SplitAt splitChars mem b i) ∧
      (q = n ∨ q < n ∧ ¬ SplitAt splitChars mem b q) := by
  -- induction on the number of characters ahead
  obtain ⟨k, hk⟩ : ∃ k, k = n - p := ⟨_, rfl⟩
  induction k generalizing p s with
  | zero =>
    have hpn : p = n := Nat.le_antisymm h.le (by omega)
    refine ⟨p, s, Halts.stop ?_, h, le_rfl, fun i hi hip => absurd hip (Nat.not_lt.2 hi), .inl hpn⟩
    rw [h.ahead, hpn, hstr.nul]
    exact fun hne => hne.1 rfl
  | succ k ih =>
    have hpn : p < n := by omega
    have hchar := h.ahead
    by_cases hsep : SplitAt splitChars mem b p
    · have hnext := h.cleared hpn hsep
      obtain ⟨q, t, hends, hq, hle, hall, hstop⟩ := ih hnext (by omega)
      refine ⟨q, t, Halts.round ?_ hends, hq, Nat.le_trans (Nat.le_succ p) hle, fun i hi hiq => ?_, hstop⟩
      · rw [hchar]
        exact ⟨hstr.char p hpn, hsep⟩
      · rcases Nat.lt_or_eq_of_le hi with hlt | rfl
        · exact hall i hlt hiq
        · exact hsep
    · refine ⟨p, s, Halts.stop ?_, h, le_rfl, fun i hi hip => absurd hip (Nat.not_lt.2 hi),
        .inr ⟨hpn, hsep⟩⟩
      rw [hchar]
      exact fun hgo => hsep hgo.2

/-- The second loop stops at the next separator, or at the end. -/
theorem scanPast_ends (hstr : StringAt mem b n) (hplace : s.string = b + p) (hp : p ≤ n)
    (hahead : ∀ i, p ≤ i → s.mem (b + i) = mem (b + i)) :
    ∃ e, EndsWith (fun fuel => scanPast splitChars fuel s) { s with string := b + e } ∧ p ≤ e ∧
      e ≤ n ∧ (∀ i, p ≤ i → i < e → ¬ SplitAt splitChars mem b i) ∧
      (e = n ∨ SplitAt splitChars mem b e) := by
  obtain ⟨k, hk⟩ : ∃ k, k = n - p := ⟨_, rfl⟩
  have hchar : s.mem s.string = mem (b + p) := by
    rw [hplace]
    exact hahead p le_rfl
  have hhere : { s with string := b + p } = s := by rw [← hplace]
  have hnone : ∀ i, p ≤ i → i < p → ¬ SplitAt splitChars mem b i := fun i hi hip =>
    absurd hip (Nat.not_lt.2 hi)
  induction k generalizing p s with
  | zero =>
    have hpn : p = n := Nat.le_antisymm hp (by omega)
    refine ⟨p, ?_, le_rfl, hp, hnone, .inl hpn⟩
    rw [hhere]
    refine Halts.stop ?_
    rw [hchar, hpn, hstr.nul]
    exact fun hne => hne.1 rfl
  | succ k ih =>
    have hpn : p < n := by omega
    by_cases hsep : SplitAt splitChars mem b p
    · refine ⟨p, ?_, le_rfl, hp, hnone, .inr hsep⟩
      rw [hhere]
      refine Halts.stop ?_
      rw [hchar]
      exact fun hgo => absurd (hsep.symm.trans hgo.2) (by decide)
    · have hnext : s.string + 1 = b + (p + 1) := by rw [hplace, Nat.add_assoc]
      obtain ⟨e, hends, hle, hen, hall, hstop⟩ := ih (p := p + 1)
        (s := { s with string := s.string + 1 }) hnext hpn
        (fun i hi => hahead i ((Nat.le_succ p).trans hi)) (by omega)
        (by dsimp only; rw [hnext]; exact hahead _ (Nat.le_succ p)) (by dsimp only; rw [hnext])
        (fun i hi hip => absurd hip (Nat.not_lt.2 hi))
      refine ⟨e, Halts.round ?_ hends, (Nat.le_succ p).trans hle, hen, fun i hi hie => ?_, hstop⟩
      · rw [hchar]
        exact ⟨hstr.char p hpn, Bool.not_eq_true _ ▸ hsep⟩
      · rcases Nat.lt_or_eq_of_le hi with hlt | rfl
        · exact hall i hlt hie
        · exact hsep

/-- `argv[argc++] = string;` and the scan over the run. -/
theorem Progress.taken {q e : Nat} (h : Progress splitChars mem b n argv q s)
    (hroom : s.argc ≠ maxArguments - 1) (hstart : RunStart (SplitAt splitChars mem b) q)
    (hqe : q < e) (hen : e ≤ n) (hrun : ∀ i, q ≤ i → i < e → ¬ SplitAt splitChars mem b i) :
    Progress splitChars mem b n argv e
      { s with argv := Function.update s.argv s.argc s.string, argc := s.argc + 1,
               string := b + e } := by
  have hstarts := starts_of_run hstart hqe hrun
  -- what lies below `e` and is a separator lies below `q`
  have hbelow : ∀ i, i < e → SplitAt splitChars mem b i → i < q := by
    intro i hi hsep
    by_contra hge
    exact hrun i (Nat.not_lt.1 hge) hi hsep
  constructor
  case place => rfl
  case le => exact hen
  case argc =>
    dsimp only
    rw [hstarts, List.length_append, ← h.argc]
    rfl
  case room =>
    have := h.room
    dsimp only
    omega
  case args =>
    intro i a hi
    rw [hstarts] at hi
    dsimp only
    rcases Nat.lt_trichotomy i s.argc with hlt | rfl | hgt
    · rw [h.argc] at hlt
      rw [List.getElem?_append_left hlt] at hi
      rw [Function.update_of_ne (by rw [h.argc]; exact hlt.ne)]
      exact h.args i a hi
    · rw [h.argc, List.getElem?_concat_length] at hi
      rw [Function.update_self, h.place, Option.some.inj hi]
    · rw [h.argc] at hgt
      have hnone : (starts (SplitAt splitChars mem b) q ++ [q])[i]? = none :=
        List.getElem?_eq_none (by rw [List.length_append]; exact hgt)
      rw [hnone] at hi
      cases hi
  case argvOthers =>
    intro i hi
    have := h.room
    dsimp only
    rw [Function.update_of_ne (by omega)]
    exact h.argvOthers i hi
  case trimmed => exact fun i hi hsep => h.trimmed i (hbelow i hi hsep) hsep
  case kept =>
    intro x hx
    refine h.kept x ?_
    rintro ⟨i, hi, hsep, heq⟩
    exact hx ⟨i, hi.trans hqe, hsep, heq⟩

/-- What a round does behind the first inner loop. -/
def behindTrim (splitChars : List Nat) (s : Splitter) (fuel : Nat) : Option (Nat × Splitter) :=
  if s.mem s.string = 0 then some (1, { s with argv := Function.update s.argv s.argc 0 })
  else if s.argc = maxArguments - 1 then some (0, s)
  else (scanPast splitChars fuel
    { s with argv := Function.update s.argv s.argc s.string, argc := s.argc + 1 }).bind
      fun s => splitLoop splitChars fuel s

theorem splitLoop_succ (fuel : Nat) (s : Splitter) :
    splitLoop splitChars (fuel + 1) s =
      (trim splitChars fuel s).bind fun t => behindTrim splitChars t fuel :=
  rfl

/-- The two ways out of the loop: at the end of the string, or at a run too many. -/
theorem splitLoop_ends (h : Progress splitChars mem b n argv p s) (hstr : StringAt mem b n)
    (hboundary : p = 0 ∨ p = n ∨ SplitAt splitChars mem b p) :
    ∃ q t, Progress splitChars mem b n argv q t ∧
      (q = n ∧ EndsWith (fun fuel => splitLoop splitChars fuel s)
          (1, { t with argv := Function.update t.argv t.argc 0 }) ∨
        q < n ∧ RunStart (SplitAt splitChars mem b) q ∧ t.argc = maxArguments - 1 ∧
          EndsWith (fun fuel => splitLoop splitChars fuel s) (0, t)) := by
  -- every round consumes a run
  obtain ⟨k, hk⟩ : ∃ k, k = n - p := ⟨_, rfl⟩
  induction k using Nat.strong_induction_on generalizing p s with
  | _ k ih =>
    obtain ⟨q, t, htrim, hq, hpq, hall, hstop⟩ := h.trim_ends hstr
    have hchar := hq.ahead
    have hloop : ∀ {r}, EndsWith (fun fuel => behindTrim splitChars t fuel) r →
        EndsWith (fun fuel => splitLoop splitChars fuel s) r := fun hr =>
      EndsWith.of_succ (htrim.bind hr) fun fuel => splitLoop_succ fuel s
    rcases hstop with rfl | ⟨hqn, hnot⟩
    · refine ⟨q, t, hq, .inl ⟨rfl, hloop ?_⟩⟩
      have hend : t.mem t.string = 0 := hchar.trans hstr.nul
      simp only [behindTrim, if_pos hend]
      exact .of_some _
    · have hmore : t.mem t.string ≠ 0 := by
        rw [hchar]
        exact hstr.char q hqn
      have hstart : RunStart (SplitAt splitChars mem b) q := by
        refine ⟨hnot, ?_⟩
        rcases Nat.lt_or_eq_of_le hpq with hlt | rfl
        · exact .inr (hall (q - 1) (Nat.le_sub_one_of_lt hlt) (by omega))
        · rcases hboundary with hzero | hend | hsep
          · exact .inl hzero
          · exact absurd hend hqn.ne
          · exact absurd hsep hnot
      by_cases hfull : t.argc = maxArguments - 1
      · refine ⟨q, t, hq, .inr ⟨hqn, hstart, hfull, hloop ?_⟩⟩
        simp only [behindTrim, if_neg hmore, if_pos hfull]
        exact .of_some _
      · -- one more argument, and the loop goes on behind the run
        obtain ⟨e, hscan, hqe, hen, hrun, hstop⟩ := scanPast_ends (s :=
            { t with argv := Function.update t.argv t.argc t.string, argc := t.argc + 1 }) hstr hq.place hqn.le fun i hi => hq.ahead_of hi
        have hlt : q < e := by
          rcases Nat.lt_or_eq_of_le hqe with hlt | rfl
          · exact hlt
          · exact (hstop.elim (fun h => hqn.ne h) hnot).elim
        have hnext := hq.taken hfull hstart hlt hen hrun
        obtain ⟨q', t', hq', hout⟩ := ih (n - e) (by omega) hnext (.inr hstop) rfl
        have hrest : ∀ {r}, EndsWith (fun fuel => splitLoop splitChars fuel
            { t with argv := Function.update t.argv t.argc t.string, argc := t.argc + 1,
                     string := b + e }) r →
            EndsWith (fun fuel => splitLoop splitChars fuel s) r := by
          intro r hr
          refine hloop ?_
          simp only [behindTrim, if_neg hmore, if_neg hfull]
          exact hscan.bind hr
        refine ⟨q', t', hq', hout.imp ?_ ?_⟩
        · exact fun ⟨hn, hr⟩ => ⟨hn, hrest hr⟩
        · exact fun ⟨hn, hs, hf, hr⟩ => ⟨hn, hs, hf, hrest hr⟩

/-! ## The result -/

/-- The result `ret` and the variables `t` say what the runs of the string are. -/
structure Tokenised (mem : Nat → Nat) (b n : Nat) (argv : Nat → Nat) (runs : List (Nat × Nat))
    (ret : Nat) (t : Splitter) : Prop where
  result : ret = if runs.length ≤ maxArguments - 1 then 1 else 0
  argc : t.argc = min runs.length (maxArguments - 1)
  args : ∀ i r, i < t.argc → runs[i]? = some r → t.argv i = b + r.1
  null : ret = 1 → t.argv t.argc = 0
  chars : ∀ r, r ∈ runs → ∀ i, r.1 ≤ i → i < r.2 → t.mem (b + i) = mem (b + i)
  ended : ∀ i r, i < t.argc → runs[i]? = some r → t.mem (b + r.2) = 0
  argvOthers : ∀ i, maxArguments - 1 < i → t.argv i = argv i
  memOthers : ∀ x, x < b ∨ b + n ≤ x → t.mem x = mem x

/-- The runs found by position `q` are the first ones of the string. -/
theorem Progress.run_of (h : Progress splitChars mem b n argv p s) {i : Nat} {r : Nat × Nat}
    (hi : i < s.argc)
    (hr : ((starts (SplitAt splitChars mem b) n).map fun a =>
      (a, runEnd (SplitAt splitChars mem b) n a))[i]? = some r) :
    (starts (SplitAt splitChars mem b) p)[i]? = some r.1 ∧ r.1 < p ∧
      IsRun (SplitAt splitChars mem b) n r.1 r.2 := by
  have hrun := (isRunList_starts.mem r).1 (List.mem_of_getElem? hr)
  rw [List.getElem?_map, Option.map_eq_some_iff] at hr
  obtain ⟨a, ha, rfl⟩ := hr
  have hstart : (starts (SplitAt splitChars mem b) p)[i]? = some a := by
    obtain ⟨l, hl⟩ : starts (SplitAt splitChars mem b) p <+: starts (SplitAt splitChars mem b) n :=
      starts_isInitial h.le
    rwa [← hl, List.getElem?_append_left (h.argc ▸ hi)] at ha
  exact ⟨hstart, (mem_starts.1 (List.mem_of_getElem? hstart)).1, hrun⟩

/-- The facts that both ways out share: the loop stands at the end or at the start of a run. -/
theorem Progress.tokenised {t : Splitter} {ret : Nat} (h : Progress splitChars mem b n argv p s)
    (hstr : StringAt mem b n) (hat : p = n ∨ p < n ∧ RunStart (SplitAt splitChars mem b) p)
    (hmem : t.mem = s.mem) (hargc : t.argc = s.argc)
    (hargv : ∀ i, i ≠ s.argc → t.argv i = s.argv i)
    (hlength : s.argc = min (starts (SplitAt splitChars mem b) n).length (maxArguments - 1))
    (hret : ret = if (starts (SplitAt splitChars mem b) n).length ≤ maxArguments - 1 then 1 else 0)
    (hnull : ret = 1 → t.argv s.argc = 0) :
    Tokenised mem b n argv ((starts (SplitAt splitChars mem b) n).map fun a =>
      (a, runEnd (SplitAt splitChars mem b) n a)) ret t := by
  constructor
  case result => rwa [List.length_map]
  case argc => rw [hargc, List.length_map, hlength]
  case args =>
    intro i r hi hr
    rw [hargc] at hi
    rw [hargv i hi.ne]
    exact h.args i r.1 (h.run_of hi hr).1
  case null =>
    rw [hargc]
    exact hnull
  case chars =>
    intro r hr i hri hir
    have hrun := (isRunList_starts.mem r).1 hr
    rw [hmem]
    refine h.kept _ ?_
    rintro ⟨j, -, hsep, heq⟩
    obtain rfl := Nat.add_left_cancel heq
    exact hrun.inside i hri hir hsep
  case ended =>
    intro i r hi hr
    rw [hargc] at hi
    obtain ⟨-, hap, hrun⟩ := h.run_of hi hr
    rw [hmem]
    rcases Nat.lt_or_ge r.2 p with hlt | hge
    · -- a separator that the loop has passed
      have hsep : SplitAt splitChars mem b r.2 :=
        hrun.right.resolve_left fun heq => absurd h.le (by omega)
      exact h.trimmed r.2 hlt hsep
    · -- the run reaches the end of the string
      rcases hat with rfl | ⟨hpn, hstart⟩
      · rw [Nat.le_antisymm hrun.le hge, h.ahead_of le_rfl]
        exact hstr.nul
      · rcases Nat.lt_or_eq_of_le hge with hlt | heq
        · rcases hstart.2 with hzero | hsep
          · omega
          · exact absurd hsep (hrun.inside (p - 1) (Nat.le_sub_one_of_lt hap) (by omega))
        · rcases hrun.right with hn | hsep
          · omega
          · exact absurd (heq ▸ hsep) hstart.1
  case argvOthers =>
    intro i hi
    have := h.room
    rw [hargv i (by omega)]
    exact h.argvOthers i hi
  case memOthers =>
    intro x hx
    have := h.le
    rw [hmem]
    refine h.kept x ?_
    rintro ⟨i, hi, -, rfl⟩
    omega

theorem Progress.start (splitChars : List Nat) (mem argv : Nat → Nat) (b n : Nat) :
    Progress splitChars mem b n argv 0
      { mem := mem, string := b, argv := Function.update argv 0 0, argc := 0 } := by
  constructor
  case place => rfl
  case le => exact Nat.zero_le n
  case argc => rfl
  case room => exact Nat.zero_le _
  case args =>
    intro i a hi
    cases hi
  case argvOthers => exact fun i hi => Function.update_of_ne (by omega) _ _
  case trimmed => exact fun i hi => absurd hi (Nat.not_lt_zero i)
  case kept => exact fun _ _ => rfl

/-- `strsplit` ends, and tells the runs of every string between every set of separators. -/
theorem strsplit_runs (splitChars : List Nat) (argv : Nat → Nat) (hstr : StringAt mem b n) :
    ∃ runs ret t, IsRunList (SplitAt splitChars mem b) n runs ∧
      EndsWith (strsplit splitChars mem b argv) (ret, t) ∧
      Tokenised mem b n argv runs ret t := by
  obtain ⟨q, t, hq, hout⟩ :=
    splitLoop_ends (Progress.start splitChars mem argv b n) hstr (.inl rfl)
  rcases hout with ⟨rfl, hends⟩ | ⟨hqn, hstart, hfull, hends⟩
  · -- all runs are taken
    have hroom := hq.room
    rw [hq.argc] at hroom
    refine ⟨_, _, _, isRunList_starts, hends, hq.tokenised hstr (.inl rfl) rfl rfl ?_ ?_ ?_ ?_⟩
    · exact fun i hi => Function.update_of_ne hi _ _
    · rw [hq.argc, Nat.min_eq_left hroom]
    · rw [if_pos hroom]
    · exact fun _ => Function.update_self _ _ _
  · -- a run too many
    have hmore : maxArguments - 1 < (starts (SplitAt splitChars mem b) n).length := by
      calc maxArguments - 1 = (starts (SplitAt splitChars mem b) q).length := by
            rw [← hq.argc, hfull]
        _ < (starts (SplitAt splitChars mem b) (q + 1)).length := by
            rw [starts_succ_of_start hstart, List.length_append]
            exact Nat.lt_succ_self _
        _ ≤ (starts (SplitAt splitChars mem b) n).length := (starts_isInitial hqn).length_le
    refine ⟨_, _, _, isRunList_starts, hends,
      hq.tokenised hstr (.inr ⟨hqn, hstart⟩) rfl rfl (fun _ _ => rfl) ?_ ?_ ?_⟩
    · rw [hfull, Nat.min_eq_right hmore.le]
    · rw [if_neg (Nat.not_le.2 hmore)]
    · exact fun h => absurd h (by decide)

/-- The command `run x` with a blank in front, at address 4096. -/
def runCommand (x : Nat) : Nat :=
  [32, 114, 117, 110, 32, 120].getD (x - 4096) 0

theorem strsplit_runs_command :
    ∃ runs ret t, IsRunList (SplitAt [32, 9] runCommand 4096) 6 runs ∧
      EndsWith (strsplit [32, 9] runCommand 4096 fun _ => 0) (ret, t) ∧
      Tokenised runCommand 4096 6 (fun _ => 0) runs ret t :=
  strsplit_runs [32, 9] _ ⟨by decide, by decide⟩

end Rules

end Text
end FosMemory
