import FosMemory.Lib.Reverse
import FosMemory.Layout

/-!
# Decimal — `ltostr` and `strtol` of `lib/string.c`

`ltostr` writes the digits of a number from the last one on and reverses them; `strtol` reads a
numeral.  Characters are `char`, numbers `long`: both signed, of 8 and 32 bits.  A buffer is a
function of the index.
-/

namespace FosMemory
namespace Text

open Lib

/-! ## The functions -/

/-- A result of the type `long`. -/
def toLong (v : Int) : Int :=
  v.bmod (2 ^ 32)

/-- A value stored in a `char`. -/
def toChar (v : Int) : Int :=
  v.bmod (2 ^ 8)

/-- `'0'`. -/
def zeroChar : Int := 48

/-- The variables of the digit loop of `ltostr`. -/
structure Digits where
  value : Int
  str : Nat → Int
  s : Nat

/-- `int mod = value % 10; str[s++] = mod + '0'; value = value / 10;` -/
def Digits.step (d : Digits) : Digits :=
  { value := d.value.tdiv 10
    str := Function.update d.str d.s (toChar (d.value.tmod 10 + zeroChar))
    s := d.s + 1 }

/-- The variables at the loop: the sign is written, and `value * -1` is a `long` again. -/
def Digits.start (value : Int) (str : Nat → Int) : Digits :=
  if value < 0 then { value := toLong (value * -1), str := Function.update str 0 45, s := 1 }
  else { value := value, str := str, s := 0 }

/-- `do { … } while (value % 10 != 0);` -/
def digitLoop (fuel : Nat) (d : Digits) : Option Digits :=
  whileLoop (fun d => d.value.tmod 10 ≠ 0) Digits.step fuel d.step

/-- `ltostr`. -/
def ltostr (value : Int) (str : Nat → Int) (fuel : Nat) : Option (Nat → Int) := do
  let d ← digitLoop fuel (Digits.start value str)
  let m ← whileLoop (fun m : Mirror Int => m.start < m.stop) Mirror.swap fuel
    { buf := d.str, start := if value < 0 then 1 else 0, stop := d.s - 1 }
  return Function.update m.buf d.s 0

/-- The value of a character as a digit. -/
def digitOf (c : Int) : Option Int :=
  if 48 ≤ c ∧ c ≤ 57 then some (c - 48)
  else if 97 ≤ c ∧ c ≤ 122 then some (c - 97 + 10)
  else if 65 ≤ c ∧ c ≤ 90 then some (c - 65 + 10)
  else none

/-- The digit that the loop of `strtol` takes at `c`: `break` for any other character and for a
digit that is not below the base. -/
def digitIn (base : Int) (c : Int) : Option Int :=
  (digitOf c).filter fun dig => dig < base

/-- The variables of the loop of `strtol`. -/
structure Numeral where
  s : Nat
  val : Int

/-- `s++, val = (val * base) + dig;` -/
def Numeral.step (mem : Nat → Int) (base : Int) (n : Numeral) : Numeral :=
  { s := n.s + 1, val := toLong (n.val * base + (digitIn base (mem n.s)).getD 0) }

/-- Behind the sign: the prefix of the base. -/
def basePrefix (mem : Nat → Int) (s : Nat) (base : Int) : Nat × Int :=
  if (base = 0 ∨ base = 16) ∧ mem s = 48 ∧ mem (s + 1) = 120 then (s + 2, 16)
  else if base = 0 ∧ mem s = 48 then (s + 1, 8)
  else if base = 0 then (s, 10)
  else (s, base)

/-- The sign: where the numeral goes on, and `neg`. -/
def signAt (mem : Nat → Int) (s : Nat) : Nat × Bool :=
  if mem s = 43 then (s + 1, false) else if mem s = 45 then (s + 1, true) else (s, false)

/-- `strtol`: the number and the place behind it. -/
def strtol (mem : Nat → Int) (s : Nat) (base : Int) (fuel : Nat) : Option (Int × Nat) := do
  let s ← whileLoop (fun s : Nat => mem s = 32 ∨ mem s = 9) (· + 1) fuel s
  let (s, neg) := signAt mem s
  let (s, base) := basePrefix mem s base
  let n ← whileLoop (fun n : Numeral => (digitIn base (mem n.s)).isSome)
    (Numeral.step mem base) fuel { s := s, val := 0 }
  return (if neg then toLong (-n.val) else n.val, n.s)

/-! ## Numbers in range -/

theorem toLong_eq {v : Int} (hlow : -2 ^ 31 ≤ v) (hhigh : v < 2 ^ 31) : toLong v = v :=
  (Int.bmod_eq_iff (by decide)).2 ⟨hlow, hhigh, by rw [Int.sub_self]; exact Int.dvd_zero _⟩

theorem toChar_eq {v : Int} (hlow : -128 ≤ v) (hhigh : v < 128) : toChar v = v :=
  (Int.bmod_eq_iff (by decide)).2 ⟨hlow, hhigh, by rw [Int.sub_self]; exact Int.dvd_zero _⟩

/-- Truncated division keeps the sign and divides the absolute value. -/
theorem sign_tdiv {σ : Int} (hσ : σ = 1 ∨ σ = -1) (m : Nat) :
    (σ * m).tdiv 10 = σ * (m / 10 : Nat) ∧ (σ * m).tmod 10 = σ * (m % 10 : Nat) := by
  rcases hσ with rfl | rfl
  · simp only [Int.one_mul]
    exact ⟨rfl, rfl⟩
  · simp only [Int.neg_one_mul, Int.neg_tdiv, Int.neg_tmod]
    exact ⟨rfl, rfl⟩

/-! ## The digits written -/

/-- `t + 1` digits of `m` are written: the loop stops at the first zero behind the last digit. -/
def StopsAt (m t : Nat) : Prop :=
  (∀ k, 1 ≤ k → k ≤ t → m / 10 ^ k % 10 ≠ 0) ∧ m / 10 ^ (t + 1) % 10 = 0

theorem StopsAt.zero {m : Nat} (h : m / 10 % 10 = 0) : StopsAt m 0 :=
  ⟨fun k h₁ h₂ => absurd (h₁.trans h₂) (by decide), by rwa [Nat.zero_add, Nat.pow_one]⟩

theorem div_pow_succ (m k : Nat) : m / 10 ^ (k + 1) = m / 10 / 10 ^ k := by
  rw [Nat.div_div_eq_div_mul, Nat.pow_succ']

theorem StopsAt.succ {m t : Nat} (hne : m / 10 % 10 ≠ 0) (h : StopsAt (m / 10) t) :
    StopsAt m (t + 1) := by
  obtain ⟨hbelow, hstop⟩ := h
  refine ⟨fun k h₁ ht => ?_, by rwa [div_pow_succ]⟩
  obtain ⟨j, rfl⟩ := Nat.exists_eq_add_of_le' h₁
  rw [div_pow_succ]
  cases j with
  | zero => rwa [Nat.pow_zero, Nat.div_one]
  | succ j => exact hbelow (j + 1) (Nat.succ_le_succ (Nat.zero_le j)) (Nat.le_of_succ_le_succ ht)

/-- What the digit loop leaves in the buffer, from the place `d.s` on: the digits of `m`, the last
one first, each with the sign `σ`. -/
structure Written (σ : Int) (m t : Nat) (d u : Digits) : Prop where
  stops : StopsAt m t
  place : u.s = d.s + t + 1
  digit : ∀ i, i ≤ t → u.str (d.s + i) = 48 + σ * (m / 10 ^ i % 10 : Nat)
  others : ∀ j, j < d.s ∨ d.s + t < j → u.str j = d.str j

theorem Digits.step_value {σ : Int} (hσ : σ = 1 ∨ σ = -1) {m : Nat} {d : Digits}
    (hv : d.value = σ * m) :
    d.step.value = σ * (m / 10 : Nat) ∧ d.step.str d.s = 48 + σ * (m % 10 : Nat) ∧
      ∀ j, j ≠ d.s → d.step.str j = d.str j := by
  obtain ⟨hdiv, hmod⟩ := sign_tdiv hσ m
  refine ⟨?_, ?_, fun j hj => Function.update_of_ne hj _ _⟩
  · rw [Digits.step, hv, hdiv]
  · have hlt : m % 10 < 10 := Nat.mod_lt _ (by decide)
    rw [Digits.step, hv, hmod]
    show Function.update _ _ _ _ = _
    rw [Function.update_self, zeroChar, toChar_eq, Int.add_comm]
    · rcases hσ with rfl | rfl <;> omega
    · rcases hσ with rfl | rfl <;> omega

theorem digitLoop_ends {σ : Int} (hσ : σ = 1 ∨ σ = -1) (m : Nat) (d : Digits)
    (hv : d.value = σ * m) :
    ∃ t u, EndsWith (fun fuel => digitLoop fuel d) u ∧ Written σ m t d u := by
  -- induction on the number, which each round divides by ten
  induction m using Nat.strong_induction_on generalizing d with
  | _ m ih =>
    obtain ⟨hvalue, hdigit, hothers⟩ := Digits.step_value hσ hv
    have htest : d.step.value.tmod 10 ≠ 0 ↔ m / 10 % 10 ≠ 0 := by
      rw [hvalue, (sign_tdiv hσ _).2]
      rcases hσ with rfl | rfl <;> omega
    by_cases hzero : m / 10 % 10 = 0
    · refine ⟨0, d.step, Halts.stop (fun h => htest.1 h hzero), .zero hzero, rfl, ?_, ?_⟩
      · intro i hi
        obtain rfl := Nat.le_zero.1 hi
        rwa [Nat.pow_zero, Nat.div_one]
      · intro j hj
        exact hothers j (by omega)
    · have hsmall : m / 10 < m := by omega
      obtain ⟨t, u, hends, hw⟩ := ih _ hsmall d.step hvalue
      have hplace : d.step.s = d.s + 1 := rfl
      obtain ⟨hstops, hs, hdig, hoth⟩ := hw
      rw [hplace] at hs hdig hoth
      refine ⟨t + 1, u, Halts.round (htest.2 hzero) hends, hstops.succ hzero, by omega, ?_, ?_⟩
      · intro i hi
        cases i with
        | zero =>
          rw [Nat.add_zero, hoth d.s (.inl (Nat.lt_succ_self _)), hdigit, Nat.pow_zero, Nat.div_one]
        | succ i =>
          have hi' := hdig i (Nat.le_of_succ_le_succ hi)
          rw [div_pow_succ, ← hi']
          exact congrArg u.str (by omega)
      · intro j hj
        rw [hoth j (by omega)]
        exact hothers j (by omega)

/-! ## The string written -/

/-- Where the digits start. -/
def offset (v : Int) : Nat :=
  if v < 0 then 1 else 0

/-- The sign that the digits get: `value * -1` leaves the most negative number negative. -/
def digitSign (v : Int) : Int :=
  if v = -2 ^ 31 then -1 else 1

theorem digitSign_cases (v : Int) : digitSign v = 1 ∨ digitSign v = -1 := by
  rw [digitSign]
  split
  · exact .inr rfl
  · exact .inl rfl

/-- The string that `ltostr` leaves: the sign, `t + 1` digits and the NUL. -/
structure Printed (v : Int) (t : Nat) (str out : Nat → Int) : Prop where
  stops : StopsAt v.natAbs t
  minus : v < 0 → out 0 = 45
  digit : ∀ i, i ≤ t →
    out (offset v + i) = 48 + digitSign v * (v.natAbs / 10 ^ (t - i) % 10 : Nat)
  nul : out (offset v + t + 1) = 0
  others : ∀ j, offset v + t + 1 < j → out j = str j

theorem Digits.start_spec {v : Int} (hlow : -2 ^ 31 ≤ v) (str : Nat → Int) :
    (Digits.start v str).value = digitSign v * v.natAbs ∧
      (Digits.start v str).s = offset v ∧ (v < 0 → (Digits.start v str).str 0 = 45) ∧
      ∀ j, offset v ≤ j → (Digits.start v str).str j = str j := by
  rw [Digits.start, offset, digitSign]
  by_cases hneg : v < 0
  · rw [if_pos hneg, if_pos hneg]
    refine ⟨?_, rfl, fun _ => ?_, fun j hj => ?_⟩
    · dsimp only
      split
      · next hmin =>
        subst hmin
        decide
      · rw [toLong_eq] <;> omega
    · show Function.update str 0 45 0 = 45
      exact Function.update_self _ _ _
    · exact Function.update_of_ne (Nat.pos_iff_ne_zero.1 hj) _ _
  · rw [if_neg hneg, if_neg hneg, if_neg (by omega)]
    refine ⟨?_, rfl, fun h => absurd h hneg, fun _ _ => rfl⟩
    show v = 1 * (v.natAbs : Int)
    omega

/-- Every number is printed as a NUL-terminated string. -/
theorem ltostr_ends {v : Int} (hlow : -2 ^ 31 ≤ v) (str : Nat → Int) :
    ∃ t out, EndsWith (ltostr v str) out ∧ Printed v t str out := by
  obtain ⟨hvalue, hs, hminus, hothers⟩ := Digits.start_spec hlow str
  obtain ⟨t, u, hloop, hw⟩ := digitLoop_ends (digitSign_cases v) _ _ hvalue
  obtain ⟨hstops, hplace, hdigit, houts⟩ := hw
  rw [hs] at hplace hdigit houts
  obtain ⟨m, hm, hbuf⟩ := halts_reversed (β := Int)
    { buf := u.str, start := if v < 0 then 1 else 0, stop := u.s - 1 }
  have hbuf' : m.buf = reversed u.str (offset v) (offset v + t) := by
    rw [hbuf, hplace]
    rfl
  refine ⟨t, Function.update m.buf u.s 0, hloop.bind (hm.bind (.of_some _)), hstops, ?_, ?_, ?_, ?_⟩
  · -- the sign is left of the segment that is reversed
    intro hneg
    have hoff : offset v = 1 := if_pos hneg
    rw [Function.update_of_ne (by omega), hbuf', reversed_outside (by omega), houts 0 (by omega)]
    exact hminus hneg
  · intro i hi
    rw [Function.update_of_ne (by omega), hbuf', reversed_inside (by omega) (by omega),
      ← hdigit (t - i) (by omega)]
    exact congrArg u.str (by omega)
  · rw [← hplace, Function.update_self]
  · intro j hj
    rw [Function.update_of_ne (by omega), hbuf', reversed_outside (by omega), houts j (by omega)]
    exact hothers j (by omega)

/-! ## The string read -/

theorem digitIn_ten {d : Nat} (h : d < 10) : digitIn 10 (48 + d) = some (d : Int) := by
  have hd : digitOf (48 + d) = some (d : Int) := by
    rw [digitOf, if_pos (by omega), add_sub_cancel_left]
  rw [digitIn, hd]
  exact Option.filter_some_pos (by simp only [decide_eq_true_eq]; omega)

theorem digitIn_below {base c : Int} (h : c < 48) : digitIn base c = none := by
  have hd : digitOf c = none := by
    rw [digitOf, if_neg (by omega), if_neg (by omega), if_neg (by omega)]
  rw [digitIn, hd]
  rfl

/-- The loop of `strtol` over `c` digits of the number `M`. -/
theorem numeral_halts {mem : Nat → Int} {p c M : Nat} (hM : M < 2 ^ 31) (hc : M < 10 ^ c)
    (hdigit : ∀ i, i < c → mem (p + i) = 48 + (M / 10 ^ (c - 1 - i) % 10 : Nat))
    (hend : digitIn 10 (mem (p + c)) = none) :
    Halts (fun n : Numeral => (digitIn 10 (mem n.s)).isSome) (Numeral.step mem 10)
      { s := p, val := 0 } { s := p + c, val := M } := by
  -- with `i` digits to go the value is the number without its last `i` digits
  have hgo : ∀ i, i ≤ c → Halts (fun n : Numeral => (digitIn 10 (mem n.s)).isSome)
      (Numeral.step mem 10) { s := p + (c - i), val := (M / 10 ^ i : Nat) }
      { s := p + c, val := M } := by
    intro i hi
    induction i with
    | zero =>
      rw [Nat.pow_zero, Nat.div_one]
      refine .stop ?_
      show ¬ (digitIn 10 (mem (p + c))).isSome = true
      rw [hend]
      exact Bool.false_ne_true
    | succ i ih =>
      have hchar := hdigit (c - (i + 1)) (by omega)
      have hindex : c - 1 - (c - (i + 1)) = i := by omega
      rw [hindex] at hchar
      have hd := digitIn_ten (Nat.mod_lt (M / 10 ^ i) (show 0 < 10 by decide))
      rw [← hchar] at hd
      refine .round ?_ ?_
      · show (digitIn 10 (mem (p + (c - (i + 1))))).isSome = true
        rw [hd]
        rfl
      · have hstep : Numeral.step mem 10
            { s := p + (c - (i + 1)), val := (M / 10 ^ (i + 1) : Nat) } =
              { s := p + (c - i), val := (M / 10 ^ i : Nat) } := by
          have hsum : M / 10 ^ (i + 1) * 10 + M / 10 ^ i % 10 = M / 10 ^ i := by
            rw [Nat.pow_succ, ← Nat.div_div_eq_div_mul]
            omega
          have hle : M / 10 ^ i ≤ M := Nat.div_le_self _ _
          rw [Numeral.step, hd, Option.getD_some]
          have hval : toLong ((M / 10 ^ (i + 1) : Nat) * 10 + (M / 10 ^ i % 10 : Nat)) =
              (M / 10 ^ i : Nat) := by
            rw [toLong_eq] <;> omega
          have hplace : p + (c - (i + 1)) + 1 = p + (c - i) := by omega
          dsimp only
          rw [hval, hplace]
        rw [hstep]
        exact ih (by omega)
  have hstart := hgo c le_rfl
  rwa [Nat.div_eq_of_lt hc, Nat.sub_self] at hstart

/-! ## Reading what was printed -/

section RoundTrip

variable {v : Int} {t : Nat} {str out : Nat → Int}

/-- The characters behind the sign are within nine of `'0'`. -/
theorem Printed.char_bounds (h : Printed v t str out) {i : Nat} (hi : i ≤ t) :
    39 ≤ out (offset v + i) ∧ out (offset v + i) ≤ 57 ∧
      (digitSign v = 1 → 48 ≤ out (offset v + i)) := by
  have hlt : v.natAbs / 10 ^ (t - i) % 10 < 10 := Nat.mod_lt _ (by decide)
  rw [h.digit i hi]
  rcases digitSign_cases v with hσ | hσ <;> rw [hσ] <;> omega

/-- The string is not empty before its NUL. -/
theorem Printed.ne_zero (h : Printed v t str out) {i : Nat} (hi : i < offset v + t + 1) :
    out i ≠ 0 := by
  rcases Nat.lt_or_ge i (offset v) with hlt | hge
  · have hneg : v < 0 := by
      by_contra hneg
      rw [offset, if_neg hneg] at hlt
      exact Nat.not_lt_zero i hlt
    have hzero : i = 0 := by
      rw [offset, if_pos hneg] at hlt
      exact Nat.lt_one_iff.1 hlt
    rw [hzero, h.minus hneg]
    decide
  · obtain ⟨j, rfl⟩ := Nat.exists_eq_add_of_le hge
    have hlow := (h.char_bounds (i := j) (by omega)).1
    omega

/-- No blank is skipped, and the sign is the one that was printed. -/
theorem Printed.sign (h : Printed v t str out) :
    ¬ (out 0 = 32 ∨ out 0 = 9) ∧ signAt out 0 = (offset v, decide (v < 0)) := by
  rw [signAt, offset]
  by_cases hneg : v < 0
  · rw [h.minus hneg, if_pos hneg, decide_eq_true hneg]
    exact ⟨by decide, rfl⟩
  · have hoff : offset v = 0 := if_neg hneg
    have hσ : digitSign v = 1 := if_neg (by omega)
    obtain ⟨-, -, hlow⟩ := h.char_bounds (Nat.zero_le t)
    have hchar := hlow hσ
    rw [hoff, Nat.zero_add] at hchar
    rw [if_neg (by omega), if_neg (by omega), if_neg hneg, decide_eq_false hneg]
    exact ⟨by omega, rfl⟩

/-- The result of `strtol` from where its loop stops. -/
theorem Printed.strtol_ends (h : Printed v t str out) {n : Numeral}
    (hn : Halts (fun n : Numeral => (digitIn 10 (out n.s)).isSome) (Numeral.step out 10)
      { s := offset v, val := 0 } n) :
    EndsWith (strtol out 0 10) (if v < 0 then toLong (-n.val) else n.val, n.s) := by
  obtain ⟨hblank, hsign⟩ := h.sign
  refine EndsWith.bind (a := 0) (Halts.stop hblank) ?_
  have hbase : basePrefix out (offset v) 10 = (offset v, 10) := by
    rw [basePrefix, if_neg (fun hx => absurd hx.1 (by decide)),
      if_neg (fun hx => absurd hx.1 (by decide)), if_neg (by decide)]
  rw [hsign]
  dsimp only
  rw [hbase]
  refine EndsWith.bind hn ?_
  simp only [decide_eq_true_eq]
  exact EndsWith.of_some _

/-- The numbers whose printed string is read back: every decimal digit but the last is not zero,
and the absolute value is a `long`. -/
def Faithful (v : Int) : Prop :=
  v ≠ -2 ^ 31 ∧ ∀ k, 1 ≤ k → v.natAbs / 10 ^ k ≠ 0 → v.natAbs / 10 ^ k % 10 ≠ 0

/-- Nothing is left behind the digits exactly where no digit but the last is zero. -/
theorem StopsAt.mod_eq_iff {m : Nat} (h : StopsAt m t) :
    m % 10 ^ (t + 1) = m ↔ ∀ k, 1 ≤ k → m / 10 ^ k ≠ 0 → m / 10 ^ k % 10 ≠ 0 := by
  obtain ⟨hbelow, hstop⟩ := h
  rw [Nat.mod_eq_iff_lt (Nat.pow_pos (by decide)).ne']
  constructor
  · intro hlt k hk hne
    refine hbelow k hk ?_
    by_contra hkt
    have hle : 10 ^ (t + 1) ≤ 10 ^ k := Nat.pow_le_pow_right (by decide) (Nat.not_le.1 hkt)
    exact hne (Nat.div_eq_of_lt (hlt.trans_le hle))
  · intro hall
    by_contra hge
    have hne : m / 10 ^ (t + 1) ≠ 0 := by
      rw [Ne, Nat.div_eq_zero_iff, not_or]
      exact ⟨(Nat.pow_pos (by decide)).ne', hge⟩
    exact hall (t + 1) (Nat.le_add_left 1 t) hne hstop

/-- The digits printed are read as the number without what the stopping test dropped. -/
theorem Printed.numeral (h : Printed v t str out) (hlow : -2 ^ 31 ≤ v) (hhigh : v < 2 ^ 31)
    (hmin : v ≠ -2 ^ 31) :
    Halts (fun n : Numeral => (digitIn 10 (out n.s)).isSome) (Numeral.step out 10)
      { s := offset v, val := 0 }
      { s := offset v + (t + 1), val := (v.natAbs % 10 ^ (t + 1) : Nat) } := by
  have hσ : digitSign v = 1 := if_neg hmin
  have hle : v.natAbs % 10 ^ (t + 1) ≤ v.natAbs := Nat.mod_le _ _
  refine numeral_halts (by omega) (Nat.mod_lt _ (Nat.pow_pos (by decide))) (fun i hi => ?_) ?_
  · have hindex : t + 1 - 1 - i = t - i := by omega
    have hpow : 10 ^ (t + 1) = 10 ^ (t - i) * 10 ^ (i + 1) := by
      rw [← Nat.pow_add]
      exact congrArg _ (by omega)
    have hdvd : 10 ∣ 10 ^ (i + 1) := Dvd.intro_left _ (Nat.pow_succ 10 i).symm
    rw [h.digit i (by omega), hσ, hindex, hpow, Nat.mod_mul_right_div_self,
      Nat.mod_mod_of_dvd _ hdvd, Int.one_mul]
  · rw [← Nat.add_assoc, h.nul]
    exact digitIn_below (by decide)

/-- The most negative number: the first character behind the sign is below `'0'`. -/
theorem Printed.numeral_min (h : Printed v t str out) (hmin : v = -2 ^ 31) :
    Halts (fun n : Numeral => (digitIn 10 (out n.s)).isSome) (Numeral.step out 10)
      { s := offset v, val := 0 } { s := offset v, val := 0 } := by
  refine .stop ?_
  have hfirst := h.digit 0 (Nat.zero_le t)
  have ht : 1 ≤ t := by
    by_contra hzero
    have hstop := h.stops.2
    rw [Nat.lt_one_iff.1 (Nat.not_le.1 hzero), hmin] at hstop
    exact absurd hstop (by decide)
  have hne := h.stops.1 t ht le_rfl
  have hσ : digitSign v = -1 := if_pos hmin
  rw [Nat.add_zero, Nat.sub_zero, hσ] at hfirst
  have hbelow : out (offset v) < 48 := by omega
  show ¬ (digitIn 10 (out (offset v))).isSome = true
  rw [digitIn_below hbelow]
  exact Bool.false_ne_true

/-- `ltostr` always leaves a NUL-terminated string, and `strtol` reads the number back from it
exactly when no decimal digit but the last is zero and the number is not the most negative one. -/
theorem ltostr_strtol_iff (hlow : -2 ^ 31 ≤ v) (hhigh : v < 2 ^ 31) (str : Nat → Int) :
    ∃ out n r e, EndsWith (ltostr v str) out ∧ (out n = 0 ∧ ∀ i, i < n → out i ≠ 0) ∧
      EndsWith (strtol out 0 10) (r, e) ∧ (r = v ↔ Faithful v) := by
  obtain ⟨t, out, hout, h⟩ := ltostr_ends hlow str
  by_cases hmin : v = -2 ^ 31
  · refine ⟨out, _, _, _, hout, ⟨h.nul, fun i hi => h.ne_zero hi⟩,
      h.strtol_ends (h.numeral_min hmin), iff_of_false ?_ fun hf => hf.1 hmin⟩
    rw [if_pos (by omega)]
    intro hzero
    rw [hmin] at hzero
    exact absurd hzero (by decide)
  · refine ⟨out, _, _, _, hout, ⟨h.nul, fun i hi => h.ne_zero hi⟩,
      h.strtol_ends (h.numeral hlow hhigh hmin), ?_⟩
    have hle : v.natAbs % 10 ^ (t + 1) ≤ v.natAbs := Nat.mod_le _ _
    rw [Faithful, and_iff_right hmin, ← h.stops.mod_eq_iff]
    dsimp only
    split
    · rw [toLong_eq (by omega) (by omega)]
      omega
    · omega

/-- A number whose digits are all written. -/
theorem ltostr_strtol_iff_answer :
    ∃ out n r e, EndsWith (ltostr (-42) fun _ => 7) out ∧
      (out n = 0 ∧ ∀ i, i < n → out i ≠ 0) ∧ EndsWith (strtol out 0 10) (r, e) ∧
      (r = -42 ↔ Faithful (-42)) :=
  ltostr_strtol_iff (by decide) (by decide) _

/-- `105` is printed as `5`. -/
theorem ltostr_strtol_inner_zero :
    ¬ ∀ (v : Int) (str : Nat → Int), -2 ^ 31 ≤ v → v < 2 ^ 31 →
      ∃ out n e, EndsWith (ltostr v str) out ∧ (out n = 0 ∧ ∀ i, i < n → out i ≠ 0) ∧
        EndsWith (strtol out 0 10) (v, e) := by
  intro hall
  obtain ⟨out, n, e, hout, -, hread⟩ := hall 105 (fun _ => 0) (by decide) (by decide)
  obtain ⟨t, out', hout', h⟩ := ltostr_ends (v := 105) (by decide) fun _ => 0
  obtain rfl := hout.unique hout'
  have hread' := h.strtol_ends (h.numeral (by decide) (by decide) (by decide))
  have heq := congrArg Prod.fst (hread.unique hread')
  -- the stopping test drops the one
  have ht : t = 0 := by
    by_contra hne
    exact h.stops.1 1 le_rfl (Nat.pos_of_ne_zero hne) (by decide)
  rw [ht] at heq
  dsimp only at heq
  exact absurd heq (by decide)

end RoundTrip

end Text
end FosMemory
