import FosMemory.Lib.Outcome
import Mathlib.Data.Nat.Basic

/-!
# WordLoop — counted loops on a counter of bounded width

The counter of a `for` loop in C is a machine word: behind its last value comes zero again.
`wordLoop` plays such a loop for at most `fuel` rounds, where `none` says that the rounds did not
suffice.  A loop ends when some number of rounds suffices.  When the stride divides the width, the
loop `i < bound` ends exactly for the bounds that some multiple of the stride reaches.
-/

namespace FosMemory
namespace Lib

variable {ε α β σ : Type}

/-- Some number of rounds suffices. -/
def Ends (r : Nat → Option α) : Prop :=
  ∃ fuel, r fuel ≠ none

/-- From some number of rounds on the answer is `a`. -/
def EndsWith (r : Nat → Option α) (a : α) : Prop :=
  ∃ n, ∀ fuel, n ≤ fuel → r fuel = some a

theorem EndsWith.ends {r : Nat → Option α} {a : α} (h : EndsWith r a) : Ends r := by
  obtain ⟨n, hn⟩ := h
  refine ⟨n, ?_⟩
  rw [hn n (Nat.le_refl n)]
  exact Option.some_ne_none a

theorem EndsWith.unique {r : Nat → Option α} {a b : α} (h : EndsWith r a) (h' : EndsWith r b) :
    a = b := by
  obtain ⟨n, hn⟩ := h
  obtain ⟨m, hm⟩ := h'
  have heq := (hn (max n m) (Nat.le_max_left n m)).symm.trans (hm _ (Nat.le_max_right n m))
  exact Option.some.inj heq

theorem EndsWith.of_some (a : α) : EndsWith (fun _ => some a) a :=
  ⟨0, fun _ _ => rfl⟩

/-- A computation that needs one round for itself. -/
theorem EndsWith.of_succ {r r' : Nat → Option α} {a : α} (h : EndsWith r' a)
    (hr : ∀ fuel, r (fuel + 1) = r' fuel) : EndsWith r a := by
  obtain ⟨n, hn⟩ := h
  refine ⟨n + 1, fun fuel hfuel => ?_⟩
  cases fuel with
  | zero => exact absurd hfuel (Nat.not_succ_le_zero n)
  | succ m => exact (hr m).trans (hn m (Nat.le_of_succ_le_succ hfuel))

/-- The rounds of two computations behind one another are joined by their maximum. -/
theorem EndsWith.bind {r : Nat → Option α} {k : α → Nat → Option β} {a : α} {b : β}
    (h : EndsWith r a) (hk : EndsWith (k a) b) :
    EndsWith (fun fuel => (r fuel).bind fun x => k x fuel) b := by
  obtain ⟨n, hn⟩ := h
  obtain ⟨m, hm⟩ := hk
  refine ⟨max n m, fun fuel hfuel => ?_⟩
  have hr := hn fuel (Nat.le_trans (Nat.le_max_left n m) hfuel)
  dsimp only
  rw [hr]
  exact hm fuel (Nat.le_trans (Nat.le_max_right n m) hfuel)

/-- One computation behind another.  Neither running out of rounds nor stopping leads on. -/
def followedBy (r : Option (Except ε α)) (k : α → Option (Except ε β)) : Option (Except ε β) :=
  match r with
  | none => none
  | some (.error e) => some (.error e)
  | some (.ok a) => k a

@[simp] theorem followedBy_none (k : α → Option (Except ε β)) :
    followedBy none k = none :=
  rfl

@[simp] theorem followedBy_ok (a : α) (k : α → Option (Except ε β)) :
    followedBy (some (.ok a)) k = k a :=
  rfl

theorem followedBy_eq_ok {r : Option (Except ε α)} {k : α → Option (Except ε β)} {b : β}
    (h : followedBy r k = some (.ok b)) : ∃ a, r = some (.ok a) ∧ k a = some (.ok b) := by
  match r, h with
  | some (.ok a), h => exact ⟨a, rfl, h⟩

/-- Both parts get the same number of rounds, so the larger of the two bounds does for both. -/
theorem EndsWith.followedBy {r : Nat → Option (Except ε α)} {x : Except ε α}
    {k : Nat → α → Option (Except ε β)} {y : α → Except ε β} (h : EndsWith r x)
    (hk : ∀ a, EndsWith (fun fuel => k fuel a) (y a)) :
    EndsWith (fun fuel => Lib.followedBy (r fuel) (k fuel)) (x >>= y) := by
  obtain ⟨n, hn⟩ := h
  cases x with
  | error e =>
    refine ⟨n, fun fuel hfuel => ?_⟩
    dsimp only
    rw [hn fuel hfuel]
    rfl
  | ok a =>
    obtain ⟨m, hm⟩ := hk a
    refine ⟨max n m, fun fuel hfuel => ?_⟩
    dsimp only
    rw [hn fuel (le_trans (Nat.le_max_left n m) hfuel), followedBy_ok]
    exact hm fuel (le_trans (Nat.le_max_right n m) hfuel)

/-! ## The loop -/

/-- `for (; test(i); i += stride) s = body(i, s)` with a counter of `w` values. -/
def wordLoop (w stride : Nat) (test : Nat → Prop) [DecidablePred test]
    (body : Nat → σ → Except ε σ) : Nat → Nat → σ → Option (Except ε σ)
  | 0, _, _ => none
  | fuel + 1, i, s =>
    if test i then
      match body i s with
      | .error e => some (.error e)
      | .ok s => wordLoop w stride test body fuel ((i + stride) % w) s
    else some (.ok s)

section Loop

variable {w stride : Nat} {test : Nat → Prop} [DecidablePred test]
  {body : Nat → σ → Except ε σ}

/-- The rounds `i` to `i + n` of a loop that starts at `a`, none of which wraps around. -/
theorem wordLoop_rounds {a n i fuel : Nat} {s : σ} (hfuel : n < fuel)
    (hgo : ∀ k, i ≤ k → k < i + n → test (a + stride * k) ∧ a + stride * (k + 1) < w)
    (hstop : ¬ test (a + stride * (i + n))) :
    wordLoop w stride test body fuel (a + stride * i) s =
      some (forRange (fun k => body (a + stride * k)) i n s) := by
  induction n generalizing i fuel s with
  | zero =>
    obtain ⟨fuel, rfl⟩ := Nat.exists_eq_add_of_lt hfuel
    rw [Nat.add_zero] at hstop
    rw [wordLoop, if_neg hstop, forRange]
  | succ n ih =>
    obtain ⟨fuel, rfl⟩ := Nat.exists_eq_succ_of_ne_zero (Nat.ne_of_gt (Nat.zero_lt_of_lt hfuel))
    obtain ⟨htest, hlt⟩ := hgo i (Nat.le_refl i) (by omega)
    rw [wordLoop, if_pos htest, forRange]
    cases hbody : body (a + stride * i) s with
    | error e => rw [error_bind]
    | ok t =>
      -- the next counter is inside the word
      have hnext : (a + stride * i + stride) % w = a + stride * (i + 1) := by
        rw [Nat.add_assoc, ← Nat.mul_succ, Nat.mod_eq_of_lt hlt]
      dsimp only
      rw [hnext, ok_bind]
      refine ih (by omega) (fun k hk hkn => hgo k (by omega) (by omega)) ?_
      have hsum : i + 1 + n = i + (n + 1) := by omega
      rw [hsum]
      exact hstop

/-- A loop whose test never fails does not return. -/
theorem wordLoop_ne_ok {i fuel : Nat} {s t : σ} (hdvd : stride ∣ w) (hw : 0 < w)
    (hi : i < w) (hdi : stride ∣ i) (htest : ∀ k, k < w → stride ∣ k → test k) :
    wordLoop w stride test body fuel i s ≠ some (.ok t) := by
  induction fuel generalizing i s with
  | zero => exact (Option.some_ne_none _).symm
  | succ fuel ih =>
    rw [wordLoop, if_pos (htest i hi hdi)]
    cases hbody : body i s with
    | error e => simp
    | ok u =>
      refine ih (Nat.mod_lt _ hw) ?_
      exact (Nat.dvd_mod_iff hdvd).2 (Nat.dvd_add hdi (Nat.dvd_refl stride))

/-- Rounds that leave the state as it is. -/
theorem wordLoop_still {i fuel : Nat} {s : σ} (hround : ∀ k, body k s = .ok s) :
    wordLoop w stride test body fuel i s = none ∨
      wordLoop w stride test body fuel i s = some (.ok s) := by
  induction fuel generalizing i with
  | zero => exact .inl rfl
  | succ fuel ih =>
    rw [wordLoop, hround]
    by_cases htest : test i
    · rw [if_pos htest]
      exact ih
    · rw [if_neg htest]
      exact .inr rfl

/-- A loop whose test never fails and whose rounds all return does not end. -/
theorem wordLoop_endless {I : σ → Prop} {i fuel : Nat} {s : σ} (hdvd : stride ∣ w) (hw : 0 < w)
    (hi : i < w) (hdi : stride ∣ i) (htest : ∀ k, k < w → stride ∣ k → test k)
    (hround : ∀ k t, k < w → I t → ∃ u, body k t = .ok u ∧ I u) (hs : I s) :
    wordLoop w stride test body fuel i s = none := by
  induction fuel generalizing i s with
  | zero => rfl
  | succ fuel ih =>
    obtain ⟨u, hbody, hu⟩ := hround i s hi hs
    rw [wordLoop, if_pos (htest i hi hdi), hbody]
    refine ih (Nat.mod_lt _ hw) ?_ hu
    exact (Nat.dvd_mod_iff hdvd).2 (Nat.dvd_add hdi (Nat.dvd_refl stride))

end Loop

/-- A loop that adds one in the rounds that satisfy `p`. -/
theorem forRange_count {p : Nat → Prop} [DecidablePred p] {body : Nat → Nat → Except ε Nat}
    {i n m : Nat}
    (h : ∀ k, i ≤ k → k < i + n → ∀ x, body k x = .ok (if p k then x + 1 else x)) :
    forRange body i n m = .ok (m + (List.range' i n).countP fun k => p k) := by
  induction n generalizing i m with
  | zero => rfl
  | succ n ih =>
    rw [forRange, h i (Nat.le_refl i) (by omega), ok_bind,
      ih fun k hk hkn => h k (by omega) (by omega), List.range'_succ, List.countP_cons]
    congr 1
    by_cases hp : p i
    · simp only [hp, if_true, decide_true]
      omega
    · simp only [hp, if_false, decide_false, Bool.false_eq_true]
      omega

/-! ## Loops with an upper bound -/

/-- The number of rounds of `for (i = a; i < bound; i += stride)` on unbounded numbers. -/
def rounds (stride a bound : Nat) : Nat :=
  (bound - a + (stride - 1)) / stride

section Bound

variable {w stride a bound : Nat}

theorem lt_of_lt_rounds (hpos : 0 < stride) {k : Nat} (hk : k < rounds stride a bound) :
    a + stride * k < bound := by
  have hmul : stride * (k + 1) ≤ bound - a + (stride - 1) :=
    calc
      stride * (k + 1) ≤ stride * rounds stride a bound := Nat.mul_le_mul_left stride hk
      _ ≤ bound - a + (stride - 1) := Nat.mul_div_le _ _
  rw [Nat.mul_succ] at hmul
  omega

theorem le_rounds (hpos : 0 < stride) : bound ≤ a + stride * rounds stride a bound := by
  have hlt := Nat.lt_mul_div_succ (bound - a + (stride - 1)) hpos
  rw [Nat.mul_succ] at hlt
  rw [rounds]
  omega

theorem lt_rounds_iff (hpos : 0 < stride) {k : Nat} :
    k < rounds stride a bound ↔ a + stride * k < bound := by
  refine ⟨lt_of_lt_rounds hpos, fun hlt => Nat.lt_of_not_le fun hle => ?_⟩
  refine absurd hlt (Nat.not_lt.2 ?_)
  calc
    bound ≤ a + stride * rounds stride a bound := le_rounds hpos
    _ ≤ a + stride * k := Nat.add_le_add_left (Nat.mul_le_mul_left stride hle) a

theorem mem_rounds (hpos : 0 < stride) {k : Nat} :
    k ∈ List.range' 0 (rounds stride a bound) ↔ a + stride * k < bound := by
  rw [List.mem_range'_1, Nat.zero_add, lt_rounds_iff hpos]
  exact and_iff_right (Nat.zero_le k)

/-- The largest multiple of the stride below `w` is `w - stride`. -/
theorem le_sub_stride (hdvd : stride ∣ w) (hw : 0 < w) {k : Nat} (hk : k < w)
    (hdk : stride ∣ k) : k ≤ w - stride := by
  have hle : stride ≤ w := Nat.le_of_dvd hw hdvd
  refine Nat.le_of_lt_add_of_dvd (n := stride) ?_ hdk (Nat.dvd_sub hdvd (Nat.dvd_refl stride))
  rw [Nat.sub_add_cancel hle]
  exact hk

/-- A bound that a multiple of the stride reaches ends the loop. -/
theorem wordLoop_endsWith {test : Nat → Prop} [DecidablePred test] {b : Nat → σ → Except ε σ}
    (hpos : 0 < stride) (htest : ∀ k, test k ↔ k < bound) (hbound : bound ≤ w - stride)
    (s : σ) :
    EndsWith (fun fuel => wordLoop w stride test b fuel a s)
      (forRange (fun k => b (a + stride * k)) 0 (rounds stride a bound) s) := by
  refine ⟨rounds stride a bound + 1, fun fuel hfuel => ?_⟩
  have hstart : a + stride * 0 = a := by rw [Nat.mul_zero, Nat.add_zero]
  suffices hloop : wordLoop w stride test b fuel (a + stride * 0) s =
      some (forRange (fun k => b (a + stride * k)) 0 (rounds stride a bound) s) by
    rw [hstart] at hloop
    exact hloop
  refine wordLoop_rounds hfuel ?_ ?_
  · intro k _ hk
    rw [Nat.zero_add] at hk
    have hlt := lt_of_lt_rounds hpos hk
    refine ⟨(htest _).2 hlt, ?_⟩
    -- below the bound there is room for one more stride
    rw [Nat.mul_succ, ← Nat.add_assoc]
    omega
  · rw [Nat.zero_add, htest]
    exact Nat.not_lt.2 (le_rounds hpos)

end Bound

end Lib
end FosMemory
