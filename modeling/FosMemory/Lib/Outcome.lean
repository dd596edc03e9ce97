import Mathlib.Logic.Basic

/-!
# Outcome — rules for computations that may stop

A computation that returns or stops is an `Except ε α`.  `Ensures E P r` says that `r` either
returns a value in `P` or stops with an error in `E`; with an empty `E` it says that `r` returns.
The rules below are the usual ones of a weakest precondition, with one rule for counted loops.
-/

namespace FosMemory
namespace Lib

variable {ε α β σ : Type}

/-- `r` returns a value in `P`, or stops with an error in `E`. -/
def Ensures (E : ε → Prop) (P : α → Prop) : Except ε α → Prop
  | .ok a => P a
  | .error e => E e

@[simp] theorem ensures_ok {E : ε → Prop} {P : α → Prop} {a : α} :
    Ensures E P (.ok a) ↔ P a :=
  Iff.rfl

@[simp] theorem ensures_pure {E : ε → Prop} {P : α → Prop} {a : α} :
    Ensures E P (pure a : Except ε α) ↔ P a :=
  Iff.rfl

@[simp] theorem ensures_error {E : ε → Prop} {P : α → Prop} {e : ε} :
    Ensures E P (.error e) ↔ E e :=
  Iff.rfl

@[simp] theorem ok_bind (a : α) (k : α → Except ε β) : (Except.ok a >>= k) = k a :=
  rfl

@[simp] theorem error_bind (e : ε) (k : α → Except ε β) :
    ((Except.error e : Except ε α) >>= k) = Except.error e :=
  rfl

theorem ensures_bind {E : ε → Prop} {P : β → Prop} {r : Except ε α} {k : α → Except ε β} :
    Ensures E P (r >>= k) ↔ Ensures E (fun a => Ensures E P (k a)) r := by
  cases r <;> rfl

theorem Ensures.mono {E F : ε → Prop} {P Q : α → Prop} {r : Except ε α}
    (h : Ensures E P r) (hE : ∀ e, E e → F e) (hP : ∀ a, P a → Q a) : Ensures F Q r := by
  cases r with
  | ok a => exact hP a h
  | error e => exact hE e h

theorem Ensures.imp {E : ε → Prop} {P Q : α → Prop} {r : Except ε α}
    (h : Ensures E P r) (hP : ∀ a, P a → Q a) : Ensures E Q r :=
  h.mono (fun _ he => he) hP

theorem Ensures.bind {E : ε → Prop} {P : α → Prop} {Q : β → Prop} {r : Except ε α}
    {k : α → Except ε β} (h : Ensures E P r) (hk : ∀ a, P a → Ensures E Q (k a)) :
    Ensures E Q (r >>= k) :=
  ensures_bind.2 (h.imp hk)

theorem Ensures.of_ok {E : ε → Prop} {P : α → Prop} {r : Except ε α} {a : α}
    (h : Ensures E P r) (hr : r = .ok a) : P a := by
  subst hr
  exact h

theorem Ensures.exists_ok {P : α → Prop} {r : Except ε α}
    (h : Ensures (fun _ => False) P r) : ∃ a, r = .ok a ∧ P a := by
  cases r with
  | ok a => exact ⟨a, rfl, h⟩
  | error e => exact h.elim

/-- `for (i = a; i < a + n; i++) s = body(i, s)`. -/
def forRange (body : Nat → σ → Except ε σ) : Nat → Nat → σ → Except ε σ
  | _, 0, s => .ok s
  | i, n + 1, s => body i s >>= forRange body (i + 1) n

theorem forRange_error {body : Nat → σ → Except ε σ} {n a : Nat} {s : σ} {e : ε} (hn : 0 < n)
    (h : body a s = .error e) : forRange body a n s = .error e := by
  cases n with
  | zero => exact absurd hn (by omega)
  | succ n => rw [forRange, h, error_bind]

/-- The invariant rule of a counted loop: `I i` holds before round `i`. -/
theorem forRange_ensures {E : ε → Prop} {b : Nat → σ → Except ε σ} {I : Nat → σ → Prop}
    {n a : Nat} {s : σ}
    (hstep : ∀ i t, a ≤ i → i < a + n → I i t → Ensures E (I (i + 1)) (b i t))
    (h : I a s) : Ensures E (I (a + n)) (forRange b a n s) := by
  induction n generalizing a s with
  | zero => exact h
  | succ n ih =>
    refine (hstep a s (Nat.le_refl a) (by omega) h).bind fun t ht => ?_
    have hrest : Ensures E (I (a + 1 + n)) (forRange b (a + 1) n t) :=
      ih (fun i u hi hlt => hstep i u (by omega) (by omega)) ht
    have hsum : a + 1 + n = a + (n + 1) := by omega
    exact hsum ▸ hrest

end Lib
end FosMemory
