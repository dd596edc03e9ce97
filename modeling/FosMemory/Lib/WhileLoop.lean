import FosMemory.Lib.WordLoop

/-!
# WhileLoop — loops on a state

`whileLoop` plays `while (test(s)) s = next(s)` for at most `fuel` rounds.  `Halts test next s t`
says that the loop started in `s` ends in `t`; its two rules are the two cases of the test.
-/

namespace FosMemory
namespace Lib

variable {σ : Type}

/-- `while (test(s)) s = next(s)`; `none` when the rounds do not suffice. -/
def whileLoop (test : σ → Prop) [DecidablePred test] (next : σ → σ) : Nat → σ → Option σ
  | 0, _ => none
  | fuel + 1, s => if test s then whileLoop test next fuel (next s) else some s

/-- The loop started in `s` ends in `t`. -/
def Halts (test : σ → Prop) [DecidablePred test] (next : σ → σ) (s t : σ) : Prop :=
  EndsWith (fun fuel => whileLoop test next fuel s) t

section Rules

variable {test : σ → Prop} [DecidablePred test] {next : σ → σ} {s t u : σ}

theorem Halts.stop (h : ¬ test s) : Halts test next s s := by
  refine ⟨1, fun fuel hfuel => ?_⟩
  cases fuel with
  | zero => exact absurd hfuel (by decide)
  | succ n => exact if_neg h

theorem Halts.round (h : test s) (hrest : Halts test next (next s) t) : Halts test next s t := by
  obtain ⟨n, hn⟩ := hrest
  refine ⟨n + 1, fun fuel hfuel => ?_⟩
  cases fuel with
  | zero => exact absurd hfuel (Nat.not_succ_le_zero n)
  | succ m =>
    dsimp only
    rw [whileLoop, if_pos h]
    exact hn m (Nat.le_of_succ_le_succ hfuel)

/-- A run that ends within `n` rounds. -/
theorem Halts.of_run {n : Nat} (h : whileLoop test next n s = some t) :
    Halts test next s t := by
  induction n generalizing s with
  | zero => cases h
  | succ n ih =>
    rw [whileLoop] at h
    split at h
    · next htest => exact .round htest (ih h)
    · next hstop =>
      cases h
      exact .stop hstop

theorem Halts.unique (h : Halts test next s t) (h' : Halts test next s u) : t = u :=
  EndsWith.unique h h'

end Rules

end Lib
end FosMemory
