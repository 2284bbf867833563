import Mathlib.Logic.Function.Iterate
import Mathlib.Data.Sum.Basic
import Mathlib.Order.Basic
import Mathlib.Tactic.Common

/-!
# Tail recursion as an iterated step

A function that either returns or calls itself in tail position is a step `α → α ⊕ β`: `inl` is the
argument of the recursive call, `inr` the result. `run` makes at most `fuel` calls. What
every call hands on, the result has (`run_elim`).
-/

namespace LibApta.TailCall

variable {α β : Type*} (step : α → α ⊕ β)

/-- Make at most `fuel` calls. -/
def run : ℕ → α → Option β
  | 0, _ => none
  | fuel + 1, a =>
      match step a with
      | .inl next => run fuel next
      | .inr result => some result

variable {step}

theorem run_succ_of_inl {a next : α} (h : step a = .inl next) (fuel : ℕ) :
    run step (fuel + 1) a = run step fuel next := by
  simp only [run, h]

theorem run_succ_of_inr {a : α} {result : β} (h : step a = .inr result) (fuel : ℕ) :
    run step (fuel + 1) a = some result := by
  simp only [run, h]

/-- What every call hands on, to the call it makes or to its result, the result has. -/
theorem run_elim {P : α → Prop} {Q : β → Prop} (hstep : ∀ a, P a → Sum.elim P Q (step a))
    {fuel : ℕ} {a : α} {result : β} (h : run step fuel a = some result) (ha : P a) : Q result := by
  induction fuel generalizing a with
  | zero => cases h
  | succ fuel ih =>
      have hone := hstep a ha
      cases hs : step a with
      | inl next =>
          rw [run_succ_of_inl hs] at h
          exact ih h (by rwa [hs] at hone)
      | inr value =>
          rw [run_succ_of_inr hs] at h
          rw [hs] at hone
          exact Option.some.inj h ▸ hone

end LibApta.TailCall
