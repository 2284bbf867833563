import LibApta.Lib.Rounding

/-!
# What the session gets from its platform

The allocator and the clock of the context are plans: the list of outcomes of the coming
allocation requests, and the list of the coming clock readings. An exhausted allocation plan grants
every request; an empty clock is a context without one. Arithmetic on `float` and `double` is exact
arithmetic followed by the rounding of the format; the two transcendental functions of the C
library are a parameter.
-/

namespace LibApta

open Rounding

/-! ## Allocator and clock -/

/-- The allocator, the clock and the deadline of the current process call (`0` for none). -/
structure Environment where
  allocations : List Bool
  clock : List ℕ
  deadline : ℕ
deriving DecidableEq

namespace Environment

/-- Ask the allocator for memory. -/
def allocate (env : Environment) : Bool × Environment :=
  match env.allocations with
  | [] => (true, env)
  | granted :: rest => (granted, { env with allocations := rest })

/-- Test the soft deadline. The clock is read only when a deadline is set. -/
def deadlinePassed (env : Environment) : Bool × Environment :=
  if env.deadline = 0 then (false, env)
  else match env.clock with
    | [] => (false, env)
    | now :: rest => (decide (env.deadline ≤ now), { env with clock := rest })

/-- Set the deadline of a process call from its soft time budget. -/
def startDeadline (env : Environment) (softTimeBudgetUs : ℕ) : Environment :=
  if softTimeBudgetUs = 0 then { env with deadline := 0 }
  else match env.clock with
    | [] => { env with deadline := 0 }
    | now :: rest =>
        let duration := softTimeBudgetUs * 1000
        { env with
          clock := rest
          deadline :=
            if now = 0 then 0
            else if 18446744073709551615 - now < duration then 18446744073709551615
            else now + duration }

/-- Forget the deadline at the end of a process call. -/
def clearDeadline (env : Environment) : Environment := { env with deadline := 0 }

/-- The allocator grants every coming request. -/
def Granting (env : Environment) : Prop := ∀ granted ∈ env.allocations, granted = true

theorem Granting.allocate {env : Environment} (h : env.Granting) :
    env.allocate.1 = true ∧ env.allocate.2.Granting := by
  obtain ⟨allocations, clock, deadline⟩ := env
  cases allocations with
  | nil => exact ⟨rfl, h⟩
  | cons granted rest =>
      obtain ⟨hgranted, hrest⟩ := List.forall_mem_cons.mp h
      exact ⟨hgranted, hrest⟩

end Environment

/-! ## Floating-point arithmetic of the target -/

/-- Round to `float`. -/
def f32 (x : ℚ) : ℚ := binary32.round x

/-- `float` addition. -/
def fadd (x y : ℚ) : ℚ := f32 (x + y)

/-- `float` subtraction. -/
def fsub (x y : ℚ) : ℚ := f32 (x - y)

/-- `float` multiplication. -/
def fmul (x y : ℚ) : ℚ := f32 (x * y)

/-- `float` division. -/
def fdiv (x y : ℚ) : ℚ := f32 (x / y)

/-- `sqrtf`. -/
def fsqrt (x : ℚ) : ℚ := binary32.sqrt x

/-- Round to `double`. -/
def f64 (x : ℚ) : ℚ := binary64.round x

/-- Truncation of a non-negative float to an unsigned integer. -/
def truncate (x : ℚ) : ℕ := ⌊x⌋₊

/-- The transcendental functions of the C library. -/
structure Libm where
  expf : ℚ → ℚ
  logf : ℚ → ℚ

/-- The magnitude of a sample, saturated at full scale and quantised to an integer. The scales in
use are powers of two, so the product is exact. -/
def scaledMagnitude (scale : ℕ) (sample : ℚ) : ℕ := truncate (min |sample| 1 * scale)

end LibApta
