import EffectKernel.Effect

/-!
# Generators

A generator is straight-line code with a handle by which it binds effects and reads
services. The handle holds the services around the generator where it began; every
effect that is bound runs among these, in a machine of its own, and so does not touch
what is around the generator.

What has been bound or read is a result: a value, or the reason for an early end. The
code may look at the result for itself. Most of the time it goes on from the value and
otherwise ends for the same reason (`Gen.orHalt`), so a failure or a defect leaves the
generator on the spot and is how the whole ends.

## Main definitions

* `Halt`: The early end of a generator.
* `Halt.result`, `Halt.outcome`: The results that outcomes are for the code, and back.
* `Gen`: The handle of a generator.
* `Gen.bind`, `Gen.service`: What it is good for.
* `Gen.orHalt`: Going on from a value only.
* `Effect.generator`: The effect that runs a generator.
-/

namespace EffectKernel

/-- The early end of a generator. -/
structure Halt where
  /-- Why it ends. -/
  cause : Cause Value

namespace Halt

/-- An end with an expected failure. -/
def fail (e : Value) : Halt :=
  ⟨.fail e⟩

/-- An end by a defect. -/
def die (d : Defect) : Halt :=
  ⟨.die d⟩

/-- What the outcome of a bound effect is for the code that has bound it. -/
def result : Outcome → Except Halt Value
  | .success v => .ok v
  | .fail e => .error (fail e)
  | .die d => .error (die d)

/-- The outcome of a generator that ends with a result. -/
def outcome : Except Halt Value → Outcome
  | .ok v => .success v
  | .error halt => .ofCause halt.cause

/-- An outcome is not changed by being made the result of a generator and back. -/
@[simp] theorem outcome_result (x : Outcome) : outcome (result x) = x := by
  cases x <;> rfl

@[simp] theorem result_outcome (r : Except Halt Value) : result (outcome r) = r := by
  rcases r with ⟨⟨_ | _⟩⟩ | v <;> rfl

end Halt

/-- The handle of a generator. -/
structure Gen where
  /-- The services around the generator. -/
  context : Context

namespace Gen

variable {σ : Type}

/-- The generator ends with a result. -/
def ends (result : Except Halt Value) : Routine σ :=
  .done (Halt.outcome result)

/-- Binds an effect, and goes on from what comes of it. -/
def bind (cx : Gen) (effect : Effect σ) (next : Except Halt Value → Act σ (Routine σ)) :
    Routine σ :=
  .await effect cx.context fun x => next (Halt.result x)

/-- Reads a service. -/
def service (cx : Gen) (key : ServiceKey) : Except Halt Value :=
  match cx.context.get? key with
  | some v => .ok v
  | none => .error (.die (.missingService key.name))

/-- Goes on from the value of a result, and otherwise ends early. -/
def orHalt (next : Value → Act σ (Routine σ)) : Except Halt Value → Act σ (Routine σ)
  | .ok v => next v
  | .error halt => pure (ends (.error halt))

end Gen

/-- The effect that runs a generator, anew each time. -/
def Effect.generator {σ : Type} (body : Gen → Act σ (Routine σ)) : Effect σ :=
  .gen fun env => body ⟨env⟩

end EffectKernel
