import EffectKernel.Effect

/-!
# Making Effects

The leaves of a description: effects that end at once in a known way, effects that
ask a function of the program how to end, and effects that wait.

## Main definitions

* `Effect.succeed`, `Effect.fail`, `Effect.die`: The three known ends.
* `Effect.sync`, `Effect.trySync`: Ends that a function computes.
* `Effect.ofExcept`, `Effect.ofOption`: Ends given as data.
* `Effect.promiseOf`: Waiting for a routine.
* `Effect.asyncEffect`: Waiting for a handle.
* `Routine.after`: A routine that begins after a while.
-/

namespace EffectKernel

namespace Effect

variable {σ : Type}

/-- Succeeds with a value. -/
def succeed (v : Value) : Effect σ :=
  .exit (pure (.success v))

/-- Fails with an error. -/
def fail (e : Value) : Effect σ :=
  .exit (pure (.fail e))

/-- Dies by a defect. -/
def die (d : Defect) : Effect σ :=
  .exit (pure (.die d))

/-- Succeeds with nothing. -/
def unit : Effect σ :=
  succeed .null

/-- Succeeds with what a function gives, each time it is run. -/
def sync (f : Act σ Value) : Effect σ :=
  .exit do return .success (← f)

/-- Ends as a function says; its error goes through another function. -/
def trySync (f : Act σ (Except Value Value)) (catching : Value → Act σ Value) : Effect σ :=
  .exit do
    match ← f with
    | .ok v => return .success v
    | .error e => return .fail (← catching e)

/-- Ends as given. -/
def ofExcept : Except Value Value → Effect σ
  | .ok v => succeed v
  | .error e => fail e

/-- Succeeds with a value if there is one, and otherwise asks for the error. -/
def ofOption (v : Option Value) (onNone : Act σ Value) : Effect σ :=
  .exit do
    match v with
    | some v => return .success v
    | none => return .fail (← onNone)

/-- Succeeds with what a routine ends in. -/
def promiseOf (start : Act σ (Routine σ)) : Effect σ :=
  .promise start

/-- Waits for a handle that a function passes on. -/
def asyncEffect (register : Handle → Act σ (List (Signal σ))) : Effect σ :=
  .callback fun handle => do return (← register handle, none)

end Effect

namespace Routine

variable {σ : Type}

/-- The routine that sleeps first, if there is any time to sleep. -/
def after (millis : Option Nat) (next : Act σ (Routine σ)) : Act σ (Routine σ) :=
  match millis with
  | some n => pure (.sleep n next)
  | none => next

end Routine

end EffectKernel
