import EffectKernel.Machine.Step

/-!
# Blocking Runs

A run that goes on to its end at once, on the spot. It is steps of the machine one
after the other. A program may run for ever, so a run is given a number of steps it
may take; one that has not ended by then has no outcome, and a larger number never
changes an outcome that there is.

If the machine asks for something after all, the run as a whole dies: there is
nobody who could take it up again, and no frame of the program gets to see it.

## Main definitions

* `Machine.runBlocking`: Steps until the end.
* `runSync`: The outcome of an effect that is run on the spot.
-/

namespace EffectKernel

namespace Machine

variable {σ : Type}

/-- Steps until the end, but at most so many. -/
def runBlocking (settings : Settings) : Nat → Machine σ → World σ → Option (Outcome × World σ)
  | 0, _, _ => none
  | fuel + 1, m, w =>
    match m.step settings w with
    | (.next m, w) => runBlocking settings fuel m w
    | (.done outcome, w) => some (outcome, w)
    | (.ask _ _, w) => some (.die (.asyncInSync "an effect that suspends"), w)

end Machine

/-- The outcome of an effect that is run on the spot, if it ends within so many
    steps. -/
def runSync {σ : Type} (fuel : Nat) (honorDelays : Bool) (effect : Effect σ) (env : Context)
    (w : World σ) : Option (Outcome × World σ) :=
  (Machine.start effect env).runBlocking ⟨.sync, honorDelays⟩ fuel w

end EffectKernel
