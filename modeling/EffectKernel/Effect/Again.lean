import EffectKernel.Effect.Channels

/-!
# Running Again, and Not Too Long

Effects that run their source more than once, as a schedule allows, and effects that
run it for a limited time only. Each run of the description starts its schedule from
the beginning.

## Main definitions

* `Effect.retry`, `Effect.retryWhile`: Again after a failure.
* `Effect.repeated`: Again after a success.
* `Effect.within`: At most for so long.
* `Effect.provideService`: With one more service.
-/

namespace EffectKernel

namespace Effect

variable {σ : Type}

/-- Runs the source again after each failure while the schedule allows it. -/
def retry (source : Effect σ) (schedule : Schedule) : Effect σ :=
  .recur source schedule .retry none

/-- Runs the source again after each failure that passes a test, while the schedule
    allows it. -/
def retryWhile (source : Effect σ) (schedule : Schedule) (test : Value → Act σ Bool) :
    Effect σ :=
  .recur source schedule .retry (some test)

/-- Runs the source again after each success while the schedule allows it. -/
def repeated (source : Effect σ) (schedule : Schedule) : Effect σ :=
  .recur source schedule .repeating none

/-- Runs the source and gives up with nothing when it has not ended in time. -/
def within (source : Effect σ) (limit : Duration) : Effect σ :=
  .flatMap (.timeout source limit) fun finished => pure (succeed finished)

/-- Runs the source with one more service. -/
def provideService (source : Effect σ) (key : ServiceKey) (service : Value) : Effect σ :=
  .provide source (Context.single key service)

end Effect

end EffectKernel
