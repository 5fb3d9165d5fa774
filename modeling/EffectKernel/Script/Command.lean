import EffectKernel.Configuration
import EffectKernel.Script.Construction

/-!
# Commands

What a session of the outer layer can be asked to do: make something and give it a name,
run an effect in one way or another, look after fibers of their own, and use handles
that scripts have put aside.

## Main definitions

* `Surroundings`: The services and the configuration of a run.
* `Kind`: The kind of a run.
* `Command`: What a session is asked to do.
-/

namespace EffectKernel

namespace Script

/-- The services and the configuration of a run. -/
inductive Surroundings where
  /-- These services; delays count as said, or as usual for the kind of run. -/
  | given (services : ContextScript) (honorDelays : Option Bool)
  /-- No services and the usual configuration. -/
  | usual
  /-- These services, and no delays. -/
  | test (services : ContextScript)

/-- The services around a run and whether its delays count. -/
def Surroundings.make (names : Names) (usually : Bool) :
    Surroundings → Making (Context × Bool)
  | .given services honorDelays => do
    return ((← services.make names []).context, honorDelays.getD usually)
  | .usual => pure (Context.empty, Configuration.usual.honorDelays)
  | .test services => do return ((← services.make names []).context, false)

/-- The kind of a run. -/
inductive Kind where
  /-- On the spot. -/
  | blocking
  /-- In a fiber of the session's own; the answer is how it ends. -/
  | exit
  /-- The same, but the answer is the value or why there is none. -/
  | promise
  /-- In a fiber with a callback; the answer is what the callback was told. -/
  | callback
  /-- The same where there is nothing that could run a fiber. -/
  | outside
deriving DecidableEq

/-- What a session is asked to do. -/
inductive Command where
  /-- Make a context and show it. -/
  | context (name : String) (services : ContextScript)
  /-- Tell whether two contexts are one and the same. -/
  | sameRegistry (a b : ContextScript)
  /-- Make a layer and show its signature. Another one may stand in for it. -/
  | layer (name : String) (layer : LayerScript) (sorted : Bool)
      (fallback : Option LayerScript)
  /-- Make an effect and show its outermost node. -/
  | effect (name : String) (effect : Program)
  /-- Show the node of a wait. -/
  | sleepText (span : Duration)
  /-- Show handlers for tags. -/
  | tagsText (tags : List String)
  /-- Run an effect, perhaps with all counters cleared before. -/
  | run (effect : Program) (kind : Kind) (surroundings : Surroundings) (fresh : Bool)
  /-- Start a fiber with a callback. -/
  | spawn (name : String) (effect : Program) (surroundings : Surroundings)
  /-- Cancel a fiber. -/
  | cancel (name : String)
  /-- Wait for so many milliseconds, or until nobody has anything to do. -/
  | wait (millis : Nat)
  /-- Wait until a fiber has ended. -/
  | join (name : String)
  /-- Lose touch with a fiber. -/
  | drop (name : String)
  /-- Tell what is known of a fiber. -/
  | status (name : String)
  /-- Use a handle that was put aside. -/
  | resume (name : String) (use : HandleScript)
  /-- Tell whether anybody waits for a handle that was put aside. -/
  | resumeStatus (name : String)
  /-- Something that no session can do. -/
  | unknown

end Script

end EffectKernel
