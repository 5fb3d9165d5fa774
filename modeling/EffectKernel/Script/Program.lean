import EffectKernel.Script.Combinator

/-!
# Scripts

A script is a program written as data, in the outer layer around the library. It is
built of leaves by combinators, it may bind variables where a combinator goes on from a
value, and it may refer by name to effects, layers and contexts that were made before.

Where a script goes on from a value, the rest of the script is only turned into an
effect when the value is there. The rest may then turn out to be ill made, and it may
say that the function which goes on panics instead.

## Main definitions

* `ContextScript`: A context as a script writes it.
* `Program`: A program as data.
* `RoutineStep`: A step of a routine.
* `HandleScript`: What a script does with a handle.
* `LayerScript`: A layer as a script writes it.
-/

namespace EffectKernel

namespace Script

/-- A context as a script writes it. -/
inductive ContextScript where
  /-- The context without services. -/
  | empty
  /-- Services added one after the other to the context without services. -/
  | entries (services : List (ServiceKey × Template))
  /-- The context with one service. -/
  | single (key : ServiceKey) (v : Template)
  /-- Two contexts as one. -/
  | merge (left right : ContextScript)
  /-- A context with one more service. -/
  | insert (context : ContextScript) (key : ServiceKey) (v : Template)
  /-- A context made before. -/
  | ref (name : String)

mutual
/-- A program as data. -/
inductive Program where
  /-- A part without parts. -/
  | leaf (l : Leaf)
  /-- A combinator of one source. -/
  | change (source : Program) (c : Change)
  /-- A combinator of a source and a way to go on, with the variable it binds. -/
  | handle (source : Program) (h : Handling) (bound : String) (next : Program)
  /-- Goes on from the failures with some tags. -/
  | catchTags (source : Program) (handlers : List TagScript)
  /-- Goes on from the value or the failure. -/
  | matchEffect (source : Program) (value : String) (onSuccess : Program)
      (error : String) (onFailure : Program)
  /-- A combinator of two effects. -/
  | join (a b : Program) (j : Joining)
  /-- A combinator of any number of effects. -/
  | gather (parts : List Program) (g : Gathering)
  /-- A source wrapped again and again. -/
  | wrap (source : Program) (w : Wrapping) (times : Nat)
  /-- Makes the effect when it is run. -/
  | suspend (next : Program)
  /-- Counts on and runs another part each time, in the end always the last. -/
  | sequence (counter : String) (first : Program) (rest : List Program)
  /-- One of two parts, which one being known from the beginning. -/
  | choose (test : Test) (v : Template) (yes no : Program)
  /-- Hands out a handle and waits. -/
  | listen (handle : HandleScript)
  /-- Runs a routine. -/
  | routine (steps : List RoutineStep)
  /-- Runs the source with more services. -/
  | provideContext (source : Program) (context : ContextScript)
  /-- Runs the source with the services of a layer, whose failure is perhaps put
      under a name. -/
  | provideLayer (source : Program) (layer : LayerScript) (under : Option String)
  /-- Runs the source with one service out of a layer that cannot fail. -/
  | provideService (source : Program) (key : ServiceKey) (v : Template)
  /-- Builds a layer and shows what comes out. -/
  | build (layer : LayerScript)
  /-- An effect made before. -/
  | ref (name : String)
  /-- No effect: the function that should make one panics. -/
  | stop (p : Panic)

/-- How a script goes on from the failures with a tag. -/
inductive TagScript where
  /-- The tag, the variable that is bound, and the way to go on. -/
  | on (tag bound : String) (next : Program)

/-- A step of a routine. The value that it yields is bound to a variable. -/
inductive RoutineStep where
  /-- Runs an effect, whose value it yields. -/
  | bind (bound : String) (effect : Program)
  /-- Runs an effect and yields how it ends. -/
  | attempt (bound : String) (effect : Program)
  /-- Yields a service. -/
  | service (bound : String) (key : ServiceKey)
  /-- Yields the services around the routine. -/
  | context (bound : String)
  /-- Yields the routine's own description. -/
  | describe (bound : String)
  /-- Ends the routine. -/
  | halt (outcome : Exit Template Template)
  /-- Ends the routine with the last value if it passes a test. -/
  | haltIf (bound : String) (test : Test)
  /-- Writes to the log. -/
  | log (bound : String) (v : Template)
  /-- Yields a function of the last value. -/
  | apply (bound : String) (f : Function)
  /-- Gives way to others. -/
  | giveWay (bound : String)
  /-- Panics. -/
  | stop (p : Panic)

/-- What a script does with a handle. -/
inductive HandleScript where
  /-- Completes the waiting effect. -/
  | complete (outcome : Exit Template Template)
  /-- Has the waiting effect go on as another one. -/
  | resume (effect : Program)
  /-- Lets the handle go. -/
  | drop
  /-- Panics. -/
  | stop (p : Panic)
  /-- Puts the handle aside under a name. -/
  | hold (name : String)
  /-- Writes to the log first. -/
  | log (remark : Template) (next : HandleScript)
  /-- Does it later, from outside. -/
  | after (millis : Nat) (next : HandleScript)
  /-- Does it now, from outside. -/
  | outside (next : HandleScript)

/-- A layer as a script writes it. -/
inductive LayerScript where
  /-- A layer made before. -/
  | ref (name : String)
  /-- The layer for nothing. -/
  | empty
  /-- The layer that hands out one service. -/
  | succeed (key : ServiceKey) (v : Template)
  /-- The layer that runs an effect for one service. -/
  | effect (key : ServiceKey) (effect : Program)
  /-- The layer whose service is how far a counter has counted. -/
  | count (key : ServiceKey) (counter : String)
  /-- The layer that hands out a finished context. -/
  | context (context : ContextScript)
  /-- A layer that declares some more wants. -/
  | dependsOn (layer : LayerScript) (keys : List ServiceKey)
  /-- A layer fed from another. -/
  | feed (consumer supplier : LayerScript) (keepSupplier : Bool)
  /-- Two layers as one. -/
  | merge (left right : LayerScript)
  /-- Layers wired up by their wants. -/
  | graph (layers : List LayerScript)
  /-- A layer whose failure is transformed. -/
  | mapError (layer : LayerScript) (f : Function)
end

end Script

end EffectKernel
