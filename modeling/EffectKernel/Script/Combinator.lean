import EffectKernel.Effect.Again
import EffectKernel.Effect.Generator
import EffectKernel.Effect.Many
import EffectKernel.Layer.Build
import EffectKernel.Script.Leaf
import EffectKernel.Script.Report

/-!
# The Combinators of a Script

What a script, in the outer layer, does with its parts once these are effects. A
combinator works on one source, on a source and a way to go on, on two effects, or on
any number of them; and one family wraps a source in many layers of the same kind, one
after the other.

## Main definitions

* `Change`: A combinator of one source.
* `Handling`: A combinator of a source and a way to go on.
* `Joining`: A combinator of two effects.
* `Gathering`: A combinator of any number of effects.
* `Wrapping`: A source wrapped again and again.
-/

namespace EffectKernel

namespace Script

/-- A combinator of one source. -/
inductive Change where
  /-- Transforms the value. -/
  | map (f : Function)
  /-- Shows the value to a function. -/
  | tap (f : Function)
  /-- Replaces the value. -/
  | asValue (v : Template)
  /-- Drops the value. -/
  | unit
  /-- Transforms the failure. -/
  | mapError (f : Function)
  /-- Shows the failure to a function. -/
  | tapError (f : Function)
  /-- Replaces any failure by another one. -/
  | orElseFail (v : Template) (f : Function)
  /-- Replaces any failure by a value. -/
  | orElseSucceed (v : Template) (f : Function)
  /-- One value out of both channels. -/
  | matchExit (onSuccess onFailure : Function)
  /-- The end of the source as a value. -/
  | either
  /-- Exchanges the channels. -/
  | flip
  /-- Runs the source again after a failure. -/
  | retry (schedule : Schedule)
  /-- Runs the source again after some failures. -/
  | retryWhile (schedule : Schedule) (test : Test)
  /-- Runs the source again after a success. -/
  | repeating (schedule : Schedule)
  /-- Runs the source for a limited time. -/
  | within (limit : Duration)
  /-- Runs the source with one more service. -/
  | provideService (key : ServiceKey) (v : Template)

/-- The effect of a combinator of one source. -/
def Change.effect (scope : Scope) (source : Effect Store) : Change → Effect Store
  | .map f => source.map (f.apply scope)
  | .tap f => source.tap fun v => do let _ ← f.apply scope v
  | .asValue v => source.asValue (v.fill scope)
  | .unit => source.asUnit
  | .mapError f => source.mapError (f.apply scope)
  | .tapError f => source.tapError fun e => do let _ ← f.apply scope e
  | .orElseFail v f => source.orElseFail (f.apply scope (v.fill scope))
  | .orElseSucceed v f => source.orElseSucceed (f.apply scope (v.fill scope))
  | .matchExit onSuccess onFailure =>
    source.matchExit (onSuccess.apply scope) (onFailure.apply scope)
  | .either => source.either
  | .flip => source.flip
  | .retry schedule => source.retry schedule
  | .retryWhile schedule test => source.retryWhile schedule (test.holds scope)
  | .repeating schedule => source.repeated schedule
  | .within limit => source.within limit
  | .provideService key v => source.provideService key (v.fill scope)

/-- A combinator of a source and a way to go on. -/
inductive Handling where
  /-- Goes on from the value. -/
  | andThen
  /-- Goes on from the failure. -/
  | catchAll
  /-- Goes on from the failures that pass a test. -/
  | catchIf (test : Test)
  /-- Goes on from the failures with a tag. -/
  | catchTag (tag : String)
  /-- Goes on after any failure. -/
  | orElse
  /-- Goes on from the defect. -/
  | catchDefect

/-- The effect of a combinator of a source and a way to go on. -/
def Handling.effect (scope : Scope) (source : Effect Store)
    (next : Value → Act Store (Effect Store)) : Handling → Effect Store
  | .andThen => source.andThen next
  | .catchAll => source.catchAll next
  | .catchIf test => source.catchIf (test.holds scope) next
  | .catchTag tag => source.catchTag ⟨tag, next⟩
  | .orElse => source.orElse (next .null)
  | .catchDefect => .catchDefect source fun d => next (Report.defect d)

/-- A combinator of two effects. -/
inductive Joining where
  /-- Pairs the values. -/
  | zip
  /-- Combines the values. -/
  | zipWith (f : Combination)
  /-- Keeps the second value. -/
  | zipRight

/-- The effect of a combinator of two effects. -/
def Joining.effect (a b : Effect Store) : Joining → Effect Store
  | .zip => a.zip b
  | .zipWith f => a.zipWith b f.apply
  | .zipRight => a.zipRight b

/-- A combinator of any number of effects. -/
inductive Gathering where
  /-- The values of all, in order. -/
  | all
  /-- The values of all, side by side where that is possible. -/
  | parallel
  /-- The values of all, or the failures by position. -/
  | validate
  /-- The ends of all. -/
  | either
  /-- The failures and the values of all. -/
  | partition
  /-- The first success, in order. -/
  | firstSuccess
  /-- The first success, side by side where that is possible. -/
  | race

/-- The failures and the values among the ends of effects. -/
def partitioned (ends : Value) : Value :=
  match Outcome.listOf? ends with
  | some ends =>
    match Either.partition ends with
    | (lefts, rights) => Value.record2 "lefts" (.list lefts) "rights" (.list rights)
  | none => .null

/-- The effect of a combinator of any number of effects. -/
def Gathering.effect (effects : List (Effect Store)) :
    Gathering → Except ConstructionError (Effect Store)
  | .all => .ok (Effect.allOf effects)
  | .parallel => .ok (Effect.allPar effects)
  | .validate => .ok (Effect.allValidate effects)
  | .either => .ok (Effect.allEither effects)
  | .partition => .ok ((Effect.allEither effects).map fun ends => pure (partitioned ends))
  | .firstSuccess => Effect.firstSuccessOf? effects
  | .race => Effect.raceOf? effects

/-- A source wrapped again and again. -/
inductive Wrapping where
  /-- Adds one to the value, as a function. -/
  | map
  /-- Adds one to the value, as an effect. -/
  | flatMap
  /-- Adds one to the failure, as a function. -/
  | mapError
  /-- Adds one to the failure, as an effect. -/
  | catchAll
  /-- Adds an exclamation mark to the defect. -/
  | catchDefect
  /-- Fails with a number where the source fails. -/
  | orElse
  /-- Exchanges the channels. -/
  | flip
  /-- Runs the source again not once after a failure. -/
  | retry
  /-- Runs the source again not once after a success. -/
  | repeating
  /-- Makes the source when it is run. -/
  | suspend
  /-- Provides a number as a service. -/
  | provide
  /-- Runs another effect first. -/
  | zipRight
  /-- Runs the source as the only one of many, in order. -/
  | all
  /-- Runs the source as the only one of many, side by side. -/
  | parallel
  /-- Runs the source as the only one in a race. -/
  | race
  /-- Runs the source inside a routine. -/
  | gen
  /-- Provides a number as a service that a layer builds. -/
  | layer

/-- One more than a number. -/
def successor : Value → Act Store Value :=
  (Function.add 1).apply []

/-- The last item of a list. -/
def lastItem : Value → Value
  | .list items => items.getLast?.getD .null
  | _ => .null

/-- A source wrapped once; the count says for the how many-th time. -/
def Wrapping.once (kind : Wrapping) (i : Nat) (source : Effect Store) :
    Act Store (Effect Store) :=
  match kind with
  | .map => pure (source.map successor)
  | .flatMap => pure (source.andThen fun v => do return Effect.succeed (← successor v))
  | .mapError => pure (source.mapError successor)
  | .catchAll => pure (source.catchAll fun e => do return Effect.fail (← successor e))
  | .catchDefect =>
    pure (.catchDefect source fun d => pure (Effect.die (.raised (d.message ++ "!"))))
  | .orElse =>
    pure (if i = 1 then source else source.orElse (pure (Effect.fail (.ofNat i))))
  | .flip => pure source.flip
  | .retry => pure (source.retry (.recurs 0))
  | .repeating => pure (source.repeated (.recurs 0))
  | .suspend => pure (.suspend (pure source))
  | .provide => pure (source.provideService ⟨0, "Alpha"⟩ (.ofNat i))
  | .zipRight => pure ((Effect.succeed (.ofNat i)).zipRight source)
  | .all => pure ((Effect.allOf [source]).map fun v => pure (lastItem v))
  | .parallel => pure ((Effect.allPar [source]).map fun v => pure (lastItem v))
  | .race => pure (.race [source])
  | .gen => pure (.generator fun cx => pure (cx.bind source fun result => pure (Gen.ends result)))
  | .layer => do
    let layer := Layer.succeed (← Store.draw) ⟨1, "Beta"⟩ (.ofNat i)
    return source.provideLayer layer pure

/-- A source wrapped so many times, counting up. -/
def Wrapping.effect (kind : Wrapping) (n : Nat) (source : Effect Store) :
    Act Store (Effect Store) :=
  (List.range' 1 n).foldlM (fun source i => kind.once i source) source

end Script

end EffectKernel
