import EffectKernel.Effect.Construct

/-!
# The Two Channels

An effect hands on its value along one channel and its failure along another. What
works on one channel leaves the other alone, and nothing here ever touches a defect
except `catchDefect`. The operations come in pairs, and `flip`, which exchanges the
channels, turns each into its partner.

The functions given to these operations are actions: they may panic, and the whole
effect then dies at that point.

## Main definitions

* `Effect.andThen`, `Effect.catchAll`: Going on from a value, or from a failure.
* `Effect.map`, `Effect.mapError`: A channel transformed.
* `Effect.tap`, `Effect.tapError`: A channel observed.
* `Effect.catchIf`, `Effect.catchTag`, `Effect.catchTags`: Going on from some
  failures only.
* `Effect.orElse`, `Effect.orElseFail`, `Effect.orElseSucceed`: Replacing any
  failure.
* `Effect.fold`, `Effect.matchExit`, `Effect.either`, `Effect.flip`: Both channels at
  once.
-/

namespace EffectKernel

/-- A failure handler for the errors with one tag. -/
structure TagHandler (σ : Type) where
  /-- The tag it is for. -/
  tag : String
  /-- How to go on. -/
  handle : Value → Act σ (Effect σ)

namespace Effect

variable {σ : Type}

/-- Goes on from the value. -/
def andThen (source : Effect σ) (next : Value → Act σ (Effect σ)) : Effect σ :=
  .flatMap source next

/-- Transforms the value. -/
def map (source : Effect σ) (f : Value → Act σ Value) : Effect σ :=
  .flatMap source fun v => do return succeed (← f v)

/-- Shows the value to a function. -/
def tap (source : Effect σ) (f : Value → Act σ Unit) : Effect σ :=
  source.map fun v => do f v; return v

/-- Replaces the value. -/
def asValue (source : Effect σ) (v : Value) : Effect σ :=
  source.map fun _ => pure v

/-- Drops the value. -/
def asUnit (source : Effect σ) : Effect σ :=
  source.asValue .null

/-- Runs another effect afterwards and keeps its value only. -/
def zipRight (source other : Effect σ) : Effect σ :=
  source.andThen fun _ => pure other

/-- Goes on from the failure. -/
def catchAll (source : Effect σ) (handler : Value → Act σ (Effect σ)) : Effect σ :=
  .fold source none (some handler)

/-- Transforms the failure. -/
def mapError (source : Effect σ) (f : Value → Act σ Value) : Effect σ :=
  source.catchAll fun e => do return fail (← f e)

/-- Shows the failure to a function. -/
def tapError (source : Effect σ) (f : Value → Act σ Unit) : Effect σ :=
  source.mapError fun e => do f e; return e

/-- Goes on from the failures that pass a test. -/
def catchIf (source : Effect σ) (test : Value → Act σ Bool)
    (handler : Value → Act σ (Effect σ)) : Effect σ :=
  source.catchAll fun e => do
    if ← test e then handler e else return fail e

/-- Goes on from the failures with a tag. -/
def catchTag (source : Effect σ) (handler : TagHandler σ) : Effect σ :=
  source.catchIf (fun e => pure (e.tag == handler.tag)) handler.handle

/-- Goes on from a failure with the first handler for its tag. -/
def catchTags (source : Effect σ) (handlers : List (TagHandler σ)) : Effect σ :=
  source.catchAll fun e =>
    match handlers.find? fun handler => handler.tag == e.tag with
    | some handler => handler.handle e
    | none => pure (fail e)

/-- Replaces any failure by another effect. -/
def orElse (source : Effect σ) (other : Act σ (Effect σ)) : Effect σ :=
  source.catchAll fun _ => other

/-- Replaces any failure by another one. -/
def orElseFail (source : Effect σ) (error : Act σ Value) : Effect σ :=
  source.mapError fun _ => error

/-- Replaces any failure by a value. -/
def orElseSucceed (source : Effect σ) (value : Act σ Value) : Effect σ :=
  source.catchAll fun _ => do return succeed (← value)

/-- Goes on from the value or the failure. -/
def matchEffect (source : Effect σ) (onSuccess onFailure : Value → Act σ (Effect σ)) :
    Effect σ :=
  .fold source (some onSuccess) (some onFailure)

/-- One value out of both channels. -/
def matchExit (source : Effect σ) (onSuccess onFailure : Value → Act σ Value) : Effect σ :=
  source.matchEffect (fun v => do return succeed (← onSuccess v))
    (fun e => do return succeed (← onFailure e))

/-- The end of the source as a value: a failure on the left, a value on the right. -/
def either (source : Effect σ) : Effect σ :=
  source.matchExit (fun v => pure (Outcome.ofEither (.right v)))
    (fun e => pure (Outcome.ofEither (.left e)))

/-- Exchanges the channels. -/
def flip (source : Effect σ) : Effect σ :=
  source.matchEffect (fun v => pure (fail v)) (fun e => pure (succeed e))

end Effect

/-- Handlers for tags as shown to a programmer. -/
def shownTags (tags : List String) : String :=
  Text.shownRecord "CatchTags" [("tags", Text.quotedList tags)]

end EffectKernel
