import EffectKernel.ConstructionError
import EffectKernel.Effect.Channels

/-!
# Many Effects as One

Several effects run as one. The children of `all` are run in order and their values
collected; its variants differ in what a failing child does to the rest and in how
the ends are reported. A defect ends all of them at once.

Trying effects until one succeeds comes in two forms. `firstSuccessOf?` is a tower of
handlers, each of which runs the next effect. `raceOf?` makes a node of its own, so that
its children can run side by side.

## Main definitions

* `Effect.zipWith`, `Effect.zip`: Two effects in order.
* `Effect.allOf`, `Effect.allPar`: The values of all, or the first failure.
* `Effect.allValidate`: The values of all, or the failures by position.
* `Effect.allEither`: The ends of all.
* `Effect.firstSuccessOf?`, `Effect.raceOf?`: The first success.
-/

namespace EffectKernel

namespace Effect

variable {σ : Type}

/-- Goes on from the ends of the children of a collecting effect. -/
def fromEnds (source : Effect σ)
    (next : List (Either Value Value) → Act σ (Effect σ)) : Effect σ :=
  .flatMap source fun v =>
    match Outcome.listOf? v with
    | some ends => next ends
    | none => pure (die (.typeMismatch "the ends of children"))

/-- Succeeds with the values of children that all succeeded. -/
def successes (ends : List (Either Value Value)) : Effect σ :=
  match ends.mapM Either.right? with
  | some values => succeed (.list values)
  | none => die (.typeMismatch "a successful outcome")

/-- Runs two effects in order and combines their values. -/
def zipWith (a b : Effect σ) (f : Value → Value → Act σ Value) : Effect σ :=
  (Effect.all [a, b] .shortCircuit false).fromEnds fun ends =>
    match ends with
    | [.right v, .right w] => do return succeed (← f v w)
    | _ => pure (die (.typeMismatch "two successful outcomes"))

/-- Runs two effects in order and pairs their values. -/
def zip (a b : Effect σ) : Effect σ :=
  a.zipWith b fun v w => pure (.pair v w)

/-- Runs effects in order; the first failure ends the whole. -/
def allOf (effects : List (Effect σ)) : Effect σ :=
  (Effect.all effects .shortCircuit false).fromEnds fun ends => pure (successes ends)

/-- Runs effects side by side where that is possible; the first failure ends the
    whole. -/
def allPar (effects : List (Effect σ)) : Effect σ :=
  (Effect.all effects .shortCircuit true).fromEnds fun ends => pure (successes ends)

/-- Runs every effect. If some fail, the whole fails with one slot for each effect,
    which holds the error of those that failed. -/
def allValidate (effects : List (Effect σ)) : Effect σ :=
  (Effect.all effects .every false).fromEnds fun ends =>
    if ends.all Either.isRight then pure (successes ends)
    else pure (fail (.list (ends.map fun e => Value.ofOption e.left?)))

/-- Runs every effect and reports how each of them ended. -/
def allEither (effects : List (Effect σ)) : Effect σ :=
  (Effect.all effects .every false).fromEnds fun ends => pure (succeed (Outcome.toList ends))

/-- Tries effects in order until one does not fail. -/
def firstSuccessOf? : List (Effect σ) → Except ConstructionError (Effect σ)
  | [] => .error (.emptyInput "first_success_of")
  | first :: rest => .ok (rest.foldl (fun acc next => acc.catchAll fun _ => pure next) first)

/-- Runs effects side by side where that is possible, and keeps the first success. -/
def raceOf? : List (Effect σ) → Except ConstructionError (Effect σ)
  | [] => .error (.emptyInput "race")
  | effects => .ok (.race effects)

end Effect

end EffectKernel
