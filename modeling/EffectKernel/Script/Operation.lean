import EffectKernel.Script.Function
import EffectKernel.Script.Report

/-!
# Operations

Lists of operations on an exit, or on one thing or another, as the outer layer asks for
them. Each of them gives an answer, and some replace the value for those that follow. A
function in an operation may panic, and then the whole list has no answer.

## Main definitions

* `ExitOperation`, `EitherOperation`: Operations on a value.
* `ExitOperation.perform`, `EitherOperation.perform`: The answer to one of them.
* `performAll`: The answers to a list of them.
* `mapOutcome`, `mapCause`, `mapSides`: Values transformed by functions that may panic.
-/

namespace EffectKernel

namespace Script

/-- An operation on an exit. -/
inductive ExitOperation where
  /-- Transforms the value. -/
  | map (f : Function)
  /-- Transforms the failure. -/
  | mapError (f : Function)
  /-- Transforms both. -/
  | mapBoth (f g : Function)
  /-- Zips with another exit. -/
  | zip (other : Outcome)
  /-- Zips another exit with this one. -/
  | zipAfter (other : Outcome)
  /-- Makes the exit again from its cause. -/
  | ofCause
  /-- Makes another exit from a result. -/
  | ofExcept (result : Except Value Value)
  /-- Asks for one result out of value and failure. -/
  | fold (f g : Function)
  /-- Asks for the value. -/
  | success
  /-- Asks for the cause. -/
  | cause
  /-- Asks for the value or the cause. -/
  | toExcept
  /-- Asks for the kind. -/
  | kind
  /-- Asks for what a programmer is shown. -/
  | shown
  /-- Asks whether another exit is the same. -/
  | same (other : Outcome)

/-- An operation on one thing or another. -/
inductive EitherOperation where
  /-- Transforms the right one. -/
  | map (f : Function)
  /-- Transforms the left one. -/
  | mapLeft (f : Function)
  /-- Exchanges the sides. -/
  | swap
  /-- Leaves it as it is. -/
  | keep
  /-- Makes another one from a result. -/
  | ofExcept (result : Except Value Value)
  /-- Asks for one result out of both. -/
  | fold (f g : Function)
  /-- Asks for the kind. -/
  | kind
  /-- Asks for the left one. -/
  | left
  /-- Asks for the right one. -/
  | right
  /-- Asks for the right one, the left one being an error. -/
  | toExcept
  /-- Asks for what a programmer is shown. -/
  | shown

/-- A function without variables around it. -/
def Function.run (f : Function) (v : Value) : Act Store Value :=
  f.apply [] v

/-- A truth value for each of some things. -/
def truths {α : Type} (f : α → Bool) (items : List α) : Value :=
  .list (items.map fun item => .bool (f item))

/-- The values of an exit transformed by functions that may panic. -/
def mapOutcome (f g : Value → Act Store Value) : Outcome → Act Store Outcome
  | .success v => do return .success (← f v)
  | .fail e => do return .fail (← g e)
  | .die d => pure (.die d)

/-- A cause with its failure transformed by a function that may panic. -/
def mapCause (f : Value → Act Store Value) : Cause Value → Act Store (Cause Value)
  | .fail e => do return .fail (← f e)
  | .die d => pure (.die d)

/-- The sides transformed by functions that may panic. -/
def mapSides (f g : Value → Act Store Value) :
    Either Value Value → Act Store (Either Value Value)
  | .left v => do return .left (← f v)
  | .right v => do return .right (← g v)

/-- An exit whose value is a pair as one of plain values. -/
def paired (x : Exit (Value × Value) Value) : Outcome :=
  x.map fun (v, w) => .pair v w

/-- What comes out of an operation that replaces what it works on, which is also the
    answer to it. -/
def replacing {α : Type} (shown : α → Value) (next : Act Store α) : Act Store (Value × α) := do
  let a ← next
  return (shown a, a)

/-- The answer to an operation on an exit, with the exit it leaves. -/
def ExitOperation.perform (x : Outcome) : ExitOperation → Act Store (Value × Outcome)
  | .map f => replacing Report.outcome (mapOutcome f.run pure x)
  | .mapError f => replacing Report.outcome (mapOutcome pure f.run x)
  | .mapBoth f g => replacing Report.outcome (mapOutcome f.run g.run x)
  | .zip other => replacing Report.outcome (pure (paired (x.zip other)))
  | .zipAfter other => replacing Report.outcome (pure (paired (other.zip x)))
  | .ofCause =>
    replacing Report.outcome (pure (match x.cause? with | some c => Exit.ofCause c | none => x))
  | .ofExcept result => replacing Report.outcome (pure (Exit.ofExcept result))
  | .fold f g => do
    match ← mapOutcome f.run g.run x with
    | .success v => return (Value.record1 "ok" v, x)
    | .fail v => return (Value.record1 "ok" v, x)
    | .die d => return (Value.record1 "err" (Report.defect d), x)
  | .success => pure (Value.ofOption x.success?, x)
  | .cause =>
    pure (match x.cause? with | some c => Report.cause c | none => .null, x)
  | .toExcept => pure (Report.except Report.cause x.toExcept, x)
  | .kind => pure (truths id [x.isSuccess, x.isFail, x.isDie], x)
  | .shown => pure (.text (x.shown Value.compact Value.compact), x)
  | .same other => pure (.bool (x.same other), x)

/-- The answer to an operation on one thing or another, with what it leaves. -/
def EitherOperation.perform (e : Either Value Value) :
    EitherOperation → Act Store (Value × Either Value Value)
  | .map f => replacing Outcome.ofEither (mapSides pure f.run e)
  | .mapLeft f => replacing Outcome.ofEither (mapSides f.run pure e)
  | .swap => replacing Outcome.ofEither (pure e.swap)
  | .keep => replacing Outcome.ofEither (pure e)
  | .ofExcept result => replacing Outcome.ofEither (pure (Either.ofExcept result))
  | .fold f g => do
    let folded ← mapSides f.run g.run e
    return (folded.fold id id, e)
  | .kind => pure (truths id [e.isLeft, e.isRight], e)
  | .left => pure (Value.ofOption e.left?, e)
  | .right => pure (Value.ofOption e.right?, e)
  | .toExcept => pure (Report.except id e.toExcept, e)
  | .shown => pure (.text (e.shown Value.compact Value.compact), e)

/-- The answers to operations one after the other. -/
def performAll {α β : Type} (perform : α → β → Act Store (Value × α)) :
    α → List β → Act Store (List Value)
  | _, [] => pure []
  | a, operation :: rest => do
    let (answer, a) ← perform a operation
    return answer :: (← performAll perform a rest)

/-- What an action gives, or the report that it panicked. -/
def outright (act : Act Store Value) : Value :=
  match (act.run Store.start).1 with
  | .ok v => v
  | .error p => Report.panic p

end Script

end EffectKernel
