import EffectKernel.Act
import EffectKernel.Context
import EffectKernel.Either
import EffectKernel.Event
import EffectKernel.Exit
import EffectKernel.Schedule

/-!
# Effects

An effect describes a program. Making one runs nothing, and the same description can
be run any number of times. When it is run, it succeeds with a value, fails with an
error, or dies by a defect.

A description is a tree. Its leaves are functions of the program, services, waits
and ways of hearing from outside; its nodes say what to do with how a subtree ends.
The functions in it are actions on the state of the program, so whatever a run can
do to that state is done by one of them.

Two kinds of leaf end later than they begin. A callback hands a handle to the
outside and waits until the handle is used. A routine is straight-line code that
runs effects one after the other and sees how each of them ends; it may also give
way to others, or sleep.

What the holder of a handle does with it is a signal: complete the waiting effect,
go on there with another effect, let the handle go, or do any of it later.

## Main definitions

* `Effect`: The description of a program.
* `Routine`: Straight-line code inside a program.
* `Signal`: What happens to a handle.
* `Outcome`: How a child of a collecting effect ended.
* `Effect.nodeText`: The description's outermost node as shown to a programmer.
-/

namespace EffectKernel

/-- The number of the handle that can resume a waiting fiber. -/
abbrev Handle : Type := Nat

/-- How a run of a program ends. -/
abbrev Outcome : Type := Exit Value Value

/-- How a collecting effect takes the failure of a child. -/
inductive Collect where
  /-- The first failure ends the whole. -/
  | shortCircuit
  /-- Failures are collected along with values. -/
  | every
deriving DecidableEq

/-- When a recurring effect runs its source again. -/
inductive Recur where
  /-- After a failure. -/
  | retry
  /-- After a success. -/
  | repeating
deriving DecidableEq

mutual
/-- The description of a program on a state of type `σ`. -/
inductive Effect (σ : Type) : Type where
  /-- Ends at once, as an action says. -/
  | exit (thunk : Act σ Outcome)
  /-- Goes on with the effect that an action makes. -/
  | suspend (make : Act σ (Effect σ))
  /-- Hands out a handle and waits until somebody uses it, unless the function that the
      handle is given to panics, perhaps after it has done something with handles. -/
  | callback (register : Handle → Act σ (List (Signal σ) × Option Panic))
  /-- Waits for a routine that an action starts. -/
  | promise (start : Act σ (Routine σ))
  /-- Goes on from the source's value. -/
  | flatMap (source : Effect σ) (next : Value → Act σ (Effect σ))
  /-- Goes on from the source's value or failure, where there is a way. -/
  | fold (source : Effect σ) (onSuccess onFailure : Option (Value → Act σ (Effect σ)))
  /-- Goes on from the defect the source died by. -/
  | catchDefect (source : Effect σ) (handler : Defect → Act σ (Effect σ))
  /-- Runs the source again as a schedule allows, failures being sorted by a filter. -/
  | recur (source : Effect σ) (schedule : Schedule) (mode : Recur)
      (filter : Option (Value → Act σ Bool))
  /-- Reads a service. -/
  | service (key : ServiceKey)
  /-- Runs the source with more services. -/
  | provide (source : Effect σ) (context : Context)
  /-- Waits. -/
  | sleep (span : Duration)
  /-- Runs the source for a limited time. -/
  | timeout (source : Effect σ) (limit : Duration)
  /-- Runs all the children, side by side if that is possible and asked for. -/
  | all (children : List (Effect σ)) (collect : Collect) (parallel : Bool)
  /-- Runs children until one does not fail, side by side if that is possible. -/
  | race (children : List (Effect σ))
  /-- Runs a routine that knows the services around it. -/
  | gen (body : Context → Act σ (Routine σ))
  /-- Reports an event and goes on. -/
  | announce (event : Event) (next : Effect σ)

/-- Straight-line code inside a program. -/
inductive Routine (σ : Type) : Type where
  /-- Ends. -/
  | done (outcome : Outcome)
  /-- Runs an effect among given services, and goes on from how it ends. -/
  | await (effect : Effect σ) (env : Context) (next : Outcome → Act σ (Routine σ))
  /-- Gives way to whatever else can run. -/
  | giveWay (next : Act σ (Routine σ))
  /-- Sleeps for so many milliseconds, whatever the settings say. -/
  | sleep (millis : Nat) (next : Act σ (Routine σ))

/-- What happens to a handle. -/
inductive Signal (σ : Type) : Type where
  /-- The waiting effect ends so. -/
  | complete (handle : Handle) (outcome : Outcome)
  /-- The waiting effect goes on as another one. -/
  | resume (handle : Handle) (effect : Effect σ)
  /-- The handle is let go without being used. -/
  | release (handle : Handle)
  /-- More happens to the handle later, from outside the waiting fiber. -/
  | later (millis : Nat) (handle : Handle) (act : Act σ (List (Signal σ)))
end

namespace Outcome

/-- How a child of a collecting effect ended, as a value. -/
def ofEither : Either Value Value → Value
  | .left e => Value.record1 "left" e
  | .right v => Value.record1 "right" v

/-- The end of a child that a value tells of. -/
def toEither? : Value → Option (Either Value Value)
  | .record [("left", e)] => some (.left e)
  | .record [("right", v)] => some (.right v)
  | _ => none

/-- The ends of the children that a value tells of. -/
def listOf? : Value → Option (List (Either Value Value))
  | .list items => items.mapM toEither?
  | _ => none

/-- The ends of the children as one value. -/
def toList (ends : List (Either Value Value)) : Value :=
  .list (ends.map ofEither)

/-- An end that has been made a value is read back as it was. -/
@[simp] theorem toEither?_ofEither (e : Either Value Value) :
    toEither? (ofEither e) = some e := by
  cases e <;> rfl

/-- So are the ends of several effects. -/
@[simp] theorem listOf?_toList (ends : List (Either Value Value)) :
    listOf? (toList ends) = some ends := by
  induction ends with
  | nil => rfl
  | cons e rest ih =>
    simp only [listOf?, toList, List.map_cons] at ih ⊢
    simp [ih]

end Outcome

namespace Effect

variable {σ : Type}

/-- The outermost node of a description as shown to a programmer. -/
def nodeText : Effect σ → String
  | .exit _ => "Exit"
  | .suspend _ => "Suspend"
  | .callback _ => "Async"
  | .promise _ => "Promise"
  | .flatMap _ _ => "FlatMap"
  | .fold _ _ _ => "Fold"
  | .catchDefect _ _ => "CatchDefect"
  | .recur _ _ _ _ => "Recur"
  | .service key => Text.shownVariant "Service" key.name
  | .provide _ _ => "Provide"
  | .sleep span => Text.shownVariant "Sleep" span.shown
  | .timeout _ _ => "Timeout"
  | .all _ _ _ => "All"
  | .race _ => "Race"
  | .gen _ => "Gen"
  | .announce _ next => next.nodeText

end Effect

end EffectKernel
