import EffectKernel.Defect
import EffectKernel.Duration

/-!
# Events

What the machine reports about its own doings: panics it caught, decisions of
schedules, layers it builds or reuses, and fibers that start, finish or go away.
Events are for an observer. Nothing a program does can depend on them.

## Main definitions

* `Event`: Something the machine reports.
* `Event.level`, `Event.message`, `Event.fields`: Its written form.
-/

namespace EffectKernel

/-- Something the machine reports. -/
inductive Event where
  /-- A function panicked, and the panic became this defect. -/
  | panicCaptured (defect : Defect)
  /-- A failed run is tried again, for the given time, after a wait. -/
  | retrying (attempt : UInt32) (delay : Duration)
  /-- A run is repeated, for the given time, after a wait. -/
  | repeating (attempt : UInt32) (delay : Duration)
  /-- A schedule allows no further run. -/
  | scheduleExhausted (attempt : UInt32)
  /-- A fiber of its own takes its first step. -/
  | fiberStarted
  /-- A fiber of its own has ended. -/
  | fiberCompleted (success : Bool)
  /-- The service of a layer is being built. -/
  | buildingLayer (service : String)
  /-- A layer has been built before and is not built again. -/
  | layerReused (services : List String)
  /-- An effect took longer than its limit. -/
  | timedOut (limit : Duration)
  /-- Somebody resumed a fiber that was gone. -/
  | resumedTooLate
  /-- Nobody is left who could resume a waiting fiber. -/
  | resumeDropped

namespace Event

/-- How much an observer should care. -/
def level : Event → String
  | .panicCaptured _ => "WARN"
  | .resumeDropped => "WARN"
  | _ => "DEBUG"

/-- The event in words. -/
def message : Event → String
  | .panicCaptured _ => "captured panic as defect"
  | .retrying _ _ => "retrying after failure"
  | .repeating _ _ => "repeating after success"
  | .scheduleExhausted _ => "schedule exhausted"
  | .fiberStarted => "fiber started"
  | .fiberCompleted _ => "fiber completed"
  | .buildingLayer _ => "building layer"
  | .layerReused _ => "layer memo hit"
  | .timedOut _ => "effect timed out"
  | .resumedTooLate => "resumed an async effect after its fiber stopped"
  | .resumeDropped => "async effect dropped its resume handle"

/-- The particulars of the event, by name. -/
def fields : Event → List (String × String)
  | .panicCaptured defect => [("defect", defect.message)]
  | .retrying attempt delay => [("attempt", toString attempt), ("delay", delay.shown)]
  | .repeating attempt delay => [("attempt", toString attempt), ("delay", delay.shown)]
  | .scheduleExhausted attempt => [("attempt", toString attempt)]
  | .fiberStarted => []
  | .fiberCompleted success => [("success", toString success)]
  | .buildingLayer service => [("service", service)]
  | .layerReused services => [("services", Text.quotedList services)]
  | .timedOut limit => [("limit", limit.shown)]
  | .resumedTooLate => []
  | .resumeDropped => []

end Event

end EffectKernel
