import EffectKernel.Effect

/-!
# The Machine

What a running effect is between two steps. The machine looks at one thing at a time,
its focus: an effect to be evaluated, an outcome to be handed outwards, or a routine
to be carried on. Around the focus lie the frames, one for each node whose source is
being run, the innermost first; and the services that can be read at the focus.

A node pushes a frame and moves the focus to its source. An outcome pops frames until
one of them has something further to run. Since the frames are a list and not calls
waiting to return, a program may nest as deep as it likes.

An effect that a routine has bound is not run above these frames. It gets a machine of
its own, which begins with no frames and with the services that the routine has bound the
effect among, and which is what the machine of the routine looks at as long as the routine
waits. The frames and services around the routine stay as they are meanwhile. A machine
that has to wait for something may therefore have others around it, and whoever takes it
up again needs to know them all.

What the machine changes as it goes is the world: the state of the program, the
clock, and the events reported so far.

## Main definitions

* `Settings`: Whether the run may suspend, and whether it waits out delays.
* `World`: The state of the program, the clock and the events.
* `World.guarded`: An action run so that its panic becomes a defect.
* `Frame`: What is left to do around a source.
* `Body`: How a routine goes on that waits for an effect it has bound.
* `Focus`, `Machine`: What is being looked at, and all of it together.
* `Machine.within`: A machine whose routine waits for another machine.
* `Suspension`: A machine that waits for something, with all machines around it.
* `Resumption`: What it is resumed with.
* `Suspension.resume`: How it goes on.
-/

namespace EffectKernel

/-- Whether a run may suspend. -/
inductive Mode where
  /-- The run goes on to its end at once. -/
  | sync
  /-- The run may be suspended and taken up again. -/
  | async
deriving DecidableEq

/-- How a program is run. -/
structure Settings where
  /-- Whether the run may suspend. -/
  mode : Mode
  /-- Whether delays are waited out; otherwise they take no time. -/
  honorDelays : Bool
deriving DecidableEq

/-- What changes as a program runs. -/
structure World (σ : Type) where
  /-- The state of the program. -/
  store : σ
  /-- The time since the beginning, in nanoseconds. -/
  clock : Nat
  /-- The events reported so far, in order. -/
  events : Array Event

namespace World

variable {σ α : Type}

/-- The world with one more event. -/
def report (w : World σ) (event : Event) : World σ :=
  { w with events := w.events.push event }

/-- The world after an action. A panic becomes a defect, and is reported. -/
def guarded (w : World σ) (act : Act σ α) : Except Defect α × World σ :=
  match act.run w.store with
  | (.ok a, store) => (.ok a, { w with store := store })
  | (.error p, store) =>
    let defect := Defect.ofPanic p
    (.error defect, { w with store := store }.report (.panicCaptured defect))

end World

/-- A source that may be run again. -/
structure Recurrence (σ : Type) where
  /-- What is run again. -/
  source : Effect σ
  /-- Whether it may be, and after which wait. -/
  schedule : Schedule
  /-- Where the schedule stands. -/
  state : ScheduleState
  /-- After which ends it is. -/
  mode : Recur
  /-- Which failures count, if not all do. -/
  filter : Option (Value → Act σ Bool)
  /-- How many runs there have been. -/
  attempt : UInt32

/-- What is left to do around a source. -/
inductive Frame (σ : Type) where
  /-- Go on from a value. -/
  | flatMap (next : Value → Act σ (Effect σ))
  /-- Go on from a value or a failure, where there is a way. -/
  | fold (onSuccess onFailure : Option (Value → Act σ (Effect σ)))
  /-- Go on from a defect. -/
  | catchDefect (handler : Defect → Act σ (Effect σ))
  /-- Perhaps run the source again. -/
  | recur (recurrence : Recurrence σ)
  /-- Put back the services that were there before. -/
  | restore (env : Context)
  /-- Run the rest of the children; the ends so far are kept with the latest first. -/
  | all (rest : List (Effect σ)) (collect : Collect) (ends : List (Either Value Value))
  /-- Run the rest of the children while they fail. -/
  | race (rest : List (Effect σ))

/-- How a routine goes on that waits for an effect it has bound. -/
abbrev Body (σ : Type) : Type :=
  Outcome → Act σ (Routine σ)

/-- What the machine looks at. -/
inductive Focus (σ : Type) where
  /-- An effect to be evaluated. -/
  | eval (effect : Effect σ)
  /-- An outcome to be handed outwards. -/
  | unwind (outcome : Outcome)
  /-- A routine to be carried on. -/
  | resume (routine : Act σ (Routine σ))
  /-- A machine inside, for an effect that a routine has bound: what that one looks at, its
      services and its frames. -/
  | within (body : Body σ) (inner : Focus σ) (env : Context) (stack : List (Frame σ))

/-- A running effect between two steps. -/
structure Machine (σ : Type) where
  /-- What the machine looks at. -/
  focus : Focus σ
  /-- The services that can be read. -/
  env : Context
  /-- What is left to do, the innermost first. -/
  stack : List (Frame σ)

/-- A machine around another one, for which its routine waits. -/
structure Host (σ : Type) where
  /-- The routine that waits. -/
  body : Body σ
  /-- The services that can be read around it. -/
  env : Context
  /-- What is left to do around it. -/
  stack : List (Frame σ)

/-- What a machine is resumed with that has waited for something. -/
inductive Resumption (σ : Type) where
  /-- An outcome. -/
  | outcome (x : Outcome)
  /-- An effect to go on with. -/
  | effect (e : Effect σ)

/-- What the machine looks at then. -/
def Resumption.focus {σ : Type} : Resumption σ → Focus σ
  | .outcome x => .unwind x
  | .effect e => .eval e

/-- A machine that waits for something, in a row of machines around it. What it is to look at
    is missing. -/
structure Suspension (σ : Type) where
  /-- The machines around it, the outermost first. -/
  hosts : List (Host σ)
  /-- The services that can be read where it waits. -/
  env : Context
  /-- What is left to do there. -/
  stack : List (Frame σ)

namespace Machine

variable {σ : Type}

/-- The machine that is about to run an effect. -/
def start (effect : Effect σ) (env : Context) : Machine σ :=
  ⟨.eval effect, env, []⟩

/-- The machine whose routine waits for another machine. -/
def within (body : Body σ) (env : Context) (stack : List (Frame σ)) (m : Machine σ) : Machine σ :=
  ⟨.within body m.focus m.env m.stack, env, stack⟩

/-- The machine in a row of machines around it. -/
def inside (hosts : List (Host σ)) (m : Machine σ) : Machine σ :=
  hosts.foldr (fun host m => m.within host.body host.env host.stack) m

end Machine

namespace Suspension

variable {σ : Type}

/-- The machine that waits looks at something, and goes on. -/
def resume (point : Suspension σ) (focus : Focus σ) : Machine σ :=
  Machine.inside point.hosts ⟨focus, point.env, point.stack⟩

/-- What is left to do around all machines. -/
def frames (point : Suspension σ) : List (Frame σ) :=
  match point.hosts with
  | [] => point.stack
  | host :: _ => host.stack

/-- The machine that waits, with one more machine around it. -/
def within (body : Body σ) (env : Context) (stack : List (Frame σ)) (point : Suspension σ) :
    Suspension σ :=
  { point with hosts := ⟨body, env, stack⟩ :: point.hosts }

/-- A machine inside another one may be resumed inside it, or be put inside it once it has been
    resumed. -/
@[simp] theorem resume_within (body : Body σ) (env : Context) (stack : List (Frame σ))
    (point : Suspension σ) (focus : Focus σ) :
    (point.within body env stack).resume focus = (point.resume focus).within body env stack :=
  rfl

@[simp] theorem stack_resume (point : Suspension σ) (focus : Focus σ) :
    (point.resume focus).stack = point.frames := by
  obtain ⟨_ | ⟨host, hosts⟩, env, stack⟩ := point <;> rfl

end Suspension

end EffectKernel
