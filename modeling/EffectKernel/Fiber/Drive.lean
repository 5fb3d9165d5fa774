import EffectKernel.Fiber.Turn

/-!
# Virtual Time

Who runs when. There is one thread of control, the caller's, and the tasks it has
started. The caller waits for something: for a fiber that it runs itself, for a point
in time, for a task to end, or until nobody else has anything to do. It is always
looked at first. Then the tasks that have been woken have their turns in the order of
the queue, a batch of them at most, and the caller is looked at again.

Time stands still while anybody can run. When nobody can, the clock goes straight to
the next point in time at which somebody has to be woken. An observer may be told
each time this is about to happen.

If nobody can run and nobody waits for a point in time, the caller waits in vain.

## Main definitions

* `Await`: What the caller waits for.
* `Kernel.finishTask`: What the task of a fiber does when the fiber has ended.
* `Kernel.runTask`: A turn of a task.
* `Kernel.runBatch`: The turns of tasks until the caller is looked at again.
* `Kernel.advance`: The clock goes to the next point in time that matters.
* `Kernel.drive`: Turns until the caller has what it waits for.
-/

namespace EffectKernel

/-- What the caller waits for. -/
inductive Await (σ : Type) where
  /-- A fiber that it runs itself. -/
  | fiber (settings : Settings) (id : FiberId) (fiber : Fiber σ)
  /-- A point in time. -/
  | time (wake : Nat)
  /-- The end of a task. -/
  | task (id : TaskId)
  /-- Nobody else having anything to do. -/
  | quiet

/-- What the caller has got. -/
inductive Attended (σ : Type) where
  /-- What it waited for, with the outcome of a fiber it ran. -/
  | done (outcome : Option Outcome)
  /-- It still waits. -/
  | still (await : Await σ)
  /-- The steps were too few. -/
  | exhausted

namespace Work

variable {σ : Type}

/-- The next point in time at which a task has to be woken. -/
def nextWake : Work σ → Option Nat
  | .run _ _ fiber => fiber.nextWake
  | .errand due _ _ => some due

/-- The paths of those in a task whose time has come. -/
def dueAt (now : Nat) (path : Path) : Work σ → List Path
  | .run _ _ fiber => fiber.dueAt now path
  | .errand due _ _ => if due ≤ now then [path] else []

/-- The handles that somebody in a task waits for. -/
def handles : Work σ → List Handle
  | .run _ _ fiber => fiber.handles
  | .errand _ _ _ => []

end Work

namespace Await

variable {σ : Type}

/-- The next point in time at which the caller has to be woken. -/
def nextWake : Await σ → Option Nat
  | .fiber _ _ f => f.nextWake
  | .time wake => some wake
  | .task _ => none
  | .quiet => none

/-- The paths of those in the caller's fiber whose time has come. -/
def dueAt (now : Nat) : Await σ → List Path
  | .fiber _ id f => f.dueAt now [id]
  | _ => []

end Await

namespace Kernel

variable {σ : Type}

/-- How many tasks have their turns before the caller is looked at again. -/
def batchSize : Nat := 61

/-- The first task in the queue. -/
def nextTask? (k : Kernel σ) : Option (Task σ) :=
  k.woken.findSome? k.task?

/-- The fiber of a task has ended. The end is reported, the callback hears of the outcome if
    nobody has called it, and the task goes away. -/
def finishTask (k : Kernel σ) (id : TaskId) (outcome : Outcome) : Kernel σ :=
  ((k.report (.fiberCompleted outcome.isSuccess)).deliver id outcome).dropTask id

/-- A turn of a task, of at most so many steps. A cancelled task goes away. An errand
    that panics lets its handle go. -/
def runTask (fuel : Nat) (k : Kernel σ) (task : Task σ) : Option (Kernel σ) :=
  let k := k.unwake task.id
  if task.cancelled then some ((k.leaveAll task.work.handles).dropTask task.id)
  else
    match task.work with
    | .run started settings fiber =>
      let k := if started then k else k.report .fiberStarted
      match fiber.turn settings fuel [task.id] k with
      | (.exhausted, _) => none
      | (.ended outcome, k) => some (k.finishTask task.id outcome)
      | (.waiting fiber, k) => some (k.setTask { task with work := .run true settings fiber })
    | .errand due handle act =>
      if due ≤ k.now then
        match act.run k.world.store with
        | (.ok signals, store) =>
          some (((k.modifyStore fun _ => store).signalAll signals).dropTask task.id)
        | (.error _, store) =>
          some (((k.modifyStore fun _ => store).release handle).dropTask task.id)
      else some k

/-- The turns of tasks until the queue holds none or a batch is full. -/
def runBatch (fuel : Nat) : Nat → Kernel σ → Option (Kernel σ)
  | 0, k => some k
  | n + 1, k =>
    match k.nextTask? with
    | none => some k
    | some task =>
      match k.runTask fuel task with
      | some k => runBatch fuel n k
      | none => none

/-- A look at the caller. -/
def attend (fuel : Nat) (await : Await σ) (k : Kernel σ) : Attended σ × Kernel σ :=
  match await with
  | .time wake => (if wake ≤ k.now then .done none else .still await, k)
  | .task id => (if (k.task? id).isNone then .done none else .still await, k)
  | .quiet => (if k.nextTask?.isNone then .done none else .still await, k)
  | .fiber settings id fiber =>
    if k.isWoken id then
      match fiber.turn settings fuel [id] (k.unwake id) with
      | (.exhausted, k) => (.exhausted, k)
      | (.ended outcome, k) => (.done (some outcome), k)
      | (.waiting fiber, k) => (.still (.fiber settings id fiber), k)
    else (.still await, k)

/-- Whether the caller or a task waits for a turn. -/
def isBusy (await : Await σ) (k : Kernel σ) : Bool :=
  k.nextTask?.isSome ||
    match await with
    | .fiber _ id _ => k.isWoken id
    | .time wake => wake ≤ k.now
    | .task id => (k.task? id).isNone
    | .quiet => true

/-- The next point in time at which anybody has to be woken. -/
def nextWake (await : Await σ) (k : Kernel σ) : Option Nat :=
  k.tasks.foldl (fun next task => earlier next task.work.nextWake) await.nextWake

/-- The clock goes to a point in time, and everybody whose time has come is woken.
    Nobody was waiting for a turn, so what is left in the queue are fibers that are
    gone. -/
def advance (await : Await σ) (time : Nat) (k : Kernel σ) : Kernel σ :=
  let k := { k with world := { k.world with clock := time }, woken := [] }
  let due := await.dueAt time ++ k.tasks.flatMap fun task => task.work.dueAt time [task.id]
  due.foldl wake k

/-- Turns until the caller has what it waits for, if that takes no more rounds than
    given. The observer is told the time before the clock moves. -/
def drive (observe : Nat → σ → σ) (fuel : Nat) : Nat → Await σ → Kernel σ →
    Option (Option Outcome × Kernel σ)
  | 0, _, _ => none
  | rounds + 1, await, k =>
    match k.attend fuel await with
    | (.exhausted, _) => none
    | (.done outcome, k) => some (outcome, k)
    | (.still await, k) =>
      match k.runBatch fuel batchSize with
      | none => none
      | some k =>
        if k.isBusy await then drive observe fuel rounds await k
        else
          match k.nextWake await with
          | none => none
          | some time =>
            drive observe fuel rounds await
              ((k.modifyStore (observe k.now)).advance await time)

/-- Runs an effect to its end in a fiber of the caller's own. -/
def runExit (observe : Nat → σ → σ) (fuel : Nat) (settings : Settings) (effect : Effect σ)
    (env : Context) (k : Kernel σ) : Option (Outcome × Kernel σ) :=
  let (id, k) := k.draw
  let await := .fiber settings id (.ready (Machine.start effect env))
  match (k.wakeOne id).drive observe fuel fuel await with
  | some (some outcome, k) => some (outcome, k)
  | _ => none

end Kernel

end EffectKernel
