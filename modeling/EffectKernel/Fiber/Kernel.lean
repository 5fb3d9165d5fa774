import EffectKernel.Fiber

/-!
# The Kernel

What fibers share. Besides the world there are those who have been woken and wait for
a turn, in the order in which they were woken; the slots behind the handles that have
been given out; and the tasks, which are fibers of their own and errands that do
something later.

A slot sees to it that a handle counts at most once. Its two ends come undone
separately: the holder uses the handle or lets it go, and the fiber takes what has
arrived or goes away. What a holder does after the fiber has gone changes nothing,
and what has arrived is taken once.

Whoever has a fiber run on its own gives a callback and gets a handle on the fiber. The
callback is called when the fiber ends or when it is cancelled, whichever comes first, and
then it is gone. A cancel has two parts. First the task is told to stop, so that it goes
away at its next turn; then the callback is called. Where there is nothing that could run
a fiber, the callback is called at once and the handle does nothing.

## Main definitions

* `Slot`: What is behind a handle.
* `Task`: A fiber of its own, or an errand.
* `Kernel`: What fibers share.
* `Kernel.wake`: Puts a fiber, and those around it, in the queue.
* `Kernel.openSlot`, `Kernel.use`, `Kernel.release`, `Kernel.leave`: What happens to a
  slot.
* `Kernel.signal`: What a holder does with a handle.
* `Kernel.deliver`: Calls a callback that has not been called.
* `FiberHandle`: What somebody who started a fiber has in hand.
* `Kernel.runAsync`: Runs an effect in a fiber of its own.
* `Kernel.abort`, `Kernel.interrupt`, `Kernel.cancel`: The two parts of a cancel.

## Theorems

* `Kernel.wakeTime_le_iff`: When a span is over that is waited for.
* `Kernel.slot?_setSlot`: What is behind a handle after a change.
* `Kernel.task?_dropTask`: Which tasks are left.
-/

namespace EffectKernel

/-- What is behind a handle that has been given out. -/
inductive Slot (σ : Type) where
  /-- Nothing has happened yet; the waiting fiber's path, once it has looked. -/
  | waiting (waiter : Path)
  /-- The handle has been used, and the fiber has not noticed yet. -/
  | filled (resumption : Resumption σ)
  /-- The handle has been let go, and the fiber has not noticed yet. -/
  | released
  /-- The fiber has gone, and somebody still holds the handle. -/
  | abandoned

/-- The number of a task. -/
abbrev TaskId : Type := FiberId

/-- What a task does. -/
inductive Work (σ : Type) where
  /-- Runs a fiber. -/
  | run (started : Bool) (settings : Settings) (fiber : Fiber σ)
  /-- Waits and then does something with a handle. -/
  | errand (due : Nat) (handle : Handle) (act : Act σ (List (Signal σ)))

/-- A task. -/
structure Task (σ : Type) where
  /-- Its number. -/
  id : TaskId
  /-- What it does. -/
  work : Work σ
  /-- Whether it is to stop at its next turn. -/
  cancelled : Bool

/-- What somebody who started a fiber has in hand. -/
structure FiberHandle where
  /-- The number of the fiber, under which its callback is kept. -/
  number : TaskId
  /-- Whether there is a task that runs the fiber. -/
  hasTask : Bool

/-- What fibers share. -/
structure Kernel (σ : Type) where
  /-- The world. -/
  world : World σ
  /-- Those who wait for a turn, the one woken first in front. -/
  woken : List FiberId
  /-- The slots of the handles that are in use. -/
  slots : List (Handle × Slot σ)
  /-- The tasks that have not ended. -/
  tasks : List (Task σ)
  /-- The callbacks that have not been called, with the numbers of their fibers. -/
  callbacks : List (TaskId × (Outcome → σ → σ))
  /-- The calls of callbacks so far, in order. -/
  calls : List (TaskId × Outcome)
  /-- The next unused number. -/
  fresh : Nat

namespace Kernel

variable {σ : Type}

/-- The kernel at the beginning of time. -/
def start (store : σ) : Kernel σ :=
  ⟨⟨store, 0, #[]⟩, [], [], [], [], [], 1⟩

/-- The time. -/
def now (k : Kernel σ) : Nat :=
  k.world.clock

/-- The kernel with one more event. -/
def report (k : Kernel σ) (event : Event) : Kernel σ :=
  { k with world := k.world.report event }

/-- The kernel with another state of the program. -/
def modifyStore (k : Kernel σ) (f : σ → σ) : Kernel σ :=
  { k with world := { k.world with store := f k.world.store } }

/-- A number that has not been used. -/
def draw (k : Kernel σ) : Nat × Kernel σ :=
  (k.fresh, { k with fresh := k.fresh + 1 })

/-- Puts one fiber at the end of the queue, unless it is in it. -/
def wakeOne (k : Kernel σ) (id : FiberId) : Kernel σ :=
  if id ∈ k.woken then k else { k with woken := k.woken ++ [id] }

/-- Puts a fiber, and those around it, at the end of the queue. -/
def wake (k : Kernel σ) (path : Path) : Kernel σ :=
  path.foldl wakeOne k

/-- Takes a fiber out of the queue. -/
def unwake (k : Kernel σ) (id : FiberId) : Kernel σ :=
  { k with woken := k.woken.filter (· != id) }

/-- Whether a fiber waits for a turn. -/
def isWoken (k : Kernel σ) (id : FiberId) : Bool :=
  k.woken.contains id

/-- What is behind a handle. -/
def slot? (k : Kernel σ) (handle : Handle) : Option (Slot σ) :=
  (k.slots.find? (·.1 == handle)).map (·.2)

/-- The kernel with nothing behind a handle. -/
def closeSlot (k : Kernel σ) (handle : Handle) : Kernel σ :=
  { k with slots := k.slots.filter (·.1 != handle) }

/-- The kernel with something else behind a handle. -/
def setSlot (k : Kernel σ) (handle : Handle) (slot : Slot σ) : Kernel σ :=
  { k with slots := (handle, slot) :: (k.closeSlot handle).slots }

/-- Gives out a handle. -/
def openSlot (k : Kernel σ) : Handle × Kernel σ :=
  let (handle, k) := k.draw
  (handle, k.setSlot handle (.waiting []))

/-- The holder uses a handle. It is no use when the fiber has gone. -/
def use (k : Kernel σ) (handle : Handle) (resumption : Resumption σ) : Kernel σ :=
  match k.slot? handle with
  | some (.waiting waiter) => (k.setSlot handle (.filled resumption)).wake waiter
  | some .abandoned => (k.closeSlot handle).report .resumedTooLate
  | _ => k

/-- The holder lets a handle go. -/
def release (k : Kernel σ) (handle : Handle) : Kernel σ :=
  match k.slot? handle with
  | some (.waiting waiter) => (k.setSlot handle .released).wake waiter
  | some .abandoned => k.closeSlot handle
  | _ => k

/-- The fiber that waits for a handle goes away. -/
def leave (k : Kernel σ) (handle : Handle) : Kernel σ :=
  match k.slot? handle with
  | some (.waiting _) => k.setSlot handle .abandoned
  | _ => k.closeSlot handle

/-- Everybody who waits for one of these handles goes away. -/
def leaveAll (k : Kernel σ) (handles : List Handle) : Kernel σ :=
  handles.foldl leave k

/-- Whether nobody waits for a handle any more. -/
def isAbandoned (k : Kernel σ) (handle : Handle) : Bool :=
  match k.slot? handle with
  | some .abandoned => true
  | _ => false

/-- The first point in time, in whole milliseconds, at which a span from now is over. -/
def wakeTime (now : Nat) (span : Duration) : Nat :=
  (now + span.nanos + nanosPerMilli - 1) / nanosPerMilli * nanosPerMilli

/-- It is the first one: those in whole milliseconds that are late enough are not before it. -/
theorem wakeTime_le_iff {now time : Nat} {span : Duration} (whole : nanosPerMilli ∣ time) :
    wakeTime now span ≤ time ↔ now + span.nanos ≤ time := by
  obtain ⟨millis, rfl⟩ := whole
  have some : 0 < nanosPerMilli := by decide
  rw [wakeTime, Nat.mul_comm, Nat.mul_le_mul_left_iff some, Nat.div_le_iff_le_mul_add_pred some]
  omega

/-- When it has come, the span is over. -/
theorem add_nanos_le_wakeTime (now : Nat) (span : Duration) :
    now + span.nanos ≤ wakeTime now span :=
  (wakeTime_le_iff (Nat.dvd_mul_left _ _)).1 (Nat.le_refl _)

/-- Nobody is woken before now. -/
theorem le_wakeTime (now : Nat) (span : Duration) : now ≤ wakeTime now span :=
  Nat.le_trans (Nat.le_add_right _ _) (add_nanos_le_wakeTime now span)

/-- A point in time after a delay is later than now. -/
theorem lt_wakeTime (now : Nat) {span : Duration} (long : span.isZero = false) :
    now < wakeTime now span := by
  have some : span.nanos ≠ 0 := by simpa [Duration.isZero] using long
  have late := add_nanos_le_wakeTime now span
  omega

/-- A task of its own, which is given a turn soon. -/
def addTask (k : Kernel σ) (work : Work σ) : TaskId × Kernel σ :=
  let (id, k) := k.draw
  let task : Task σ := ⟨id, work, false⟩
  (id, { k with tasks := k.tasks ++ [task] }.wakeOne id)

/-- What a holder does with a handle. -/
def signal (k : Kernel σ) : Signal σ → Kernel σ
  | .complete handle outcome => k.use handle (.outcome outcome)
  | .resume handle effect => k.use handle (.effect effect)
  | .release handle => k.release handle
  | .later millis handle act =>
    (k.addTask (.errand (wakeTime k.now (Duration.ofMillis millis)) handle act)).2

/-- What holders do with their handles, in order. -/
def signalAll (k : Kernel σ) (signals : List (Signal σ)) : Kernel σ :=
  signals.foldl signal k

/-- A task by its number. -/
def task? (k : Kernel σ) (id : TaskId) : Option (Task σ) :=
  k.tasks.find? (·.id == id)

/-- The kernel without a task. -/
def dropTask (k : Kernel σ) (id : TaskId) : Kernel σ :=
  { k with tasks := k.tasks.filter (·.id != id) }

/-- The kernel with a task as given. -/
def setTask (k : Kernel σ) (task : Task σ) : Kernel σ :=
  { k with tasks := k.tasks.map fun t => if t.id == task.id then task else t }

/-- The callback of a fiber, if it has not been called. -/
def callback? (k : Kernel σ) (id : TaskId) : Option (Outcome → σ → σ) :=
  (k.callbacks.find? (·.1 == id)).map (·.2)

/-- What the callback of a fiber has been called with, in order. -/
def told (k : Kernel σ) (id : TaskId) : List Outcome :=
  (k.calls.filter (·.1 == id)).map (·.2)

/-- Calls the callback of a fiber, if it has not been called. -/
def deliver (k : Kernel σ) (id : TaskId) (outcome : Outcome) : Kernel σ :=
  match k.callback? id with
  | some callback =>
    { k with
      callbacks := k.callbacks.filter (·.1 != id)
      calls := k.calls ++ [(id, outcome)] }.modifyStore (callback outcome)
  | none => k

/-- Runs an effect in a fiber of its own, if there is something that can run it. The
    callback is to be called with how the fiber ends. -/
def runAsync (k : Kernel σ) (inRuntime : Bool) (settings : Settings) (effect : Effect σ)
    (env : Context) (onExit : Outcome → σ → σ) : FiberHandle × Kernel σ :=
  if inRuntime then
    let (id, k) := k.addTask (.run false settings (.ready (Machine.start effect env)))
    (⟨id, true⟩, { k with callbacks := (id, onExit) :: k.callbacks })
  else
    let (id, k) := k.draw
    (⟨id, false⟩,
      { k with callbacks := (id, onExit) :: k.callbacks }.deliver id (.die .outsideRuntime))

/-- A task is told to stop at its next turn, which it is given soon. -/
def abort (k : Kernel σ) (id : TaskId) : Kernel σ :=
  match k.task? id with
  | some task => (k.setTask { task with cancelled := true }).wakeOne id
  | none => k

/-- The callback of a fiber that is to stop hears of it. -/
def interrupt (k : Kernel σ) (id : TaskId) : Kernel σ :=
  k.deliver id (.die .interrupted)

/-- A fiber is to stop. Its callback hears of it at once; the fiber goes away at its
    next turn. -/
def cancel (k : Kernel σ) (handle : FiberHandle) : Kernel σ :=
  if handle.hasTask then (k.abort handle.number).interrupt handle.number else k

/-- Whether the task of a fiber has stopped. -/
def isFinished (k : Kernel σ) (handle : FiberHandle) : Bool :=
  !handle.hasTask || (k.task? handle.number).isNone

theorem slot?_closeSlot (k : Kernel σ) (handle other : Handle) :
    (k.closeSlot handle).slot? other = if other = handle then none else k.slot? other := by
  unfold slot? closeSlot
  by_cases h : other = handle
  · subst h
    simp
  · simp only [List.find?_filter, h, if_false]
    congr 2
    funext entry
    by_cases he : entry.1 = other
    · simp [he, h]
    · simp [he]

/-- What is behind a handle after something else has been put behind one. -/
theorem slot?_setSlot (k : Kernel σ) (handle : Handle) (slot : Slot σ) (other : Handle) :
    (k.setSlot handle slot).slot? other =
      if other = handle then some slot else k.slot? other := by
  have hclosed := slot?_closeSlot k handle other
  by_cases h : other = handle
  · subst h
    simp [slot?, setSlot]
  · simp only [h, if_false] at hclosed ⊢
    rw [← hclosed]
    simp [slot?, setSlot, Ne.symm h]

/-- Which tasks there are after one of them has gone. -/
theorem task?_dropTask (k : Kernel σ) (id other : TaskId) :
    (k.dropTask id).task? other = if other = id then none else k.task? other := by
  unfold task? dropTask
  by_cases h : other = id
  · subst h
    simp
  · simp only [List.find?_filter, h, if_false]
    congr 1
    funext task
    by_cases ht : task.id = other
    · simp [ht, h]
    · simp [ht]

end Kernel

end EffectKernel
