import EffectKernel.Fiber.Kernel
import EffectKernel.Machine.Step

/-!
# Turns

A turn of a fiber: it runs until it ends or has to wait. A fiber that waits for
something that has happened goes on, and one that waits in vain is left as it is, so
a turn too many does no harm.

What a machine asks for is granted here. A span of time and a turn for others leave
the fiber waiting. A handle gets a slot. An effect with a limited time gets a fiber
inside this one; it is always given the first word, and only if it still waits is its
time looked at, so an effect that ends exactly at its limit is in time. When the limit
cuts it off, this fiber goes on at once.

Fibers that run side by side are given turns in the order in which they were woken,
which at first is their order. As soon as one of them decides the whole, the others are
dropped, also those that have not had a turn yet. If all of them have had a turn and
wait, or two of them gave way, the whole gives way to others before it looks again.

A turn may go on for ever, so it is given a number of steps it may take.

## Main definitions

* `Turn`, `JoinTurn`: How a turn ends.
* `Kernel.grant`: A fiber that waits for what its machine asked for.
* `Fiber.turn`: A turn of a fiber.
* `Fiber.turnEach`: The turns of fibers side by side.
-/

namespace EffectKernel

/-- How a turn ends. -/
inductive Turn (σ : Type) where
  /-- The fiber has ended. -/
  | ended (outcome : Outcome)
  /-- The fiber waits. -/
  | waiting (fiber : Fiber σ)
  /-- The steps were too few. -/
  | exhausted

/-- How the turns of fibers side by side end. -/
inductive JoinTurn (σ : Type) where
  /-- The whole is decided. -/
  | ended (outcome : Outcome)
  /-- The fibers that are left all wait. -/
  | waiting (join : Join) (children : List (FiberId × Nat × Fiber σ))
  /-- The steps were too few. -/
  | exhausted

namespace Kernel

variable {σ : Type}

/-- Numbers the fibers that are to run side by side and puts them in the queue. -/
def enlist (env : Context) : List (Effect σ) → Nat → Kernel σ →
    List (FiberId × Nat × Fiber σ) × Kernel σ
  | [], _, k => ([], k)
  | effect :: rest, position, k =>
    let (id, k) := k.draw
    let (children, k) := enlist env rest (position + 1) (k.wakeOne id)
    ((id, position, .ready (Machine.start effect env)) :: children, k)

/-- A fiber that waits for what its machine asked for. -/
def grant (path : Path) (request : Request σ) (point : Suspension σ) (k : Kernel σ) :
    Fiber σ × Kernel σ :=
  match request with
  | .pause span focus => (.asleep (wakeTime k.now span) (point.resume focus), k)
  | .giveWay focus => (.yielded (point.resume focus), k.wake path)
  | .listen register =>
    let (handle, k) := k.openSlot
    match k.world.guarded (register handle) with
    | (.ok (signals, none), w) =>
      (.listening handle point, { k with world := w }.signalAll signals)
    | (.ok (signals, some p), w) =>
      let d := Defect.ofPanic p
      (.ready (point.resume (.unwind (.die d))),
        (({ k with world := w }.signalAll signals).report (.panicCaptured d)).leave handle)
    | (.error d, w) =>
      (.ready (point.resume (.unwind (.die d))), { k with world := w }.leave handle)
  | .within source limit =>
    (.limited limit (wakeTime k.now limit) (.ready (Machine.start source point.env)) point, k)
  | .gather children collect =>
    let (fibers, k) := enlist point.env children 0 k
    (.joining (.gather children.length collect []) fibers point, k)
  | .compete children =>
    let (fibers, k) := enlist point.env children 0 k
    (.joining (.compete none) fibers point, k)

/-- The first in the queue among fibers side by side. -/
def firstWoken? (k : Kernel σ) (children : List (FiberId × Nat × Fiber σ)) :
    Option (FiberId × Nat × Fiber σ) :=
  k.woken.findSome? fun id => children.find? (·.1 == id)

/-- What a fiber that waits for a handle goes on with, if the handle's time has come. -/
def collect? (k : Kernel σ) (handle : Handle) : Option (Focus σ × Kernel σ) :=
  match k.slot? handle with
  | some (.filled resumption) => some (resumption.focus, k.closeSlot handle)
  | some .released =>
    some (.unwind (.die .resumeDropped), (k.closeSlot handle).report .resumeDropped)
  | _ => none

end Kernel

/-- The outcome of an effect that ended within its limit. -/
def inTime : Outcome → Outcome
  | .success v => .success (Value.ofOption (some v))
  | outcome => outcome

/-- Fibers side by side without one of them. -/
def withoutChild {σ : Type} (id : FiberId) (children : List (FiberId × Nat × Fiber σ)) :
    List (FiberId × Nat × Fiber σ) :=
  children.filter (·.1 != id)

/-- Fibers side by side with one of them as given. -/
def withChild {σ : Type} (id : FiberId) (fiber : Fiber σ)
    (children : List (FiberId × Nat × Fiber σ)) : List (FiberId × Nat × Fiber σ) :=
  children.map fun child => if child.1 == id then (id, child.2.1, fiber) else child

namespace Fiber

variable {σ : Type}

mutual
/-- A turn of the fiber at a path, of at most so many steps. -/
def turn (settings : Settings) : Nat → Path → Fiber σ → Kernel σ → Turn σ × Kernel σ
  | 0, _, _, k => (.exhausted, k)
  | fuel + 1, path, .ready m, k =>
    match m.step settings k.world with
    | (.next m, w) => turn settings fuel path (.ready m) { k with world := w }
    | (.done outcome, w) => (.ended outcome, { k with world := w })
    | (.ask (.giveWay focus) point, w) =>
      match ({ k with world := w }).grant path (.giveWay focus) point with
      | (fiber, k) => (.waiting fiber, k)
    | (.ask request point, w) =>
      match ({ k with world := w }).grant path request point with
      | (fiber, k) => turn settings fuel path fiber k
  | fuel + 1, path, .asleep wake m, k =>
    if wake ≤ k.now then turn settings fuel path (.ready m) k
    else (.waiting (.asleep wake m), k)
  | fuel + 1, path, .yielded m, k => turn settings fuel path (.ready m) k
  | fuel + 1, path, .listening handle point, k =>
    match k.collect? handle with
    | some (focus, k) => turn settings fuel path (.ready (point.resume focus)) k
    | none =>
      (.waiting (.listening handle point), k.setSlot handle (.waiting path))
  | fuel + 1, path, .limited limit deadline inner point, k =>
    match turn settings fuel path inner k with
    | (.exhausted, k) => (.exhausted, k)
    | (.ended outcome, k) =>
      turn settings fuel path (.ready (point.resume (.unwind (inTime outcome)))) k
    | (.waiting inner, k) =>
      if deadline ≤ k.now then
        turn settings fuel path (.ready (point.resume (.unwind (.success (Value.ofOption none)))))
          ((k.leaveAll inner.handles).report (.timedOut limit))
      else (.waiting (.limited limit deadline inner point), k)
  | fuel + 1, path, .joining join children point, k =>
    match turnEach settings fuel path join children 0 0 children.length k with
    | (.exhausted, k) => (.exhausted, k)
    | (.ended outcome, k) => turn settings fuel path (.ready (point.resume (.unwind outcome))) k
    | (.waiting join children, k) => (.waiting (.joining join children point), k)

/-- The turns of fibers side by side. The counts say how many have had a turn and wait,
    how many of those gave way, and how many there were. -/
def turnEach (settings : Settings) : Nat → Path → Join → List (FiberId × Nat × Fiber σ) →
    Nat → Nat → Nat → Kernel σ → JoinTurn σ × Kernel σ
  | 0, _, _, _, _, _, _, k => (.exhausted, k)
  | fuel + 1, path, join, children, waiting, gaveWay, count, k =>
    match k.firstWoken? children with
    | none =>
      if children.isEmpty then (.ended join.outcome, k)
      else (.waiting join children, k)
    | some (id, position, fiber) =>
      match turn settings fuel (id :: path) fiber (k.unwake id) with
      | (.exhausted, k) => (.exhausted, k)
      | (.ended outcome, k) =>
        let others := withoutChild id children
        match join.absorb position outcome with
        | .left outcome => (.ended outcome, k.leaveAll (handlesEach others))
        | .right join => turnEach settings fuel path join others 0 0 others.length k
      | (.waiting fiber, k) =>
        let children := withChild id fiber children
        let waiting := waiting + 1
        let gaveWay := if k.isWoken id then gaveWay + 1 else gaveWay
        if 2 ≤ gaveWay ∨ waiting = count then
          (.waiting join children, k.wake path)
        else turnEach settings fuel path join children waiting gaveWay count k
end

end Fiber

end EffectKernel
