import EffectKernel.Machine

/-!
# Fibers

A fiber is a run that can be suspended. Between two turns it is a machine together
with what it waits for: nothing, a point in time, its next turn, a handle, or fibers
that run inside it. An effect with a time limit runs in a fiber of its own, and so do
effects that run side by side, which makes a fiber a tree.

A fiber inside another one that can be woken separately has a number. Waking it also
wakes every fiber around it, so the numbers from a fiber outwards, its path, say who
has to be given a turn.

Dropping a fiber drops the whole tree. What is left of it are the handles that its
leaves were waiting for.

## Main definitions

* `Join`: What is known so far of fibers that run side by side.
* `Join.absorb`: What the end of one of them adds.
* `Fiber`: A suspended run.
* `Fiber.handles`: The handles that somebody in a fiber waits for.
* `Fiber.nextWake`: The next point in time at which a fiber has to be woken.
* `Fiber.dueAt`: Who has to be woken at a point in time.
-/

namespace EffectKernel

/-- The number of a fiber. -/
abbrev FiberId : Type := Nat

/-- The numbers from a fiber outwards. -/
abbrev Path : Type := List FiberId

/-- What is known so far of fibers that run side by side. -/
inductive Join where
  /-- All of them count: how many there are and how some have ended, by position. -/
  | gather (total : Nat) (collect : Collect) (ends : List (Nat × Either Value Value))
  /-- One success counts: the failure that came last. -/
  | compete (lastFailure : Option Value)

namespace Join

/-- What the end of the fiber at a position adds: more knowledge, or the outcome of
    the whole. -/
def absorb (position : Nat) : Join → Outcome → Either Outcome Join
  | .gather total collect ends, .success v =>
    .right (.gather total collect ((position, .right v) :: ends))
  | .gather _ .shortCircuit _, .fail e => .left (.fail e)
  | .gather total .every ends, .fail e =>
    .right (.gather total .every ((position, .left e) :: ends))
  | .gather _ _ _, .die d => .left (.die d)
  | .compete _, .success v => .left (.success v)
  | .compete _, .fail e => .right (.compete (some e))
  | .compete _, .die d => .left (.die d)

/-- The ends known so far, in the order of the positions. -/
def inOrder (total : Nat) (ends : List (Nat × Either Value Value)) :
    List (Either Value Value) :=
  (List.range total).filterMap fun position => (ends.find? (·.1 == position)).map (·.2)

/-- The outcome when every fiber has ended. -/
def outcome : Join → Outcome
  | .gather total _ ends => .success (Outcome.toList (inOrder total ends))
  | .compete (some e) => .fail e
  | .compete none => .die .emptyRace

end Join

/-- A suspended run. -/
inductive Fiber (σ : Type) : Type where
  /-- Waits for nothing. -/
  | ready (m : Machine σ)
  /-- Waits for a point in time. -/
  | asleep (wake : Nat) (m : Machine σ)
  /-- Waits for its next turn. -/
  | yielded (m : Machine σ)
  /-- Waits for a handle. -/
  | listening (handle : Handle) (point : Suspension σ)
  /-- Runs a fiber inside it until a point in time. -/
  | limited (limit : Duration) (deadline : Nat) (inner : Fiber σ) (point : Suspension σ)
  /-- Runs numbered fibers side by side, each of them with its position. -/
  | joining (join : Join) (children : List (FiberId × Nat × Fiber σ)) (point : Suspension σ)

/-- The earlier of two points in time that may be missing. -/
def earlier : Option Nat → Option Nat → Option Nat
  | none, b => b
  | a, none => a
  | some a, some b => some (min a b)

namespace Fiber

variable {σ : Type}

mutual
/-- The handles that somebody in a fiber waits for. -/
def handles : Fiber σ → List Handle
  | .ready _ => []
  | .asleep _ _ => []
  | .yielded _ => []
  | .listening handle _ => [handle]
  | .limited _ _ inner _ => inner.handles
  | .joining _ children _ => handlesEach children

/-- The handles that somebody in fibers waits for. -/
def handlesEach : List (FiberId × Nat × Fiber σ) → List Handle
  | [] => []
  | (_, _, child) :: rest => child.handles ++ handlesEach rest
end

mutual
/-- The next point in time at which somebody in a fiber has to be woken. -/
def nextWake : Fiber σ → Option Nat
  | .ready _ => none
  | .asleep wake _ => some wake
  | .yielded _ => none
  | .listening _ _ => none
  | .limited _ deadline inner _ => earlier inner.nextWake (some deadline)
  | .joining _ children _ => nextWakeEach children

/-- The next point in time at which somebody in fibers has to be woken. -/
def nextWakeEach : List (FiberId × Nat × Fiber σ) → Option Nat
  | [] => none
  | (_, _, child) :: rest => earlier child.nextWake (nextWakeEach rest)
end

mutual
/-- The paths of those in a fiber whose time has come. -/
def dueAt (now : Nat) (path : Path) : Fiber σ → List Path
  | .ready _ => []
  | .asleep wake _ => if wake ≤ now then [path] else []
  | .yielded _ => []
  | .listening _ _ => []
  | .limited _ deadline inner _ =>
    inner.dueAt now path ++ (if deadline ≤ now then [path] else [])
  | .joining _ children _ => dueAtEach now path children

/-- The paths of those in fibers side by side whose time has come. -/
def dueAtEach (now : Nat) (path : Path) : List (FiberId × Nat × Fiber σ) → List Path
  | [] => []
  | (id, _, child) :: rest => child.dueAt now (id :: path) ++ dueAtEach now path rest
end

end Fiber

end EffectKernel
