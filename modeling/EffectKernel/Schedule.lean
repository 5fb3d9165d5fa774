import EffectKernel.Binary64
import EffectKernel.Duration

/-!
# Schedules

A schedule decides, after each run of something, whether to run it again and how
long to wait first. It is a pure description: a state is threaded through `step`,
and the same state always gives the same decision.

Schedules that count down keep what is left; schedules that grow keep how often
they have been asked. That count has 32 bits and stays at its top once it gets
there, so a growing delay levels off and never starts over.

A state can be read from a file or belong to another schedule. Where it does not
fit, the schedule stops.

## Main definitions

* `Schedule`: A policy of repetition.
* `ScheduleState`: Where a policy stands.
* `Decision`: Wait and go on, or stop.
* `Schedule.initial`: The state a policy starts from.
* `Schedule.step`: The decision in a state, with the next state.
* `Schedule.delays`: The waits of a policy from its start, up to a limit.
* `Schedule.isBounded`: Whether a policy must stop.
-/

namespace EffectKernel

/-- A policy of repetition. -/
inductive Schedule where
  /-- So many times, at once. -/
  | recurs (times : UInt32)
  /-- Always, at once. -/
  | forever
  /-- Always, after the same wait. -/
  | spaced (delay : Duration)
  /-- Always, after one more base span each time. -/
  | linear (base : Duration)
  /-- Always, after a wait that is multiplied by the factor each time. -/
  | exponential (base : Duration) (factor : Binary64)
  /-- Always, after waits in the ratios of the Fibonacci numbers. -/
  | fibonacci (base : Duration)
  /-- As long as either goes on, after the shorter wait. -/
  | union (left right : Schedule)
  /-- As long as both go on, after the longer wait. -/
  | intersect (left right : Schedule)
  /-- As the inner one, but never with a longer wait than the limit. -/
  | capped (inner : Schedule) (maxDelay : Duration)
deriving DecidableEq

/-- Where a policy stands. -/
inductive ScheduleState where
  /-- So many times are left. -/
  | recurs (remaining : UInt32)
  /-- So many times have gone by. -/
  | attempt (n : UInt32)
  /-- Where both sides stand, a side that has stopped being gone. -/
  | union (left right : Option ScheduleState)
  /-- Where both sides stand. -/
  | intersect (left right : ScheduleState)
  /-- Where the inner policy stands. -/
  | capped (inner : ScheduleState)

/-- What a policy decides. -/
inductive Decision where
  /-- Go on in the new state, after a wait. -/
  | again (delay : Duration) (state : ScheduleState)
  /-- Do not go on. -/
  | stop

/-- The next count, which stays at the top once there. -/
def saturatingSucc (n : UInt32) : UInt32 :=
  if n = 0xFFFFFFFF then n else n + 1

/-- The sum of two counts, cut off at the top. -/
def saturatingAdd (a b : UInt32) : UInt32 :=
  if a.toNat + b.toNat < UInt32.size then a + b else 0xFFFFFFFF

/-- The later of two neighbours of the Fibonacci sequence, after so many further
    steps. Once it is at the top it stays there, so the rest is skipped. -/
def fibonacciFrom : Nat → UInt32 → UInt32 → UInt32
  | 0, _, later => later
  | steps + 1, earlier, later =>
    if later = 0xFFFFFFFF then later
    else fibonacciFrom steps later (saturatingAdd earlier later)

/-- The Fibonacci numbers, each cut off at the top of 32 bits. -/
def fibonacci (n : UInt32) : UInt32 :=
  if n = 0 then 0 else fibonacciFrom (n.toNat - 1) 0 1

namespace Schedule

/-- The growing policy that doubles its wait. -/
def doubling (base : Duration) : Schedule :=
  .exponential base Binary64.two

/-- The growing policy with a chosen factor, of which nothing below zero counts. -/
def growing (base : Duration) (factor : Binary64) : Schedule :=
  .exponential base factor.clampBelow

/-- A policy cut off after so many times. -/
def withMaxRetries (s : Schedule) (n : UInt32) : Schedule :=
  .intersect s (.recurs n)

/-- A policy whose waits are cut off at a limit. -/
def withMaxDelay (s : Schedule) (limit : Duration) : Schedule :=
  .capped s limit

/-- Whether a policy must stop. A union stops only when both sides do, an
    intersection as soon as one does. -/
def isBounded : Schedule → Bool
  | .recurs _ => true
  | .forever | .spaced _ | .linear _ | .exponential _ _ | .fibonacci _ => false
  | .union left right => left.isBounded && right.isBounded
  | .intersect left right => left.isBounded || right.isBounded
  | .capped inner _ => inner.isBounded

/-- The state a policy starts from. -/
def initial : Schedule → ScheduleState
  | .recurs times => .recurs times
  | .forever | .spaced _ | .linear _ | .exponential _ _ | .fibonacci _ => .attempt 0
  | .union left right => .union (some left.initial) (some right.initial)
  | .intersect left right => .intersect left.initial right.initial
  | .capped inner _ => .capped inner.initial

/-- The largest power that is taken of a factor. -/
def maxPower : Nat := 0x7FFFFFFF

/-- The wait that multiplies `base` by `factor` so many times. What does not fit in
    64 bits of nanoseconds, or is no number, is the longest wait. -/
def exponentialDelay (base : Duration) (factor : Binary64) (n : UInt32) : Duration :=
  let nanos := (Binary64.ofNat base.nanos).mul (factor.power (min n.toNat maxPower))
  match nanos.toNatBelow? UInt64.size with
  | some n => Duration.ofNanos n
  | none => Duration.longest

/-- The wait of a counting policy when it has been asked `n` times before. The
    others do not count. -/
def delayFor : Schedule → UInt32 → Option Duration
  | .forever, _ => some Duration.zero
  | .spaced delay, _ => some delay
  | .linear base, n => some (base.scale (saturatingSucc n).toNat)
  | .exponential base factor, n => some (exponentialDelay base factor n)
  | .fibonacci base, n => some (base.scale (EffectKernel.fibonacci (saturatingSucc n)).toNat)
  | _, _ => none

/-- The decision of a policy that only counts how often it has been asked. -/
def stepCounting (s : Schedule) (n : UInt32) : Decision :=
  match s.delayFor n with
  | some delay => .again delay (.attempt (saturatingSucc n))
  | none => .stop

/-- The decision of a union from those of its two sides. -/
def unionDecision : Decision → Decision → Decision
  | .again a s, .again b t => .again (min a b) (.union (some s) (some t))
  | .again a s, .stop => .again a (.union (some s) none)
  | .stop, .again b t => .again b (.union none (some t))
  | .stop, .stop => .stop

/-- The decision of an intersection from those of its two sides. -/
def intersectDecision : Decision → Decision → Decision
  | .again a s, .again b t => .again (max a b) (.intersect s t)
  | _, _ => .stop

/-- The decision of a capped policy from that of the inner one. -/
def cappedDecision (limit : Duration) : Decision → Decision
  | .again delay s => .again (min delay limit) (.capped s)
  | .stop => .stop

/-- The decision in a state. A side of a union that has stopped stays stopped. -/
def step : Schedule → ScheduleState → Decision
  | .recurs _, .recurs remaining =>
    if remaining = 0 then .stop else .again Duration.zero (.recurs (remaining - 1))
  | .union left right, .union s t =>
    unionDecision
      (match s with | some s => left.step s | none => .stop)
      (match t with | some t => right.step t | none => .stop)
  | .intersect left right, .intersect s t => intersectDecision (left.step s) (right.step t)
  | .capped inner limit, .capped s => cappedDecision limit (inner.step s)
  | s, .attempt n => s.stepCounting n
  | _, _ => .stop

/-- The waits of a policy from a state, up to a limit on their number. -/
def delaysFrom (s : Schedule) : Nat → ScheduleState → List Duration
  | 0, _ => []
  | limit + 1, state =>
    match s.step state with
    | .again delay next => delay :: s.delaysFrom limit next
    | .stop => []

/-- The waits of a policy from its start, up to a limit on their number. -/
def delays (s : Schedule) (limit : Nat) : List Duration :=
  s.delaysFrom limit s.initial

/-- The decisions of a policy from a state, up to a limit on their number. The last
    one may be to stop. -/
def decisionsFrom (s : Schedule) : Nat → ScheduleState → List Decision
  | 0, _ => []
  | limit + 1, state =>
    match s.step state with
    | .again delay next => .again delay next :: s.decisionsFrom limit next
    | .stop => [.stop]

/-- Whether two policies are the same, factors being compared as numbers. A policy
    whose factor is no number is not even the same as itself. -/
def same : Schedule → Schedule → Bool
  | .recurs n, .recurs m => n == m
  | .forever, .forever => true
  | .spaced d, .spaced e => d == e
  | .linear d, .linear e => d == e
  | .exponential d f, .exponential e g => d == e && f.sameNumber g
  | .fibonacci d, .fibonacci e => d == e
  | .union a b, .union c d => a.same c && b.same d
  | .intersect a b, .intersect c d => a.same c && b.same d
  | .capped a d, .capped b e => a.same b && d == e
  | _, _ => false

end Schedule

end EffectKernel
