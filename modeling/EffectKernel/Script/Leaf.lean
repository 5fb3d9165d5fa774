import EffectKernel.Effect.Channels
import EffectKernel.Script.Function

/-!
# The Leaves of a Script

The parts of a script, in the outer layer, that hold no other parts. Each of them stands
for one effect, or for a small family of effects with a number in it: counting down, a
chain of deferred effects, a chain of failures.

## Main definitions

* `Leaf`: A part of a script without parts.
* `Leaf.effect`: The effect it stands for.
-/

namespace EffectKernel

namespace Script

/-- How a function that may give an error ends. -/
inductive Attempt where
  /-- With a value. -/
  | ok (v : Template)
  /-- With an error. -/
  | error (e : Template)
  /-- By a panic. -/
  | stop (p : Panic)

/-- How a function that may give an error ends, its holes filled. -/
def Attempt.run (scope : Scope) : Attempt → Act Store (Except Value Value)
  | .ok v => pure (.ok (v.fill scope))
  | .error e => pure (.error (e.fill scope))
  | .stop p => Act.stop p

/-- A part of a script without parts. -/
inductive Leaf where
  /-- Ends in a known way. -/
  | exit (outcome : Exit Template Template)
  /-- Succeeds with the result of a function. -/
  | sync (v : Template) (f : Function)
  /-- Ends as a function says; its error goes through another one. -/
  | trySync (result : Attempt) (catching : Function)
  /-- Succeeds with a value that may be missing; the error is then a function's. -/
  | ofOption (present : Option Template) (missing : Template) (f : Function)
  /-- Reads a service. -/
  | service (key : ServiceKey)
  /-- Waits, and succeeds with a value. -/
  | sleep (span : Duration) (v : Template)
  /-- Waits for a routine: one that sleeps, writes to the log and ends or panics. -/
  | promise (millis : Option Nat) (remark : Option Template) (panic : Option Panic)
      (v : Template)
  /-- Waits for a routine that sleeps and ends as a function says. -/
  | tryPromise (millis : Option Nat) (result : Attempt) (catching : Function)
  /-- Waits for a routine that cannot even begin. -/
  | brokenPromise (p : Panic)
  /-- Counts on. -/
  | count (name : String)
  /-- Writes to the log. -/
  | log (v : Template)
  /-- Counts on and fails as long as the count is small. -/
  | failingUntil (name : String) (n : Int)
  /-- Counts down to zero, one effect after the other. -/
  | countdown (n : Nat)
  /-- A number of effects, each of which makes the next. -/
  | deferred (n : Nat)
  /-- A number of failures, each of which is handled by the next. -/
  | failChain (n : Nat)

/-- Counts down to zero, one effect after the other. -/
def countdown : Nat → Effect Store
  | 0 => Effect.succeed (.ofNat 0)
  | n + 1 => (Effect.succeed (.ofNat (n + 1))).andThen fun _ => pure (countdown n)

/-- A number of effects, each of which makes the next. -/
def deferred : Nat → Effect Store
  | 0 => Effect.succeed (.text "deferred")
  | n + 1 => .suspend (Act.update fun s => (deferred n, s))

/-- A number of failures, each of which is handled by the next. -/
def failChain : Nat → Effect Store
  | 0 => (Effect.fail (.ofNat 0)).catchAll fun e => pure (Effect.succeed e)
  | n + 1 => (Effect.fail (.ofNat (n + 1))).catchAll fun _ => pure (failChain n)

namespace Leaf

/-- The effect of a part without parts. -/
def effect (scope : Scope) : Leaf → Effect Store
  | .exit outcome => .exit (pure (outcome.mapBoth (·.fill scope) (·.fill scope)))
  | .sync v f => Effect.sync (f.apply scope (v.fill scope))
  | .trySync result catching => Effect.trySync (result.run scope) (catching.apply scope)
  | .ofOption present missing f =>
    Effect.ofOption (present.map (·.fill scope)) (f.apply scope (missing.fill scope))
  | .service key => .service key
  | .sleep span v => (Effect.sleep span).asValue (v.fill scope)
  | .promise millis remark panic v =>
    Effect.promiseOf <| Routine.after millis do
      match remark with
      | some r => Store.write (r.fill scope)
      | none => pure ()
      match panic with
      | some p => Act.stop p
      | none => return .done (.success (v.fill scope))
  | .tryPromise millis result catching =>
    Effect.promiseOf <| Routine.after millis do
      match ← result.run scope with
      | .ok v => return .done (.success v)
      | .error e => return .done (.fail (← catching.apply scope e))
  | .brokenPromise p => Effect.promiseOf (Act.stop p)
  | .count name => Effect.sync do return .ofNat (← Store.bump name)
  | .log v => Effect.sync do
      Store.write (v.fill scope)
      return v.fill scope
  | .failingUntil name n => .suspend do
      let i ← Store.bump name
      return if (i : Int) ≤ n then Effect.fail (.ofNat i) else Effect.succeed (.ofNat i)
  | .countdown n => Script.countdown n
  | .deferred n => Script.deferred n
  | .failChain n => Script.failChain n

end Leaf

end Script

end EffectKernel
