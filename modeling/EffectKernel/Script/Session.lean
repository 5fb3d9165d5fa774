import EffectKernel.Fiber.Drive
import EffectKernel.Machine.Blocking
import EffectKernel.Script.Command

/-!
# Sessions

A session is what the commands of the outer layer share: what has been made under a
name, the counters and the log, the fibers that were started, and the time. Here are the
pieces that answers to commands are made of.

Nothing runs between commands. A fiber that a command starts has its first turn when a
later command waits for something. A run on the spot takes no time, even if it waits out
its delays.

A program may run for ever, so whatever runs is given a number of steps that it may
take. There is no session afterwards if these are too few, or if something is waited for
in vain.

## Main definitions

* `Session`: The state that commands share.
* `Session.made`: Makes something that a script stands for.
* `Session.run`: The answer to a run.
* `Session.spawned`: Starts a fiber with a callback.
* `Session.status`: What is known of a fiber.
* `Session.makeLayer`: The answer to the making of a layer.
* `Session.useHandle`: Uses a handle that was put aside.
-/

namespace EffectKernel

namespace Script

/-- A fiber that a session has started. -/
structure Started where
  /-- The handle on it. -/
  handle : FiberHandle
  /-- Whether the session is still in touch with it. -/
  held : Bool

/-- The state that commands share. -/
structure Session where
  /-- The time, the state of the scripts, and the fibers. -/
  kernel : Kernel Store
  /-- What has been made. -/
  names : Names
  /-- The fibers that were started, with their names. -/
  fibers : List (String × Started)

namespace Session

/-- The state in the beginning. -/
def start : Session :=
  ⟨Kernel.start Store.start, ⟨[], [], []⟩, []⟩

/-- The time in milliseconds. -/
def millis (s : Session) : Nat :=
  s.kernel.now / nanosPerMilli

/-- The state of the scripts. -/
def store (s : Session) : Store :=
  s.kernel.world.store

/-- The session with another state of the scripts. -/
def withStore (s : Session) (store : Store) : Session :=
  { s with kernel := s.kernel.modifyStore fun _ => store }

/-- What a script writes to the log before the clock moves gets the old time. -/
def observe (nanos : Nat) : Store → Store :=
  Store.stamp (nanos / nanosPerMilli)

/-- Makes something. The state of the scripts keeps what this did to it. -/
def made {α : Type} (s : Session) (making : Making α) : Except Value α × Session :=
  match making.run.run s.store with
  | (.ok (.ok a), store) => (.ok a, s.withStore store)
  | (.ok (.error mistake), store) => (.error mistake.report, s.withStore store)
  | (.error p, store) => (.error (Report.panic p), s.withStore store)

/-- Everything for a run. -/
def prepared (names : Names) (effect : Program) (surroundings : Surroundings)
    (usually : Bool) : Making (Effect Store × Context × Bool) := do
  let effect ← effect.make names []
  let (services, honorDelays) ← surroundings.make names usually
  return (effect, services, honorDelays)

/-- Starts a fiber with a callback, whose remark goes to the log. -/
def spawned (s : Session) (inRuntime : Bool) (effect : Effect Store) (services : Context)
    (honorDelays : Bool) (remark : Option String) : FiberHandle × Session :=
  let callback (_ : Outcome) (store : Store) : Store :=
    match remark with
    | some text => ((Store.write (.text text)).run store).2
    | none => store
  let (handle, k) :=
    s.kernel.runAsync inRuntime ⟨.async, honorDelays⟩ effect services callback
  (handle, { s with kernel := k })

/-- What the callback of a fiber was told. -/
def delivered (s : Session) (handle : FiberHandle) : Value :=
  .list ((s.kernel.told handle.number).map Report.outcome)

/-- Waits for something. -/
def await (fuel : Nat) (s : Session) (what : Await Store) : Option Session :=
  match s.kernel.drive observe fuel fuel what with
  | some (_, k) => some { s with kernel := k }
  | none => none

/-- A fiber's handle as shown to a programmer. -/
def shownHandle (finished : Bool) : String :=
  Text.shownRecord "FiberHandle" [("finished", toString finished)]

/-- Runs an effect in a fiber of the session's own. -/
def runExit (fuel : Nat) (s : Session) (effect : Effect Store) (services : Context)
    (honorDelays : Bool) : Option (Outcome × Session) :=
  match s.kernel.runExit observe fuel ⟨.async, honorDelays⟩ effect services with
  | some (outcome, k) => some (outcome, { s with kernel := k })
  | none => none

/-- The answer to a run of some kind. A run on the spot takes no time. -/
def run (fuel : Nat) (s : Session) (effect : Effect Store) (services : Context)
    (honorDelays : Bool) : Kind → Option (Value × Session)
  | .blocking =>
    match runSync fuel honorDelays effect services s.kernel.world with
    | some (outcome, w) =>
      let k := { s.kernel with world := { w with clock := s.kernel.now } }
      some (Value.record1 "exit" (Report.outcome outcome), { s with kernel := k })
    | none => none
  | .exit =>
    match s.runExit fuel effect services honorDelays with
    | some (outcome, after) =>
      some (Value.record2 "exit" (Report.outcome outcome)
        "ms" (.ofNat (after.millis - s.millis)), after)
    | none => none
  | .promise =>
    match s.runExit fuel effect services honorDelays with
    | some (outcome, after) =>
      let ms := Value.ofNat (after.millis - s.millis)
      match outcome.toExcept with
      | .ok v => some (Value.record2 "ms" ms "ok" v, after)
      | .error cause =>
        some (Value.ofFields [("display", .text (cause.message Value.compact)),
          ("err", Report.cause cause), ("ms", ms)], after)
    | none => none
  | .callback =>
    let (handle, begun) := s.spawned true effect services honorDelays none
    match begun.await fuel (.task handle.number) with
    | some after =>
      some (Value.record2 "delivered" (after.delivered handle)
        "ms" (.ofNat (after.millis - s.millis)), after)
    | none => none
  | .outside =>
    let (handle, begun) := s.spawned false effect services honorDelays none
    let after := { begun with kernel := begun.kernel.cancel handle }
    let finished := after.kernel.isFinished handle
    some (Value.ofFields
      [("delivered", after.delivered handle), ("finished", .bool finished),
       ("debug", .text (shownHandle finished))], after)

/-- Whether delays usually count in a kind of run. -/
def usuallyHonored (kind : Kind) : Bool :=
  kind != .blocking

/-- A fiber by its name. -/
def started? (s : Session) (name : String) : Option Started :=
  s.fibers.lookup name

/-- The session, out of touch with a fiber. -/
def released (s : Session) (name : String) : Session :=
  match s.started? name with
  | some started => { s with fibers := (name, { started with held := false }) :: s.fibers }
  | none => s

/-- What the callback of a fiber that may not exist was told. -/
def deliveredTo (s : Session) (name : String) : Value :=
  match s.started? name with
  | some started => s.delivered started.handle
  | none => .list []

/-- What is known of a fiber. -/
def status (s : Session) (name : String) : Value :=
  let finished := (s.started? name).bind fun started =>
    if started.held then some (s.kernel.isFinished started.handle) else none
  Value.ofFields
    [("delivered", s.deliveredTo name),
     ("finished", match finished with | some b => .bool b | none => .null),
     ("debug", match finished with | some b => .text (shownHandle b) | none => .null)]

/-- The signature of a layer, perhaps with the names in order. -/
def signature (L : Layer Store) (sorted : Bool) : Value :=
  let inOrder (ns : List String) : Value :=
    Value.names (if sorted then ns.mergeSort fun a b => decide (a ≤ b) else ns)
  Value.ofFields
    [("outputs", inOrder L.outputNames),
     ("requires", inOrder (L.requires.map (·.name))),
     ("debug", if sorted then .null else .text L.shown)]

/-- The session with a layer under a name. -/
def withLayer (s : Session) (name : String) (L : Layer Store) : Session :=
  { s with names := { s.names with layers := (name, L) :: s.names.layers } }

/-- Makes a layer, or another one that stands in for it. -/
def makeLayer (s : Session) (name : String) (layer : LayerScript) (sorted : Bool)
    (fallback : Option LayerScript) : Value × Session :=
  match s.made (layer.make s.names []) with
  | (.ok L, s) => (signature L sorted, s.withLayer name L)
  | (.error answer, s) =>
    match fallback with
    | none => (answer, s)
    | some other =>
      match s.made (other.make s.names []) with
      | (.ok L, s) => (answer, s.withLayer name L)
      | (.error _, s) => (answer, s)

/-- Uses a handle that was put aside. If the use panics, the handle is let go. -/
def useHandle (s : Session) (name : String) (handle : Handle) (use : HandleScript) : Session :=
  match (use.signals s.names [] handle).run (s.store.take name) with
  | (.ok signals, store) =>
    let s := s.withStore store
    { s with kernel := s.kernel.signalAll signals }
  | (.error _, store) =>
    let s := s.withStore store
    { s with kernel := s.kernel.release handle }

/-- Makes a context and gives it a name. -/
def makeContext (s : Session) (name : String) (services : ContextScript) : Value × Session :=
  match s.made (services.make s.names []) with
  | (.ok registry, s) =>
    let names := { s.names with contexts := (name, registry) :: s.names.contexts }
    (Report.context registry.context, { s with names := names })
  | (.error answer, s) => (answer, s)

/-- Tells whether two contexts are one and the same. -/
def sameRegistry (s : Session) (a b : ContextScript) : Value × Session :=
  match s.made (do return (← a.make s.names [], ← b.make s.names [])) with
  | (.ok (a, b), s) => (.bool (a.id == b.id), s)
  | (.error answer, s) => (answer, s)

/-- An effect's outermost node, at the beginning of what a programmer is shown. -/
def shownNode (effect : Effect Store) : Value :=
  .text ("Effect \x7b node: " ++ effect.nodeText)

/-- Makes an effect and gives it a name. -/
def makeEffect (s : Session) (name : String) (effect : Program) : Value × Session :=
  match s.made (effect.make s.names []) with
  | (.ok effect, s) =>
    let names := { s.names with effects := (name, effect) :: s.names.effects }
    (shownNode effect, { s with names := names })
  | (.error answer, s) => (answer, s)

/-- Starts a fiber with a callback and gives it a name. -/
def spawn (s : Session) (name : String) (effect : Program) (surroundings : Surroundings) :
    Value × Session :=
  match s.made (prepared s.names effect surroundings true) with
  | (.ok (effect, services, honorDelays), s) =>
    let (handle, s) := s.spawned true effect services honorDelays (some (name ++ " exited"))
    (.text "spawned", { s with fibers := (name, ⟨handle, true⟩) :: s.fibers })
  | (.error answer, s) => (answer, s)

/-- Cancels a fiber, if the session is in touch with it. -/
def cancelled (s : Session) (name : String) : Session :=
  match s.started? name with
  | some started =>
    if started.held then { s with kernel := s.kernel.cancel started.handle } else s
  | none => s

/-- Waits until a fiber has ended, if the session is in touch with it. -/
def joined (fuel : Nat) (s : Session) (name : String) : Option Session :=
  match s.started? name with
  | some started => if started.held then s.await fuel (.task started.handle.number) else some s
  | none => some s

/-- Waits for so many milliseconds, or, if that is none, until nobody has anything to
    do. -/
def waited (fuel : Nat) (s : Session) (millis : Nat) : Option Session :=
  if millis = 0 then s.await fuel .quiet
  else s.await fuel (.time (s.kernel.now + millis * nanosPerMilli))

/-- The handle that was put aside under a name. -/
def handle? (s : Session) (name : String) : Option Handle :=
  s.store.held.lookup name

/-- What is known of a handle that was put aside. -/
def handleStatus (s : Session) (handle : Handle) : Value :=
  let canceled := s.kernel.isAbandoned handle
  Value.record2 "canceled" (.bool canceled)
    "debug" (.text (Text.shownRecord "Resume" [("canceled", toString canceled)]))

end Session

end Script

end EffectKernel
