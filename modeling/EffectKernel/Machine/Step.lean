import EffectKernel.Machine

/-!
# Steps

One step of the machine. Most steps lead to another machine. The last one ends in the
outcome of the whole run. In between, a machine may ask for something that it cannot
do on its own: to be taken up again after a while, to wait for a handle, or to have
other machines run beside it. It then says what it asks for and leaves its services
and frames with the asker.

A run that may not suspend asks for as little as possible. Nodes that can only end
later die on the spot, children that could run side by side are run in order, and a
delay that is waited out just moves the clock. Only a routine that gives way is left
with nothing it could do instead.

A machine with another one inside takes the steps of that one. It comes to its own turn
when the one inside has come to an outcome, from which the routine then goes on. What the
one inside asks for is asked of whoever runs the whole. The settings are those of the run
and are the same for every machine in it.

## Main definitions

* `Request`: What a machine cannot do on its own.
* `Step`: What a step leads to.
* `Step.within`: What a step of a machine inside leads to for the one around it.
* `Machine.stepAt`: One step, by what the machine looks at.
* `Machine.step`: One step.
-/

namespace EffectKernel

/-- What a machine cannot do on its own. -/
inductive Request (σ : Type) where
  /-- To go on after a span of time. -/
  | pause (span : Duration) (focus : Focus σ)
  /-- To go on when others have had their turn. -/
  | giveWay (focus : Focus σ)
  /-- To go on when a handle has been used. -/
  | listen (register : Handle → Act σ (List (Signal σ) × Option Panic))
  /-- To have an effect run for a limited time. -/
  | within (source : Effect σ) (limit : Duration)
  /-- To have effects run side by side, all of them. -/
  | gather (children : List (Effect σ)) (collect : Collect)
  /-- To have effects run side by side until one does not fail. -/
  | compete (children : List (Effect σ))

/-- What a step leads to. -/
inductive Step (σ : Type) where
  /-- To another machine. -/
  | next (m : Machine σ)
  /-- To the outcome of the run. -/
  | done (outcome : Outcome)
  /-- To a request, from where the machine waits. -/
  | ask (request : Request σ) (point : Suspension σ)

namespace Machine

variable {σ : Type}

/-- Goes on with the effect that an action gives, or dies by its panic. -/
def applied (env : Context) (stack : List (Frame σ)) :
    Except Defect (Effect σ) × World σ → Step σ × World σ
  | (.ok effect, w) => (.next ⟨.eval effect, env, stack⟩, w)
  | (.error d, w) => (.next ⟨.unwind (.die d), env, stack⟩, w)

/-- Waits out a delay, if there is one and it counts, and goes on from there. -/
def paused (settings : Settings) (span : Duration) (focus : Focus σ) (env : Context)
    (stack : List (Frame σ)) (w : World σ) : Step σ × World σ :=
  if span.isZero || !settings.honorDelays then (.next ⟨focus, env, stack⟩, w)
  else
    match settings.mode with
    | .sync => (.next ⟨focus, env, stack⟩, { w with clock := w.clock + span.nanos })
    | .async => (.ask (.pause span focus) ⟨[], env, stack⟩, w)

/-- Runs children in order, the ends being collected. -/
def startAll (children : List (Effect σ)) (collect : Collect) (env : Context)
    (stack : List (Frame σ)) : Machine σ :=
  match children with
  | [] => ⟨.unwind (.success (Outcome.toList [])), env, stack⟩
  | first :: rest => ⟨.eval first, env, .all rest collect [] :: stack⟩

/-- Runs children in order while they fail. -/
def startRace (children : List (Effect σ)) (env : Context) (stack : List (Frame σ)) :
    Machine σ :=
  match children with
  | [] => ⟨.unwind (.die .emptyRace), env, stack⟩
  | first :: rest => ⟨.eval first, env, .race rest :: stack⟩

/-- The step at an effect. -/
def evalStep (settings : Settings) (effect : Effect σ) (env : Context)
    (stack : List (Frame σ)) (w : World σ) : Step σ × World σ :=
  match effect with
  | .exit thunk =>
    match w.guarded thunk with
    | (.ok outcome, w) => (.next ⟨.unwind outcome, env, stack⟩, w)
    | (.error d, w) => (.next ⟨.unwind (.die d), env, stack⟩, w)
  | .suspend make => applied env stack (w.guarded make)
  | .callback register =>
    match settings.mode with
    | .sync => (.next ⟨.unwind (.die (.asyncInSync "an async callback")), env, stack⟩, w)
    | .async => (.ask (.listen register) ⟨[], env, stack⟩, w)
  | .promise routine =>
    match settings.mode with
    | .sync => (.next ⟨.unwind (.die (.asyncInSync "a promise")), env, stack⟩, w)
    | .async => (.next ⟨.resume routine, env, stack⟩, w)
  | .flatMap source next => (.next ⟨.eval source, env, .flatMap next :: stack⟩, w)
  | .fold source onSuccess onFailure =>
    (.next ⟨.eval source, env, .fold onSuccess onFailure :: stack⟩, w)
  | .catchDefect source handler =>
    (.next ⟨.eval source, env, .catchDefect handler :: stack⟩, w)
  | .recur source schedule mode filter =>
    (.next ⟨.eval source, env,
      .recur ⟨source, schedule, schedule.initial, mode, filter, 1⟩ :: stack⟩, w)
  | .service key =>
    match env.get? key with
    | some v => (.next ⟨.unwind (.success v), env, stack⟩, w)
    | none => (.next ⟨.unwind (.die (.missingService key.name)), env, stack⟩, w)
  | .provide source services =>
    (.next ⟨.eval source, env.merge services, .restore env :: stack⟩, w)
  | .sleep span => paused settings span (.unwind (.success .null)) env stack w
  | .timeout source limit =>
    match settings.mode with
    | .sync => (.next ⟨.unwind (.die (.asyncInSync "a timeout")), env, stack⟩, w)
    | .async => (.ask (.within source limit) ⟨[], env, stack⟩, w)
  | .all children collect parallel =>
    match parallel, settings.mode with
    | true, .async => (.ask (.gather children collect) ⟨[], env, stack⟩, w)
    | _, _ => (.next (startAll children collect env stack), w)
  | .race children =>
    match settings.mode with
    | .async => (.ask (.compete children) ⟨[], env, stack⟩, w)
    | .sync => (.next (startRace children env stack), w)
  | .gen body => (.next ⟨.resume (body env), env, stack⟩, w)
  | .announce event next => (.next ⟨.eval next, env, stack⟩, w.report event)

/-- Whether a recurring source is to be run again after an outcome, as far as the
    outcome decides it. -/
def wantsAgain (r : Recurrence σ) (outcome : Outcome) (w : World σ) :
    Except Defect Bool × World σ :=
  match r.mode, outcome with
  | .retry, .fail e =>
    match r.filter with
    | some test => w.guarded (test e)
    | none => (.ok true, w)
  | .repeating, .success _ => (.ok true, w)
  | _, _ => (.ok false, w)

/-- The event that a recurring source is run again. -/
def againEvent : Recur → UInt32 → Duration → Event
  | .retry, attempt, delay => .retrying attempt delay
  | .repeating, attempt, delay => .repeating attempt delay

/-- The step that hands an outcome to a recurring source. -/
def recurStep (settings : Settings) (r : Recurrence σ) (outcome : Outcome) (env : Context)
    (stack : List (Frame σ)) (w : World σ) : Step σ × World σ :=
  match wantsAgain r outcome w with
  | (.error d, w) => (.next ⟨.unwind (.die d), env, stack⟩, w)
  | (.ok false, w) => (.next ⟨.unwind outcome, env, stack⟩, w)
  | (.ok true, w) =>
    match r.schedule.step r.state with
    | .stop =>
      (.next ⟨.unwind outcome, env, stack⟩, w.report (.scheduleExhausted r.attempt))
    | .again delay state =>
      let frame := .recur { r with state := state, attempt := saturatingSucc r.attempt }
      paused settings delay (.eval r.source) env (frame :: stack)
        (w.report (againEvent r.mode r.attempt delay))

/-- The step that hands the end of a child to the effect that collects them. -/
def allStep (rest : List (Effect σ)) (collect : Collect) (ends : List (Either Value Value))
    (outcome : Outcome) (env : Context) (stack : List (Frame σ)) : Machine σ :=
  let goOn (ends : List (Either Value Value)) : Machine σ :=
    match rest with
    | [] => ⟨.unwind (.success (Outcome.toList ends.reverse)), env, stack⟩
    | next :: rest => ⟨.eval next, env, .all rest collect ends :: stack⟩
  match outcome, collect with
  | .success v, _ => goOn (.right v :: ends)
  | .fail e, .shortCircuit => ⟨.unwind (.fail e), env, stack⟩
  | .fail e, .every => goOn (.left e :: ends)
  | .die d, _ => ⟨.unwind (.die d), env, stack⟩

/-- The step that hands the end of a child to the effect that tries them. -/
def raceStep (rest : List (Effect σ)) (outcome : Outcome) (env : Context)
    (stack : List (Frame σ)) : Machine σ :=
  match outcome, rest with
  | .fail _, next :: rest => ⟨.eval next, env, .race rest :: stack⟩
  | outcome, _ => ⟨.unwind outcome, env, stack⟩

/-- The step that hands an outcome to the innermost frame. -/
def unwindStep (settings : Settings) (frame : Frame σ) (outcome : Outcome) (env : Context)
    (stack : List (Frame σ)) (w : World σ) : Step σ × World σ :=
  match frame, outcome with
  | .flatMap next, .success v => applied env stack (w.guarded (next v))
  | .fold (some onSuccess) _, .success v => applied env stack (w.guarded (onSuccess v))
  | .fold _ (some onFailure), .fail e => applied env stack (w.guarded (onFailure e))
  | .catchDefect handler, .die d => applied env stack (w.guarded (handler d))
  | .restore outer, outcome => (.next ⟨.unwind outcome, outer, stack⟩, w)
  | .recur r, outcome => recurStep settings r outcome env stack w
  | .all rest collect ends, outcome =>
    (.next (allStep rest collect ends outcome env stack), w)
  | .race rest, outcome => (.next (raceStep rest outcome env stack), w)
  | _, outcome => (.next ⟨.unwind outcome, env, stack⟩, w)

/-- The step that carries on a routine. A panic ends the routine by a defect. What it binds is
    run by a machine inside, above no frames and among the services that it is bound among. -/
def resumeStep (routine : Act σ (Routine σ)) (env : Context) (stack : List (Frame σ))
    (w : World σ) : Step σ × World σ :=
  match w.guarded routine with
  | (.error d, w) => (.next ⟨.unwind (.die d), env, stack⟩, w)
  | (.ok (.done outcome), w) => (.next ⟨.unwind outcome, env, stack⟩, w)
  | (.ok (.await effect inner next), w) =>
    (.next ((Machine.start effect inner).within next env stack), w)
  | (.ok (.giveWay next), w) => (.ask (.giveWay (.resume next)) ⟨[], env, stack⟩, w)
  | (.ok (.sleep millis next), w) =>
    if millis = 0 then (.next ⟨.resume next, env, stack⟩, w)
    else
      (.ask (.pause (Duration.ofMillis millis) (.resume next)) ⟨[], env, stack⟩, w)

end Machine

/-- What the step of a machine inside leads to: the routine around it goes on when the machine
    has come to an outcome, and waits as long as it has not. -/
def Step.within {σ : Type} (body : Body σ) (env : Context) (stack : List (Frame σ)) :
    Step σ → Step σ
  | .next m => .next (m.within body env stack)
  | .done outcome => .next ⟨.resume (body outcome), env, stack⟩
  | .ask request point => .ask request (point.within body env stack)

namespace Machine

variable {σ : Type}

/-- The step of a machine that looks at something, among services and frames. -/
def stepAt (settings : Settings) : Focus σ → Context → List (Frame σ) → World σ →
    Step σ × World σ
  | .eval effect, env, stack, w => evalStep settings effect env stack w
  | .resume routine, env, stack, w => resumeStep routine env stack w
  | .unwind outcome, _, [], w => (.done outcome, w)
  | .unwind outcome, env, frame :: stack, w => unwindStep settings frame outcome env stack w
  | .within body inner env stack, outer, frames, w =>
    match stepAt settings inner env stack w with
    | (step, w) => (step.within body outer frames, w)

/-- One step. -/
def step (settings : Settings) (m : Machine σ) (w : World σ) : Step σ × World σ :=
  stepAt settings m.focus m.env m.stack w

end Machine

end EffectKernel
