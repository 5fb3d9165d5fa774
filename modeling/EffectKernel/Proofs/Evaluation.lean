import EffectKernel.Machine.Step

/-!
# Evaluation

What a description means, read off its tree and without a machine. An evaluation takes
a piece of a program, the services around it and a world, and ends in an outcome and
another world. There are no frames and no steps: the rule for a node speaks of its
parts, and the services are those that the text of the program puts around each part.

The services are kept the way the text shows them, as a list of what the enclosing
provides provide. A service that is read is looked up in that list, from the inside
outwards, and then in the context that the run began with. Nothing in the rules puts
services back: a handler is evaluated with the services of the node it belongs to
because it stands there.

A program may run for ever, so evaluation is a relation, and a program that does not
end is not in it. Some nodes ask for what a single run cannot do, such as time to pass
or other runs beside it. What they get is left to a parameter, the outside, which may
do to the world whatever it likes.

Going on with what a function makes is the same everywhere: the function is called
under guard, and its panic is a defect there and then. The rule for `suspend` says so
once, and the rules for handlers use it.

## Main definitions

* `Surroundings`: The services around a point of a program.
* `Surroundings.lookup`: The service that is read there.
* `Outside`: What a run gets when it asks.
* `Code`: A piece of a program that is evaluated.
* `Evaluates`: Evaluation.

## Theorems

* `Surroundings.get?_context`: One context answers like the list of provides.
-/

namespace EffectKernel

/-- The services around a point of a program: what the provides around it provide, the
    innermost first, and what the run began with. -/
structure Surroundings where
  /-- What the enclosing provides provide, the innermost first. -/
  provided : List Context
  /-- What the run began with. -/
  start : Context

namespace Surroundings

/-- The surroundings of a program at which nothing has been provided yet. -/
def of (start : Context) : Surroundings :=
  ⟨[], start⟩

/-- The surroundings inside a provide. -/
def inside (s : Surroundings) (services : Context) : Surroundings :=
  ⟨services :: s.provided, s.start⟩

/-- The service that is read under a key: the one of the innermost provide that has the
    key, and the one the run began with if no provide has it. -/
def lookup (s : Surroundings) (key : ServiceKey) : Option Value :=
  (s.provided.findSome? (·.get? key)).or (s.start.get? key)

/-- All services that can be read, as one context. -/
def context (s : Surroundings) : Context :=
  s.provided.foldr (fun services env => env.merge services) s.start

@[simp] theorem context_of (start : Context) : (of start).context = start := rfl

@[simp] theorem context_inside (s : Surroundings) (services : Context) :
    (s.inside services).context = s.context.merge services := rfl

/-- One context answers like the list of provides. -/
theorem get?_context (s : Surroundings) (key : ServiceKey) :
    s.context.get? key = s.lookup key := by
  rcases s with ⟨provided, start⟩
  induction provided with
  | nil => simp [context, lookup]
  | cons services rest ih =>
      simp only [context, lookup, List.foldr_cons, List.findSome?_cons,
        Context.get?_merge] at ih ⊢
      rw [ih]
      cases services.get? key <;> rfl

end Surroundings

/-- What a run gets when it asks for what it cannot do on its own. -/
structure Outside (σ : Type) where
  /-- From which world to which a span of time may lead. -/
  waits : Duration → World σ → World σ → Prop
  /-- From which world to which the turn of others may lead. -/
  yields : World σ → World σ → Prop
  /-- What a run may be resumed with that listens or has other runs beside it. -/
  answers : Request σ → World σ → Resumption σ → World σ → Prop

namespace Outside

variable {σ : Type}

/-- The outside of a run that gets nothing it asks for. -/
def nobody : Outside σ :=
  ⟨fun _ _ _ => False, fun _ _ => False, fun _ _ _ _ => False⟩

/-- What a run may go on with after a request, and in which world. -/
def Replies (outside : Outside σ) : Request σ → World σ → Focus σ → World σ → Prop
  | .pause span focus, w, next, w' => next = focus ∧ outside.waits span w w'
  | .giveWay focus, w, next, w' => next = focus ∧ outside.yields w w'
  | request, w, next, w' =>
    ∃ resumption, next = resumption.focus ∧ outside.answers request w resumption w'

/-- How a delay passes: not at all if it is zero or does not count, on the clock if the
    run may not suspend, and otherwise as the outside lets it. -/
def Passes (outside : Outside σ) (settings : Settings) (span : Duration)
    (w w' : World σ) : Prop :=
  if span.isZero || !settings.honorDelays then w' = w
  else
    match settings.mode with
    | .sync => w' = { w with clock := w.clock + span.nanos }
    | .async => outside.waits span w w'

end Outside

namespace Effect

variable {σ : Type}

/-- What a node is that can only end later than it begins. -/
def endsLater? : Effect σ → Option String
  | .callback _ => some "an async callback"
  | .promise _ => some "a promise"
  | .timeout _ _ => some "a timeout"
  | _ => none

/-- What a node asks the outside for. -/
def request? : Effect σ → Option (Request σ)
  | .callback register => some (.listen register)
  | .timeout source limit => some (.within source limit)
  | .all children collect true => some (.gather children collect)
  | .race children => some (.compete children)
  | _ => none

end Effect

/-- What a node asks for is answered by something to resume with. -/
theorem Outside.replies_iff_answers {σ : Type} (outside : Outside σ) {e : Effect σ}
    {request : Request σ} (asks : e.request? = some request) {w w' : World σ} {focus : Focus σ} :
    outside.Replies request w focus w' ↔
      ∃ resumption, focus = resumption.focus ∧ outside.answers request w resumption w' := by
  cases request with
  | pause span focus => cases e <;> simp [Effect.request?] at asks; split at asks <;> cases asks
  | giveWay focus => cases e <;> simp [Effect.request?] at asks; split at asks <;> cases asks
  | _ => exact Iff.rfl

/-- A piece of a program that is evaluated. -/
inductive Code (σ : Type) where
  /-- An outcome, which is its own value. -/
  | outcome (x : Outcome)
  /-- An effect. -/
  | effect (e : Effect σ)
  /-- A routine from some point on. -/
  | routine (r : Act σ (Routine σ))
  /-- A recurring source, from the beginning of one of its runs. -/
  | recurring (r : Recurrence σ)
  /-- The remaining children of a collecting effect, with the ends of those before them,
      the latest first. -/
  | collecting (children : List (Effect σ)) (collect : Collect)
      (ends : List (Either Value Value))
  /-- The child that is tried next, and those behind it. -/
  | trying (child : Effect σ) (rest : List (Effect σ))

/-- What a run is resumed with, as a piece of a program. -/
def Code.ofResumption {σ : Type} : Resumption σ → Code σ
  | .outcome x => .outcome x
  | .effect e => .effect e

/-- Evaluation: a piece of a program, among some services and in a world, ends in an
    outcome and leaves a world. -/
inductive Evaluates {σ : Type} (settings : Settings) (outside : Outside σ) :
    Code σ → Surroundings → World σ → Outcome → World σ → Prop where
  -- An outcome is its own value. An exit ends as its function says, and a suspension is
  -- the effect that its function makes; either dies if the function panics.
  | outcome {x s w} : Evaluates settings outside (.outcome x) s w x w
  | exit {thunk s w x w'} (call : w.guarded thunk = (.ok x, w')) :
      Evaluates settings outside (.effect (.exit thunk)) s w x w'
  | exitPanic {thunk s w d w'} (call : w.guarded thunk = (.error d, w')) :
      Evaluates settings outside (.effect (.exit thunk)) s w (.die d) w'
  | suspend {make s w e w₁ x w'} (call : w.guarded make = (.ok e, w₁))
      (made : Evaluates settings outside (.effect e) s w₁ x w') :
      Evaluates settings outside (.effect (.suspend make)) s w x w'
  | suspendPanic {make s w d w'} (call : w.guarded make = (.error d, w')) :
      Evaluates settings outside (.effect (.suspend make)) s w (.die d) w'
  -- What can only end later dies in a run that may not suspend. In one that may it goes
  -- on with what it gets from outside.
  | refused {e what s w} (mode : settings.mode = .sync) (later : e.endsLater? = some what) :
      Evaluates settings outside (.effect e) s w (.die (.asyncInSync what)) w
  | asked {e request resumption s w w₁ x w'} (mode : settings.mode = .async)
      (asks : e.request? = some request) (reply : outside.answers request w resumption w₁)
      (goOn : Evaluates settings outside (.ofResumption resumption) s w₁ x w') :
      Evaluates settings outside (.effect e) s w x w'
  | promise {start s w x w'} (mode : settings.mode = .async)
      (run : Evaluates settings outside (.routine start) s w x w') :
      Evaluates settings outside (.effect (.promise start)) s w x w'
  -- A handler goes on from the ends it is for. All others pass it by unchanged.
  | flatMap {source next s w v w₁ x w'}
      (first : Evaluates settings outside (.effect source) s w (.success v) w₁)
      (then' : Evaluates settings outside (.effect (.suspend (next v))) s w₁ x w') :
      Evaluates settings outside (.effect (.flatMap source next)) s w x w'
  | flatMapPass {source next s w x w'}
      (first : Evaluates settings outside (.effect source) s w x w')
      (pass : x.isSuccess = false) :
      Evaluates settings outside (.effect (.flatMap source next)) s w x w'
  | foldSuccess {source onSuccess onFailure s w v w₁ x w'}
      (first : Evaluates settings outside (.effect source) s w (.success v) w₁)
      (then' : Evaluates settings outside (.effect (.suspend (onSuccess v))) s w₁ x w') :
      Evaluates settings outside (.effect (.fold source (some onSuccess) onFailure)) s w x w'
  | foldFailure {source onSuccess onFailure s w e w₁ x w'}
      (first : Evaluates settings outside (.effect source) s w (.fail e) w₁)
      (then' : Evaluates settings outside (.effect (.suspend (onFailure e))) s w₁ x w') :
      Evaluates settings outside (.effect (.fold source onSuccess (some onFailure))) s w x w'
  | foldPass {source onSuccess onFailure s w x w'}
      (first : Evaluates settings outside (.effect source) s w x w')
      (noValue : x.isSuccess = true → onSuccess = none)
      (noFailure : x.isFail = true → onFailure = none) :
      Evaluates settings outside (.effect (.fold source onSuccess onFailure)) s w x w'
  | catchDefect {source handler s w d w₁ x w'}
      (first : Evaluates settings outside (.effect source) s w (.die d) w₁)
      (then' : Evaluates settings outside (.effect (.suspend (handler d))) s w₁ x w') :
      Evaluates settings outside (.effect (.catchDefect source handler)) s w x w'
  | catchDefectPass {source handler s w x w'}
      (first : Evaluates settings outside (.effect source) s w x w')
      (pass : x.isDie = false) :
      Evaluates settings outside (.effect (.catchDefect source handler)) s w x w'
  -- Every evaluation of the node starts the schedule from its beginning. After each run
  -- the outcome says whether another one is wanted and the schedule whether there is one.
  | recur {source schedule mode filter s w x w'}
      (runs : Evaluates settings outside
        (.recurring ⟨source, schedule, schedule.initial, mode, filter, 1⟩) s w x w') :
      Evaluates settings outside (.effect (.recur source schedule mode filter)) s w x w'
  | recurringEnough {r s w x w₁ w'}
      (run : Evaluates settings outside (.effect r.source) s w x w₁)
      (verdict : Machine.wantsAgain r x w₁ = (.ok false, w')) :
      Evaluates settings outside (.recurring r) s w x w'
  | recurringPanic {r s w x w₁ d w'}
      (run : Evaluates settings outside (.effect r.source) s w x w₁)
      (verdict : Machine.wantsAgain r x w₁ = (.error d, w')) :
      Evaluates settings outside (.recurring r) s w (.die d) w'
  | recurringExhausted {r s w x w₁ w₂}
      (run : Evaluates settings outside (.effect r.source) s w x w₁)
      (verdict : Machine.wantsAgain r x w₁ = (.ok true, w₂))
      (decision : r.schedule.step r.state = .stop) :
      Evaluates settings outside (.recurring r) s w x
        (w₂.report (.scheduleExhausted r.attempt))
  | recurringAgain {r s w y w₁ w₂ delay state w₃ x w'}
      (run : Evaluates settings outside (.effect r.source) s w y w₁)
      (verdict : Machine.wantsAgain r y w₁ = (.ok true, w₂))
      (decision : r.schedule.step r.state = .again delay state)
      (pause : outside.Passes settings delay
        (w₂.report (Machine.againEvent r.mode r.attempt delay)) w₃)
      (again : Evaluates settings outside
        (.recurring { r with state := state, attempt := saturatingSucc r.attempt }) s w₃ x w') :
      Evaluates settings outside (.recurring r) s w x w'
  -- A service is looked up where the node stands in the text, so a provide only shows
  -- in the surroundings of its source.
  | service {key s w v} (found : s.lookup key = some v) :
      Evaluates settings outside (.effect (.service key)) s w (.success v) w
  | serviceMissing {key s w} (missing : s.lookup key = none) :
      Evaluates settings outside (.effect (.service key)) s w
        (.die (.missingService key.name)) w
  | provide {source services s w x w'}
      (body : Evaluates settings outside (.effect source) (s.inside services) w x w') :
      Evaluates settings outside (.effect (.provide source services)) s w x w'
  -- A wait.
  | sleep {span s w w'} (pause : outside.Passes settings span w w') :
      Evaluates settings outside (.effect (.sleep span)) s w (.success .null) w'
  -- Children in order. A defect ends the whole, and so does a failure unless failures
  -- are collected.
  | all {children collect parallel s w x w'}
      (inOrder : parallel = false ∨ settings.mode = .sync)
      (run : Evaluates settings outside (.collecting children collect []) s w x w') :
      Evaluates settings outside (.effect (.all children collect parallel)) s w x w'
  | collected {collect ends s w} :
      Evaluates settings outside (.collecting [] collect ends) s w
        (.success (Outcome.toList ends.reverse)) w
  | collectValue {child rest collect ends s w v w₁ x w'}
      (first : Evaluates settings outside (.effect child) s w (.success v) w₁)
      (others : Evaluates settings outside
        (.collecting rest collect (.right v :: ends)) s w₁ x w') :
      Evaluates settings outside (.collecting (child :: rest) collect ends) s w x w'
  | collectFailure {child rest ends s w e w₁ x w'}
      (first : Evaluates settings outside (.effect child) s w (.fail e) w₁)
      (others : Evaluates settings outside
        (.collecting rest .every (.left e :: ends)) s w₁ x w') :
      Evaluates settings outside (.collecting (child :: rest) .every ends) s w x w'
  | collectStop {child rest ends s w e w'}
      (first : Evaluates settings outside (.effect child) s w (.fail e) w') :
      Evaluates settings outside (.collecting (child :: rest) .shortCircuit ends) s w
        (.fail e) w'
  | collectDie {child rest collect ends s w d w'}
      (first : Evaluates settings outside (.effect child) s w (.die d) w') :
      Evaluates settings outside (.collecting (child :: rest) collect ends) s w (.die d) w'
  -- Children that are tried in order, until one does not fail or none is left.
  | raceEmpty {s w} (mode : settings.mode = .sync) :
      Evaluates settings outside (.effect (.race [])) s w (.die .emptyRace) w
  | race {child rest s w x w'} (mode : settings.mode = .sync)
      (run : Evaluates settings outside (.trying child rest) s w x w') :
      Evaluates settings outside (.effect (.race (child :: rest))) s w x w'
  | tryNext {child next rest s w e w₁ x w'}
      (first : Evaluates settings outside (.effect child) s w (.fail e) w₁)
      (others : Evaluates settings outside (.trying next rest) s w₁ x w') :
      Evaluates settings outside (.trying child (next :: rest)) s w x w'
  | tryEnd {child rest s w x w'}
      (first : Evaluates settings outside (.effect child) s w x w')
      (last : x.isFail = true → rest = []) :
      Evaluates settings outside (.trying child rest) s w x w'
  -- A routine is told the services around it once.
  | gen {body s w x w'}
      (run : Evaluates settings outside (.routine (body s.context)) s w x w') :
      Evaluates settings outside (.effect (.gen body)) s w x w'
  -- An event that is reported on the way.
  | announce {event next s w x w'}
      (goOn : Evaluates settings outside (.effect next) s (w.report event) x w') :
      Evaluates settings outside (.effect (.announce event next)) s w x w'
  -- Each stretch of a routine is one call.
  | routinePanic {r s w d w'} (call : w.guarded r = (.error d, w')) :
      Evaluates settings outside (.routine r) s w (.die d) w'
  | routineDone {r s w x w'} (call : w.guarded r = (.ok (.done x), w')) :
      Evaluates settings outside (.routine r) s w x w'
  -- What it awaits runs among the services that it names, whatever is around it.
  | routineAwait {r s w e env next w₁ y w₂ x w'}
      (call : w.guarded r = (.ok (.await e env next), w₁))
      (awaited : Evaluates settings outside (.effect e) (.of env) w₁ y w₂)
      (goOn : Evaluates settings outside (.routine (next y)) s w₂ x w') :
      Evaluates settings outside (.routine r) s w x w'
  | routineGiveWay {r s w next w₁ w₂ x w'}
      (call : w.guarded r = (.ok (.giveWay next), w₁)) (turn : outside.yields w₁ w₂)
      (goOn : Evaluates settings outside (.routine next) s w₂ x w') :
      Evaluates settings outside (.routine r) s w x w'
  | routineSleep {r s w millis next w₁ w₂ x w'}
      (call : w.guarded r = (.ok (.sleep millis next), w₁))
      (pause : if millis = 0 then w₂ = w₁ else outside.waits (Duration.ofMillis millis) w₁ w₂)
      (goOn : Evaluates settings outside (.routine next) s w₂ x w') :
      Evaluates settings outside (.routine r) s w x w'

end EffectKernel
