import EffectKernel.Proofs.Crossing
import EffectKernel.Proofs.Likeness.Equivalence
import EffectKernel.Proofs.Likeness.Taming

/-!
# Panics

A function of a program may panic at any time. The machine calls all of them, and whichever it is
that panics, the machine goes on with a defect from where it is: among the services and above the
frames that what the function would have given should have been run in (`Machine.Panics.step`).
From there the defect goes its way like any other. A hatch sees it, or whoever waits for the run,
and the frames on the way there have put back the services that were there when the effect in the
hatch was begun (`Machine.Panics.delivers`).

As far as can be seen, then, panics are nothing but deaths. The tame program (`Effect.tamed`), which
dies where the program would panic, comes to the same in every way to run it. And in the tame
program there are no panics left. None of the functions that are written down in it panics, nor
does any that these make as it runs (`Effect.Calm`); a machine that is calm in this sense stays so
in each step, so it never comes to a function that panics (`Machine.Calm.steps`).

## Main definitions

* `Effect.Calm`, `Machine.Calm`: No function panics that the machine may call.
* `Machine.Panics`: A function that the machine calls now panics.

## Theorems

* `Effect.calm_tamed`: The tame program has no function that panics.
* `Machine.Panics.step`: A panic becomes a defect where it happens.
* `Machine.Panics.delivers`: It ends what is run above frames that do not let it through.
* `Machine.Calm.steps`: A machine that is calm stays calm.
* `panics_are_defects`: All together.
-/

namespace EffectKernel

open Machine

/-- What a function gives that does not panic. -/
inductive Yields {σ α : Type} (Holds : α → Prop) : Except Panic α × σ → Prop where
  | ok {a s} (holds : Holds a) : Yields Holds (.ok a, s)

mutual
/-- No function of the effect panics that the machine may call. -/
inductive Effect.Calm {σ : Type} : Effect σ → Prop where
  | exit {thunk : Act σ Outcome} (calm : ∀ s, Yields (fun _ => True) (thunk.run s)) :
      Effect.Calm (.exit thunk)
  | suspend {make : Act σ (Effect σ)} (calm : ∀ s, Yields Effect.Calm (make.run s)) :
      Effect.Calm (.suspend make)
  | callback {register : Handle → Act σ (List (Signal σ) × Option Panic)}
      (calm : ∀ handle s, CalmRegistration ((register handle).run s)) :
      Effect.Calm (.callback register)
  | promise {start : Act σ (Routine σ)} (calm : ∀ s, Yields Routine.Calm (start.run s)) :
      Effect.Calm (.promise start)
  | flatMap {source : Effect σ} {next : Value → Act σ (Effect σ)} (inner : Effect.Calm source)
      (calm : ∀ v s, Yields Effect.Calm ((next v).run s)) : Effect.Calm (.flatMap source next)
  | fold {source : Effect σ} {onSuccess onFailure : Option (Value → Act σ (Effect σ))}
      (inner : Effect.Calm source)
      (success : ∀ next, onSuccess = some next → ∀ v s, Yields Effect.Calm ((next v).run s))
      (failure : ∀ next, onFailure = some next → ∀ v s, Yields Effect.Calm ((next v).run s)) :
      Effect.Calm (.fold source onSuccess onFailure)
  | catchDefect {source : Effect σ} {handler : Defect → Act σ (Effect σ)}
      (inner : Effect.Calm source) (calm : ∀ d s, Yields Effect.Calm ((handler d).run s)) :
      Effect.Calm (.catchDefect source handler)
  /-- Failures are tested only where the source is run again after failures. -/
  | recur {source : Effect σ} {schedule : Schedule} {mode : Recur}
      {filter : Option (Value → Act σ Bool)} (inner : Effect.Calm source)
      (tests : mode = .retry → ∀ test, filter = some test →
        ∀ e s, Yields (fun _ => True) ((test e).run s)) :
      Effect.Calm (.recur source schedule mode filter)
  | service {key : ServiceKey} : Effect.Calm (.service key)
  | provide {source : Effect σ} {services : Context} (inner : Effect.Calm source) :
      Effect.Calm (.provide source services)
  | sleep {span : Duration} : Effect.Calm (.sleep span)
  | timeout {source : Effect σ} {limit : Duration} (inner : Effect.Calm source) :
      Effect.Calm (.timeout source limit)
  | all {children : List (Effect σ)} {collect : Collect} {parallel : Bool}
      (each : ∀ e ∈ children, Effect.Calm e) : Effect.Calm (.all children collect parallel)
  | race {children : List (Effect σ)} (each : ∀ e ∈ children, Effect.Calm e) :
      Effect.Calm (.race children)
  | gen {body : Context → Act σ (Routine σ)}
      (calm : ∀ env s, Yields Routine.Calm ((body env).run s)) : Effect.Calm (.gen body)
  | announce {event : Event} {next : Effect σ} (inner : Effect.Calm next) :
      Effect.Calm (.announce event next)

/-- No function of the routine panics. -/
inductive Routine.Calm {σ : Type} : Routine σ → Prop where
  | done {x : Outcome} : Routine.Calm (.done x)
  | await {e : Effect σ} {env : Context} {next : Outcome → Act σ (Routine σ)}
      (inner : Effect.Calm e) (calm : ∀ x s, Yields Routine.Calm ((next x).run s)) :
      Routine.Calm (.await e env next)
  | giveWay {next : Act σ (Routine σ)} (calm : ∀ s, Yields Routine.Calm (next.run s)) :
      Routine.Calm (.giveWay next)
  | sleep {millis : Nat} {next : Act σ (Routine σ)}
      (calm : ∀ s, Yields Routine.Calm (next.run s)) : Routine.Calm (.sleep millis next)

/-- A function that has been told a handle does something with handles and does not panic. -/
inductive CalmRegistration {σ : Type} :
    Except Panic (List (Signal σ) × Option Panic) × σ → Prop where
  | ok {signals : List (Signal σ)} {s : σ} (each : ∀ signal ∈ signals, Signal.Calm signal) :
      CalmRegistration (.ok (signals, none), s)

/-- No function of the effects that are handed in panics. What the holders of handles do on their
    own is their business. -/
inductive Signal.Calm {σ : Type} : Signal σ → Prop where
  | complete {handle : Handle} {x : Outcome} : Signal.Calm (.complete handle x)
  | resume {handle : Handle} {e : Effect σ} (inner : Effect.Calm e) : Signal.Calm (.resume handle e)
  | release {handle : Handle} : Signal.Calm (.release handle)
  | later {millis : Nat} {handle : Handle} {act : Act σ (List (Signal σ))}
      (each : ∀ s signals s', act.run s = (.ok signals, s') →
        ∀ signal ∈ signals, Signal.Calm signal) : Signal.Calm (.later millis handle act)
end

variable {σ : Type}

/-! ### Tame programs -/

theorem Effect.Calm.die (d : Defect) : (Effect.die d : Effect σ).Calm :=
  .exit fun _ => .ok trivial

theorem yields_orElse (thunk : Act σ Outcome) (instead : Panic → Outcome) (s : σ) :
    Yields (fun _ => True) ((thunk.orElse instead).run s) := by
  rw [Act.run_orElse]
  rcases thunk.run s with ⟨p | x, s⟩ <;> exact .ok trivial

/-- The handler that has taken the place of a test does not panic. -/
theorem yields_judge (test : Value → Act σ Bool) (e : Value) (s : σ) :
    Yields Effect.Calm ((judge test e).run s) := by
  rw [run_judge rfl]
  exact .ok (.exit fun _ => .ok trivial)

/-- A tamed retry whose source is calm is calm, whatever its filter does. -/
theorem calm_recurTamed {source : Effect σ} (calm : source.Calm) (schedule : Schedule)
    (mode : Recur) (filter : Option (Value → Act σ Bool)) :
    (source.recurTamed schedule mode filter).Calm := by
  rcases mode with _ | _ <;> rcases filter with _ | test
  · exact .recur calm fun _ _ h => nomatch h
  -- The filter is called in a handler of its own, where its panic becomes the verdict; the retry
  -- only reads the mark.
  · have judged : (source.judged test).Calm := by
      refine .fold calm (fun _ h => nomatch h) fun _ h => ?_
      cases h
      exact yields_judge test
    have again : ((source.judged test).retryWhile schedule fun v => pure (isMarked v)).Calm := by
      refine .recur judged fun _ _ h => ?_
      cases h
      exact fun _ _ => .ok trivial
    refine .fold again (fun _ h => nomatch h) fun _ h => ?_
    cases h
    exact fun _ _ => .ok (.exit fun _ => .ok trivial)
  · exact .recur calm fun h => nomatch h
  · exact .recur calm fun h => nomatch h

mutual
/-- No function of a tame program panics. -/
theorem Effect.calm_tamed : (e : Effect σ) → e.tamed.Calm
  | .exit thunk => .exit (yields_orElse thunk _)
  | .suspend make => .suspend (yields_tamed make)
  | .callback register => .callback fun handle => calm_tamedRegistration handle (register handle)
  | .promise start => .promise (yields_tamedRoutine start)
  | .flatMap source next => .flatMap source.calm_tamed fun v => yields_tamed (next v)
  | .fold source onSuccess onFailure =>
      .fold source.calm_tamed (yields_tamedHandler onSuccess) (yields_tamedHandler onFailure)
  | .catchDefect source handler =>
      .catchDefect source.calm_tamed fun d => yields_tamed (handler d)
  | .recur source schedule mode filter => calm_recurTamed source.calm_tamed schedule mode filter
  | .service _ => .service
  | .provide source _ => .provide source.calm_tamed
  | .sleep _ => .sleep
  | .timeout source _ => .timeout source.calm_tamed
  | .all children _ _ => .all (calm_tamedEach children)
  | .race children => .race (calm_tamedEach children)
  | .gen body => .gen fun env => yields_tamedRoutine (body env)
  | .announce _ next => .announce next.calm_tamed

theorem calm_tamedEach : (children : List (Effect σ)) →
    ∀ e ∈ Effect.tamedEach children, e.Calm
  | [] => fun _ h => nomatch h
  | e :: rest => List.forall_mem_cons.2 ⟨e.calm_tamed, calm_tamedEach rest⟩

theorem yields_tamedHandler : (handler : Option (Value → Act σ (Effect σ))) →
    ∀ next, Effect.tamedHandler handler = some next → ∀ v s, Yields Effect.Calm ((next v).run s)
  | none, _, h => nomatch h
  | some next, _, h => by
      cases h
      exact fun v => yields_tamed (next v)

theorem yields_tamed : (act : Act σ (Effect σ)) → ∀ s, Yields Effect.Calm (act.tamed.run s)
  | ⟨run⟩, s => yields_tamedResult (run s)

theorem yields_tamedResult : (r : Except Panic (Effect σ) × σ) →
    Yields Effect.Calm (Act.tamedResult r)
  | (.ok e, _) => .ok e.calm_tamed
  | (.error _, _) => .ok (.die _)

theorem calm_tamedRoutine : (r : Routine σ) → r.tamed.Calm
  | .done _ => .done
  | .await e _ next => .await e.calm_tamed fun x => yields_tamedRoutine (next x)
  | .giveWay next => .giveWay (yields_tamedRoutine next)
  | .sleep _ next => .sleep (yields_tamedRoutine next)

theorem yields_tamedRoutine : (act : Act σ (Routine σ)) → ∀ s,
    Yields Routine.Calm (act.tamedRoutine.run s)
  | ⟨run⟩, s => yields_tamedRoutineResult (run s)

theorem yields_tamedRoutineResult : (r : Except Panic (Routine σ) × σ) →
    Yields Routine.Calm (Act.tamedRoutineResult r)
  | (.ok r, _) => .ok (calm_tamedRoutine r)
  | (.error _, _) => .ok .done

theorem calm_tamedRegistration (handle : Handle) :
    (act : Act σ (List (Signal σ) × Option Panic)) → ∀ s,
      CalmRegistration ((act.tamedRegistration handle).run s)
  | ⟨run⟩, s => calm_tamedRegistrationResult handle (run s)

theorem calm_tamedRegistrationResult (handle : Handle) :
    (r : Except Panic (List (Signal σ) × Option Panic) × σ) →
      CalmRegistration (Act.tamedRegistrationResult handle r)
  | (.ok (signals, none), _) => .ok (calm_tamedSignals signals)
  | (.ok (signals, some _), _) =>
      .ok (List.forall_mem_cons.2 ⟨.complete, calm_tamedSignals signals⟩)
  | (.error _, _) => .ok (List.forall_mem_singleton.2 .complete)

theorem calm_tamedSignal : (signal : Signal σ) → signal.tamed.Calm
  | .complete _ _ => .complete
  | .resume _ e => .resume e.calm_tamed
  | .release _ => .release
  | .later _ _ act => .later (calm_tamedLater act)

theorem calm_tamedSignals : (signals : List (Signal σ)) →
    ∀ signal ∈ Signal.tamedEach signals, signal.Calm
  | [] => fun _ h => nomatch h
  | signal :: rest => List.forall_mem_cons.2 ⟨calm_tamedSignal signal, calm_tamedSignals rest⟩

theorem calm_tamedLater : (act : Act σ (List (Signal σ))) → ∀ s signals s',
    act.tamedSignals.run s = (.ok signals, s') → ∀ signal ∈ signals, signal.Calm
  | ⟨run⟩, s, signals, s', h => calm_tamedLaterResult (run s) signals s' h

theorem calm_tamedLaterResult : (r : Except Panic (List (Signal σ)) × σ) → ∀ signals s',
    Act.tamedSignalsResult r = (.ok signals, s') → ∀ signal ∈ signals, signal.Calm
  | (.ok signals, _), _, _, h => by
      cases h
      exact calm_tamedSignals signals
  | (.error _, _), _, _, h => nomatch h
end

/-! ### The place of a panic -/

/-- A function that the machine calls now panics: with what, which state it leaves, and above which
    frames that happens. -/
inductive Machine.Panics : Machine σ → σ → Panic → σ → List (Frame σ) → Prop where
  | thunk {thunk : Act σ Outcome} {env stack s p s'} (panics : thunk.run s = (.error p, s')) :
      Panics ⟨.eval (.exit thunk), env, stack⟩ s p s' stack
  | make {make : Act σ (Effect σ)} {env stack s p s'} (panics : make.run s = (.error p, s')) :
      Panics ⟨.eval (.suspend make), env, stack⟩ s p s' stack
  | next {v next env stack s p s'} (panics : (next v).run s = (.error p, s')) :
      Panics ⟨.unwind (.success v), env, .flatMap next :: stack⟩ s p s' stack
  | onSuccess {v next onFailure env stack s p s'} (panics : (next v).run s = (.error p, s')) :
      Panics ⟨.unwind (.success v), env, .fold (some next) onFailure :: stack⟩ s p s' stack
  | onFailure {e next onSuccess env stack s p s'} (panics : (next e).run s = (.error p, s')) :
      Panics ⟨.unwind (.fail e), env, .fold onSuccess (some next) :: stack⟩ s p s' stack
  | handler {d handler env stack s p s'} (panics : (handler d).run s = (.error p, s')) :
      Panics ⟨.unwind (.die d), env, .catchDefect handler :: stack⟩ s p s' stack
  | test {e source schedule state test attempt env stack s p s'}
      (panics : (test e).run s = (.error p, s')) :
      Panics ⟨.unwind (.fail e), env,
        .recur ⟨source, schedule, state, .retry, some test, attempt⟩ :: stack⟩ s p s' stack
  /-- A routine is started, or goes on. -/
  | routine {r : Act σ (Routine σ)} {env stack s p s'} (panics : r.run s = (.error p, s')) :
      Panics ⟨.resume r, env, stack⟩ s p s' stack

/-- The world that a panic leaves. -/
def World.panicked (w : World σ) (p : Panic) (s : σ) : World σ :=
  { w with store := s }.report (.panicCaptured (.ofPanic p))

/-- A guarded call that panics gives the defect, keeps the store the panic left and reports it. -/
theorem World.guarded_panic {α : Type} {act : Act σ α} {w : World σ} {p : Panic} {s : σ}
    (panics : act.run w.store = (.error p, s)) :
    w.guarded act = (.error (.ofPanic p), w.panicked p s) := by
  unfold World.guarded
  rw [panics]
  rfl

section Place

variable {settings : Settings} {outside : Outside σ} {m : Machine σ} {w w₁ : World σ} {p : Panic}
  {s : σ} {below frames base : List (Frame σ)} {env : Context} {source : Effect σ}

/-- A panic becomes a defect where it happens. -/
theorem Machine.Panics.step (panics : m.Panics w.store p s below) :
    m.step settings w = (.next ⟨.unwind (.die (.ofPanic p)), m.env, below⟩, w.panicked p s) := by
  generalize hstore : w.store = store at panics
  -- Every place at which a program's function is called is guarded, and the guarded call gives the
  -- defect.
  cases panics with
  | thunk panics =>
      subst hstore
      simp only [Machine.step, stepAt, evalStep, World.guarded_panic panics]
  | make panics =>
      subst hstore
      simp only [Machine.step, stepAt, evalStep, World.guarded_panic panics, applied]
  | next panics =>
      subst hstore
      simp only [Machine.step, stepAt, unwindStep, World.guarded_panic panics, applied]
  | onSuccess panics =>
      subst hstore
      simp only [Machine.step, stepAt, unwindStep, World.guarded_panic panics, applied]
  | @onFailure _ _ onSuccess _ _ _ _ _ panics =>
      subst hstore
      cases onSuccess <;> simp only
        [Machine.step, stepAt, unwindStep, World.guarded_panic panics, applied]
  | handler panics =>
      subst hstore
      simp only [Machine.step, stepAt, unwindStep, World.guarded_panic panics, applied]
  | test panics =>
      subst hstore
      simp only [Machine.step, stepAt, unwindStep, recurStep, wantsAgain,
        World.guarded_panic panics]
  | routine panics =>
      subst hstore
      simp only [Machine.step, stepAt, resumeStep, World.guarded_panic panics]

/-- A machine at which a function panics has something to do above the frames below it. -/
theorem Machine.Panics.above (panics : m.Panics w.store p s below) :
    ¬ m.Handing below ∧ below <:+ m.stack := by
  cases panics with
  | thunk | make => exact ⟨not_handing_eval, List.suffix_refl _⟩
  | routine => exact ⟨not_handing_resume, List.suffix_refl _⟩
  | next | onSuccess | onFailure | handler | test =>
      exact ⟨not_handing_cons, List.suffix_cons _ _⟩

/-- A function that has been told a handle panics, and the fiber goes on with a defect. -/
theorem Kernel.grant_panics {path : Path} {point : Suspension σ} {k : Kernel σ}
    {register : Handle → Act σ (List (Signal σ) × Option Panic)}
    (panics : (register k.fresh).run k.world.store = (.error p, s) ∨
      ∃ signals, (register k.fresh).run k.world.store = (.ok (signals, some p), s)) :
    (k.grant path (.listen register) point).1 =
      .ready (point.resume (.unwind (.die (.ofPanic p)))) := by
  rw [k.grant_listen]
  rcases panics with panics | ⟨signals, panics⟩ <;> rw [panics]

/-- The defect that a panic has become passes the frames that let it through, and whatever is below
    an effect is handed it, among the services that the effect was begun among. -/
theorem Machine.Panics.delivers (panics : m.Panics w₁.store p s (frames ++ base))
    (passes : ∀ frame ∈ frames, frame.Passes)
    (leads : Leads settings outside base ⟨.eval source, env, base⟩ w m w₁) :
    Delivers settings outside base ⟨.eval source, env, base⟩ w (.die (.ofPanic p)) env
      (w₁.panicked p s) := by
  -- The step in which the panic becomes a defect is a run above the frames around the function;
  -- the defect takes it to a run above the base, and the way there to one of the effect.
  rcases panics.above with ⟨busy, above⟩
  have dies : Delivers settings outside (frames ++ base) m w₁ (.die (.ofPanic p)) m.env
      (w₁.panicked p s) :=
    ⟨1, .step busy (.next panics.step) .done⟩
  rcases delivers_die passes dies above with ⟨env', died⟩
  have run := leads.delivers died
  have same : env' = env := (@delivers_iff_evaluates σ settings outside (.effect source)
    (.of env) _ w _ _ env').1 run |>.1
  rwa [same] at run

end Place

/-! ### Calm runs -/

/-- No function panics that is left for later. -/
inductive Frame.Calm : Frame σ → Prop where
  | flatMap {next : Value → Act σ (Effect σ)}
      (calm : ∀ v s, Yields Effect.Calm ((next v).run s)) : Calm (.flatMap next)
  | fold {onSuccess onFailure : Option (Value → Act σ (Effect σ))}
      (success : ∀ next, onSuccess = some next → ∀ v s, Yields Effect.Calm ((next v).run s))
      (failure : ∀ next, onFailure = some next → ∀ v s, Yields Effect.Calm ((next v).run s)) :
      Calm (.fold onSuccess onFailure)
  | catchDefect {handler : Defect → Act σ (Effect σ)}
      (calm : ∀ d s, Yields Effect.Calm ((handler d).run s)) : Calm (.catchDefect handler)
  | recur {source : Effect σ} {schedule : Schedule} {state : ScheduleState} {mode : Recur}
      {filter : Option (Value → Act σ Bool)} {attempt : UInt32} (inner : source.Calm)
      (tests : mode = .retry → ∀ test, filter = some test →
        ∀ e s, Yields (fun _ => True) ((test e).run s)) :
      Calm (.recur ⟨source, schedule, state, mode, filter, attempt⟩)
  | restore {env : Context} : Calm (.restore env)
  | all {rest : List (Effect σ)} {collect : Collect} {ends : List (Either Value Value)}
      (each : ∀ e ∈ rest, e.Calm) : Calm (.all rest collect ends)
  | race {rest : List (Effect σ)} (each : ∀ e ∈ rest, e.Calm) : Calm (.race rest)

/-- No function panics that is called from here. -/
inductive Focus.Calm : Focus σ → Prop where
  | eval {e : Effect σ} (calm : e.Calm) : Calm (.eval e)
  | unwind {x : Outcome} : Calm (.unwind x)
  | resume {r : Act σ (Routine σ)} (calm : ∀ s, Yields Routine.Calm (r.run s)) : Calm (.resume r)
  | within {body : Body σ} {inner : Focus σ} {env : Context} {stack : List (Frame σ)}
      (calm : ∀ x s, Yields Routine.Calm ((body x).run s)) (focus : Calm inner)
      (above : ∀ frame ∈ stack, frame.Calm) : Calm (.within body inner env stack)

/-- No function panics that the machine may call. -/
structure Machine.Calm (m : Machine σ) : Prop where
  focus : m.focus.Calm
  stack : ∀ frame ∈ m.stack, frame.Calm

section Calm

variable {settings : Settings} {m m₁ : Machine σ} {w w₁ : World σ} {env : Context}
  {stack : List (Frame σ)}

/-- A function that does not panic gives something. -/
theorem World.guarded_yields {α : Type} {Holds : α → Prop} {act : Act σ α}
    (calm : ∀ s, Yields Holds (act.run s)) (w : World σ) :
    ∃ a w₁, w.guarded act = (.ok a, w₁) ∧ Holds a := by
  unfold World.guarded
  cases hact : act.run w.store with
  | mk result s =>
      have yields := hact ▸ calm w.store
      cases yields with
      | ok holds => exact ⟨_, _, rfl, holds⟩

/-- A machine that is calm calls no function that panics. -/
theorem Machine.Calm.not_panics (calm : m.Calm) {p : Panic} {s s' : σ} {below : List (Frame σ)} :
    ¬ m.Panics s p s' below := by
  -- What does not panic does not stop with a panic.
  have never : ∀ {α : Type} {Holds : α → Prop} {act : Act σ α},
      (∀ s, Yields Holds (act.run s)) → act.run s ≠ (.error p, s') := by
    intro α Holds act yields panics
    have given := panics ▸ yields s
    cases given
  rcases calm with ⟨focus, stack⟩
  intro panics
  cases panics with
  | thunk panics =>
      cases focus with
      | eval calm => cases calm with
        | exit calm => exact never calm panics
  | make panics =>
      cases focus with
      | eval calm => cases calm with
        | suspend calm => exact never calm panics
  | routine panics =>
      cases focus with
      | resume calm => exact never calm panics
  | next panics =>
      cases stack _ (List.mem_cons_self ..) with
      | flatMap calm => exact never (calm _) panics
  | onSuccess panics =>
      cases stack _ (List.mem_cons_self ..) with
      | fold success failure => exact never (success _ rfl _) panics
  | onFailure panics =>
      cases stack _ (List.mem_cons_self ..) with
      | fold success failure => exact never (failure _ rfl _) panics
  | handler panics =>
      cases stack _ (List.mem_cons_self ..) with
      | catchDefect calm => exact never (calm _) panics
  | test panics =>
      cases stack _ (List.mem_cons_self ..) with
      | recur inner tests => exact never (tests rfl _ rfl _) panics

/-- If a machine around others is calm, then so are they. -/
theorem Machine.Calm.inner {hosts : List (Host σ)} (calm : (inside hosts m).Calm) : m.Calm := by
  induction hosts with
  | nil => exact calm
  | cons host hosts ih =>
      cases calm.focus with
      | within _ focus above => exact ih ⟨focus, above⟩

theorem calm_applied {act : Act σ (Effect σ)} (yields : ∀ s, Yields Effect.Calm (act.run s))
    (below : ∀ frame ∈ stack, frame.Calm)
    (step : applied env stack (w.guarded act) = (.next m₁, w₁)) : m₁.Calm := by
  rcases World.guarded_yields yields w with ⟨e, w₂, given, calm⟩
  rw [given] at step
  cases step
  exact ⟨.eval calm, below⟩

theorem calm_paused {span : Duration} {focus : Focus σ} (calm : focus.Calm)
    (below : ∀ frame ∈ stack, frame.Calm)
    (step : paused settings span focus env stack w = (.next m₁, w₁)) : m₁.Calm := by
  unfold paused at step
  split at step
  · cases step
    exact ⟨calm, below⟩
  · split at step
    · cases step
      exact ⟨calm, below⟩
    · cases step

theorem calm_resumed {r : Act σ (Routine σ)} (yields : ∀ s, Yields Routine.Calm (r.run s))
    (below : ∀ frame ∈ stack, frame.Calm)
    (step : resumeStep r env stack w = (.next m₁, w₁)) : m₁.Calm := by
  -- A calm routine does not panic, and what it gives is calm again.
  rcases World.guarded_yields yields w with ⟨r, w₂, given, calm⟩
  unfold resumeStep at step
  rw [given] at step
  cases calm with
  | done =>
      cases step
      exact ⟨.unwind, below⟩
  | await inner calm =>
      cases step
      exact ⟨.within calm (.eval inner) nofun, below⟩
  | giveWay calm => cases step
  | sleep calm =>
      dsimp only at step
      split at step
      · cases step
        exact ⟨.resume calm, below⟩
      · cases step

/-- Evaluating a calm effect leads to a calm machine. -/
theorem calm_eval {e : Effect σ} (calm : e.Calm) (below : ∀ frame ∈ stack, frame.Calm)
    (step : evalStep settings e env stack w = (.next m₁, w₁)) : m₁.Calm := by
  rcases settings with ⟨mode, honor⟩
  -- What is pushed is made of calm parts, and what is called yields calm effects.
  cases calm with
  | exit yields =>
      rcases World.guarded_yields yields w with ⟨x, w₂, given, -⟩
      unfold evalStep at step
      dsimp only at step
      rw [given] at step
      cases step
      exact ⟨.unwind, below⟩
  | suspend yields => exact calm_applied yields below step
  | callback yields =>
      cases mode with
      | sync =>
          cases step
          exact ⟨.unwind, below⟩
      | async => cases step
  | promise yields =>
      cases mode with
      | sync =>
          cases step
          exact ⟨.unwind, below⟩
      | async =>
          cases step
          exact ⟨.resume yields, below⟩
  | flatMap inner yields =>
      cases step
      exact ⟨.eval inner, List.forall_mem_cons.2 ⟨.flatMap yields, below⟩⟩
  | fold inner success failure =>
      cases step
      exact ⟨.eval inner, List.forall_mem_cons.2 ⟨.fold success failure, below⟩⟩
  | catchDefect inner yields =>
      cases step
      exact ⟨.eval inner, List.forall_mem_cons.2 ⟨.catchDefect yields, below⟩⟩
  | recur inner tests =>
      cases step
      exact ⟨.eval inner, List.forall_mem_cons.2 ⟨.recur inner tests, below⟩⟩
  | service =>
      unfold evalStep at step
      dsimp only at step
      split at step
      all_goals
        cases step
        exact ⟨.unwind, below⟩
  | provide inner =>
      cases step
      exact ⟨.eval inner, List.forall_mem_cons.2 ⟨.restore, below⟩⟩
  | sleep => exact calm_paused .unwind below step
  | timeout inner =>
      cases mode with
      | sync =>
          cases step
          exact ⟨.unwind, below⟩
      | async => cases step
  | @all children collect parallel each =>
      have inOrder : (startAll children collect env stack).Calm := by
        cases children with
        | nil => exact ⟨.unwind, below⟩
        | cons first rest =>
            rcases List.forall_mem_cons.1 each with ⟨first, rest⟩
            exact ⟨.eval first, List.forall_mem_cons.2 ⟨.all rest, below⟩⟩
      cases mode <;> cases parallel <;> cases step <;> exact inOrder
  | @race children each =>
      have inOrder : (startRace children env stack).Calm := by
        cases children with
        | nil => exact ⟨.unwind, below⟩
        | cons first rest =>
            rcases List.forall_mem_cons.1 each with ⟨first, rest⟩
            exact ⟨.eval first, List.forall_mem_cons.2 ⟨.race rest, below⟩⟩
      cases mode <;> cases step
      exact inOrder
  | gen yields =>
      cases step
      exact ⟨.resume (yields env), below⟩
  | announce inner =>
      cases step
      exact ⟨.eval inner, below⟩

theorem calm_recurred {source : Effect σ} {schedule : Schedule} {state : ScheduleState}
    {mode : Recur} {filter : Option (Value → Act σ Bool)} {attempt : UInt32} {x : Outcome}
    (inner : source.Calm)
    (tests : mode = .retry → ∀ test, filter = some test →
      ∀ e s, Yields (fun _ => True) ((test e).run s))
    (below : ∀ frame ∈ stack, frame.Calm)
    (step : recurStep settings ⟨source, schedule, state, mode, filter, attempt⟩ x env stack w =
      (.next m₁, w₁)) : m₁.Calm := by
  -- Another attempt evaluates the source again under the same frame.
  unfold recurStep at step
  split at step
  · cases step
    exact ⟨.unwind, below⟩
  · cases step
    exact ⟨.unwind, below⟩
  · split at step
    · cases step
      exact ⟨.unwind, below⟩
    · exact calm_paused (.eval inner) (List.forall_mem_cons.2 ⟨.recur inner tests, below⟩) step

/-- Handing an outcome to a calm frame leads to a calm machine. -/
theorem calm_unwind {frame : Frame σ} {x : Outcome} (calm : frame.Calm)
    (below : ∀ frame ∈ stack, frame.Calm)
    (step : unwindStep settings frame x env stack w = (.next m₁, w₁)) : m₁.Calm := by
  -- A frame that is popped leaves a calm stack, and the one that calls something calls a calm part.
  cases calm with
  | flatMap yields =>
      cases x with
      | success v => exact calm_applied (yields v) below step
      | fail e | die d =>
          cases step
          exact ⟨.unwind, below⟩
  | @fold onSuccess onFailure success failure =>
      cases x with
      | success v =>
          cases onSuccess with
          | none =>
              cases onFailure <;> cases step <;> exact ⟨.unwind, below⟩
          | some next => exact calm_applied (success next rfl v) below step
      | fail e =>
          cases onFailure with
          | none =>
              cases onSuccess <;> cases step <;> exact ⟨.unwind, below⟩
          | some next =>
              cases onSuccess <;> exact calm_applied (failure next rfl e) below step
      | die d =>
          cases onSuccess <;> cases onFailure <;> cases step <;> exact ⟨.unwind, below⟩
  | catchDefect yields =>
      cases x with
      | die d => exact calm_applied (yields d) below step
      | success v | fail e =>
          cases step
          exact ⟨.unwind, below⟩
  | recur inner tests => exact calm_recurred inner tests below step
  | restore =>
      cases step
      exact ⟨.unwind, below⟩
  | @all rest collect ends each =>
      cases rest with
      | nil => cases x <;> cases collect <;> cases step <;> exact ⟨.unwind, below⟩
      | cons next rest =>
          rcases List.forall_mem_cons.1 each with ⟨next, rest⟩
          have goesOn := Focus.Calm.eval next
          cases x with
          | success v =>
              cases step
              exact ⟨goesOn, List.forall_mem_cons.2 ⟨.all rest, below⟩⟩
          | die d =>
              cases step
              exact ⟨.unwind, below⟩
          | fail e =>
              cases collect with
              | shortCircuit =>
                  cases step
                  exact ⟨.unwind, below⟩
              | every =>
                  cases step
                  exact ⟨goesOn, List.forall_mem_cons.2 ⟨.all rest, below⟩⟩
  | @race rest each =>
      cases rest with
      | nil => cases x <;> cases step <;> exact ⟨.unwind, below⟩
      | cons next rest =>
          rcases List.forall_mem_cons.1 each with ⟨next, rest⟩
          cases x with
          | fail e =>
              cases step
              exact ⟨.eval next, List.forall_mem_cons.2 ⟨.race rest, below⟩⟩
          | success v | die d =>
              cases step
              exact ⟨.unwind, below⟩

/-- A machine that is calm stays calm. -/
theorem Machine.Calm.step (calm : m.Calm) (step : m.step settings w = (.next m₁, w₁)) :
    m₁.Calm := by
  rcases m with ⟨focus, env, stack⟩
  rcases calm with ⟨calm, below⟩
  induction focus generalizing env stack m₁ with
  | eval e =>
      cases calm with
      | eval calm => exact calm_eval calm below step
  | resume r =>
      cases calm with
      | resume calm => exact calm_resumed calm below step
  | unwind x =>
      cases stack with
      | nil => cases step
      | cons frame stack =>
          rcases List.forall_mem_cons.1 below with ⟨first, below⟩
          exact calm_unwind first below step
  | within body inner env₁ stack₁ ih =>
      cases calm with
      | within yields focus above =>
          -- The machine inside takes the step, unless it has come to an outcome.
          have outer := step_within settings body env stack ⟨inner, env₁, stack₁⟩ w
          rcases taken : Machine.step settings ⟨inner, env₁, stack₁⟩ w with
            ⟨m₂ | x | ⟨request, point⟩, w₂⟩
          all_goals
            rw [taken] at outer
            cases outer.symm.trans step
          · have inside : m₂.Calm := ih env₁ stack₁ taken focus above
            exact ⟨.within yields inside.focus inside.stack, below⟩
          · exact ⟨.resume (yields x), below⟩

/-- In no run of a machine that is calm a function panics. -/
theorem Machine.Calm.steps {n : Nat} (calm : m.Calm) (run : Steps settings n m w m₁ w₁) :
    m₁.Calm := by
  induction run with
  | none => exact calm
  | more step _ ih => exact ih (calm.step step)

end Calm

/-- Panics become defects in their places. For every program there is one in which no function
    panics, neither any that is there nor any that the machine comes to call, and that is the same
    but for functions which give what dies by the defect where they would panic. Programs that
    differ so, at any places and any number of them, come to the same, above any frames and among
    any services, on the spot or in a fiber that others run beside. Wherever a function panics, the
    machine goes on from there as from an effect that dies, above the frames below and among the
    services that are there, and so does the fiber whose machine has asked for a handle. The defect
    passes all frames that let defects through and ends what is run above the rest, among the
    services which that was begun among; if a hatch is the first of the rest, its handler is given
    the defect there. Such a defect is a panic and has the message of the panic. -/
theorem panics_are_defects (σ : Type) :
    (∀ e : Effect σ, (taming σ).Likes e e.tamed ∧ e.tamed.Calm ∧
      ∀ settings env n w hosts m w',
        Steps settings n (Machine.start e.tamed env) w (inside hosts m) w' →
        ∀ p s below, ¬ m.Panics w'.store p s below) ∧
    (∀ {e e' : Effect σ}, (taming σ).Likes e e' →
      (∀ settings env k, SameEnds (e.EndsIn settings env k) (e'.EndsIn settings env k)) ∧
      (∀ settings env stack w, SameEnds (Machine.EndsOnSpot ⟨.eval e, env, stack⟩ settings w)
        (Machine.EndsOnSpot ⟨.eval e', env, stack⟩ settings w)) ∧
      ∀ settings observe id env stack k,
        SameEnds (Machine.EndsInFiber ⟨.eval e, env, stack⟩ settings observe id k)
          (Machine.EndsInFiber ⟨.eval e', env, stack⟩ settings observe id k)) ∧
    (∀ {m : Machine σ} {w : World σ} {p : Panic} {s : σ} {below : List (Frame σ)},
      m.Panics w.store p s below → ∀ settings hosts,
      (inside hosts m).step settings w =
        (.next (inside hosts ⟨.unwind (.die (.ofPanic p)), m.env, below⟩), w.panicked p s) ∧
      Steps settings 1 (inside hosts ⟨.eval (.die (.ofPanic p)), m.env, below⟩) (w.panicked p s)
        (inside hosts ⟨.unwind (.die (.ofPanic p)), m.env, below⟩) (w.panicked p s)) ∧
    (∀ {register : Handle → Act σ (List (Signal σ) × Option Panic)} {k : Kernel σ} {p : Panic}
      {s : σ}, ((register k.fresh).run k.world.store = (.error p, s) ∨
        ∃ signals, (register k.fresh).run k.world.store = (.ok (signals, some p), s)) →
      ∀ path point, (k.grant path (.listen register) point).1 =
        .ready (point.resume (.unwind (.die (.ofPanic p))))) ∧
    (∀ {settings : Settings} {outside : Outside σ} {source : Effect σ} {env : Context}
      {frames base : List (Frame σ)} {m : Machine σ} {w w₁ : World σ} {p : Panic} {s : σ},
      Leads settings outside base ⟨.eval source, env, base⟩ w m w₁ →
      m.Panics w₁.store p s (frames ++ base) → (∀ frame ∈ frames, frame.Passes) →
      Delivers settings outside base ⟨.eval source, env, base⟩ w (.die (.ofPanic p)) env
        (w₁.panicked p s) ∧
      ∀ handler outer, base = .catchDefect handler :: outer →
        Machine.step settings ⟨.unwind (.die (.ofPanic p)), env, base⟩ (w₁.panicked p s) =
          applied env outer ((w₁.panicked p s).guarded (handler (.ofPanic p)))) ∧
    ∀ p : Panic, (Defect.ofPanic p).kind = .panic ∧
      ∀ message, p.message? = some message → (Defect.ofPanic p).message = message := by
  have upheld := (sound_taming σ).upheld
  have refl := Exchange.reflexive (X := taming σ)
  refine ⟨fun e => ⟨e.likes_tamed, e.calm_tamed, ?_⟩, ?_, fun panics settings hosts =>
    ⟨step_inside hosts panics.step, (Steps.one rfl).inside hosts⟩,
    fun panics path point => Kernel.grant_panics panics,
    fun leads panics passes => ⟨panics.delivers passes leads, ?_⟩, fun p => ⟨rfl, ?_⟩⟩
  · intro settings env n w hosts m w' run p s below
    have begun : (Machine.start e.tamed env).Calm := ⟨.eval e.calm_tamed, nofun⟩
    exact (begun.steps run).inner.not_panics
  · intro e e' alike
    refine ⟨fun settings env k => ?_, fun settings env stack w => ?_,
      fun settings observe id env stack k => ?_⟩
    · exact (upheld.same_run refl ((refl.points ⟨[], env, []⟩).eval alike) settings k).iff_store
    · exact ((upheld.on settings).same_onSpot
        ((refl.points ⟨[], env, stack⟩).eval alike) w).iff_store
    · exact (upheld.same_inFiber refl
        ((refl.points ⟨[], env, stack⟩).eval alike) settings observe id
        k).iff_store
  · rintro handler outer rfl
    rfl
  · intro message given
    unfold Defect.ofPanic
    rw [given]
    rfl

namespace Sample

/-- Asks whether another attempt is worth it, and panics. -/
def askBrittly : Value → Act Nat Bool := fun _ => do
  Act.modify (· + 1)
  Act.stopWith "broken"

/-- Fails, and has a service that is not needed. -/
def brittle : Effect Nat :=
  ((Effect.fail .null).retryWhile (.recurs 3) askBrittly).provideService ⟨0, "clock"⟩ .null

/-- Goes on from a defect with its message. -/
def tellMessage : Defect → Act Nat (Effect Nat) := fun d =>
  pure (.succeed (.text d.message))

/-- The machine at which the test is asked. -/
def asking : Machine Nat :=
  ⟨.unwind (.fail .null), Context.empty.merge (Context.single ⟨0, "clock"⟩ .null),
    .recur ⟨.fail .null, .recurs 3, .recurs 3, .retry, some askBrittly, 1⟩ ::
      ([.restore Context.empty] ++ [.catchDefect tellMessage])⟩

end Sample

/-- A test panics inside a hatch, and a function that has been told a handle panics. -/
theorem sample_panics_are_defects :
    (∃ w, (Effect.catchDefect Sample.brittle Sample.tellMessage).tamed.EndsIn ⟨.sync, true⟩
      Context.empty (Kernel.start 0) (.success (.text "broken")) w ∧ w.store = 1 ∧ w.clock = 0) ∧
    Sample.asking.step ⟨.sync, true⟩ ⟨0, 0, #[]⟩ =
      (.next ⟨.unwind (.die (.ofPanic ⟨some "broken"⟩)), Sample.asking.env,
        [.restore Context.empty] ++ [.catchDefect Sample.tellMessage]⟩,
        World.panicked ⟨0, 0, #[]⟩ ⟨some "broken"⟩ 1) ∧
    ((Kernel.start 0).grant [0] (.listen fun _ => Act.stopWith "broken")
      ⟨[], Context.empty, []⟩).1 =
      .ready ⟨.unwind (.die (.ofPanic ⟨some "broken"⟩)), Context.empty, []⟩ ∧
    Delivers ⟨.sync, true⟩ .nobody [.catchDefect Sample.tellMessage]
      ⟨.eval Sample.brittle, Context.empty, [.catchDefect Sample.tellMessage]⟩ ⟨0, 0, #[]⟩
      (.die (.ofPanic ⟨some "broken"⟩)) Context.empty
      (World.panicked ⟨0, 0, #[]⟩ ⟨some "broken"⟩ 1) ∧
    Machine.step ⟨.sync, true⟩ ⟨.unwind (.die (.ofPanic ⟨some "broken"⟩)), Context.empty,
        [.catchDefect Sample.tellMessage]⟩ (World.panicked ⟨0, 0, #[]⟩ ⟨some "broken"⟩ 1) =
      (.next ⟨.eval (.succeed (.text "broken")), Context.empty, []⟩,
        World.panicked ⟨0, 0, #[]⟩ ⟨some "broken"⟩ 1) := by
  rcases panics_are_defects Nat with ⟨tame, same, places, registrations, below, -⟩
  have panics : Sample.asking.Panics 0 ⟨some "broken"⟩ 1
      ([.restore Context.empty] ++ [.catchDefect Sample.tellMessage]) := .test rfl
  have leads : Leads ⟨.sync, true⟩ .nobody [.catchDefect Sample.tellMessage]
      ⟨.eval Sample.brittle, Context.empty, [.catchDefect Sample.tellMessage]⟩ ⟨0, 0, #[]⟩
      Sample.asking ⟨0, 0, #[]⟩ :=
    .onward not_handing_eval (.next rfl) (.onward not_handing_eval (.next rfl)
      (.onward not_handing_eval (.next rfl) .here))
  have passes : ∀ frame ∈ [(.restore Context.empty : Frame Nat)], frame.Passes :=
    List.forall_mem_singleton.2 trivial
  refine ⟨?_, (places (w := ⟨0, 0, #[]⟩) panics _ []).1, registrations (.inl rfl) _ _,
    (below leads panics passes).1, (below leads panics passes).2 _ _ rfl⟩
  have alike := (tame (.catchDefect Sample.brittle Sample.tellMessage)).1
  exact ((same alike).1 ⟨.sync, true⟩ Context.empty (Kernel.start 0) _ _ _).1
    ⟨_, ⟨20, rfl⟩, rfl, rfl⟩

end EffectKernel
