import EffectKernel.Effect.Again
import EffectKernel.Proofs.Likeness.Exchange

/-!
# Tame Programs

For every program there is one that does the same and has no function that panics. Where a function
was to give an effect it gives one that dies (`Effect.tamed`). A routine ends so, and a function
that has been told a handle uses it to end so whatever waits there. Only the function that tests
failures for whether they are worth another attempt has no way to say this, since it can but say
yes or no. So its question is asked before, where the source fails: by a handler, which marks the
failure with the answer, or dies. What is tested then is the mark.

That the tame program does the same is an exchange (`Exchange`) in which panics are exchanged for
deaths everywhere. Where failures are tested, frames are exchanged in addition, for while the
source is run there are three of them in the place of one.

## Main definitions

* `Effect.recurTamed`: A source that is run again, where no test panics.
* `Effect.tamed`: The effect that dies where a function of it would panic.
* `taming`: Programs are exchanged for others that die where they panic.

## Theorems

* `sound_taming`: The exchange cannot be seen.
* `Effect.likes_tamed`: The tame program is such an exchange.
-/

namespace EffectKernel

open Machine

variable {σ : Type}

/-- The function that does not panic, but gives something instead. -/
def Act.orElse {α : Type} (act : Act σ α) (instead : Panic → α) : Act σ α := do
  match ← act.attempt with
  | .ok a => return a
  | .error p => return instead p

theorem Act.run_orElse {α : Type} (act : Act σ α) (instead : Panic → α) (s : σ) :
    (act.orElse instead).run s =
      match act.run s with
      | (.ok a, s) => (.ok a, s)
      | (.error p, s) => (.ok (instead p), s) := by
  obtain ⟨run⟩ := act
  simp only [Act.orElse, Act.attempt, Act.run_bind]
  rcases run s with ⟨_ | _, _⟩ <;> rfl

/-! ### Tests -/

/-- A failure together with whether another attempt is worth it. -/
def mark (again : Bool) (e : Value) : Value :=
  Outcome.ofEither (if again then .right e else .left e)

/-- What the mark of a failure says. -/
def isMarked (v : Value) : Bool :=
  match Outcome.toEither? v with
  | some (.right _) => true
  | _ => false

/-- A failure without its mark. -/
def unmarked (v : Value) : Value :=
  match Outcome.toEither? v with
  | some (.right e) => e
  | some (.left e) => e
  | none => v

@[simp] theorem unmarked_mark (again : Bool) (e : Value) : unmarked (mark again e) = e := by
  cases again <;> rfl

/-- How a failure ends that has been tested, if the test has not panicked. -/
def verdict (e : Value) : Except Panic Bool → Outcome
  | .ok again => .fail (mark again e)
  | .error p => .die (.ofPanic p)

/-- The handler that asks whether another attempt is worth it. -/
def judge (test : Value → Act σ Bool) (e : Value) : Act σ (Effect σ) := do
  return .exit (pure (verdict e (← (test e).attempt)))

theorem run_judge {test : Value → Act σ Bool} {e : Value} {result : Except Panic Bool} {s s' : σ}
    (tested : (test e).run s = (result, s')) :
    (judge test e).run s = (.ok (.exit (pure (verdict e result))), s') := by
  simp only [judge, Act.attempt, Act.run_bind, tested, Act.run_pure]

/-- A source whose failures are marked. -/
def Effect.judged (source : Effect σ) (test : Value → Act σ Bool) : Effect σ :=
  source.catchAll (judge test)

/-- A source that is run again after failures with the mark, which are then without it. -/
def Effect.retryMarked (source : Effect σ) (schedule : Schedule) : Effect σ :=
  (source.retryWhile schedule fun v => pure (isMarked v)).catchAll fun v =>
    pure (.fail (unmarked v))

/-- A source that is run again, where no test panics. -/
def Effect.recurTamed (source : Effect σ) (schedule : Schedule) :
    Recur → Option (Value → Act σ Bool) → Effect σ
  | .retry, some test => (source.judged test).retryMarked schedule
  | mode, filter => .recur source schedule mode filter

/-! ### Tame programs -/

mutual
/-- The effect that dies where a function of it would panic. -/
def Effect.tamed : Effect σ → Effect σ
  | .exit thunk => .exit (thunk.orElse fun p => .die (.ofPanic p))
  | .suspend make => .suspend make.tamed
  | .callback register => .callback fun handle => (register handle).tamedRegistration handle
  | .promise start => .promise start.tamedRoutine
  | .flatMap source next => .flatMap source.tamed fun v => (next v).tamed
  | .fold source onSuccess onFailure =>
    .fold source.tamed (Effect.tamedHandler onSuccess) (Effect.tamedHandler onFailure)
  | .catchDefect source handler => .catchDefect source.tamed fun d => (handler d).tamed
  | .recur source schedule mode filter => source.tamed.recurTamed schedule mode filter
  | .service key => .service key
  | .provide source services => .provide source.tamed services
  | .sleep span => .sleep span
  | .timeout source limit => .timeout source.tamed limit
  | .all children collect parallel => .all (Effect.tamedEach children) collect parallel
  | .race children => .race (Effect.tamedEach children)
  | .gen body => .gen fun env => (body env).tamedRoutine
  | .announce event next => .announce event next.tamed

def Effect.tamedEach : List (Effect σ) → List (Effect σ)
  | [] => []
  | e :: rest => e.tamed :: Effect.tamedEach rest

def Effect.tamedHandler :
    Option (Value → Act σ (Effect σ)) → Option (Value → Act σ (Effect σ))
  | none => none
  | some next => some fun v => (next v).tamed

/-- The function that gives an effect that dies instead of panicking. -/
def Act.tamed : Act σ (Effect σ) → Act σ (Effect σ)
  | ⟨run⟩ => ⟨fun s => Act.tamedResult (run s)⟩

def Act.tamedResult : Except Panic (Effect σ) × σ → Except Panic (Effect σ) × σ
  | (.ok e, s) => (.ok e.tamed, s)
  | (.error p, s) => (.ok (.die (.ofPanic p)), s)

def Routine.tamed : Routine σ → Routine σ
  | .done x => .done x
  | .await e env next => .await e.tamed env fun x => (next x).tamedRoutine
  | .giveWay next => .giveWay next.tamedRoutine
  | .sleep millis next => .sleep millis next.tamedRoutine

/-- The function that gives a routine that dies instead of panicking. -/
def Act.tamedRoutine : Act σ (Routine σ) → Act σ (Routine σ)
  | ⟨run⟩ => ⟨fun s => Act.tamedRoutineResult (run s)⟩

def Act.tamedRoutineResult : Except Panic (Routine σ) × σ → Except Panic (Routine σ) × σ
  | (.ok r, s) => (.ok r.tamed, s)
  | (.error p, s) => (.ok (.done (.die (.ofPanic p))), s)

/-- The function that uses the handle for a death instead of panicking. -/
def Act.tamedRegistration (handle : Handle) :
    Act σ (List (Signal σ) × Option Panic) → Act σ (List (Signal σ) × Option Panic)
  | ⟨run⟩ => ⟨fun s => Act.tamedRegistrationResult handle (run s)⟩

def Act.tamedRegistrationResult (handle : Handle) :
    Except Panic (List (Signal σ) × Option Panic) × σ →
      Except Panic (List (Signal σ) × Option Panic) × σ
  | (.ok (signals, none), s) => (.ok (Signal.tamedEach signals, none), s)
  | (.ok (signals, some p), s) =>
    (.ok (.complete handle (.die (.ofPanic p)) :: Signal.tamedEach signals, none), s)
  | (.error p, s) => (.ok ([.complete handle (.die (.ofPanic p))], none), s)

def Signal.tamed : Signal σ → Signal σ
  | .complete handle x => .complete handle x
  | .resume handle e => .resume handle e.tamed
  | .release handle => .release handle
  | .later millis handle act => .later millis handle act.tamedSignals

def Signal.tamedEach : List (Signal σ) → List (Signal σ)
  | [] => []
  | signal :: rest => signal.tamed :: Signal.tamedEach rest

/-- What the holder of a handle does later, with tame effects. -/
def Act.tamedSignals : Act σ (List (Signal σ)) → Act σ (List (Signal σ))
  | ⟨run⟩ => ⟨fun s => Act.tamedSignalsResult (run s)⟩

def Act.tamedSignalsResult :
    Except Panic (List (Signal σ)) × σ → Except Panic (List (Signal σ)) × σ
  | (.ok signals, s) => (.ok (Signal.tamedEach signals), s)
  | (.error p, s) => (.error p, s)
end

/-! ### The exchange -/

/-- Failures are tested at the source, and not where it is run again. -/
inductive Retries (Parts : Effect σ → Effect σ → Prop) : Effect σ → Effect σ → Prop where
  | mk {source source' schedule test} (part : Parts source source') :
      Retries Parts (.recur source schedule .retry (some test))
        ((source'.judged test).retryMarked schedule)

/-- The frames below a source whose failures are marked. -/
def markedFrames (source : Effect σ) (schedule : Schedule) (state : ScheduleState)
    (attempt : UInt32) : List (Frame σ) :=
  [.recur ⟨source, schedule, state, .retry, some fun v => pure (isMarked v), attempt⟩,
    .fold none (some fun v => pure (.fail (unmarked v)))]

/-- The frames while the source is run. -/
inductive Retrying (Parts : Effect σ → Effect σ → Prop) :
    Context → List (Frame σ) → List (Frame σ) → Prop where
  | mk {env source source' schedule state test attempt} (part : Parts source source') :
      Retrying Parts env [.recur ⟨source, schedule, state, .retry, some test, attempt⟩]
        (.fold none (some (judge test)) ::
          markedFrames (source'.judged test) schedule state attempt)

/-- Programs are exchanged for others that die where they panic. -/
def taming (σ : Type) : Exchange σ where
  exact := False
  tame := True
  effects := Retries
  frames := Retrying

section Sound

variable {settings : Settings} {env : Context} {stack stack' : List (Frame σ)} {w w' : World σ}
  {source source' : Effect σ} {schedule : Schedule} {state : ScheduleState} {attempt : UInt32}
  {test : Value → Act σ Bool} {e : Value}

/-- What is not a failure is let through. -/
theorem steps_through {x : Outcome} (through : ∀ e, x ≠ .fail e) :
    Steps settings 3
      ⟨.unwind x, env, .fold none (some (judge test)) ::
        markedFrames source schedule state attempt ++ stack⟩ w ⟨.unwind x, env, stack⟩ w := by
  cases x with
  | success v => exact .more rfl (.more rfl (.one rfl))
  | fail e => exact absurd rfl (through e)
  | die d => exact .more rfl (.more rfl (.one rfl))

/-- In the end, the mark is taken off. -/
theorem steps_unmark (again : Bool) :
    Steps settings 2
      ⟨.unwind (.fail (mark again e)), env,
        .fold none (some fun v => pure (.fail (unmarked v))) :: stack⟩ w
      ⟨.unwind (.fail e), env, stack⟩ w := by
  have unmark : Machine.step settings
      ⟨.unwind (.fail (mark again e)), env,
        .fold none (some fun v => pure (.fail (unmarked v))) :: stack⟩ w =
      (.next ⟨.eval (.fail (unmarked (mark again e))), env, stack⟩, w) := rfl
  rw [unmarked_mark] at unmark
  exact .more unmark (.one rfl)

/-- A failure is tested where it comes from. -/
theorem steps_judge (settings : Settings) (env : Context) (stack : List (Frame σ))
    {result : Except Panic Bool} {s : σ} (tested : (test e).run w.store = (result, s)) :
    Steps settings 2 ⟨.unwind (.fail e), env, .fold none (some (judge test)) :: stack⟩ w
      ⟨.unwind (verdict e result), env, stack⟩ { w with store := s } := by
  have judged : Machine.step settings
      ⟨.unwind (.fail e), env, .fold none (some (judge test)) :: stack⟩ w =
    applied env stack (w.guarded (judge test e)) := rfl
  unfold World.guarded at judged
  rw [run_judge tested] at judged
  exact .more judged (.one rfl)

/-- A failure that is not worth another attempt is let through. -/
theorem step_unworthy :
    Machine.step settings
      ⟨.unwind (.fail (mark false e)), env, markedFrames source schedule state attempt ++ stack⟩ w =
      (.next ⟨.unwind (.fail (mark false e)), env,
        .fold none (some fun v => pure (.fail (unmarked v))) :: stack⟩, w) := rfl

/-- After one that is, the schedule decides. -/
theorem step_worthy (settings : Settings) (source : Effect σ) (schedule : Schedule)
    (state : ScheduleState) (attempt : UInt32) (e : Value) (env : Context)
    (stack : List (Frame σ)) (w : World σ) :
    Machine.step settings
      ⟨.unwind (.fail (mark true e)), env, markedFrames source schedule state attempt ++ stack⟩ w =
      match schedule.step state with
      | .stop =>
        (.next ⟨.unwind (.fail (mark true e)), env,
          .fold none (some fun v => pure (.fail (unmarked v))) :: stack⟩,
          w.report (.scheduleExhausted attempt))
      | .again delay state =>
        paused settings delay (.eval source) env
          (markedFrames source schedule state (saturatingSucc attempt) ++ stack)
          (w.report (.retrying attempt delay)) := rfl

/-- A failure is handed to the test, and to the handler that has taken its place. -/
theorem meets_failure (alike : (taming σ).Likes source source')
    (below : (taming σ).Stacks env stack stack') (worlds : (taming σ).likeness.Worlds w w') :
    (taming σ).likeness.Meets settings
      ⟨.unwind (.fail e), env,
        .recur ⟨source, schedule, state, .retry, some test, attempt⟩ :: stack⟩ w
      ⟨.unwind (.fail e), env, .fold none (some (judge test)) ::
        markedFrames (source'.judged test) schedule state attempt ++ stack'⟩ w' := by
  have left : Machine.step settings
      ⟨.unwind (.fail e), env,
        .recur ⟨source, schedule, state, .retry, some test, attempt⟩ :: stack⟩ w =
    recurStep settings ⟨source, schedule, state, .retry, some test, attempt⟩ (.fail e) env stack
      w := rfl
  unfold recurStep wantsAgain World.guarded at left
  dsimp only at left
  obtain ⟨result, s, tested⟩ : ∃ result s, (test e).run w.store = (result, s) := ⟨_, _, rfl⟩
  rw [tested] at left
  rw [worlds.store] at tested
  have judged := steps_judge settings env
    (markedFrames (source'.judged test) schedule state attempt ++ stack') tested
  cases result with
  | error p =>
      -- The panic is reported. The handler dies silently, with two more frames to pass.
      exact .ahead (.one left) Nat.one_pos (judged.trans (.more rfl (.one rfl))) (Nat.succ_pos 3)
        (.mk .unwind below) ((worlds.stored s).reportLeft id _)
  | ok again =>
      refine Likeness.Meets.after ?_ .none judged
      cases again with
      | false =>
          exact .ahead (.one left) Nat.one_pos (.more step_unworthy (steps_unmark false))
            (Nat.succ_pos 2) (.mk .unwind below) (worlds.stored s)
      | true =>
          have right := step_worthy settings (source'.judged test) schedule state attempt e env
            stack' { w' with store := s }
          dsimp only at left
          cases decision : schedule.step state with
          | stop =>
              rw [decision] at left right
              exact .ahead (.one left) Nat.one_pos (.more right (steps_unmark true))
                (Nat.succ_pos 2) (.mk .unwind below) ((worlds.stored s).report _)
          | again delay state =>
              rw [decision] at left right
              -- A wait may come before the source is run again, and at that point the other
              -- machine still has to put the handler in place.
              have again : (taming σ).Machines
                  ⟨.eval source, env, .recur ⟨source, schedule, state, .retry, some test,
                    saturatingSucc attempt⟩ :: stack⟩
                  ⟨.eval (source'.judged test), env, markedFrames (source'.judged test) schedule
                    state (saturatingSucc attempt) ++ stack'⟩ :=
                .behind (fun _ _ => .one rfl) (.mk (.eval alike)
                  (.rule (Retrying.mk alike) (fun _ _ h => h) below))
              exact Exchange.meets_paused left right again ((worlds.stored s).report _)

end Sound

/-- Nothing can be seen where programs are exchanged for others that die where they panic. -/
theorem sound_taming (σ : Type) : (taming σ).Sound where
  inexact _ exact := exact
  effects settings := by
    rintro env stack stack' w w' ⟨part⟩ parts - below worlds
    exact .ahead (.one rfl) Nat.one_pos (.more rfl (.more rfl (.one rfl))) (Nat.succ_pos 2)
      (.mk (.eval (parts _ _ part)) (.rule (Retrying.mk part) parts below)) worlds
  frames settings := by
    rintro env stack stack' ⟨part⟩ parts below _ x w w' worlds
    -- Only a failure is tested; anything else passes the frames on both sides, on the right through
    -- one more.
    cases x with
    | success v =>
        exact .ahead (.one rfl) Nat.one_pos (steps_through nofun) (Nat.succ_pos 2)
          (.mk .unwind below) worlds
    | die d =>
        exact .ahead (.one rfl) Nat.one_pos (steps_through nofun) (Nat.succ_pos 2)
          (.mk .unwind below) worlds
    | fail e => exact meets_failure (parts _ _ part) below worlds
  bodies _ := nofun

/-! ### The tame program -/

/-- A death in the place of a panic. -/
theorem gives_orElse (thunk : Act σ Outcome) (s : σ) :
    Gives Eq (taming σ).Dying (thunk.run s)
      ((thunk.orElse fun p => .die (.ofPanic p)).run s) := by
  rw [Act.run_orElse]
  rcases thunk.run s with ⟨p | x, s⟩
  · exact .death ⟨trivial, rfl⟩
  · exact .ok rfl

theorem likes_recurTamed {source source' : Effect σ} (alike : (taming σ).Likes source source')
    (schedule : Schedule) (mode : Recur) (filter : Option (Value → Act σ Bool)) :
    (taming σ).Likes (.recur source schedule mode filter)
      (source'.recurTamed schedule mode filter) := by
  rcases mode with _ | _ <;> rcases filter with _ | test
  · exact .recur alike
  · exact .rule (Retries.mk alike) fun _ _ h => h
  · exact .recur alike
  · exact .recur alike

mutual
/-- A program and the tame one. -/
theorem Effect.likes_tamed : (e : Effect σ) → (taming σ).Likes e e.tamed
  | .exit thunk => .exit (gives_orElse thunk)
  | .suspend make => .suspend (gives_tamed make)
  | .callback register => .callback fun handle => registered_tamed handle (register handle)
  | .promise start => .promise (gives_tamedRoutine start)
  | .flatMap source next => .flatMap source.likes_tamed fun v => gives_tamed (next v)
  | .fold source onSuccess onFailure =>
      .fold source.likes_tamed (gives_tamedHandler onSuccess) (gives_tamedHandler onFailure)
  | .catchDefect source handler =>
      .catchDefect source.likes_tamed fun d => gives_tamed (handler d)
  | .recur source schedule mode filter =>
      likes_recurTamed source.likes_tamed schedule mode filter
  | .service _ => .service
  | .provide source _ => .provide source.likes_tamed
  | .sleep _ => .sleep
  | .timeout source _ => .timeout source.likes_tamed
  | .all children _ _ => .all (likes_tamedEach children)
  | .race children => .race (likes_tamedEach children)
  | .gen body => .gen fun env => gives_tamedRoutine (body env)
  | .announce _ next => .announce next.likes_tamed

theorem likes_tamedEach : (children : List (Effect σ)) →
    List.Forall₂ (taming σ).Likes children (Effect.tamedEach children)
  | [] => .nil
  | e :: rest => .cons e.likes_tamed (likes_tamedEach rest)

theorem gives_tamedHandler : (handler : Option (Value → Act σ (Effect σ))) →
    Option.Rel (fun next next' => ∀ v s,
      Gives (taming σ).Likes (taming σ).DyingEffect ((next v).run s) ((next' v).run s))
      handler (Effect.tamedHandler handler)
  | none => .none
  | some next => .some fun v => gives_tamed (next v)

theorem gives_tamed : (act : Act σ (Effect σ)) → ∀ s,
    Gives (taming σ).Likes (taming σ).DyingEffect (act.run s) (act.tamed.run s)
  | ⟨run⟩, s => gives_tamedResult (run s)

theorem gives_tamedResult : (r : Except Panic (Effect σ) × σ) →
    Gives (taming σ).Likes (taming σ).DyingEffect r (Act.tamedResult r)
  | (.ok e, _) => .ok e.likes_tamed
  | (.error _, _) => .death ⟨trivial, rfl⟩

theorem likes_tamedRoutine : (r : Routine σ) → (taming σ).LikesRoutine r r.tamed
  | .done _ => .done
  | .await e _ next => .await e.likes_tamed fun x => gives_tamedRoutine (next x)
  | .giveWay next => .giveWay (gives_tamedRoutine next)
  | .sleep _ next => .sleep (gives_tamedRoutine next)

theorem gives_tamedRoutine : (act : Act σ (Routine σ)) → ∀ s,
    Gives (taming σ).LikesRoutine (taming σ).DyingRoutine (act.run s) (act.tamedRoutine.run s)
  | ⟨run⟩, s => gives_tamedRoutineResult (run s)

theorem gives_tamedRoutineResult : (r : Except Panic (Routine σ) × σ) →
    Gives (taming σ).LikesRoutine (taming σ).DyingRoutine r (Act.tamedRoutineResult r)
  | (.ok r, _) => .ok (likes_tamedRoutine r)
  | (.error _, _) => .death ⟨trivial, rfl⟩

theorem registered_tamed (handle : Handle) :
    (act : Act σ (List (Signal σ) × Option Panic)) → ∀ s,
      Registered False (taming σ).Likes (act.run s) ((act.tamedRegistration handle).run s) handle
  | ⟨run⟩, s => registered_tamedResult handle (run s)

theorem registered_tamedResult (handle : Handle) :
    (r : Except Panic (List (Signal σ) × Option Panic) × σ) →
      Registered False (taming σ).Likes r (Act.tamedRegistrationResult handle r) handle
  | (.ok (signals, none), _) => .same (alike_tamedEach signals)
  | (.ok (signals, some _), _) => .fatal id (alike_tamedEach signals) (.later rfl) .used
  | (.error _, _) => .fatal id .nil (.atOnce rfl) .used

theorem alike_tamed : (signal : Signal σ) →
    Signal.Alike (taming σ).Likes signal signal.tamed
  | .complete _ _ => .complete
  | .resume _ e => .resume e.likes_tamed
  | .release _ => .release
  | .later _ _ act => .later (gives_tamedSignals act)

theorem alike_tamedEach : (signals : List (Signal σ)) →
    List.Forall₂ (Signal.Alike (taming σ).Likes) signals (Signal.tamedEach signals)
  | [] => .nil
  | signal :: rest => .cons (alike_tamed signal) (alike_tamedEach rest)

theorem gives_tamedSignals : (act : Act σ (List (Signal σ))) → ∀ s,
    Gives (List.Forall₂ (Signal.Alike (taming σ).Likes)) (fun _ _ => False) (act.run s)
      (act.tamedSignals.run s)
  | ⟨run⟩, s => gives_tamedSignalsResult (run s)

theorem gives_tamedSignalsResult : (r : Except Panic (List (Signal σ)) × σ) →
    Gives (List.Forall₂ (Signal.Alike (taming σ).Likes)) (fun _ _ => False) r
      (Act.tamedSignalsResult r)
  | (.ok signals, _) => .ok (alike_tamedEach signals)
  | (.error _, _) => .error
end

end EffectKernel
