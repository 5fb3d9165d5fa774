import EffectKernel.Proofs.ProgramClasses

/-!
# Plain Programs

Programs that a fiber runs as a run on the spot does. A plain program hears nothing from
outside and has no limits of time: there are no callbacks, promises or timeouts in it, and
its routines do nothing but run effects. Effects may stand side by side in it, if none of
them would ever be made to wait; for then each of them has its turn and ends before the
next one begins.

Being plain is said of a description as a whole, and so also of whatever its functions may
make. It is kept by the steps of the machine, since every effect that comes into focus
comes from the description (`step_plain`).

What a plain machine asks for in a fiber is little. It may ask for time, where a run on the
spot lets the clock go on, or for effects side by side, where a run on the spot begins with
the first of them; and otherwise it takes the same step (`step_fiber`).

## Main definitions

* `Effect.NeverPauses`: A fiber that runs the effect is never made to wait.
* `Effect.Plain`, `Routine.Plain`: Plain programs.
* `ProgramClass.plain`, `Machine.Plain`: They are a class of programs, and are run as such.
* `Machine.Resembles`: A step in a fiber, by what is done on the spot.

## Theorems

* `step_plain`: A plain machine goes on as a plain machine, unless it has ended.
* `step_fiber`: What a plain machine does in a fiber.
-/

namespace EffectKernel

variable {σ : Type}

/-- A fiber that runs the effect is never made to wait: wherever a run of it on the spot
    comes to, no time is asked for there. -/
def Effect.NeverPauses (e : Effect σ) : Prop :=
  ∀ {env w n m w'}, Machine.Steps ⟨.sync, true⟩ n (Machine.start e env) w m w' →
    ∀ {span focus point w''}, m.step ⟨.async, true⟩ w' ≠ (.ask (.pause span focus) point, w'')

/-- An effect that ends at once is never made to wait. -/
theorem Effect.neverPauses_exit (thunk : Act σ Outcome) :
    (Effect.exit thunk : Effect σ).NeverPauses := by
  have first : ∀ {settings env w}, ∃ x w', (Machine.start (.exit thunk) env).step settings w =
      (.next ⟨.unwind x, env, []⟩, w') := by
    intro settings env w
    rcases hcall : w.guarded thunk with ⟨d | x, w'⟩
    · exact ⟨.die d, w', by
        simp only [Machine.start, Machine.step, Machine.stepAt, Machine.evalStep, hcall]⟩
    · exact ⟨x, w', by
        simp only [Machine.start, Machine.step, Machine.stepAt, Machine.evalStep, hcall]⟩
  intro env w n m w' run span focus point w'' pause
  cases run with
  | none =>
      rcases first with ⟨x, w₁, hstep⟩
      cases hstep.symm.trans pause
  | more step rest =>
      -- After the first step there is an outcome that nobody is left to take.
      rcases first with ⟨x, w₁, hstep⟩
      cases hstep.symm.trans step
      rcases rest.eq_zero_of_final with ⟨-, rfl, rfl⟩
      cases pause

mutual
/-- An effect that hears nothing from outside and knows no limits of time, and in which
    effects stand side by side only where they are never made to wait. -/
inductive Effect.Plain {σ : Type} : Effect σ → Prop where
  | exit {thunk} : Effect.Plain (.exit thunk)
  | suspend {make} (made : make.Gives Effect.Plain) : Effect.Plain (.suspend make)
  | flatMap {source next} (first : source.Plain) (then' : ∀ v, (next v).Gives Effect.Plain) :
      Effect.Plain (.flatMap source next)
  | fold {source onSuccess onFailure} (first : source.Plain)
      (success : ∀ f ∈ onSuccess, ∀ v, (f v).Gives Effect.Plain)
      (failure : ∀ f ∈ onFailure, ∀ e, (f e).Gives Effect.Plain) :
      Effect.Plain (.fold source onSuccess onFailure)
  | catchDefect {source handler} (first : source.Plain)
      (caught : ∀ d, (handler d).Gives Effect.Plain) :
      Effect.Plain (.catchDefect source handler)
  | recur {source schedule mode filter} (first : source.Plain) :
      Effect.Plain (.recur source schedule mode filter)
  | service {key} : Effect.Plain (.service key)
  | provide {source services} (body : source.Plain) : Effect.Plain (.provide source services)
  | sleep {span} : Effect.Plain (.sleep span)
  | all {children collect} (each : ∀ e ∈ children, e.Plain) :
      Effect.Plain (.all children collect false)
  | allPar {children collect} (each : ∀ e ∈ children, e.Plain)
      (still : ∀ e ∈ children, e.NeverPauses) : Effect.Plain (.all children collect true)
  | race {children} (each : ∀ e ∈ children, e.Plain)
      (still : ∀ e ∈ children, e.NeverPauses) : Effect.Plain (.race children)
  | gen {body} (run : ∀ env, (body env).Gives Routine.Plain) : Effect.Plain (.gen body)
  | announce {event next} (goOn : next.Plain) : Effect.Plain (.announce event next)

/-- A routine that does nothing but run plain effects. -/
inductive Routine.Plain {σ : Type} : Routine σ → Prop where
  | done {x} : Routine.Plain (.done x)
  | await {e env next} (run : e.Plain) (goOn : ∀ x, (next x).Gives Routine.Plain) :
      Routine.Plain (.await e env next)
end

/-- Plain programs are a class of programs. -/
def ProgramClass.plain (σ : Type) : ProgramClass σ where
  effects := Effect.Plain
  routines := Routine.Plain
  suspend := fun | .suspend made => made
  flatMap := fun | .flatMap first then' => ⟨first, then'⟩
  fold := fun | .fold first success failure => ⟨first, success, failure⟩
  catchDefect := fun | .catchDefect first caught => ⟨first, caught⟩
  recur := fun | .recur first => first
  provide := fun | .provide body => body
  all := fun | .all each | .allPar each _ => each
  race := fun | .race each _ => each
  gen := fun | .gen run => run
  announce := fun | .announce goOn => goOn
  await := fun | .await run goOn => ⟨run, goOn⟩
  giveWay := nofun
  sleep := nofun

namespace Machine

/-- A plain effect that is being run: what the machine looks at is plain, and so is everything
    around it. -/
abbrev Plain (m : Machine σ) : Prop :=
  m.Of (.plain σ)

theorem plain_start {e : Effect σ} (he : e.Plain) (env : Context) : (start e env).Plain :=
  of_start (K := .plain σ) he env

/-- A plain machine on the spot goes on as a plain machine, unless nobody is left to take
    its outcome. -/
theorem step_plain {m : Machine σ} (plain : m.Plain) (h : Bool) (w : World σ) :
    (∃ m' w', m.step ⟨.sync, h⟩ w = (.next m', w') ∧ m'.Plain) ∨
      ∃ x env, m = ⟨.unwind x, env, []⟩ :=
  step_of plain h w

/-- A step in a fiber, by what is done on the spot. -/
inductive Resembles (h : Bool) (m : Machine σ) (w : World σ) : Step σ × World σ → Prop where
  /-- It is the same step. -/
  | same : Resembles h m w (m.step ⟨.sync, h⟩ w)
  /-- Time is asked for, where the clock goes on. -/
  | pause {span focus point w' v} (honored : h = true) (long : span.isZero = false)
      (spot : m.step ⟨.sync, h⟩ w = (.next (point.resume focus), v)) (same : v.Agree w') :
      Resembles h m w (.ask (.pause span focus) point, w')
  /-- All of some effects are to run side by side, where the first of them begins. -/
  | gather {children collect point} (each : ∀ e ∈ children, e.Plain ∧ e.NeverPauses)
      (plain : ∀ x, (point.resume (.unwind x)).Plain)
      (spot : m.step ⟨.sync, h⟩ w =
        (.next (inside point.hosts (startAll children collect point.env point.stack)), w)) :
      Resembles h m w (.ask (.gather children collect) point, w)
  /-- Effects are to be tried side by side, where the first of them begins. -/
  | compete {children point} (each : ∀ e ∈ children, e.Plain ∧ e.NeverPauses)
      (plain : ∀ x, (point.resume (.unwind x)).Plain)
      (spot : m.step ⟨.sync, h⟩ w =
        (.next (inside point.hosts (startRace children point.env point.stack)), w)) :
      Resembles h m w (.ask (.compete children) point, w)

section InFiber

variable {h : Bool} {env : Context} {stack : List (Frame σ)} {w : World σ}

theorem resembles_spot {m : Machine σ} {p : Step σ × World σ}
    (spot : m.step ⟨.sync, h⟩ w = p) : Resembles h m w p := by
  rw [← spot]
  exact .same

/-- A machine that is about to pause. -/
theorem resembles_paused {m : Machine σ} {span : Duration} {focus : Focus σ} {v : World σ}
    (spot : m.step ⟨.sync, h⟩ w = paused ⟨.sync, h⟩ span focus env stack v) :
    Resembles h m w (paused ⟨.async, h⟩ span focus env stack v) := by
  unfold paused at spot ⊢
  by_cases hfree : (span.isZero || !h) = true
  · -- Nothing is waited for, so both go on at once.
    simp only [hfree, if_true] at spot ⊢
    exact resembles_spot spot
  · simp only [hfree] at spot ⊢
    rcases Bool.or_eq_false_iff.1 (Bool.eq_false_iff.2 hfree) with ⟨hlong, honored⟩
    have goesOn : m.step ⟨.sync, h⟩ w =
        (.next ((⟨[], env, stack⟩ : Suspension σ).resume focus),
          { v with clock := v.clock + span.nanos }) := spot
    exact .pause (Bool.not_eq_eq_eq_not.1 honored) hlong goesOn ⟨rfl, rfl⟩

theorem resembles_eval {e : Effect σ} (he : e.Plain)
    (plain : ∀ frame ∈ stack, frame.Of (.plain σ)) :
    Resembles h ⟨.eval e, env, stack⟩ w (step ⟨.async, h⟩ ⟨.eval e, env, stack⟩ w) := by
  -- All other nodes do the same in either mode.
  cases he with
  | sleep => exact resembles_paused rfl
  | allPar each still =>
      exact .gather (fun e he => ⟨each e he, still e he⟩) (fun _ => ⟨trivial, plain⟩) rfl
  | race each still =>
      exact .compete (fun e he => ⟨each e he, still e he⟩) (fun _ => ⟨trivial, plain⟩) rfl
  | _ => exact .same

theorem resembles_recur {r : Recurrence σ} {x : Outcome} {m : Machine σ}
    (spot : m.step ⟨.sync, h⟩ w = recurStep ⟨.sync, h⟩ r x env stack w) :
    Resembles h m w (recurStep ⟨.async, h⟩ r x env stack w) := by
  unfold recurStep at spot ⊢
  rcases hverdict : wantsAgain r x w with ⟨d | again, w₁⟩
  · rw [hverdict] at spot
    exact resembles_spot spot
  · rw [hverdict] at spot
    cases again with
    | false => exact resembles_spot spot
    | true =>
        dsimp only at spot ⊢
        -- Both modes decide alike; they differ only in how the delay is waited for.
        cases hdecide : r.schedule.step r.state with
        | stop =>
            rw [hdecide] at spot
            exact resembles_spot spot
        | again delay state =>
            rw [hdecide] at spot
            exact resembles_paused spot

/-- All frames but those of recurring sources take an outcome in a fiber as they do on the
    spot. -/
theorem resembles_unwind {frame : Frame σ} {x : Outcome} :
    Resembles h ⟨.unwind x, env, frame :: stack⟩ w
      (unwindStep ⟨.async, h⟩ frame x env stack w) := by
  cases frame with
  | recur r => exact resembles_recur rfl
  | fold onSuccess onFailure =>
      cases x <;> cases onSuccess <;> cases onFailure <;> exact .same
  | flatMap | catchDefect => cases x <;> exact .same
  | restore | all | race => exact .same

/-- What a machine inside does in a fiber and on the spot, the one around it waiting. -/
theorem Resembles.within {m : Machine σ} {p : Step σ × World σ} (resembles : Resembles h m w p)
    {body : Body σ} (goes : ∀ x, (body x).Gives Routine.Plain)
    (plain : ∀ frame ∈ stack, frame.Of (.plain σ)) :
    Resembles h (m.within body env stack) w (p.1.within body env stack, p.2) := by
  -- The step on the spot is also that of the machine inside.
  have spots {m' : Machine σ} {v : World σ} (spot : m.step ⟨.sync, h⟩ w = (.next m', v)) :
      (m.within body env stack).step ⟨.sync, h⟩ w = (.next (m'.within body env stack), v) := by
    rw [step_within, spot]
    rfl
  have plains {point : Suspension σ} (inner : ∀ x, (point.resume (.unwind x)).Plain) (x : Outcome) :
      ((point.within body env stack).resume (.unwind x)).Plain :=
    ⟨⟨goes, (inner x).focus, (inner x).stack⟩, plain⟩
  cases resembles with
  | same => exact resembles_spot rfl
  | pause honored long spot same => exact .pause honored long (spots spot) same
  | gather each inner spot => exact .gather each (plains inner) (spots spot)
  | compete each inner spot => exact .compete each (plains inner) (spots spot)

/-- A plain machine in a fiber does what it does on the spot, except that it asks for time
    and for effects to run side by side. -/
theorem step_fiber {m : Machine σ} (plain : m.Plain) (h : Bool) (w : World σ) :
    Resembles h m w (m.step ⟨.async, h⟩ w) := by
  rcases m with ⟨focus, env, stack⟩
  induction focus generalizing env stack with
  | eval e => exact resembles_eval plain.focus plain.stack
  | resume r => exact .same
  | within body inner env₁ stack₁ ih =>
      obtain ⟨⟨goes, hinner, hstack⟩, all⟩ := plain
      exact (ih env₁ stack₁ ⟨hinner, hstack⟩).within goes all
  | unwind x =>
      cases stack with
      | nil => exact .same
      | cons frame stack => exact resembles_unwind

end InFiber

end Machine

end EffectKernel
