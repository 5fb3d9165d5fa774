import EffectKernel.Effect.Channels
import EffectKernel.Machine.Blocking
import EffectKernel.Proofs.Refinement

/-!
# How Effects End

Whole runs: the machine is started on an effect with nothing below it, and the run is
over when the outcome has nobody to be handed to. By what the machine and the evaluator
have to do with each other, how an effect ends can be read off its nodes, and the
lemmas here do that for the nodes that descriptions are put together from. Each of them
says exactly how such a node can end, so that a run of a large description is taken
apart by rewriting.

A run on the spot that has not been broken off is such a run with nobody outside.

## Main definitions

* `Effect.Ends`: An effect ends in an outcome and leaves a world.

## Theorems

* `ends_iff_evaluates`: An effect ends as it evaluates.
* `ends_of_runSync`: A run on the spot that is not broken off ends so.
* `evaluates_exit_pure`, `evaluates_service`, `evaluates_announce`, `evaluates_provide`,
  `evaluates_suspend_pure`, `evaluates_flatMap_pure`, `evaluates_mapError`: How nodes
  end.
-/

namespace EffectKernel

open Machine

variable {σ : Type}

/-- What comes of reading a service. -/
def Context.answer (env : Context) (key : ServiceKey) : Outcome :=
  match env.get? key with
  | some v => .success v
  | none => .die (.missingService key.name)

/-- An effect that is run with some services in a world ends in an outcome and leaves a
    world. -/
def Effect.Ends (settings : Settings) (outside : Outside σ) (e : Effect σ) (env : Context)
    (w : World σ) (x : Outcome) (w' : World σ) : Prop :=
  ∃ env', Delivers settings outside [] (Machine.start e env) w x env' w'

/-- An effect ends as it evaluates. -/
theorem ends_iff_evaluates {settings : Settings} {outside : Outside σ} {e : Effect σ}
    {env : Context} {w w' : World σ} {x : Outcome} :
    e.Ends settings outside env w x w' ↔
      Evaluates settings outside (.effect e) (.of env) w x w' := by
  constructor
  · rintro ⟨env', hrun⟩
    exact ((@delivers_iff_evaluates σ settings outside (.effect e) (.of env) [] w w' x env').1
      hrun).2
  · intro h
    exact ⟨env, delivers_of_evaluates h []⟩

section OnTheSpot

variable {honorDelays : Bool} {w w' : World σ} {x : Outcome}

/-- A run on the spot that was not broken off hands on what it returns. -/
theorem delivers_of_runBlocking {fuel : Nat} {m : Machine σ}
    (h : m.runBlocking ⟨.sync, honorDelays⟩ fuel w = some (x, w'))
    (whole : x ≠ .die (.asyncInSync "an effect that suspends")) :
    ∃ env, Delivers ⟨.sync, honorDelays⟩ .nobody [] m w x env w' := by
  induction fuel generalizing m w with
  | zero => cases h
  | succ fuel ih =>
      by_cases hhand : m.Handing []
      · -- The outcome has nobody to go to: this was the last step.
        rcases m with ⟨focus, env, stack⟩
        rcases hhand with ⟨⟨y, rfl⟩, rfl⟩
        simp only [runBlocking, Machine.step, Machine.stepAt, Option.some.injEq, Prod.mk.injEq] at h
        rcases h with ⟨rfl, rfl⟩
        exact ⟨env, delivers_done⟩
      · unfold runBlocking at h
        rcases hstep : m.step ⟨.sync, honorDelays⟩ w with ⟨step, w₁⟩
        rw [hstep] at h
        cases step with
        | next m' =>
            rcases ih h with ⟨env, hrest⟩
            exact ⟨env, delivers_next hhand hstep hrest⟩
        | done y => exact absurd (handing_of_done hstep) hhand
        -- A run on the spot that is asked to wait dies of it, which `whole` rules out.
        | ask request point =>
            simp only [Option.some.injEq, Prod.mk.injEq] at h
            exact absurd h.1.symm whole

/-- A run on the spot that is not broken off ends as it says. -/
theorem ends_of_runSync {fuel : Nat} {e : Effect σ} {env : Context}
    (h : runSync fuel honorDelays e env w = some (x, w'))
    (whole : x ≠ .die (.asyncInSync "an effect that suspends")) :
    e.Ends ⟨.sync, honorDelays⟩ .nobody env w x w' :=
  delivers_of_runBlocking h whole

end OnTheSpot

section Nodes

variable {settings : Settings} {outside : Outside σ} {s : Surroundings} {w w' : World σ}
  {x : Outcome}

/-- An effect that is its outcome. -/
theorem evaluates_exit_pure {y : Outcome} :
    Evaluates settings outside (.effect (.exit (pure y))) s w x w' ↔ x = y ∧ w' = w := by
  constructor
  · intro h
    cases h with
    | exit call => cases call; exact ⟨rfl, rfl⟩
    | exitPanic call => cases call
    | refused mode later => cases later
    | asked mode asks => cases asks
  · rintro ⟨rfl, rfl⟩
    exact .exit rfl

/-- An effect that asks for a service gets the answer of the services around it. -/
theorem evaluates_service {key : ServiceKey} {env : Context} :
    Evaluates settings outside (.effect (.service key)) (.of env) w x w' ↔
      x = env.answer key ∧ w' = w := by
  -- Looking a service up in the surroundings is looking it up in the one context they are.
  have hlook : (Surroundings.of env).lookup key = env.get? key := by
    rw [← Surroundings.get?_context, Surroundings.context_of]
  constructor
  · intro h
    cases h with
    | service found =>
        rw [Context.answer, ← hlook, found]
        exact ⟨rfl, rfl⟩
    | serviceMissing missing =>
        rw [Context.answer, ← hlook, missing]
        exact ⟨rfl, rfl⟩
    | refused mode later => cases later
    | asked mode asks => cases asks
  · rintro ⟨rfl, rfl⟩
    unfold Context.answer
    rcases hget : env.get? key with _ | v
    · exact .serviceMissing (hlook.trans hget)
    · exact .service (hlook.trans hget)

/-- An effect that is made on demand, by a function that does nothing else, is the effect. -/
theorem evaluates_suspend_pure {e : Effect σ} :
    Evaluates settings outside (.effect (.suspend (pure e))) s w x w' ↔
      Evaluates settings outside (.effect e) s w x w' := by
  constructor
  · intro h
    cases h with
    | suspend call made => cases call; exact made
    | suspendPanic call => cases call
    | refused mode later => cases later
    | asked mode asks => cases asks
  · intro h
    exact .suspend rfl h

/-- An event is reported before the effect behind it is run. -/
theorem evaluates_announce {event : Event} {e : Effect σ} :
    Evaluates settings outside (.effect (.announce event e)) s w x w' ↔
      Evaluates settings outside (.effect e) s (w.report event) x w' := by
  constructor
  · intro h
    cases h with
    | announce goOn => exact goOn
    | refused mode later => cases later
    | asked mode asks => cases asks
  · intro h
    exact .announce h

/-- An effect that is provided with services is run among these and those around. -/
theorem evaluates_provide {source : Effect σ} {env services : Context} :
    Evaluates settings outside (.effect (.provide source services)) (.of env) w x w' ↔
      Evaluates settings outside (.effect source) (.of (env.merge services)) w x w' := by
  have same : ((Surroundings.of env).inside services).context =
      (Surroundings.of (env.merge services)).context := rfl
  constructor
  · intro h
    cases h with
    | provide body => exact evaluates_congr same body
    | refused mode later => cases later
    | asked mode asks => cases asks
  · intro h
    exact .provide (evaluates_congr same.symm h)

/-- An effect that goes on from the value of another one. -/
theorem evaluates_flatMap_pure {source : Effect σ} {next : Value → Effect σ} :
    Evaluates settings outside (.effect (.flatMap source fun v => pure (next v))) s w x w' ↔
      ∃ y w₁, Evaluates settings outside (.effect source) s w y w₁ ∧
        match y with
        | .success v => Evaluates settings outside (.effect (next v)) s w₁ x w'
        | y => x = y ∧ w' = w₁ := by
  constructor
  · intro h
    cases h with
    | @flatMap _ _ _ _ v w₁ _ _ first then' =>
        exact ⟨.success v, w₁, first, evaluates_suspend_pure.1 then'⟩
    | flatMapPass first pass =>
        refine ⟨x, w', first, ?_⟩
        -- A success would not pass the frame, so the outcome is the source's own failure or defect.
        cases x with
        | success v => cases pass
        | fail e => exact ⟨rfl, rfl⟩
        | die d => exact ⟨rfl, rfl⟩
    | refused mode later => cases later
    | asked mode asks => cases asks
  · rintro ⟨y, w₁, first, h⟩
    cases y with
    | success v => exact .flatMap first (evaluates_suspend_pure.2 h)
    | fail e =>
        rcases h with ⟨rfl, rfl⟩
        exact .flatMapPass first rfl
    | die d =>
        rcases h with ⟨rfl, rfl⟩
        exact .flatMapPass first rfl

/-- What a failure becomes that is handed to a function: a panic is a defect. -/
def converted : Except Defect Value → Cause Value
  | .ok e => .fail e
  | .error d => .die d

theorem guarded_fail (w : World σ) (act : Act σ Value) :
    w.guarded (do return Effect.fail (← act) : Act σ (Effect σ)) =
      match w.guarded act with
      | (.ok e, w) => (.ok (Effect.fail e), w)
      | (.error d, w) => (.error d, w) := by
  simp only [World.guarded, Act.run_bind, Act.run_pure]
  rcases act.run w.store with ⟨_ | _, _⟩ <;> rfl

/-- An effect that fails with what a function gives, or dies if that panics. -/
theorem evaluates_suspend_fail {act : Act σ Value} :
    Evaluates settings outside (.effect (.suspend do return Effect.fail (← act))) s w x w' ↔
      x = .ofCause (converted (w.guarded act).1) ∧ w' = (w.guarded act).2 := by
  have hcall := guarded_fail w act
  -- The call ends with an error value or panics, and the panic is a defect already.
  rcases hact : w.guarded act with ⟨d | e, w₁⟩
  · rw [hact] at hcall
    constructor
    · intro h
      cases h with
      | suspend call made => rw [hcall] at call; cases call
      | suspendPanic call => rw [hcall] at call; cases call; exact ⟨rfl, rfl⟩
      | refused mode later => cases later
      | asked mode asks => cases asks
    · rintro ⟨rfl, rfl⟩
      exact .suspendPanic hcall
  · rw [hact] at hcall
    constructor
    · intro h
      cases h with
      | suspend call made =>
          rw [hcall] at call
          cases call
          exact evaluates_exit_pure.1 made
      | suspendPanic call => rw [hcall] at call; cases call
      | refused mode later => cases later
      | asked mode asks => cases asks
    · rintro ⟨rfl, rfl⟩
      exact .suspend hcall (evaluates_exit_pure.2 ⟨rfl, rfl⟩)

/-- A failure goes through the function, and everything else passes by. -/
theorem evaluates_mapError {source : Effect σ} {f : Value → Act σ Value} :
    Evaluates settings outside (.effect (source.mapError f)) s w x w' ↔
      ∃ y w₁, Evaluates settings outside (.effect source) s w y w₁ ∧
        match y with
        | .fail e =>
            x = .ofCause (converted (w₁.guarded (f e)).1) ∧ w' = (w₁.guarded (f e)).2
        | y => x = y ∧ w' = w₁ := by
  constructor
  · intro h
    cases h with
    | foldFailure first then' => exact ⟨_, _, first, evaluates_suspend_fail.1 then'⟩
    | foldPass first noValue noFailure =>
        refine ⟨x, w', first, ?_⟩
        -- A failure is handed to the function, so what passes is a success or a defect.
        cases x with
        | success v => exact ⟨rfl, rfl⟩
        | fail e => cases noFailure rfl
        | die d => exact ⟨rfl, rfl⟩
    | refused mode later => cases later
    | asked mode asks => cases asks
  · rintro ⟨y, w₁, first, h⟩
    cases y with
    | success v =>
        rcases h with ⟨rfl, rfl⟩
        exact .foldPass first (fun _ => rfl) (absurd · Bool.false_ne_true)
    | fail e => exact .foldFailure first (evaluates_suspend_fail.2 h)
    | die d =>
        rcases h with ⟨rfl, rfl⟩
        exact .foldPass first (absurd · Bool.false_ne_true) (absurd · Bool.false_ne_true)

end Nodes

end EffectKernel
