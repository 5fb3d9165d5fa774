import EffectKernel.Effect.Construct
import EffectKernel.Proofs.Observations

/-!
# Catching Defects

A way on from defects sees what its source comes to, and nothing else. If the source has died, it
goes on from there with what the handler makes of the defect, and otherwise it comes to what the
source has come to, and the handler has nothing to do with it. The source is run as it would be
alone, and the services are those from before when the handler is asked.

There is one defect that no handler gets to see. If a run on the spot comes to a routine that gives
way, nobody could take it up again, and it is broken off as a whole (`gap_not_caught`).

## Main definitions

* `Focus.caught`: How it goes on after the source.

## Theorems

* `fallsIn_caught`: The frame is handed how the source has ended.
* `defects_are_caught`: A way on from defects, however it is run.
-/

namespace EffectKernel

open Machine

variable {σ : Type}

/-- How it goes on after a source that has ended so: from a defect, with what the handler makes of
    it. -/
def Focus.caught (handler : Defect → Act σ (Effect σ)) : Outcome → Focus σ
  | .die d => .eval (.suspend (handler d))
  | .success v => .unwind (.success v)
  | .fail e => .unwind (.fail e)

section Caught

variable {settings : Settings} {observe : Nat → σ → σ} {id : FiberId} {path : Path}
  {handler : Defect → Act σ (Effect σ)} {env : Context} {base : List (Frame σ)} {k k' : Kernel σ}
  {w w' : World σ} {x y : Outcome} {turn : Turn σ}

/-- The frame is handed how the source has ended, and it goes on from there. -/
theorem fallsIn_caught :
    FallsIn settings w ⟨.unwind x, env, .catchDefect handler :: base⟩
      ⟨Focus.caught handler x, env, base⟩ := by
  cases x with
  | die d => exact .same rfl
  | success v => exact .one rfl
  | fail e => exact .one rfl

/-- On the spot, it goes on from how the source has ended. -/
theorem endsOnSpot_caught :
    EndsOnSpot ⟨.unwind x, env, .catchDefect handler :: base⟩ settings w y w' ↔
      EndsOnSpot ⟨Focus.caught handler x, env, base⟩ settings w y w' :=
  (cutObservation_onSpot settings).fallsIn fallsIn_caught

/-- In a turn of a fiber, it goes on from how the source has ended. -/
theorem turns_caught :
    Fiber.Turns settings path (.ready ⟨.unwind x, env, .catchDefect handler :: base⟩) k turn k' ↔
      Fiber.Turns settings path (.ready ⟨Focus.caught handler x, env, base⟩) k turn k' :=
  (Fiber.observation_turns settings path).fallsIn fallsIn_caught

/-- So does a fiber that the caller waits for. -/
theorem pollEnds_caught :
    Fiber.PollEnds settings observe id
      (.ready ⟨.unwind x, env, .catchDefect handler :: base⟩) k y k' ↔
      Fiber.PollEnds settings observe id (.ready ⟨Focus.caught handler x, env, base⟩) k y k' :=
  (Fiber.cutObservation_pollEnds settings observe id).fallsIn fallsIn_caught

/-- The source is begun above the frame. -/
theorem continues_catching (e : Effect σ) :
    Fiber.Continues settings path (.ready ⟨.eval (.catchDefect e handler), env, base⟩) k
      ((Fiber.ready (.start e env)).above (.catchDefect handler :: base)) k :=
  Fiber.continues_next rfl

/-- A fiber with the source is looked at as one with the source begun. -/
theorem driveEnds_catching (e : Effect σ) :
    Fiber.DriveEnds settings observe id
      (.ready ⟨.eval (.catchDefect e handler), env, base⟩) k y k' ↔
      Fiber.DriveEnds settings observe id
        ((Fiber.ready (.start e env)).above (.catchDefect handler :: base)) k y k' :=
  Fiber.driveEnds_fallsIn fun _ => .one rfl

end Caught

/-- A way on from defects, however it is run. On the spot, it goes on from how the source alone has
    ended, unless the source is broken off. So does each turn of a fiber, wherever the fiber is and
    whatever the source waits for, and a fiber that the caller waits for, whatever others do. -/
theorem defects_are_caught (e : Effect σ) (handler : Defect → Act σ (Effect σ)) (env : Context)
    (base : List (Frame σ)) (settings : Settings) :
    (∀ w y w', EndsOnSpot ⟨.eval (.catchDefect e handler), env, base⟩ settings w y w' ↔
      (∃ x v, (Machine.start e env).Finishes settings w x env v ∧
        EndsOnSpot ⟨Focus.caught handler x, env, base⟩ settings v y w') ∨
      (y = brokenOff ∧ (Machine.start e env).BreaksOff settings w w')) ∧
    (∀ path k, Fiber.Continues settings path (.ready ⟨.eval (.catchDefect e handler), env, base⟩) k
      ((Fiber.ready (.start e env)).above (.catchDefect handler :: base)) k) ∧
    (∀ path (f : Fiber σ) k y k',
      Fiber.Turns settings path (f.above (.catchDefect handler :: base)) k (.ended y) k' ↔
        ∃ x k₁, Fiber.Turns settings path f k (.ended x) k₁ ∧
          Fiber.Turns settings path (.ready ⟨Focus.caught handler x, f.home, base⟩) k₁ (.ended y)
            k') ∧
    (∀ path (f : Fiber σ) k g k',
      Fiber.Turns settings path (f.above (.catchDefect handler :: base)) k (.waiting g) k' ↔
        (∃ x k₁, Fiber.Turns settings path f k (.ended x) k₁ ∧
          Fiber.Turns settings path (.ready ⟨Focus.caught handler x, f.home, base⟩) k₁ (.waiting g)
            k') ∨
        ∃ f', g = f'.above (.catchDefect handler :: base) ∧ f'.home = f.home ∧
          Fiber.Turns settings path f k (.waiting f') k') ∧
    ∀ observe id k y k',
      Fiber.DriveEnds settings observe id
        (.ready ⟨.eval (.catchDefect e handler), env, base⟩) k y k' ↔
        ∃ x k₁, Fiber.DriveEnds settings observe id (.ready (.start e env)) k x k₁ ∧
          Fiber.PollEnds settings observe id
            (.ready ⟨Focus.caught handler x, env, base⟩) k₁ y k' := by
  refine ⟨fun w y w' => ?_, fun path k => continues_catching e, fun path f k y k' => ?_,
    fun path f k g k' => ?_, fun observe id k y k' => ?_⟩
  -- One step pushes the frame, and from there on the inner program runs above it.
  · have begun : Steps settings 1 ⟨.eval (.catchDefect e handler), env, base⟩ w
        ((Machine.start e env).above (.catchDefect handler :: base)) w := .one rfl
    rw [endsOnSpot_steps begun, endsOnSpot_above]
    refine or_congr_left ⟨?_, ?_⟩
    · rintro ⟨x, env', v, ⟨n, run⟩, rest⟩
      obtain rfl := env_of_steps run
      exact ⟨x, v, ⟨n, run⟩, endsOnSpot_caught.1 rest⟩
    · rintro ⟨x, v, run, rest⟩
      exact ⟨x, env, v, run, endsOnSpot_caught.2 rest⟩
  · rw [Fiber.turns_above (by simp)]
    simp only [turns_caught, reduceCtorEq, false_and, exists_false, or_false]
  · rw [Fiber.turns_above (by simp)]
    simp only [turns_caught, Turn.waiting.injEq]
  · rw [driveEnds_catching, Fiber.driveEnds_above]
    simp only [pollEnds_caught]
    rfl

namespace Sample

/-- Gives way and then ends. -/
def gap : Effect Nat :=
  .gen fun _ => pure (.giveWay (pure (.done (.success .null))))

/-- Goes on from any defect. -/
def rescue (_ : Defect) : Act Nat (Effect Nat) :=
  pure (.succeed (.bool true))

end Sample

/-- A run on the spot that is broken off has died by a defect, and yet the handler is not asked to
    go on from it. -/
theorem gap_not_caught :
    ¬ ∀ d v, (Machine.start Sample.gap .empty).EndsOnSpot ⟨.sync, true⟩ ⟨0, 0, #[]⟩ (.die d) v →
      ∀ y v', (Machine.start (.catchDefect Sample.gap Sample.rescue) .empty).EndsOnSpot
          ⟨.sync, true⟩ ⟨0, 0, #[]⟩ y v' ↔
        EndsOnSpot ⟨Focus.caught Sample.rescue (.die d), .empty, []⟩ ⟨.sync, true⟩ v y v' := by
  intro caught
  have alone : (Machine.start Sample.gap .empty).EndsOnSpot ⟨.sync, true⟩ ⟨0, 0, #[]⟩ brokenOff
      ⟨0, 0, #[]⟩ := ⟨3, rfl⟩
  have rescued : EndsOnSpot ⟨Focus.caught Sample.rescue brokenOff, .empty, []⟩ ⟨.sync, true⟩
      ⟨0, 0, #[]⟩ (.success (.bool true)) ⟨0, 0, #[]⟩ := ⟨4, rfl⟩
  have ends := (caught _ _ alone _ _).2 rescued
  -- The source gives way above the frame, and that is the end of the run.
  have run : Steps ⟨.sync, true⟩ 2 (.start (.catchDefect Sample.gap Sample.rescue) .empty)
      ⟨0, 0, #[]⟩ ⟨.resume (pure (.giveWay (pure (.done (.success .null))))), .empty,
        [.catchDefect Sample.rescue]⟩ ⟨0, 0, #[]⟩ := .more rfl (.one rfl)
  cases ((endsOnSpot_ask rfl).1 ((endsOnSpot_steps run).1 ends)).1

end EffectKernel
