import EffectKernel.Proofs.Likeness.Runs
import EffectKernel.Proofs.Rounds

/-!
# Runs on the Spot

A run on the spot ends in one of two ways. Either nothing is left to do, and the outcome is what the
machine has come to; or the machine asks for something that nobody can give it, and the run is
broken off. In the second case the frames are dropped, and the outcome is always the same.

Which of the two it is does not depend on the frames beneath. So a run above frames is a run without
them, after which the frames are handed its outcome, or one that is broken off together with them
(`endsOnSpot_above`).

## Main definitions

* `brokenOff`: The outcome of a run that is broken off.
* `Machine.Finishes`: A machine comes to an outcome.
* `Machine.BreaksOff`: A machine comes to ask for something.

## Theorems

* `endsOnSpot_above`, `endsOnSpot_cut`: What a run above frames comes to.
* `endsOnSpot_iff`: What a run comes to.
* `finishes_unique`: A run that comes to an outcome comes to one only.
-/

namespace EffectKernel

open Machine

variable {σ : Type}

/-- The outcome of a run that is broken off. -/
def brokenOff : Outcome :=
  .die (.asyncInSync "an effect that suspends")

namespace Machine

/-- A machine comes to an outcome with nothing left to do. -/
def Finishes (settings : Settings) (m : Machine σ) (w : World σ) (x : Outcome) (env : Context)
    (w' : World σ) : Prop :=
  ∃ n, Steps settings n m w ⟨.unwind x, env, []⟩ w'

/-- A machine comes to ask for something that it cannot do on its own. -/
def BreaksOff (settings : Settings) (m : Machine σ) (w w' : World σ) : Prop :=
  ∃ n m₁ w₁ request point, Steps settings n m w m₁ w₁ ∧
    m₁.step settings w₁ = (.ask request point, w')

end Machine

section Ends

variable {settings : Settings} {m m₁ : Machine σ} {w w₁ w' : World σ} {x y : Outcome}
  {env env' : Context} {stack base : List (Frame σ)} {n : Nat}

/-- Steps do not change what a run comes to. -/
theorem endsOnSpot_steps (run : Steps settings n m w m₁ w₁) :
    m.EndsOnSpot settings w x w' ↔ m₁.EndsOnSpot settings w₁ x w' := by
  constructor
  · rintro ⟨fuel, ends⟩
    -- A run that has an outcome goes further than some of its steps.
    rcases Nat.lt_or_ge n fuel with more | few
    · obtain ⟨rest, rfl⟩ := Nat.exists_eq_add_of_le' (Nat.le_of_lt more)
      rw [runBlocking_steps run] at ends
      exact ⟨rest, ends⟩
    · rw [runBlocking_short run few] at ends
      cases ends
  · rintro ⟨fuel, ends⟩
    exact ⟨fuel + n, (runBlocking_steps run fuel).trans ends⟩

theorem endsOnSpot_done :
    EndsOnSpot (⟨.unwind y, env, []⟩ : Machine σ) settings w x w' ↔ x = y ∧ w' = w := by
  constructor
  · rintro ⟨_ | fuel, ends⟩
    · cases ends
    · cases ends
      exact ⟨rfl, rfl⟩
  · rintro ⟨rfl, rfl⟩
    exact ⟨1, rfl⟩

theorem endsOnSpot_ask {request : Request σ} {point : Suspension σ}
    (asks : m.step settings w = (.ask request point, w₁)) :
    m.EndsOnSpot settings w x w' ↔ x = brokenOff ∧ w' = w₁ := by
  constructor
  · rintro ⟨_ | fuel, ends⟩
    · cases ends
    · rw [runBlocking, asks] at ends
      cases ends
      exact ⟨rfl, rfl⟩
  · rintro ⟨rfl, rfl⟩
    refine ⟨1, ?_⟩
    rw [runBlocking, asks]
    rfl

/-- A run above frames is a run without them after which they are handed its outcome, or it is
    broken off. -/
theorem endsOnSpot_above (base : List (Frame σ)) :
    (m.above base).EndsOnSpot settings w x w' ↔
      (∃ y env w₁, m.Finishes settings w y env w₁ ∧
        EndsOnSpot ⟨.unwind y, env, base⟩ settings w₁ x w') ∨
      (x = brokenOff ∧ m.BreaksOff settings w w') := by
  constructor
  · rintro ⟨fuel, ends⟩
    induction fuel generalizing m w with
    | zero => cases ends
    | succ fuel ih =>
        -- Step by step until the inner machine has an outcome for the frames or asks for something.
        by_cases handing : Handing [] m
        · rcases m with ⟨focus, env, stack⟩
          rcases handing with ⟨⟨y, rfl⟩, rfl⟩
          exact .inl ⟨y, env, w, ⟨0, .none⟩, fuel + 1, ends⟩
        · rw [runBlocking, step_above_eq base handing] at ends
          rcases taken : m.step settings w with ⟨step, w₁⟩
          rw [taken] at ends
          cases step with
          | done y => exact absurd (handing_of_done taken) handing
          | ask request point =>
              cases ends
              exact .inr ⟨rfl, 0, m, w, request, point, .none, taken⟩
          | next m₁ =>
              rcases ih ends with ⟨y, env, w₂, ⟨n, run⟩, rest⟩ |
                ⟨broken, n, m₂, w₂, request, point, run, asks⟩
              · exact .inl ⟨y, env, w₂, ⟨n + 1, .more taken run⟩, rest⟩
              · exact .inr ⟨broken, n + 1, m₂, w₂, request, point, .more taken run, asks⟩
  · rintro (⟨y, env, w₁, ⟨n, run⟩, rest⟩ | ⟨rfl, n, m₁, w₁, request, point, run, asks⟩)
    · exact (endsOnSpot_steps (run.above base)).2 rest
    -- A machine that asks is not done, so it asks above the frames as well.
    · have busy : ¬ Handing [] m₁ := by
        rcases m₁ with ⟨focus, env₁, stack₁⟩
        rintro ⟨⟨y, rfl⟩, rfl⟩
        cases asks
      have asks' : (m₁.above base).step settings w₁ = (.ask request (point.above base), w') := by
        rw [step_above_eq base busy, asks]
        rfl
      exact (endsOnSpot_steps (run.above base)).2 ((endsOnSpot_ask asks').2 ⟨rfl, rfl⟩)

/-- An effect is run above frames until these are handed its outcome, or it is broken off. -/
theorem endsOnSpot_cut {e : Effect σ} :
    EndsOnSpot ⟨.eval e, env, base⟩ settings w x w' ↔
      (∃ y w₁, (Machine.start e env).Finishes settings w y env w₁ ∧
        EndsOnSpot ⟨.unwind y, env, base⟩ settings w₁ x w') ∨
      (x = brokenOff ∧ (Machine.start e env).BreaksOff settings w w') := by
  refine (endsOnSpot_above (m := Machine.start e env) base).trans (or_congr_left ?_)
  constructor
  · rintro ⟨y, env₁, w₁, finishes, last⟩
    obtain rfl : env₁ = env := finishes.elim fun _ run => env_of_steps run
    exact ⟨y, w₁, finishes, last⟩
  · rintro ⟨y, w₁, finishes, last⟩
    exact ⟨y, env, w₁, finishes, last⟩

/-- A run comes to an outcome, or it is broken off. -/
theorem endsOnSpot_iff :
    m.EndsOnSpot settings w x w' ↔
      (∃ env, m.Finishes settings w x env w') ∨ (x = brokenOff ∧ m.BreaksOff settings w w') := by
  -- This is the case of no frames below.
  have whole : m.above [] = m := by
    rcases m with ⟨focus, env, stack⟩
    simp only [above, List.append_nil]
  have split := @endsOnSpot_above σ settings m w w' x []
  rw [whole] at split
  rw [split]
  refine or_congr ⟨?_, ?_⟩ Iff.rfl
  · rintro ⟨y, env, w₁, finishes, ends⟩
    obtain ⟨rfl, rfl⟩ := endsOnSpot_done.1 ends
    exact ⟨env, finishes⟩
  · rintro ⟨env, finishes⟩
    exact ⟨x, env, w', finishes, endsOnSpot_done.2 ⟨rfl, rfl⟩⟩

/-- A machine comes to one outcome, in one world. -/
theorem finishes_unique (run : m.Finishes settings w x env w')
    (other : m.Finishes settings w y env' w₁) : x = y ∧ w' = w₁ :=
  run.elim fun _ run => other.elim fun _ other => run.final_unique other

end Ends

end EffectKernel
