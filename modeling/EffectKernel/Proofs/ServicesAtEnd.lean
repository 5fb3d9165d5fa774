import EffectKernel.Proofs.Steps

/-!
# The Services at the End

A node that changes the services which can be read pushes a frame that puts them back. So it can be
told from a machine and its frames which services will be left when it has come to its end, and a
step never changes them. Where a machine begins without frames they are those it begins with.

## Main definitions

* `homeOf`, `Machine.home`: The services that are left when the frames are gone.

## Theorems

* `step_home`, `Machine.Steps.home`: Steps do not change them.
-/

namespace EffectKernel

open Machine

variable {σ : Type}

/-- The services that are left when the frames are gone. -/
def homeOf (env : Context) : List (Frame σ) → Context
  | [] => env
  | .restore outer :: stack => homeOf outer stack
  | .flatMap _ :: stack => homeOf env stack
  | .fold _ _ :: stack => homeOf env stack
  | .catchDefect _ :: stack => homeOf env stack
  | .recur _ :: stack => homeOf env stack
  | .all _ _ _ :: stack => homeOf env stack
  | .race _ :: stack => homeOf env stack

/-- The services that are left when a machine has come to its end. -/
def Machine.home (m : Machine σ) : Context :=
  homeOf m.env m.stack

/-- Those that are left when one has come to its end that waits, with all machines around it. -/
def Suspension.home (point : Suspension σ) : Context :=
  match point.hosts with
  | [] => homeOf point.env point.stack
  | host :: _ => homeOf host.env host.stack

theorem Suspension.home_resume (point : Suspension σ) (focus : Focus σ) :
    (point.resume focus).home = point.home := by
  obtain ⟨_ | ⟨host, hosts⟩, env, stack⟩ := point <;> rfl

/-- What a step leads to has these services left at its end, if it has not come there. -/
def Step.KeepsHome (home : Context) : Step σ → Prop
  | .next m => m.home = home
  | .done _ => True
  | .ask _ point => point.home = home

section Home

variable {settings : Settings} {env : Context} {stack : List (Frame σ)} {w : World σ}

theorem applied_home (r : Except Defect (Effect σ) × World σ) :
    (applied env stack r).1.KeepsHome (homeOf env stack) := by
  rcases r with ⟨_ | _, _⟩ <;> rfl

theorem paused_home (span : Duration) (focus : Focus σ) :
    (paused settings span focus env stack w).1.KeepsHome (homeOf env stack) := by
  unfold paused
  split
  · rfl
  · split <;> rfl

theorem evalStep_home (e : Effect σ) :
    (evalStep settings e env stack w).1.KeepsHome (homeOf env stack) := by
  -- The home environment is that of the outermost restoring frame. Only `provide` changes the
  -- current one, and it pushes such a frame.
  cases e with
  | exit thunk =>
      simp only [evalStep]
      split <;> rfl
  | suspend make => exact applied_home _
  | callback register =>
      simp only [evalStep]
      split <;> rfl
  | promise start =>
      simp only [evalStep]
      split <;> rfl
  | service key =>
      simp only [evalStep]
      split <;> rfl
  | sleep span => exact paused_home _ _
  | timeout source limit =>
      simp only [evalStep]
      split <;> rfl
  | all children collect parallel =>
      simp only [evalStep]
      split
      · rfl
      · cases children <;> rfl
  | race children =>
      simp only [evalStep]
      split
      · rfl
      · cases children <;> rfl
  | _ => rfl

theorem resumeStep_home (r : Act σ (Routine σ)) :
    (resumeStep r env stack w).1.KeepsHome (homeOf env stack) := by
  unfold resumeStep
  rcases w.guarded r with ⟨_ | routine, w₁⟩
  · rfl
  · cases routine with
    | sleep millis next =>
        dsimp only
        split <;> rfl
    | _ => rfl

theorem recurStep_home (r : Recurrence σ) (x : Outcome) :
    (recurStep settings r x env stack w).1.KeepsHome (homeOf env stack) := by
  unfold recurStep
  rcases wantsAgain r x w with ⟨_ | _ | _, w₁⟩
  · rfl
  · rfl
  · dsimp only
    split
    · rfl
    · exact paused_home _ _

theorem unwindStep_home (frame : Frame σ) (x : Outcome) :
    (unwindStep settings frame x env stack w).1.KeepsHome (homeOf env (frame :: stack)) := by
  cases frame with
  | recur r => exact recurStep_home r x
  | all rest collect ends =>
      cases x <;> cases collect <;> cases rest <;> rfl
  | race rest =>
      cases x <;> cases rest <;> rfl
  | fold onSuccess onFailure =>
      cases x <;> cases onSuccess <;> cases onFailure <;> first | rfl | exact applied_home _
  | flatMap next => cases x <;> first | rfl | exact applied_home _
  | catchDefect handler => cases x <;> first | rfl | exact applied_home _
  | restore outer => rfl

/-- A step does not change the services that are left at the end. -/
theorem step_home (settings : Settings) (m : Machine σ) (w : World σ) :
    (m.step settings w).1.KeepsHome m.home := by
  rcases m with ⟨focus, env, stack⟩
  cases focus with
  | eval e => exact evalStep_home e
  | resume r => exact resumeStep_home r
  | within body inner env₁ stack₁ =>
      -- The services around a machine inside are not its own.
      show (Step.within body env stack _).KeepsHome (homeOf env stack)
      cases (stepAt settings inner env₁ stack₁ w).1 <;> rfl
  | unwind x =>
      cases stack with
      | nil => trivial
      | cons frame stack => exact unwindStep_home frame x

theorem home_of_step {m m' : Machine σ} {w' : World σ}
    (step : m.step settings w = (.next m', w')) : m'.home = m.home := by
  have keeps := step_home settings m w
  rwa [step] at keeps

theorem home_of_asks {m : Machine σ} {w' : World σ} {request : Request σ} {point : Suspension σ}
    (asks : m.step settings w = (.ask request point, w')) : point.home = m.home := by
  have keeps := step_home settings m w
  rwa [asks] at keeps

/-- Neither do steps one after the other. -/
theorem Machine.Steps.home {n : Nat} {m m' : Machine σ} {w' : World σ}
    (run : Steps settings n m w m' w') : m'.home = m.home := by
  induction run with
  | none => rfl
  | more step _ ih => exact ih.trans (home_of_step step)

end Home

end EffectKernel
