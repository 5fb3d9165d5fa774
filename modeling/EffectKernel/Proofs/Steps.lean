import EffectKernel.Machine.Blocking
import EffectKernel.Proofs.Reduction

/-!
# Counted Steps

The machine, watched for some steps and not to the end of its run. A step is a function,
so there is one way on from every machine, and two runs from one machine are one run cut
off at two points. A run that has come to an outcome and has no frames left cannot go any
further, so it is at least as long as any other run from where it began
(`Steps.le_of_final`), and its outcome is the only one there is (`Steps.final_unique`).

Two things can be changed about a run without changing its steps. More frames may lie
beneath it, since a step only looks at the innermost one (`Steps.above`). And the time may
be another one: a run on the spot never looks at the clock, and whether it waits out
delays shows nowhere else (`Steps.retimed`).

## Main definitions

* `World.Agree`: Two worlds that differ in their time at most.
* `Machine.Steps`: A counted run from one machine to another.
* `Machine.above`: The machine with frames beneath its own.
* `Machine.Surrounds`: A way to surround machines.

## Theorems

* `Steps.trans`, `Steps.le_of_final`, `Steps.final_unique`: There is one way on.
* `step_above`, `Steps.above`: Frames beneath a run do not change it.
* `step_inside`, `Steps.inside`: Neither do machines around it.
* `surrounds_within`, `surrounds_above`: A machine goes on as ever inside another one, and above
  frames.
* `Steps.retimed`: The time does not change a run on the spot.
-/

namespace EffectKernel

variable {σ : Type}

namespace World

/-- Two worlds that differ in their time at most. -/
def Agree (w v : World σ) : Prop :=
  w.store = v.store ∧ w.events = v.events

theorem Agree.refl (w : World σ) : w.Agree w :=
  ⟨rfl, rfl⟩

theorem Agree.symm {w v : World σ} (h : w.Agree v) : v.Agree w :=
  ⟨h.1.symm, h.2.symm⟩

theorem Agree.trans {w v u : World σ} (h : w.Agree v) (h' : v.Agree u) : w.Agree u :=
  ⟨h.1.trans h'.1, h.2.trans h'.2⟩

/-- One event more. -/
theorem Agree.report {w v : World σ} (h : w.Agree v) (event : Event) :
    (w.report event).Agree (v.report event) :=
  ⟨h.1, congrArg (·.push event) h.2⟩

end World

/-- Two results that are the same, in worlds that differ in their time at most. -/
def SameBut {α : Type} (p q : α × World σ) : Prop :=
  p.1 = q.1 ∧ p.2.Agree q.2

/-- An action does not look at the clock. -/
theorem World.Agree.guarded {α : Type} {w v : World σ} (h : w.Agree v) (act : Act σ α) :
    SameBut (w.guarded act) (v.guarded act) := by
  unfold World.guarded
  rw [h.1]
  rcases act.run v.store with ⟨_ | a, s⟩
  · exact ⟨rfl, Agree.report (w := ⟨s, w.clock, w.events⟩) (v := ⟨s, v.clock, v.events⟩)
      ⟨rfl, h.2⟩ _⟩
  · exact ⟨rfl, rfl, h.2⟩

namespace Machine

/-- A run of so many steps from one machine to another, without a request. -/
inductive Steps (settings : Settings) :
    Nat → Machine σ → World σ → Machine σ → World σ → Prop where
  /-- No step. -/
  | none {m w} : Steps settings 0 m w m w
  /-- A step, and the rest of the run. -/
  | more {n m w m₁ w₁ m' w'} (step : m.step settings w = (.next m₁, w₁))
      (rest : Steps settings n m₁ w₁ m' w') : Steps settings (n + 1) m w m' w'

namespace Steps

variable {settings : Settings} {n k : Nat} {m m' m₁ : Machine σ} {w w' w₁ : World σ}
  {x y : Outcome} {env env' : Context}

theorem one (step : m.step settings w = (.next m', w')) : Steps settings 1 m w m' w' :=
  .more step .none

theorem trans (first : Steps settings n m w m₁ w₁) (second : Steps settings k m₁ w₁ m' w') :
    Steps settings (n + k) m w m' w' := by
  induction first with
  | none => rwa [Nat.zero_add]
  | more step _ ih =>
      rw [Nat.add_right_comm]
      exact .more step (ih second)

/-- An outcome that nobody is left to take is where a run ends. -/
theorem eq_zero_of_final (run : Steps settings n ⟨.unwind x, env, []⟩ w m' w') :
    n = 0 ∧ m' = ⟨.unwind x, env, []⟩ ∧ w' = w := by
  cases run with
  | none => exact ⟨rfl, rfl, rfl⟩
  | more step => cases step

/-- No run goes further than one that has ended. -/
theorem le_of_final (run : Steps settings n m w ⟨.unwind x, env, []⟩ w')
    (other : Steps settings k m w m₁ w₁) : k ≤ n := by
  -- Both runs take the same steps as long as both of them go on.
  generalize hfinal : (⟨.unwind x, env, []⟩ : Machine σ) = final at run
  induction run generalizing k m₁ w₁ with
  | none =>
      subst hfinal
      exact Nat.le_of_eq (eq_zero_of_final other).1
  | more step _ ih =>
      cases other with
      | none => exact Nat.zero_le _
      | more step' rest =>
          rw [step] at step'
          cases step'
          exact Nat.succ_le_succ (ih rest hfinal)

/-- A run ends in one outcome and in one world. -/
theorem final_unique (run : Steps settings n m w ⟨.unwind x, env, []⟩ w')
    (other : Steps settings k m w ⟨.unwind y, env', []⟩ w₁) : x = y ∧ w' = w₁ := by
  -- The final machine is made a variable for the induction; it takes no step of its own.
  generalize hfinal : (⟨.unwind x, env, []⟩ : Machine σ) = final at run
  induction run generalizing k with
  | none =>
      subst hfinal
      rcases eq_zero_of_final other with ⟨-, heq, rfl⟩
      cases heq
      exact ⟨rfl, rfl⟩
  | more step rest ih =>
      cases other with
      | none => cases step
      | more step' rest' =>
          rw [step] at step'
          cases step'
          exact ih rest' hfinal

/-- A run to an outcome with no frames left is a run above no frames. -/
theorem delivers {outside : Outside σ} (run : Steps settings n m w ⟨.unwind x, env, []⟩ w') :
    Delivers settings outside [] m w x env w' := by
  generalize hfinal : (⟨.unwind x, env, []⟩ : Machine σ) = final at run
  induction run with
  | none =>
      subst hfinal
      exact delivers_done
  | @more _ m _ _ _ _ _ step _ ih =>
      refine delivers_next ?_ step (ih hfinal)
      -- A machine that goes on is not at its end.
      rcases m with ⟨focus, env, stack⟩
      rintro ⟨⟨y, rfl⟩, rfl⟩
      cases step

end Steps

/-- The machine with frames beneath its own. -/
def above (base : List (Frame σ)) (m : Machine σ) : Machine σ :=
  ⟨m.focus, m.env, m.stack ++ base⟩

end Machine

/-- The machine that waits, with frames beneath all others. -/
def Suspension.above (base : List (Frame σ)) : Suspension σ → Suspension σ
  | ⟨[], env, stack⟩ => ⟨[], env, stack ++ base⟩
  | ⟨host :: hosts, env, stack⟩ =>
    ⟨{ host with stack := host.stack ++ base } :: hosts, env, stack⟩

theorem Suspension.resume_above (base : List (Frame σ)) (point : Suspension σ)
    (focus : Focus σ) : (point.above base).resume focus = (point.resume focus).above base := by
  obtain ⟨_ | ⟨host, hosts⟩, env, stack⟩ := point <;> rfl

/-- A step with frames beneath. -/
def Step.above (base : List (Frame σ)) : Step σ → Step σ
  | .next m => .next (m.above base)
  | .done x => .done x
  | .ask request point => .ask request (point.above base)

namespace Machine

section Above

variable (settings : Settings) (base : List (Frame σ)) (env : Context)
  (stack : List (Frame σ)) (w : World σ)

theorem applied_above (r : Except Defect (Effect σ) × World σ) :
    applied env (stack ++ base) r =
      ((applied env stack r).1.above base, (applied env stack r).2) := by
  rcases r with ⟨_ | _, _⟩ <;> rfl

theorem paused_above (span : Duration) (focus : Focus σ) :
    paused settings span focus env (stack ++ base) w =
      ((paused settings span focus env stack w).1.above base,
        (paused settings span focus env stack w).2) := by
  unfold paused
  split
  · rfl
  · split <;> rfl

/-- An effect does the same above more frames. -/
theorem evalStep_above (e : Effect σ) :
    evalStep settings e env (stack ++ base) w =
      ((evalStep settings e env stack w).1.above base, (evalStep settings e env stack w).2) := by
  -- A step of an effect looks at no frame, so it is the same above any of them.
  cases e with
  | exit thunk =>
      simp only [evalStep]
      split <;> rfl
  | suspend make => exact applied_above _ _ _ _
  | callback register =>
      simp only [evalStep]
      split <;> rfl
  | promise start =>
      simp only [evalStep]
      split <;> rfl
  | flatMap source next => rfl
  | fold source onSuccess onFailure => rfl
  | catchDefect source handler => rfl
  | recur source schedule mode filter => rfl
  | service key =>
      simp only [evalStep]
      split <;> rfl
  | provide source services => rfl
  | sleep span => exact paused_above _ _ _ _ _ _ _
  | timeout source limit =>
      simp only [evalStep]
      split <;> rfl
  | all children collect parallel =>
      simp only [evalStep]
      split
      · rfl
      · cases children <;> rfl
  | race children =>
      simp only [evalStep]
      split
      · rfl
      · cases children <;> rfl
  | gen body => rfl
  | announce event next => rfl

/-- A routine does the same above more frames. -/
theorem resumeStep_above (r : Act σ (Routine σ)) :
    resumeStep r env (stack ++ base) w =
      ((resumeStep r env stack w).1.above base, (resumeStep r env stack w).2) := by
  unfold resumeStep
  rcases w.guarded r with ⟨_ | routine, w₁⟩
  · rfl
  · cases routine with
    | sleep millis next =>
        dsimp only
        split <;> rfl
    | _ => rfl

theorem recurStep_above (r : Recurrence σ) (x : Outcome) :
    recurStep settings r x env (stack ++ base) w =
      ((recurStep settings r x env stack w).1.above base,
        (recurStep settings r x env stack w).2) := by
  unfold recurStep
  rcases wantsAgain r x w with ⟨_ | again, w₁⟩
  · rfl
  · cases again with
    | false => rfl
    | true =>
        dsimp only
        split
        · rfl
        · exact paused_above settings base env (_ :: stack) _ _ _

/-- The innermost frame takes an outcome in the same way above more frames. -/
theorem unwindStep_above (frame : Frame σ) (x : Outcome) :
    unwindStep settings frame x env (stack ++ base) w =
      ((unwindStep settings frame x env stack w).1.above base,
        (unwindStep settings frame x env stack w).2) := by
  -- A frame that is popped looks at none of those below it.
  cases frame with
  | recur r => exact recurStep_above _ _ _ _ _ _ _
  | all rest collect ends =>
      cases x <;> cases collect <;> cases rest <;> rfl
  | race rest =>
      cases x <;> cases rest <;> rfl
  | fold onSuccess onFailure =>
      cases x <;> cases onSuccess <;> cases onFailure <;>
        first | rfl | exact applied_above _ _ _ _
  | flatMap next => cases x <;> first | rfl | exact applied_above _ _ _ _
  | catchDefect handler => cases x <;> first | rfl | exact applied_above _ _ _ _
  | restore outer => rfl

/-- What a machine inside does is the same above more frames around it. -/
theorem Step.within_above (body : Body σ) (step : Step σ) :
    step.within body env (stack ++ base) = (step.within body env stack).above base := by
  cases step <;> rfl

end Above

section Runs

variable {settings : Settings} {n : Nat} {m m' : Machine σ} {w w' v : World σ}

/-- A machine that does not hand its outcome to the frames beneath it steps as it does without
    them. -/
theorem step_above_eq (base : List (Frame σ)) (busy : ¬ Handing [] m) :
    (m.above base).step settings w =
      ((m.step settings w).1.above base, (m.step settings w).2) := by
  rcases m with ⟨focus, env, stack⟩
  cases focus with
  | eval e => exact evalStep_above settings base env stack w e
  | resume r => exact resumeStep_above base env stack w r
  | within body inner env₁ stack₁ =>
      exact congrArg (·, _) (Step.within_above base env stack body _)
  | unwind x =>
      cases stack with
      | nil => exact absurd ⟨⟨x, rfl⟩, rfl⟩ busy
      | cons frame stack => exact unwindStep_above settings base env stack w frame x

/-- A step to another machine is taken above more frames as well. -/
theorem step_above (base : List (Frame σ)) (step : m.step settings w = (.next m', w')) :
    (m.above base).step settings w = (.next (m'.above base), w') := by
  have busy : ¬ Handing [] m := by
    rcases m with ⟨focus, env, stack⟩
    rintro ⟨⟨x, rfl⟩, rfl⟩
    cases step
  rw [step_above_eq base busy, step]
  rfl

/-- A machine in a row of others takes its own steps. -/
theorem step_inside (hosts : List (Host σ)) (step : m.step settings w = (.next m', w')) :
    (inside hosts m).step settings w = (.next (inside hosts m'), w') := by
  induction hosts with
  | nil => exact step
  | cons host hosts ih =>
      show ((inside hosts m).within host.body host.env host.stack).step settings w = _
      rw [step_within, ih]
      rfl

/-- What it asks for is asked for by all of them. -/
theorem step_inside_ask {request : Request σ} {point : Suspension σ} (hosts : List (Host σ))
    (asks : m.step settings w = (.ask request point, w')) :
    (inside hosts m).step settings w =
      (.ask request { point with hosts := hosts ++ point.hosts }, w') := by
  induction hosts with
  | nil => exact asks
  | cons host hosts ih =>
      show ((inside hosts m).within host.body host.env host.stack).step settings w = _
      rw [step_within, ih]
      rfl

theorem step_resume {request : Request σ} {point : Suspension σ} {focus : Focus σ}
    (asks : step settings ⟨focus, point.env, point.stack⟩ w =
      (.ask request ⟨[], point.env, point.stack⟩, w')) :
    (point.resume focus).step settings w = (.ask request point, w') := by
  have asks := step_inside_ask point.hosts asks
  rwa [List.append_nil] at asks

/-- A run of a machine inside is a run of those around it. -/
theorem Steps.inside (hosts : List (Host σ)) (run : Steps settings n m w m' w') :
    Steps settings n (inside hosts m) w (inside hosts m') w' := by
  induction run with
  | none => exact .none
  | more step _ ih => exact .more (step_inside hosts step) ih

/-- Frames beneath a run do not change it. -/
theorem Steps.above (base : List (Frame σ)) (run : Steps settings n m w m' w') :
    Steps settings n (m.above base) w (m'.above base) w' := by
  induction run with
  | none => exact .none
  | more step _ ih => exact .more (step_above base step) ih

/-- A way to surround machines: what a machine does, it does there as well, as long as it has not
    come to its end. -/
structure Surrounds (around : Machine σ → Machine σ) (points : Suspension σ → Suspension σ) :
    Prop where
  /-- A step to another machine. -/
  next : ∀ {settings m w m' w'}, m.step settings w = (.next m', w') →
    (around m).step settings w = (.next (around m'), w')
  /-- A request. -/
  ask : ∀ {settings m w request point w'}, m.step settings w = (.ask request point, w') →
    (around m).step settings w = (.ask request (points point), w')
  /-- A machine that has waited goes on there. -/
  resume : ∀ point focus, (points point).resume focus = around (point.resume focus)
  /-- The services that can be read where it waits are the same. -/
  env : ∀ point, (points point).env = point.env

theorem surrounds_within (body : Body σ) (env : Context) (stack : List (Frame σ)) :
    Surrounds (within body env stack) (Suspension.within body env stack) where
  next step := by rw [step_within, step]; rfl
  ask asks := by rw [step_within, asks]; rfl
  resume _ _ := rfl
  env _ := rfl

theorem surrounds_above (base : List (Frame σ)) :
    Surrounds (above base) (Suspension.above base) where
  next step := step_above base step
  ask {settings m w request point w'} asks := by
    have busy : ¬ Handing [] m := by
      rcases m with ⟨focus, env, stack⟩
      rintro ⟨⟨x, rfl⟩, rfl⟩
      cases asks
    rw [step_above_eq base busy, asks]
    rfl
  resume point focus := point.resume_above base focus
  env point := by obtain ⟨_ | _, _, _⟩ := point <;> rfl

theorem Surrounds.steps {around : Machine σ → Machine σ} {points : Suspension σ → Suspension σ}
    (surrounds : Surrounds around points) (run : Steps settings n m w m' w') :
    Steps settings n (around m) w (around m') w' := by
  induction run with
  | none => exact .none
  | more step _ ih => exact .more (surrounds.next step) ih

end Runs

section Retimed

variable {h h' : Bool} {m m' : Machine σ} {w w' v : World σ}

theorem applied_same {p q : Except Defect (Effect σ) × World σ} (same : SameBut p q)
    (env : Context) (stack : List (Frame σ)) :
    SameBut (applied env stack p) (applied env stack q) := by
  rcases p with ⟨r, w⟩
  rcases q with ⟨r', v⟩
  rcases same with ⟨rfl, hw⟩
  cases r <;> exact ⟨rfl, hw⟩

/-- A delay shows on the clock only. -/
theorem paused_same (hw : w.Agree v) (span : Duration) (focus : Focus σ) (env : Context)
    (stack : List (Frame σ)) :
    SameBut (paused ⟨.sync, h⟩ span focus env stack w)
      (paused ⟨.sync, h'⟩ span focus env stack v) := by
  unfold paused
  -- Whether the delay is waited out or not, the same machine goes on.
  generalize span.isZero = none
  cases none <;> cases h <;> cases h' <;> exact ⟨rfl, hw⟩

theorem evalStep_same (hw : w.Agree v) (e : Effect σ) (env : Context)
    (stack : List (Frame σ)) :
    SameBut (evalStep ⟨.sync, h⟩ e env stack w) (evalStep ⟨.sync, h'⟩ e env stack v) := by
  -- What is called runs on the store, on which both worlds agree; only a pause differs, by the
  -- clock.
  cases e with
  | exit thunk =>
      have same := hw.guarded thunk
      simp only [evalStep]
      generalize w.guarded thunk = p at same ⊢
      generalize v.guarded thunk = q at same ⊢
      rcases p with ⟨r, w₁⟩
      rcases q with ⟨r', v₁⟩
      rcases same with ⟨rfl, hw₁⟩
      cases r <;> exact ⟨rfl, hw₁⟩
  | suspend make => exact applied_same (hw.guarded make) env stack
  | service key =>
      simp only [evalStep]
      split <;> exact ⟨rfl, hw⟩
  | sleep span => exact paused_same hw _ _ _ _
  | all children collect parallel => cases parallel <;> exact ⟨rfl, hw⟩
  | announce event next => exact ⟨rfl, hw.report event⟩
  | _ => exact ⟨rfl, hw⟩

theorem resumeStep_same (hw : w.Agree v) (r : Act σ (Routine σ))
    (env : Context) (stack : List (Frame σ)) :
    SameBut (resumeStep r env stack w) (resumeStep r env stack v) := by
  have same := hw.guarded r
  unfold resumeStep
  -- Both calls give the same routine and worlds that agree.
  generalize w.guarded r = p at same ⊢
  generalize v.guarded r = q at same ⊢
  rcases p with ⟨result, w₁⟩
  rcases q with ⟨result', v₁⟩
  rcases same with ⟨rfl, hw₁⟩
  rcases result with d | routine
  · exact ⟨rfl, hw₁⟩
  · cases routine with
    | sleep millis next =>
        dsimp only
        split <;> exact ⟨rfl, hw₁⟩
    | _ => exact ⟨rfl, hw₁⟩

/-- Whether a source is run again does not depend on the time. -/
theorem wantsAgain_same (hw : w.Agree v) (r : Recurrence σ) (x : Outcome) :
    SameBut (wantsAgain r x w) (wantsAgain r x v) := by
  unfold wantsAgain
  split
  · split
    · exact hw.guarded _
    · exact ⟨rfl, hw⟩
  · exact ⟨rfl, hw⟩
  · exact ⟨rfl, hw⟩

theorem recurStep_same (hw : w.Agree v) (r : Recurrence σ) (x : Outcome) (env : Context)
    (stack : List (Frame σ)) :
    SameBut (recurStep ⟨.sync, h⟩ r x env stack w) (recurStep ⟨.sync, h'⟩ r x env stack v) := by
  have same := wantsAgain_same hw r x
  unfold recurStep
  -- Both decide alike whether to go on, and the delay is the same.
  generalize wantsAgain r x w = p at same ⊢
  generalize wantsAgain r x v = q at same ⊢
  rcases p with ⟨verdict, w₁⟩
  rcases q with ⟨verdict', v₁⟩
  rcases same with ⟨rfl, hw₁⟩
  rcases verdict with d | again
  · exact ⟨rfl, hw₁⟩
  · cases again with
    | false => exact ⟨rfl, hw₁⟩
    | true =>
        dsimp only
        split
        · exact ⟨rfl, hw₁.report _⟩
        · exact paused_same (hw₁.report _) _ _ _ _

theorem unwindStep_same (hw : w.Agree v) (frame : Frame σ) (x : Outcome) (env : Context)
    (stack : List (Frame σ)) :
    SameBut (unwindStep ⟨.sync, h⟩ frame x env stack w)
      (unwindStep ⟨.sync, h'⟩ frame x env stack v) := by
  cases frame with
  | recur r => exact recurStep_same hw r x env stack
  | fold onSuccess onFailure =>
      cases x <;> cases onSuccess <;> cases onFailure <;>
        first | exact ⟨rfl, hw⟩ | exact applied_same (hw.guarded _) env stack
  | flatMap next =>
      cases x <;> first | exact ⟨rfl, hw⟩ | exact applied_same (hw.guarded _) env stack
  | catchDefect handler =>
      cases x <;> first | exact ⟨rfl, hw⟩ | exact applied_same (hw.guarded _) env stack
  | _ => exact ⟨rfl, hw⟩

/-- A step on the spot does not look at the clock, and whether it waits out a delay shows
    there only. -/
theorem step_same (hw : w.Agree v) (m : Machine σ) :
    SameBut (m.step ⟨.sync, h⟩ w) (m.step ⟨.sync, h'⟩ v) := by
  rcases m with ⟨focus, env, stack⟩
  -- By induction on what the machine looks at: a machine inside takes the step.
  induction focus generalizing env stack with
  | eval e => exact evalStep_same hw e env stack
  | resume r => exact resumeStep_same hw r env stack
  | within body inner env₁ stack₁ ih =>
      obtain ⟨same, hw₁⟩ := ih env₁ stack₁
      exact ⟨congrArg (Step.within body env stack) same, hw₁⟩
  | unwind x =>
      cases stack with
      | nil => exact ⟨rfl, hw⟩
      | cons frame stack => exact unwindStep_same hw frame x env stack

/-- The time does not change a run on the spot. -/
theorem Steps.retimed {n : Nat} (run : Steps ⟨.sync, h⟩ n m w m' w') (hw : w.Agree v)
    (h' : Bool) : ∃ v', Steps ⟨.sync, h'⟩ n m v m' v' ∧ w'.Agree v' := by
  induction run generalizing v with
  | none => exact ⟨v, .none, hw⟩
  | @more n m w m₁ w₁ _ _ step _ ih =>
      have same : SameBut (m.step ⟨.sync, h⟩ w) (m.step ⟨.sync, h'⟩ v) := step_same hw m
      rw [step] at same
      rcases hstep : m.step ⟨.sync, h'⟩ v with ⟨s, v₁⟩
      rw [hstep] at same
      rcases same with ⟨rfl, hw₁⟩
      rcases ih hw₁ with ⟨v', rest, hv'⟩
      exact ⟨v', .more hstep rest, hv'⟩

end Retimed

end Machine

end EffectKernel
