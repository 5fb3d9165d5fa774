import EffectKernel.Proofs.Steps

/-!
# Single Steps

Steps that count in more than one place, each of them said once. They are steps at any machine that
has the node or the frame in question, whatever lies beneath it and in any world.

What can only end later than it begins dies where it stands in a run that may not suspend, and asks
for what it needs in one that may. Effects that could run side by side are run in order where they
cannot.

An outcome goes from frame to frame until one of them has something to do with it. Each kind of
frame waits for outcomes of its own, and hands on all others as they are (`Frame.LetsThrough`).

## Main definitions

* `Frame.LetsThrough`: A frame that hands on an outcome.

## Theorems

* `step_refused`, `step_asked`: The steps at what can only end later.
* `step_all`, `step_race`: The steps at effects that are run in order.
* `letsThrough_flatMap`, `letsThrough_fold`, `letsThrough_catchDefect`, `letsThrough_recur`,
  `letsThrough_all`, `letsThrough_race`: What each kind of frame hands on.
* `steps_past`: An outcome passes all frames that let it through.
-/

namespace EffectKernel

open Machine

variable {σ : Type}

/-! ### Nodes -/

section Nodes

variable {settings : Settings} {e : Effect σ} {env : Context} {stack : List (Frame σ)}
  {w : World σ}

/-- What can only end later dies where it stands, and nothing of it is begun. -/
theorem step_refused {what : String} (mode : settings.mode = .sync)
    (later : e.endsLater? = some what) :
    Machine.step settings ⟨.eval e, env, stack⟩ w =
      (.next ⟨.unwind (.die (.asyncInSync what)), env, stack⟩, w) := by
  rcases settings with ⟨_, h⟩
  cases mode
  cases e <;> cases later <;> rfl

/-- What has to ask asks if it may. -/
theorem step_asked {request : Request σ} (mode : settings.mode = .async)
    (asks : e.request? = some request) :
    Machine.step settings ⟨.eval e, env, stack⟩ w =
      (.ask request ⟨[], env, stack⟩, w) := by
  rcases settings with ⟨_, h⟩
  cases mode
  cases e with
  | all children collect parallel =>
      -- Of the effects that collect only those ask that do so side by side.
      cases parallel <;> cases asks
      rfl
  | _ => cases asks <;> rfl

/-- Effects that are collected run in order, or on the spot. -/
theorem step_all {children : List (Effect σ)} {collect : Collect} {parallel : Bool}
    (inOrder : parallel = false ∨ settings.mode = .sync) :
    Machine.step settings ⟨.eval (.all children collect parallel), env, stack⟩ w =
      (.next (startAll children collect env stack), w) := by
  rcases inOrder with rfl | mode
  · rfl
  · cases parallel <;> simp only [Machine.step, stepAt, evalStep, mode]

/-- Effects that race on the spot are tried in order. -/
theorem step_race {children : List (Effect σ)} (mode : settings.mode = .sync) :
    Machine.step settings ⟨.eval (.race children), env, stack⟩ w =
      (.next (startRace children env stack), w) := by
  simp only [Machine.step, stepAt, evalStep, mode]

end Nodes

/-! ### Outcomes on their way -/

/-- A frame that hands on an outcome and does nothing else. -/
def Frame.LetsThrough (frame : Frame σ) (x : Outcome) : Prop :=
  ∀ settings env stack w, Machine.step settings ⟨.unwind x, env, frame :: stack⟩ w =
    (.next ⟨.unwind x, env, stack⟩, w)

section Through

variable {x : Outcome}

/-- An outcome passes all frames that let it through. -/
theorem steps_past {settings : Settings} {frames : List (Frame σ)} {w : World σ}
    (through : ∀ frame ∈ frames, frame.LetsThrough x) (env : Context) (stack : List (Frame σ)) :
    Steps settings frames.length ⟨.unwind x, env, frames ++ stack⟩ w ⟨.unwind x, env, stack⟩ w := by
  induction frames with
  | nil => exact .none
  | cons frame rest ih =>
      rcases List.forall_mem_cons.1 through with ⟨first, others⟩
      exact .more (first settings env _ w) (ih others)

/-- What is no value is let through where a value is waited for. -/
theorem letsThrough_flatMap (noValue : x.isSuccess = false) (next : Value → Act σ (Effect σ)) :
    Frame.LetsThrough (.flatMap next) x := by
  intro settings env stack w
  cases x with
  | success v => cases noValue
  | fail e => rfl
  | die d => rfl

/-- Where there are handlers for values and for failures, everything is let through that there is
    none for. -/
theorem letsThrough_fold {onSuccess onFailure : Option (Value → Act σ (Effect σ))}
    (noValue : x.isSuccess = true → onSuccess = none)
    (noFailure : x.isFail = true → onFailure = none) :
    Frame.LetsThrough (.fold onSuccess onFailure) x := by
  intro settings env stack w
  cases x with
  | success v => rw [noValue rfl]; cases onFailure <;> rfl
  | fail e => rw [noFailure rfl]; cases onSuccess <;> rfl
  | die d => cases onSuccess <;> cases onFailure <;> rfl

theorem letsThrough_catchAll (noFailure : x.isFail = false) (h : Value → Act σ (Effect σ)) :
    Frame.LetsThrough (.fold none (some h)) x :=
  letsThrough_fold (fun _ => rfl) (by simp [noFailure])

/-- What is no defect is let through where defects are caught. -/
theorem letsThrough_catchDefect (noDefect : x.isDie = false)
    (handler : Defect → Act σ (Effect σ)) : Frame.LetsThrough (.catchDefect handler) x := by
  intro settings env stack w
  cases x with
  | success v => rfl
  | fail e => rfl
  | die d => cases noDefect

/-- An outcome is let through if no other run of the source is wanted after it. -/
theorem letsThrough_recur {r : Recurrence σ} (enough : ∀ w, wantsAgain r x w = (.ok false, w)) :
    Frame.LetsThrough (.recur r) x := by
  intro settings env stack w
  show recurStep settings r x env stack w = _
  rw [recurStep, enough]

theorem letsThrough_retry (noFailure : x.isFail = false) (e : Effect σ) (schedule : Schedule)
    (state : ScheduleState) (filter : Option (Value → Act σ Bool)) (attempt : UInt32) :
    Frame.LetsThrough (.recur ⟨e, schedule, state, .retry, filter, attempt⟩) x := by
  refine letsThrough_recur fun w => ?_
  cases x with
  | success v => rfl
  | fail e => cases noFailure
  | die d => rfl

theorem letsThrough_repeating (noValue : x.isSuccess = false) (e : Effect σ) (schedule : Schedule)
    (state : ScheduleState) (filter : Option (Value → Act σ Bool)) (attempt : UInt32) :
    Frame.LetsThrough (.recur ⟨e, schedule, state, .repeating, filter, attempt⟩) x := by
  refine letsThrough_recur fun w => ?_
  cases x with
  | success v => cases noValue
  | fail e => rfl
  | die d => rfl

/-- What is no value is let through where values are collected. -/
theorem letsThrough_all (noValue : x.isSuccess = false) (rest : List (Effect σ))
    (ends : List (Either Value Value)) : Frame.LetsThrough (.all rest .shortCircuit ends) x := by
  intro settings env stack w
  cases x with
  | success v => cases noValue
  | fail e => rfl
  | die d => rfl

/-- Defects are let through where anything is collected. -/
theorem letsThrough_all_die (rest : List (Effect σ)) (collect : Collect)
    (ends : List (Either Value Value)) (d : Defect) :
    Frame.LetsThrough (.all rest collect ends) (.die d) :=
  fun _ _ _ _ => by cases collect <;> rfl

/-- What is no failure settles which of several effects counts, and a failure does so if there is
    none left. -/
theorem letsThrough_race {rest : List (Effect σ)} (last : x.isFail = true → rest = []) :
    Frame.LetsThrough (.race rest) x := by
  intro settings env stack w
  cases x with
  | success v => cases rest <;> rfl
  | fail e => rw [last rfl]; rfl
  | die d => cases rest <;> rfl

end Through

end EffectKernel
