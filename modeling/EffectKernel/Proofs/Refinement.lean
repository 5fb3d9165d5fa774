import EffectKernel.Proofs.SingleSteps

/-!
# The Machine and the Evaluator

The machine computes what evaluation says, above any frames and from any services. A
machine that starts on an effect hands the base an outcome exactly if the effect
evaluates to it, in the same world, and when it does the services are those it started
with. A provide changes the services of the machine, and only the frame it pushes puts
them back, so this last part is what makes the services lexical: whichever way a source
is left, its frame is met on the way out.

From evaluation to the machine the proof goes along the derivation, one rule a step or
two. In the other direction there is no derivation yet, and the induction is on the
number of steps of the run. A run through a frame is split at the frame; both parts are
shorter than the whole, so both are evaluations already, and the rule for the node puts
them together.

The panic of a function that says how to go on is not a case of its own. Handing an
outcome to a frame that goes on takes the same step as a suspension of the function, so
runs of the one are runs of the other.

## Main definitions

* `Code.machine`: The machine that starts on a piece of a program.
* `Mirrored`: Short runs are evaluations.

## Theorems

* `delivers_of_evaluates`: An evaluation is a run above any base.
* `evaluates_of_completes`: A run above a base is an evaluation.
* `delivers_iff_evaluates`: Both, with the services put back.
* `evaluates_congr`: Evaluation depends on the services as a whole only.
* `machine_computes_evaluation`: The machine on an effect, above any frames, and what a
  service that is read there is.
-/

namespace EffectKernel

open Machine

variable {σ : Type}

/-- The machine that starts on a piece of a program, above a base. -/
def Code.machine (env : Context) (base : List (Frame σ)) : Code σ → Machine σ
  | .outcome x => ⟨.unwind x, env, base⟩
  | .effect e => ⟨.eval e, env, base⟩
  | .routine r => ⟨.resume r, env, base⟩
  | .recurring r => ⟨.eval r.source, env, .recur r :: base⟩
  | .collecting children collect ends =>
    match children with
    | [] => ⟨.unwind (.success (Outcome.toList ends.reverse)), env, base⟩
    | child :: rest => ⟨.eval child, env, .all rest collect ends :: base⟩
  | .trying child rest => ⟨.eval child, env, .race rest :: base⟩

theorem Code.machine_ofResumption (env : Context) (base : List (Frame σ))
    (resumption : Resumption σ) :
    (Code.ofResumption resumption).machine env base = ⟨resumption.focus, env, base⟩ := by
  cases resumption <;> rfl

theorem startAll_eq (children : List (Effect σ)) (collect : Collect) (env : Context)
    (base : List (Frame σ)) :
    startAll children collect env base =
      (Code.collecting children collect []).machine env base := by
  cases children <;> rfl

section Forward

variable {settings : Settings} {outside : Outside σ} {base : List (Frame σ)}
  {env env' : Context} {w w₁ w₂ w' : World σ} {x : Outcome}

/-- A pause that passes leads on. -/
theorem advances_paused {span : Duration} {focus : Focus σ} {m : Machine σ}
    {stack : List (Frame σ)}
    (step : m.step settings w = paused settings span focus env stack w₁)
    (pause : outside.Passes settings span w₁ w₂) :
    Advances settings outside m w ⟨focus, env, stack⟩ w₂ := by
  unfold paused at step
  unfold Outside.Passes at pause
  split at pause
  -- A delay that is free takes no time in either mode.
  next hfree =>
      subst pause
      rw [if_pos hfree] at step
      exact .next step
  next hpaid =>
      rw [if_neg hpaid] at step
      cases hmode : settings.mode with
      | sync =>
          simp only [hmode] at step pause
          subst pause
          exact .next step
      | async =>
          simp only [hmode] at step pause
          exact .replied step ⟨rfl, pause⟩

/-- A suspension and a frame that goes on with the same function lead to the same. -/
theorem delivers_applied {m : Machine σ} {make : Act σ (Effect σ)} (busy : ¬ m.Handing base)
    (step : m.step settings w = applied env base (w.guarded make))
    (made : Delivers settings outside base ⟨.eval (.suspend make), env, base⟩ w x env' w') :
    Delivers settings outside base m w x env' w' := by
  rcases made with ⟨n, hn⟩
  exact ⟨n, completes_congr hn not_handing_eval busy step⟩

/-- An outcome that a frame lets through is handed to the base. -/
theorem delivers_past {frame : Frame σ} (past : frame.LetsThrough x) :
    Delivers settings outside base ⟨.unwind x, env, frame :: base⟩ w x env w :=
  delivers_next not_handing_cons (past settings env base w) delivers_done

end Forward

/-- An evaluation is a run above any base, and the run puts the services back. -/
theorem delivers_of_evaluates {settings : Settings} {outside : Outside σ} {code : Code σ}
    {s : Surroundings} {w w' : World σ} {x : Outcome}
    (h : Evaluates settings outside code s w x w') (base : List (Frame σ)) :
    Delivers settings outside base (code.machine s.context base) w x s.context w' := by
  -- By induction on the evaluation, for all bases at once: the source of a node runs above
  -- the frame of the node, whose base is another one.
  induction h generalizing base with
  | outcome => exact delivers_done
  | exit call | exitPanic call =>
      refine delivers_next not_handing_eval ?_ delivers_done
      simp only [Code.machine, step, stepAt, evalStep, call]
  | suspend call _ ih =>
      refine delivers_next not_handing_eval ?_ (ih base)
      simp only [Code.machine, step, stepAt, evalStep, applied, call]
  | suspendPanic call =>
      refine delivers_next not_handing_eval ?_ delivers_done
      simp only [Code.machine, step, stepAt, evalStep, applied, call]
  | refused mode later =>
      exact delivers_next not_handing_eval (step_refused mode later) delivers_done
  | asked mode asks reply _ ih =>
      have goesOn := ih base
      rw [Code.machine_ofResumption] at goesOn
      exact delivers_reply not_handing_eval (step_asked mode asks)
        ((outside.replies_iff_answers asks).2 ⟨_, rfl, reply⟩) goesOn
  | promise mode _ ih =>
      refine delivers_next not_handing_eval ?_ (ih base)
      simp only [Code.machine, step, stepAt, evalStep, mode]
  | flatMap _ _ ihfirst ihthen =>
      refine delivers_next not_handing_eval rfl (delivers_through (ihfirst _) ?_)
      exact delivers_applied not_handing_cons rfl (ihthen base)
  | flatMapPass _ pass ih =>
      refine delivers_next not_handing_eval rfl (delivers_through (ih _) ?_)
      exact delivers_past (letsThrough_flatMap pass _)
  | foldSuccess _ _ ihfirst ihthen =>
      refine delivers_next not_handing_eval rfl (delivers_through (ihfirst _) ?_)
      exact delivers_applied not_handing_cons rfl (ihthen base)
  | @foldFailure source onSuccess onFailure s w e w₁ x w' _ _ ihfirst ihthen =>
      refine delivers_next not_handing_eval rfl (delivers_through (ihfirst _) ?_)
      refine delivers_applied not_handing_cons ?_ (ihthen base)
      cases onSuccess <;> rfl
  | foldPass _ noValue noFailure ih =>
      refine delivers_next not_handing_eval rfl (delivers_through (ih _) ?_)
      exact delivers_past (letsThrough_fold noValue noFailure)
  | catchDefect _ _ ihfirst ihthen =>
      refine delivers_next not_handing_eval rfl (delivers_through (ihfirst _) ?_)
      exact delivers_applied not_handing_cons rfl (ihthen base)
  | catchDefectPass _ pass ih =>
      refine delivers_next not_handing_eval rfl (delivers_through (ih _) ?_)
      exact delivers_past (letsThrough_catchDefect pass _)
  | recur _ ih => exact delivers_next not_handing_eval rfl (ih base)
  | recurringEnough _ verdict ih | recurringPanic _ verdict ih =>
      refine delivers_through (ih _) (delivers_next not_handing_cons ?_ delivers_done)
      simp only [step, stepAt, unwindStep, recurStep, verdict]
  | recurringExhausted _ verdict decision ih =>
      refine delivers_through (ih _) (delivers_next not_handing_cons ?_ delivers_done)
      simp only [step, stepAt, unwindStep, recurStep, verdict, decision]
  | recurringAgain _ verdict decision pause _ ih ihagain =>
      -- The next run begins above a frame that has counted on.
      refine delivers_through (ih _) (delivers_advance not_handing_cons
        (advances_paused ?_ pause) (ihagain base))
      simp only [step, stepAt, unwindStep, recurStep, verdict, decision]
  | @service key s w v found =>
      refine delivers_next not_handing_eval ?_ delivers_done
      simp only [Code.machine, step, stepAt, evalStep, s.get?_context, found]
  | @serviceMissing key s w missing =>
      refine delivers_next not_handing_eval ?_ delivers_done
      simp only [Code.machine, step, stepAt, evalStep, s.get?_context, missing]
  | provide _ ih =>
      -- The frame on top of the base is the one that puts the services back.
      refine delivers_next not_handing_eval rfl (delivers_through (ih _) ?_)
      exact delivers_next not_handing_cons rfl delivers_done
  | sleep pause => exact delivers_advance not_handing_eval (advances_paused rfl pause) delivers_done
  | all inOrder _ ih =>
      refine delivers_next not_handing_eval ?_ (ih base)
      rw [← startAll_eq]
      exact step_all inOrder
  | collected => exact delivers_done
  | @collectValue child rest collect ends s w v w₁ x w' _ _ ihfirst ihothers =>
      refine delivers_through (ihfirst _) (delivers_next not_handing_cons ?_ (ihothers base))
      cases rest <;> rfl
  | @collectFailure child rest ends s w e w₁ x w' _ _ ihfirst ihothers =>
      refine delivers_through (ihfirst _) (delivers_next not_handing_cons ?_ (ihothers base))
      cases rest <;> rfl
  | collectStop _ ih => exact delivers_through (ih _) (delivers_past (letsThrough_all rfl _ _))
  | collectDie _ ih =>
      exact delivers_through (ih _) (delivers_past (letsThrough_all_die _ _ _ _))
  | raceEmpty mode => exact delivers_next not_handing_eval (step_race mode) delivers_done
  | race mode _ ih => exact delivers_next not_handing_eval (step_race mode) (ih base)
  | tryNext _ _ ihfirst ihothers =>
      exact delivers_through (ihfirst _) (delivers_next not_handing_cons rfl (ihothers base))
  | tryEnd _ last ih => exact delivers_through (ih _) (delivers_past (letsThrough_race last))
  | gen _ ih | announce _ ih => exact delivers_next not_handing_eval rfl (ih base)
  | routinePanic call | routineDone call =>
      refine delivers_next not_handing_resume ?_ delivers_done
      simp only [Code.machine, step, stepAt, resumeStep, call]
  | @routineAwait r s w e env next w₁ y w₂ x w' call _ _ ihawaited ihgoOn =>
      -- What is awaited runs inside, above no frames, and then the routine goes on.
      have goesOn : Delivers settings outside base
          ((Machine.start e env).within next s.context base) w₁ x s.context w' :=
        delivers_within (ihawaited []) (ihgoOn base)
      refine delivers_next not_handing_resume ?_ goesOn
      simp only [Code.machine, step, stepAt, resumeStep, call]
  | @routineGiveWay r s w next w₁ w₂ x w' call turn _ ih =>
      have reply : outside.Replies (.giveWay (.resume next)) w₁ (.resume next)
          w₂ := ⟨rfl, turn⟩
      have asks : Machine.step settings ⟨.resume r, s.context, base⟩ w =
          (.ask (.giveWay (.resume next)) ⟨[], s.context, base⟩, w₁) := by
        simp only [step, stepAt, resumeStep, call]
      exact delivers_reply not_handing_resume asks reply (ih base)
  | @routineSleep r s w millis next w₁ w₂ x w' call pause _ ih =>
      split at pause
      next zero =>
          subst pause
          refine delivers_next not_handing_resume ?_ (ih base)
          simp only [Code.machine, step, stepAt, resumeStep, call, if_pos zero]
      next long =>
          have reply : outside.Replies (.pause (Duration.ofMillis millis) (.resume next))
              w₁ (.resume next) w₂ := ⟨rfl, pause⟩
          have asks : Machine.step settings ⟨.resume r, s.context, base⟩ w =
              (.ask (.pause (Duration.ofMillis millis) (.resume next)) ⟨[], s.context, base⟩,
                w₁) := by
            simp only [step, stepAt, resumeStep, call, if_neg long]
          exact delivers_reply not_handing_resume asks reply (ih base)

/-- Runs of fewer than so many steps are evaluations, and put the services back. -/
def Mirrored (settings : Settings) (outside : Outside σ) (n : Nat) : Prop :=
  ∀ k, k < n → ∀ (code : Code σ) (s : Surroundings) (base : List (Frame σ)) (w : World σ)
    (x : Outcome) (env : Context) (w' : World σ),
    Completes settings outside base k (code.machine s.context base) w x env w' →
      env = s.context ∧ Evaluates settings outside code s w x w'

section Backward

variable {settings : Settings} {outside : Outside σ} {base : List (Frame σ)}
  {s : Surroundings} {w w₁ w' : World σ} {x y : Outcome} {env : Context} {n k : Nat}

/-- A short run through a frame begins with an evaluation of the source. -/
theorem Mirrored.source (short : Mirrored settings outside n) (hk : k ≤ n)
    {source : Effect σ} {frame : Frame σ}
    (run : Completes settings outside base k ⟨.eval source, s.context, frame :: base⟩ w
      x env w') :
    ∃ k' y w₁, k' < n ∧ Evaluates settings outside (.effect source) s w y w₁ ∧
      Completes settings outside base k' ⟨.unwind y, s.context, frame :: base⟩ w₁ x env w' := by
  rcases completes_split run (List.suffix_refl _) with
    ⟨k₁, k₂, y, env₁, w₁, hsum, hfirst, hsecond⟩
  -- Neither part is empty, so each of them is shorter than the whole.
  have hpos₁ := completes_pos hfirst not_handing_eval
  have hpos₂ := completes_pos hsecond not_handing_cons
  rcases short k₁ (by omega) (.effect source) s (frame :: base) w y env₁ w₁ hfirst with
    ⟨rfl, hsource⟩
  exact ⟨k₂, y, w₁, by omega, hsource, hsecond⟩

/-- A short run whose step goes on with a piece of the program. -/
theorem Mirrored.next (short : Mirrored settings outside n) (hk : k ≤ n) {code : Code σ}
    {m : Machine σ} (run : Completes settings outside base k m w x env w')
    (busy : ¬ m.Handing base)
    (step : m.step settings w = (.next (code.machine s.context base), w₁)) :
    env = s.context ∧ Evaluates settings outside code s w₁ x w' := by
  rcases completes_next run busy step with ⟨k, rfl, rest⟩
  exact short k (by omega) code s base w₁ x env w' rest

/-- A short run whose step asks, and that goes on with what it gets as with a piece of the
    program. -/
theorem Mirrored.reply (short : Mirrored settings outside n) (hk : k ≤ n) {request : Request σ}
    {m : Machine σ} (run : Completes settings outside base k m w x env w')
    (busy : ¬ m.Handing base)
    (step : m.step settings w = (.ask request ⟨[], s.context, base⟩, w₁)) :
    ∃ focus w₂, outside.Replies request w₁ focus w₂ ∧
      ∀ code : Code σ, code.machine s.context base = ⟨focus, s.context, base⟩ →
        env = s.context ∧ Evaluates settings outside code s w₂ x w' := by
  rcases completes_ask run busy step with ⟨k, focus, w₂, rfl, reply, rest⟩
  refine ⟨focus, w₂, reply, fun code starts => ?_⟩
  exact short k (by omega) code s base w₂ x env w' (starts ▸ rest)

/-- A short run that goes on with what a function makes is a suspension. -/
theorem Mirrored.applied (short : Mirrored settings outside n) (hk : k < n)
    {m : Machine σ} {make : Act σ (Effect σ)}
    (run : Completes settings outside base k m w x env w') (busy : ¬ m.Handing base)
    (step : m.step settings w = Machine.applied s.context base (w.guarded make)) :
    env = s.context ∧ Evaluates settings outside (.effect (.suspend make)) s w x w' :=
  short k hk (.effect (.suspend make)) s base w x env w'
    (completes_congr run busy not_handing_eval step.symm)

/-- A short run whose step hands on an outcome ends there. -/
theorem ends_of_step (s : Surroundings) (y : Outcome) (w₁ : World σ) {m : Machine σ}
    (run : Completes settings outside base k m w x env w') (busy : ¬ m.Handing base)
    (step : m.step settings w = (.next ⟨.unwind y, s.context, base⟩, w₁)) :
    x = y ∧ env = s.context ∧ w' = w₁ := by
  rcases completes_next run busy step with ⟨k, rfl, hrest⟩
  exact completes_handing hrest

/-- So does one whose outcome the frame lets through. -/
theorem ends_past {frame : Frame σ} (past : frame.LetsThrough y)
    (run : Completes settings outside base k ⟨.unwind y, s.context, frame :: base⟩ w x env w') :
    x = y ∧ env = s.context ∧ w' = w :=
  ends_of_step s y w run not_handing_cons (past settings s.context base w)

/-- A run that pauses goes on after the delay has passed. -/
theorem completes_paused {m : Machine σ} {span : Duration} {focus : Focus σ}
    {env₁ : Context} {stack : List (Frame σ)}
    (run : Completes settings outside base n m w x env w') (busy : ¬ m.Handing base)
    (step : m.step settings w = paused settings span focus env₁ stack w₁) :
    ∃ k w₂, n = k + 1 ∧ outside.Passes settings span w₁ w₂ ∧
      Completes settings outside base k ⟨focus, env₁, stack⟩ w₂ x env w' := by
  unfold paused at step
  unfold Outside.Passes
  -- Free of charge it is one step; otherwise the clock is moved on the spot, or the fiber asks for
  -- the pause.
  by_cases hfree : (span.isZero || !settings.honorDelays) = true
  · rw [if_pos hfree] at step
    rcases completes_next run busy step with ⟨k, rfl, hrest⟩
    exact ⟨k, w₁, rfl, by rw [if_pos hfree], hrest⟩
  · rw [if_neg hfree] at step
    cases hmode : settings.mode with
    | sync =>
        simp only [hmode] at step
        rcases completes_next run busy step with ⟨k, rfl, hrest⟩
        exact ⟨k, _, rfl, by rw [if_neg hfree], hrest⟩
    | async =>
        simp only [hmode] at step
        rcases completes_ask run busy step with ⟨k, focus', w₂, rfl, ⟨rfl, hwait⟩, hrest⟩
        exact ⟨k, w₂, rfl, by rw [if_neg hfree]; exact hwait, hrest⟩

/-- A run from the beginning of a run of a recurring source. -/
theorem Mirrored.recurring (short : Mirrored settings outside n) {r : Recurrence σ}
    (run : Completes settings outside base n ((Code.recurring r).machine s.context base) w
      x env w') :
    env = s.context ∧ Evaluates settings outside (.recurring r) s w x w' := by
  rcases short.source (Nat.le_refl _) run with ⟨k, y, w₁, hk, hsource, hrest⟩
  -- The frame asks the filter first, and the schedule only if the filter wants a run.
  rcases hverdict : wantsAgain r y w₁ with ⟨verdict, w₂⟩
  rcases verdict with d | again
  · -- The filter panicked.
    rcases ends_of_step s (.die d) w₂ hrest not_handing_cons
      (by simp only [step, stepAt, unwindStep, recurStep, hverdict]) with ⟨rfl, rfl, rfl⟩
    exact ⟨rfl, .recurringPanic hsource hverdict⟩
  · cases again with
    | false =>
        rcases ends_of_step s y w₂ hrest not_handing_cons
          (by simp only [step, stepAt, unwindStep, recurStep, hverdict]) with ⟨rfl, rfl, rfl⟩
        exact ⟨rfl, .recurringEnough hsource hverdict⟩
    | true =>
        cases hdecision : r.schedule.step r.state with
        | stop =>
            rcases ends_of_step s y (w₂.report (.scheduleExhausted r.attempt)) hrest
              not_handing_cons
              (by simp only [step, stepAt, unwindStep, recurStep, hverdict, hdecision]) with
              ⟨rfl, rfl, rfl⟩
            exact ⟨rfl, .recurringExhausted hsource hverdict hdecision⟩
        | again delay state =>
            have hstep : Machine.step settings ⟨.unwind y, s.context, .recur r :: base⟩ w₁ =
                paused settings delay (.eval r.source) s.context
                  (.recur { r with state := state, attempt := saturatingSucc r.attempt } :: base)
                  (w₂.report (againEvent r.mode r.attempt delay)) := by
              simp only [step, stepAt, unwindStep, recurStep, hverdict, hdecision]
            rcases completes_paused hrest not_handing_cons hstep with
              ⟨k', w₃, rfl, hpause, hagain⟩
            -- The frame with its count advanced is what a recurring source begins with.
            let r' := { r with state := state, attempt := saturatingSucc r.attempt }
            rcases short k' (by omega) (.recurring r') s base w₃ x env w' hagain with
              ⟨rfl, hruns⟩
            exact ⟨rfl, .recurringAgain hsource hverdict hdecision hpause hruns⟩

/-- A run from some child of a collecting effect on. -/
theorem Mirrored.collecting (short : Mirrored settings outside n)
    {children : List (Effect σ)} {collect : Collect} {ends : List (Either Value Value)}
    (run : Completes settings outside base n
      ((Code.collecting children collect ends).machine s.context base) w x env w') :
    env = s.context ∧
      Evaluates settings outside (.collecting children collect ends) s w x w' := by
  cases children with
  | nil =>
      rcases completes_handing run with ⟨rfl, rfl, rfl⟩
      exact ⟨rfl, .collected⟩
  | cons child rest =>
      rcases short.source (Nat.le_refl _) run with ⟨k, y, w₁, hk, hchild, hrest⟩
      -- A child that does not decide the whole leaves the others to be run.
      have goesOn (ends' : List (Either Value Value))
          (step : Machine.step settings ⟨.unwind y, s.context, .all rest collect ends :: base⟩ w₁ =
            (.next ((Code.collecting rest collect ends').machine s.context base), w₁)) :
          env = s.context ∧
            Evaluates settings outside (.collecting rest collect ends') s w₁ x w' :=
        short.next (Nat.le_of_lt hk) hrest not_handing_cons step
      cases y with
      | success v =>
          rcases goesOn (.right v :: ends) (by cases rest <;> rfl) with ⟨rfl, hothers⟩
          exact ⟨rfl, .collectValue hchild hothers⟩
      | fail e =>
          cases collect with
          | shortCircuit =>
              rcases ends_past (letsThrough_all rfl rest ends) hrest with ⟨rfl, rfl, rfl⟩
              exact ⟨rfl, .collectStop hchild⟩
          | every =>
              rcases goesOn (.left e :: ends) (by cases rest <;> rfl) with ⟨rfl, hothers⟩
              exact ⟨rfl, .collectFailure hchild hothers⟩
      | die d =>
          rcases ends_past (letsThrough_all_die rest collect ends d) hrest with ⟨rfl, rfl, rfl⟩
          exact ⟨rfl, .collectDie hchild⟩

/-- A run from some child of a race on. -/
theorem Mirrored.trying (short : Mirrored settings outside n) {child : Effect σ}
    {rest : List (Effect σ)}
    (run : Completes settings outside base n
      ((Code.trying child rest).machine s.context base) w x env w') :
    env = s.context ∧ Evaluates settings outside (.trying child rest) s w x w' := by
  rcases short.source (Nat.le_refl _) run with ⟨k, y, w₁, hk, hchild, hrest⟩
  -- A child that does not fail ends the race, and the last one does so anyway.
  have ended (last : y.isFail = true → rest = []) :
      env = s.context ∧ Evaluates settings outside (.trying child rest) s w x w' := by
    rcases ends_past (letsThrough_race last) hrest with ⟨rfl, rfl, rfl⟩
    exact ⟨rfl, .tryEnd hchild last⟩
  rcases y.isFail_or_eq_fail with noFailure | ⟨e, rfl⟩
  · exact ended (by simp [noFailure])
  · cases rest with
    | nil => exact ended fun _ => rfl
    | cons next rest =>
        -- What is run next is again a race, of the children that are left.
        have others : env = s.context ∧ Evaluates settings outside (.trying next rest) s w₁ x w' :=
          short.next (Nat.le_of_lt hk) hrest not_handing_cons rfl
        exact ⟨others.1, .tryNext hchild others.2⟩

/-- A run from some point of a routine on. -/
theorem Mirrored.routine (short : Mirrored settings outside n) {r : Act σ (Routine σ)}
    (run : Completes settings outside base n ((Code.routine r).machine s.context base) w
      x env w') :
    env = s.context ∧ Evaluates settings outside (.routine r) s w x w' := by
  rcases hcall : w.guarded r with ⟨result, w₁⟩
  rcases result with d | routine
  · rcases ends_of_step s (.die d) w₁ run not_handing_resume
      (by simp only [Code.machine, step, stepAt, resumeStep, hcall]) with ⟨rfl, rfl, rfl⟩
    exact ⟨rfl, .routinePanic hcall⟩
  · cases routine with
    | done y =>
        rcases ends_of_step s y w₁ run not_handing_resume
          (by simp only [Code.machine, step, stepAt, resumeStep, hcall]) with ⟨rfl, rfl, rfl⟩
        exact ⟨rfl, .routineDone hcall⟩
    | await e inner next =>
        have hstep : Machine.step settings ((Code.routine r).machine s.context base) w =
            (.next ((Machine.start e inner).within next s.context base), w₁) := by
          simp only [Code.machine, step, stepAt, resumeStep, hcall]
        rcases completes_next run not_handing_resume hstep with ⟨k, rfl, hrest⟩
        -- The machine inside runs for a while, and what is left is a run of the routine.
        rcases completes_within hrest with ⟨k₁, k₂, y, env₁, w₂, hsum, hfirst, hsecond⟩
        rcases short k₁ (by omega) (.effect e) (.of inner) [] w₁ y env₁ w₂ hfirst with ⟨-, hawaited⟩
        rcases short k₂ (by omega) (.routine (next y)) s base w₂ x env w' hsecond with
          ⟨rfl, goesOn⟩
        exact ⟨rfl, .routineAwait hcall hawaited goesOn⟩
    | giveWay next =>
        have hstep : Machine.step settings ((Code.routine r).machine s.context base) w =
            (.ask (.giveWay (.resume next)) ⟨[], s.context, base⟩, w₁) := by
          simp only [Code.machine, step, stepAt, resumeStep, hcall]
        rcases short.reply (Nat.le_refl _) run not_handing_resume hstep with
          ⟨focus, w₂, ⟨rfl, turn⟩, further⟩
        rcases further (.routine next) rfl with ⟨rfl, goesOn⟩
        exact ⟨rfl, .routineGiveWay hcall turn goesOn⟩
    | sleep millis next =>
        by_cases zero : millis = 0
        · have goesOn : env = s.context ∧ Evaluates settings outside (.routine next) s w₁ x w' :=
            short.next (Nat.le_refl _) run not_handing_resume
              (by simp only [Code.machine, step, stepAt, resumeStep, hcall, if_pos zero])
          exact ⟨goesOn.1, .routineSleep hcall (by rw [if_pos zero]) goesOn.2⟩
        · have hstep : Machine.step settings ((Code.routine r).machine s.context base) w =
              (.ask (.pause (Duration.ofMillis millis) (.resume next))
                ⟨[], s.context, base⟩, w₁) := by
            simp only [Code.machine, step, stepAt, resumeStep, hcall, if_neg zero]
          rcases short.reply (Nat.le_refl _) run not_handing_resume hstep with
            ⟨focus, w₂, ⟨rfl, wait⟩, further⟩
          rcases further (.routine next) rfl with ⟨rfl, goesOn⟩
          exact ⟨rfl, .routineSleep hcall (by rwa [if_neg zero]) goesOn⟩

/-- A run from an effect that is refused. -/
theorem refused_of_completes {e : Effect σ} {what : String} (mode : settings.mode = .sync)
    (later : e.endsLater? = some what)
    (run : Completes settings outside base n ((Code.effect e).machine s.context base) w
      x env w') :
    env = s.context ∧ Evaluates settings outside (.effect e) s w x w' := by
  rcases ends_of_step s _ w run not_handing_eval (step_refused mode later) with ⟨rfl, rfl, rfl⟩
  exact ⟨rfl, .refused mode later⟩

/-- A run from an effect that asks the outside first. -/
theorem Mirrored.asking (short : Mirrored settings outside n) {e : Effect σ}
    {request : Request σ} (mode : settings.mode = .async) (asks : e.request? = some request)
    (run : Completes settings outside base n ((Code.effect e).machine s.context base) w
      x env w') :
    env = s.context ∧ Evaluates settings outside (.effect e) s w x w' := by
  rcases short.reply (Nat.le_refl _) run not_handing_eval (step_asked mode asks) with
    ⟨focus, w₂, reply, further⟩
  rcases (outside.replies_iff_answers asks).1 reply with ⟨resumption, rfl, answer⟩
  rcases further (.ofResumption resumption) (Code.machine_ofResumption ..) with ⟨rfl, goesOn⟩
  exact ⟨rfl, .asked mode asks answer goesOn⟩

/-- A run from an effect that waits for a value. -/
theorem Mirrored.flatMap (short : Mirrored settings outside n) {source : Effect σ}
    {next : Value → Act σ (Effect σ)}
    (run : Completes settings outside base n
      ((Code.effect (.flatMap source next)).machine s.context base) w x env w') :
    env = s.context ∧ Evaluates settings outside (.effect (.flatMap source next)) s w x w' := by
  rcases completes_next run not_handing_eval rfl with ⟨k, rfl, hrest⟩
  rcases short.source (Nat.le_succ k) hrest with ⟨k', y, w₁, hk, hsource, hframe⟩
  -- Anything but a value passes the frame unchanged.
  have passed (noValue : y.isSuccess = false) :
      env = s.context ∧ Evaluates settings outside (.effect (.flatMap source next)) s w x w' := by
    rcases ends_past (letsThrough_flatMap noValue next) hframe with ⟨rfl, rfl, rfl⟩
    exact ⟨rfl, .flatMapPass hsource noValue⟩
  cases y with
  | success v =>
      rcases short.applied hk hframe not_handing_cons rfl with ⟨rfl, hthen⟩
      exact ⟨rfl, .flatMap hsource hthen⟩
  | fail e => exact passed rfl
  | die d => exact passed rfl

/-- A run from an effect with handlers for values and for failures. -/
theorem Mirrored.fold (short : Mirrored settings outside n) {source : Effect σ}
    {onSuccess onFailure : Option (Value → Act σ (Effect σ))}
    (run : Completes settings outside base n
      ((Code.effect (.fold source onSuccess onFailure)).machine s.context base) w x env w') :
    env = s.context ∧
      Evaluates settings outside (.effect (.fold source onSuccess onFailure)) s w x w' := by
  rcases completes_next run not_handing_eval rfl with ⟨k, rfl, hrest⟩
  rcases short.source (Nat.le_succ k) hrest with ⟨k', y, w₁, hk, hsource, hframe⟩
  -- Without a handler for how the source has ended, the frame only goes away.
  have passed (noValue : y.isSuccess = true → onSuccess = none)
      (noFailure : y.isFail = true → onFailure = none) :
      env = s.context ∧
        Evaluates settings outside (.effect (.fold source onSuccess onFailure)) s w x w' := by
    rcases ends_past (letsThrough_fold noValue noFailure) hframe with ⟨rfl, rfl, rfl⟩
    exact ⟨rfl, .foldPass hsource noValue noFailure⟩
  cases y with
  | success v =>
      cases onSuccess with
      | none => exact passed (fun _ => rfl) nofun
      | some next =>
          rcases short.applied hk hframe not_handing_cons rfl with ⟨rfl, hthen⟩
          exact ⟨rfl, .foldSuccess hsource hthen⟩
  | fail e =>
      cases onFailure with
      | none => exact passed nofun fun _ => rfl
      | some next =>
          rcases short.applied hk hframe not_handing_cons (by cases onSuccess <;> rfl) with
            ⟨rfl, hthen⟩
          exact ⟨rfl, .foldFailure hsource hthen⟩
  | die d => exact passed nofun nofun

/-- A run from an effect whose defects are caught. -/
theorem Mirrored.catchDefect (short : Mirrored settings outside n) {source : Effect σ}
    {handler : Defect → Act σ (Effect σ)}
    (run : Completes settings outside base n
      ((Code.effect (.catchDefect source handler)).machine s.context base) w x env w') :
    env = s.context ∧
      Evaluates settings outside (.effect (.catchDefect source handler)) s w x w' := by
  rcases completes_next run not_handing_eval rfl with ⟨k, rfl, hrest⟩
  rcases short.source (Nat.le_succ k) hrest with ⟨k', y, w₁, hk, hsource, hframe⟩
  -- Anything but a defect passes the frame unchanged.
  have passed (noDefect : y.isDie = false) : env = s.context ∧
      Evaluates settings outside (.effect (.catchDefect source handler)) s w x w' := by
    rcases ends_past (letsThrough_catchDefect noDefect handler) hframe with ⟨rfl, rfl, rfl⟩
    exact ⟨rfl, .catchDefectPass hsource noDefect⟩
  cases y with
  | success v => exact passed rfl
  | fail e => exact passed rfl
  | die d =>
      rcases short.applied hk hframe not_handing_cons rfl with ⟨rfl, hthen⟩
      exact ⟨rfl, .catchDefect hsource hthen⟩

/-- A run from an effect that collects others, in order or side by side. -/
theorem Mirrored.all (short : Mirrored settings outside n) {children : List (Effect σ)}
    {collect : Collect} {parallel : Bool}
    (run : Completes settings outside base n
      ((Code.effect (.all children collect parallel)).machine s.context base) w x env w') :
    env = s.context ∧
      Evaluates settings outside (.effect (.all children collect parallel)) s w x w' := by
  -- One after the other, unless the children are parallel in a fiber, which is asked for from
  -- outside.
  have ordered (inOrder : parallel = false ∨ settings.mode = .sync) : env = s.context ∧
      Evaluates settings outside (.effect (.all children collect parallel)) s w x w' := by
    have collected : env = s.context ∧
        Evaluates settings outside (.collecting children collect []) s w x w' :=
      short.next (Nat.le_refl _) run not_handing_eval
        (by rw [← startAll_eq]; exact step_all inOrder)
    exact ⟨collected.1, .all inOrder collected.2⟩
  cases parallel with
  | false => exact ordered (.inl rfl)
  | true =>
      cases mode : settings.mode with
      | sync => exact ordered (.inr mode)
      | async => exact short.asking mode rfl run

/-- A run from a race. -/
theorem Mirrored.race (short : Mirrored settings outside n) {children : List (Effect σ)}
    (run : Completes settings outside base n
      ((Code.effect (.race children)).machine s.context base) w x env w') :
    env = s.context ∧ Evaluates settings outside (.effect (.race children)) s w x w' := by
  -- In a fiber a race is asked for from outside; on the spot it tries its children in turn.
  cases mode : settings.mode with
  | async => exact short.asking mode rfl run
  | sync =>
      cases children with
      | nil =>
          rcases ends_of_step s (.die .emptyRace) w run not_handing_eval (step_race mode) with
            ⟨rfl, rfl, rfl⟩
          exact ⟨rfl, .raceEmpty mode⟩
      | cons child rest =>
          have tried : env = s.context ∧ Evaluates settings outside (.trying child rest) s w x w' :=
            short.next (Nat.le_refl _) run not_handing_eval (step_race mode)
          exact ⟨tried.1, .race mode tried.2⟩

/-- A run from an effect on. -/
theorem Mirrored.effect (short : Mirrored settings outside n) {e : Effect σ}
    (run : Completes settings outside base n ((Code.effect e).machine s.context base) w
      x env w') :
    env = s.context ∧ Evaluates settings outside (.effect e) s w x w' := by
  have busy : ¬ Handing base ((Code.effect e).machine s.context base) := not_handing_eval
  -- Most nodes go on with one piece of the program, which is a shorter run.
  have next {code : Code σ} {w₁ : World σ}
      (step : Machine.step settings ((Code.effect e).machine s.context base) w =
        (.next (code.machine s.context base), w₁)) :
      env = s.context ∧ Evaluates settings outside code s w₁ x w' :=
    short.next (Nat.le_refl _) run busy step
  cases e with
  | exit thunk =>
      rcases hcall : w.guarded thunk with ⟨d | y, w₁⟩
      · rcases ends_of_step s (.die d) w₁ run busy
          (by simp only [Code.machine, step, stepAt, evalStep, hcall]) with ⟨rfl, rfl, rfl⟩
        exact ⟨rfl, .exitPanic hcall⟩
      · rcases ends_of_step s y w₁ run busy
          (by simp only [Code.machine, step, stepAt, evalStep, hcall]) with ⟨rfl, rfl, rfl⟩
        exact ⟨rfl, .exit hcall⟩
  | suspend make =>
      rcases hcall : w.guarded make with ⟨d | e, w₁⟩
      · rcases ends_of_step s (.die d) w₁ run busy
          (by simp only [Code.machine, step, stepAt, evalStep, Machine.applied, hcall]) with
          ⟨rfl, rfl, rfl⟩
        exact ⟨rfl, .suspendPanic hcall⟩
      · have made : env = s.context ∧ Evaluates settings outside (.effect e) s w₁ x w' :=
          next (by simp only [Code.machine, step, stepAt, evalStep, Machine.applied, hcall])
        exact ⟨made.1, .suspend hcall made.2⟩
  | callback register =>
      cases mode : settings.mode with
      | sync => exact refused_of_completes mode rfl run
      | async => exact short.asking mode rfl run
  | promise start =>
      cases mode : settings.mode with
      | sync => exact refused_of_completes mode rfl run
      | async =>
          have begun : env = s.context ∧ Evaluates settings outside (.routine start) s w x w' :=
            next (by simp only [Code.machine, step, stepAt, evalStep, mode])
          exact ⟨begun.1, .promise mode begun.2⟩
  | flatMap source then' => exact short.flatMap run
  | fold source onSuccess onFailure => exact short.fold run
  | catchDefect source handler => exact short.catchDefect run
  | recur source schedule mode filter =>
      have runs : env = s.context ∧ Evaluates settings outside
          (.recurring ⟨source, schedule, schedule.initial, mode, filter, 1⟩) s w x w' := next rfl
      exact ⟨runs.1, .recur runs.2⟩
  | service key =>
      cases found : s.lookup key with
      | none =>
          rcases ends_of_step s (.die (.missingService key.name)) w run busy
            (by simp only [Code.machine, step, stepAt, evalStep, s.get?_context, found]) with
            ⟨rfl, rfl, rfl⟩
          exact ⟨rfl, .serviceMissing found⟩
      | some v =>
          rcases ends_of_step s (.success v) w run busy
            (by simp only [Code.machine, step, stepAt, evalStep, s.get?_context, found]) with
            ⟨rfl, rfl, rfl⟩
          exact ⟨rfl, .service found⟩
  | provide source services =>
      rcases completes_next run busy rfl with ⟨k, rfl, hrest⟩
      -- Inside, the machine runs with the services merged; its frame puts the others back.
      change Completes settings outside base k
        ⟨.eval source, (s.inside services).context, .restore s.context :: base⟩ w
          x env w' at hrest
      rcases short.source (Nat.le_succ k) hrest with ⟨k', y, w₁, hk, hsource, hframe⟩
      rcases ends_of_step s y w₁ hframe not_handing_cons rfl with ⟨rfl, rfl, rfl⟩
      exact ⟨rfl, .provide hsource⟩
  | sleep span =>
      rcases completes_paused run busy rfl with ⟨k, w₂, rfl, hpause, hrest⟩
      rcases completes_handing hrest with ⟨rfl, rfl, rfl⟩
      exact ⟨rfl, .sleep hpause⟩
  | timeout source limit =>
      cases mode : settings.mode with
      | sync => exact refused_of_completes mode rfl run
      | async => exact short.asking mode rfl run
  | all children collect parallel => exact short.all run
  | race children => exact short.race run
  | gen body =>
      have goesOn : env = s.context ∧
          Evaluates settings outside (.routine (body s.context)) s w x w' := next rfl
      exact ⟨goesOn.1, .gen goesOn.2⟩
  | announce event following =>
      have goesOn : env = s.context ∧
          Evaluates settings outside (.effect following) s (w.report event) x w' := next rfl
      exact ⟨goesOn.1, .announce goesOn.2⟩

end Backward

/-- A run above a base is an evaluation, and puts the services back. -/
theorem evaluates_of_completes (settings : Settings) (outside : Outside σ) (n : Nat) :
    Mirrored settings outside (n + 1) := by
  induction n using Nat.strongRecOn with
  | ind n ih =>
    -- What is known of shorter runs is what the induction gives.
    have short : Mirrored settings outside n := by
      intro k hk
      exact ih k hk k (Nat.lt_succ_self k)
    intro k hk code s base w x env w' run
    rcases Nat.lt_or_eq_of_le (Nat.le_of_lt_succ hk) with hlt | rfl
    · exact short k hlt code s base w x env w' run
    · cases code with
      | outcome y =>
          rcases completes_handing run with ⟨rfl, rfl, rfl⟩
          exact ⟨rfl, .outcome⟩
      | effect e => exact short.effect run
      | routine r => exact short.routine run
      | recurring r => exact short.recurring run
      | collecting children collect ends => exact short.collecting run
      | trying child rest => exact short.trying run

/-- The machine hands an outcome to a base exactly if the piece of a program it started
    on evaluates to it, and it does so with the services it started with. -/
theorem delivers_iff_evaluates {settings : Settings} {outside : Outside σ} {code : Code σ}
    {s : Surroundings} {base : List (Frame σ)} {w w' : World σ} {x : Outcome}
    {env : Context} :
    Delivers settings outside base (code.machine s.context base) w x env w' ↔
      env = s.context ∧ Evaluates settings outside code s w x w' := by
  constructor
  · rintro ⟨n, hn⟩
    exact evaluates_of_completes settings outside n n (Nat.lt_succ_self n) code s base w x env
      w' hn
  · rintro ⟨rfl, h⟩
    exact delivers_of_evaluates h base

/-- Which provides the services come from does not matter, only what they are. -/
theorem evaluates_congr {settings : Settings} {outside : Outside σ} {code : Code σ}
    {s s' : Surroundings} {w w' : World σ} {x : Outcome} (same : s.context = s'.context)
    (h : Evaluates settings outside code s w x w') :
    Evaluates settings outside code s' w x w' := by
  have hrun := delivers_of_evaluates h []
  rw [same] at hrun
  exact (delivers_iff_evaluates.1 hrun).2

/-- The machine that starts on an effect above any frames gets back to exactly these
    frames, with an outcome and in a world, if and only if the effect evaluates to that
    outcome in that world, and the services are then those it started with. What it reads
    as a service is what the innermost enclosing provide has under the key, and what the
    run began with if none of them has it. -/
theorem machine_computes_evaluation (settings : Settings) (outside : Outside σ)
    (e : Effect σ) (s : Surroundings) (base : List (Frame σ)) (w w' : World σ) (x : Outcome)
    (env : Context) :
    (Delivers settings outside base ⟨.eval e, s.context, base⟩ w x env w' ↔
      env = s.context ∧ Evaluates settings outside (.effect e) s w x w') ∧
    ∀ key, s.context.get? key =
      (s.provided.findSome? (·.get? key)).or (s.start.get? key) := by
  constructor
  · have h := @delivers_iff_evaluates σ settings outside (.effect e) s base w w' x env
    exact h
  · intro key
    exact s.get?_context key

end EffectKernel
