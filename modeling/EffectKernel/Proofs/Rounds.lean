import EffectKernel.Effect.Again
import EffectKernel.Proofs.Refinement
import EffectKernel.Proofs.Sequences
import EffectKernel.Proofs.Steps

/-!
# Running Again

What a source that is run again comes to. It is run once, and then again after each end after
which this is wanted, until it ends in another way or its schedule is spent. Before each further
run the decision is reported and the wait of the schedule passes. How the last run ended settles
the whole.

Only the machine knows about the frame that holds the schedule, how far it has come and the number
of the attempt. It takes that frame off when a run has ended, and puts it back for the next one.
So a run of the source goes on above the frame, and it is the same run that there would be without
(`completes_above`): nothing in it can tell how often the source has been run. What happens between
two runs is a step of its own (`completes_judged`), and a whole run is cut at these steps
(`rounds_of_completes`), or put together there (`completes_of_rounds`).

## Main definitions

* `Judges`: Whether the source is wanted again after an end.
* `Round`, `Rounds`: The runs of the source, one after the other.
* `Settles`: What the whole comes to after the last of them.

## Theorems

* `completes_above`: A run above frames is a run without them.
* `completes_judged`: What happens between two runs.
* `schedule_spaces_runs`: A source is run again as its schedule says.
-/

namespace EffectKernel

open Machine

variable {σ : Type}

/-! ### Runs above frames -/

section Above

variable {settings : Settings} {outside : Outside σ} {base : List (Frame σ)} {m m' : Machine σ}
  {w w' : World σ} {x : Outcome} {env : Context} {n : Nat}

theorem handing_above : Handing base (m.above base) ↔ Handing [] m := by
  rcases m with ⟨focus, env, stack⟩
  simp only [Handing, above, List.append_left_eq_self]

/-- What a machine comes to above frames. -/
theorem advances_above (base : List (Frame σ)) (busy : ¬ Handing [] m) {m₁ : Machine σ} :
    Advances settings outside (m.above base) w m₁ w' ↔
      ∃ m', m₁ = m'.above base ∧ Advances settings outside m w m' w' := by
  have lifted : (m.above base).step settings w =
      ((m.step settings w).1.above base, (m.step settings w).2) := step_above_eq base busy
  -- Both machines take one step; the frames beneath can only be told by what it leads to.
  rcases taken : m.step settings w with ⟨step, w₁⟩
  rw [taken] at lifted
  constructor
  · intro advance
    cases advance with
    | next taken' =>
        rw [lifted] at taken'
        cases step with
        | next m' =>
            cases taken'
            exact ⟨m', rfl, .next taken⟩
        | done y => cases taken'
        | ask request point => cases taken'
    | replied taken' reply =>
        rw [lifted] at taken'
        cases step with
        | next m' => cases taken'
        | done y => cases taken'
        | ask request point =>
            cases taken'
            exact ⟨_, point.resume_above base _, .replied taken reply⟩
  · rintro ⟨m', rfl, advance⟩
    cases advance with
    | next taken' =>
        rw [taken] at taken'
        cases taken'
        exact .next lifted
    | replied taken' reply =>
        rw [taken] at taken'
        cases taken'
        rw [← Suspension.resume_above]
        exact .replied lifted reply

theorem completes_zero :
    Completes settings outside base 0 m w x env w' ↔ m = ⟨.unwind x, env, base⟩ ∧ w = w' := by
  constructor
  · rintro ⟨⟩
    exact ⟨rfl, rfl⟩
  · rintro ⟨rfl, rfl⟩
    exact .done

/-- A run with one step more takes that step first. -/
theorem completes_succ :
    Completes settings outside base (n + 1) m w x env w' ↔
      ¬ Handing base m ∧ ∃ m₁ w₁, Advances settings outside m w m₁ w₁ ∧
        Completes settings outside base n m₁ w₁ x env w' := by
  constructor
  · rintro ⟨⟩
    exact ⟨‹_›, _, _, ‹_›, ‹_›⟩
  · rintro ⟨busy, m₁, w₁, advance, rest⟩
    exact .step busy advance rest

/-- A run above frames is a run without them. -/
theorem completes_above (base : List (Frame σ)) :
    Completes settings outside base n (m.above base) w x env w' ↔
      Completes settings outside [] n m w x env w' := by
  -- A step above the frames is a step of the machine alone as long as it is not done.
  induction n generalizing m w with
  | zero =>
      rcases m with ⟨focus, env₁, stack⟩
      simp only [completes_zero, above, Machine.mk.injEq, List.append_left_eq_self]
  | succ n ih =>
      rw [completes_succ, completes_succ, handing_above]
      refine and_congr_right fun busy => ?_
      simp only [advances_above base busy]
      constructor
      · rintro ⟨_, w₁, ⟨m₁, rfl, advance⟩, rest⟩
        exact ⟨m₁, w₁, advance, ih.1 rest⟩
      · rintro ⟨m₁, w₁, advance, rest⟩
        exact ⟨_, w₁, ⟨m₁, rfl, advance⟩, ih.2 rest⟩

end Above

/-! ### Rounds -/

/-- What is said of how a run of a recurring source has ended: whether it is to be run again, as
    far as this is a question of how it has ended, unless the test panics that is asked. -/
inductive Judges (mode : Recur) (filter : Option (Value → Act σ Bool)) (x : Outcome)
    (w : World σ) : Except Defect Bool → World σ → Prop where
  /-- A failure, where failures count and all of them do. -/
  | failure {e} (retry : mode = .retry) (all : filter = none) (failed : x = .fail e) :
      Judges mode filter x w (.ok true) w
  /-- A failure, where the test says which of them count. -/
  | tested {e test verdict w'} (retry : mode = .retry) (some : filter = some test)
      (failed : x = .fail e) (answer : w.guarded (test e) = (verdict, w')) :
      Judges mode filter x w verdict w'
  /-- A success, where successes count. -/
  | success {v} (repeating : mode = .repeating) (succeeded : x = .success v) :
      Judges mode filter x w (.ok true) w
  /-- Anything else. -/
  | otherwise (noFailure : mode = .retry → x.isFail = false)
      (noSuccess : mode = .repeating → x.isSuccess = false) : Judges mode filter x w (.ok false) w

/-- The judgement of an outcome is the one the machine makes. -/
theorem judges_iff {r : Recurrence σ} {x : Outcome} {w w' : World σ}
    {verdict : Except Defect Bool} :
    Judges r.mode r.filter x w verdict w' ↔ wantsAgain r x w = (verdict, w') := by
  -- The judgement follows the mode, the outcome and the filter, and nothing else.
  rcases r with ⟨source, schedule, state, mode, filter, attempt⟩
  constructor
  · intro judges
    cases judges with
    | failure retry all failed =>
        dsimp only at retry all
        subst retry all failed
        rfl
    | tested retry some failed answer =>
        dsimp only at retry some
        subst retry some failed
        exact answer
    | success repeating succeeded =>
        dsimp only at repeating
        subst repeating succeeded
        rfl
    | otherwise noFailure noSuccess =>
        cases mode with
        | retry =>
            cases x with
            | fail e => cases noFailure rfl
            | success v | die d => rfl
        | repeating =>
            cases x with
            | success v => cases noSuccess rfl
            | fail e | die d => rfl
  · intro wants
    cases mode with
    | retry =>
        cases x with
        | fail e =>
            cases filter with
            | none =>
                cases wants
                exact .failure rfl rfl rfl
            | some test => exact .tested rfl rfl rfl wants
        | success v | die d =>
            cases wants
            exact .otherwise (fun _ => rfl) nofun
    | repeating =>
        cases x with
        | success v =>
            cases wants
            exact .success rfl rfl
        | fail e | die d =>
            cases wants
            exact .otherwise nofun fun _ => rfl

/-- A run of a recurring source, and what comes before the next one. -/
structure Round (σ : Type) where
  /-- The world in which the run begins. -/
  before : World σ
  /-- How many steps it takes. -/
  steps : Nat
  /-- How it ends. -/
  exit : Outcome
  /-- The world that it leaves. -/
  after : World σ
  /-- The world when it has been asked whether to run the source again. -/
  judged : World σ
  /-- The wait until the next run. -/
  wait : Duration

/-- Runs of a source one after the other, from one place on. -/
structure Rounds (settings : Settings) (outside : Outside σ) (source : Effect σ) (mode : Recur)
    (filter : Option (Value → Act σ Bool)) (env : Context) (place : Nat) (w : World σ) (k : Nat)
    (rounds : Nat → Round σ) : Prop where
  /-- The first run begins in this world. -/
  begins : (rounds 0).before = w
  /-- Each of them is a run of the source alone, among the same services. -/
  runs : ∀ i ≤ k, Completes settings outside [] (rounds i).steps (Machine.start source env)
    (rounds i).before (rounds i).exit env (rounds i).after
  /-- All but the last one end in a way after which the source is to be run again. -/
  wanted : ∀ i < k, Judges mode filter (rounds i).exit (rounds i).after (.ok true) (rounds i).judged
  /-- The next one begins when this has been reported and the wait is over. -/
  passes : ∀ i < k, outside.Passes settings (rounds i).wait
    ((rounds i).judged.report (againEvent mode (countAt (place + i + 1)) (rounds i).wait))
    (rounds (i + 1)).before

/-- How the end of the last run settles the whole, where a schedule may be spent. -/
inductive Settles (mode : Recur) (filter : Option (Value → Act σ Bool)) (attempt : UInt32)
    (spent : Prop) (y : Outcome) (w : World σ) : Outcome → World σ → Prop where
  /-- The source is not to be run again after such an end. -/
  | enough {w'} (judged : Judges mode filter y w (.ok false) w') :
      Settles mode filter attempt spent y w y w'
  /-- The test panics. -/
  | panic {d w'} (judged : Judges mode filter y w (.error d) w') :
      Settles mode filter attempt spent y w (.die d) w'
  /-- It is to be run again, but the schedule is spent. -/
  | exhausted {w'} (judged : Judges mode filter y w (.ok true) w') (stopped : spent) :
      Settles mode filter attempt spent y w y (w'.report (.scheduleExhausted attempt))

section Rounds

variable {settings : Settings} {outside : Outside σ} {base : List (Frame σ)} {w w₁ w' : World σ}
  {x y : Outcome} {env env' : Context} {n : Nat} {source : Effect σ} {r : Recurrence σ}

/-- A run puts the services back that it began among. -/
theorem env_of_completes
    (run : Completes settings outside base n ⟨.eval source, env, base⟩ w x env' w') : env' = env :=
  ((@delivers_iff_evaluates σ settings outside (.effect source) (.of env) base w w' x env').1
    ⟨n, run⟩).1

/-- A run through a frame is a run of the source alone, and one that begins by handing the frame
    its outcome. -/
theorem completes_source {frame : Frame σ} :
    Completes settings outside base n ⟨.eval source, env, frame :: base⟩ w x env' w' ↔
      ∃ n₁ n₂ y w₁, n₁ + n₂ = n ∧
        Completes settings outside [] n₁ (Machine.start source env) w y env w₁ ∧
        Completes settings outside base n₂ ⟨.unwind y, env, frame :: base⟩ w₁ x env' w' := by
  constructor
  · intro run
    rcases completes_split run (List.suffix_refl _) with
      ⟨n₁, n₂, y, env₁, w₁, sum, first, second⟩
    -- A program ends in the environment it began in.
    obtain rfl := env_of_completes first
    exact ⟨n₁, n₂, y, w₁, sum, (completes_above (m := Machine.start source env₁) _).1 first, second⟩
  · rintro ⟨n₁, n₂, y, w₁, rfl, first, second⟩
    exact completes_join
      ((completes_above (m := Machine.start source env) (frame :: base)).2 first)
      (List.suffix_refl _) second

/-- A run from a machine that pauses. -/
theorem completes_paused_iff {m : Machine σ} {span : Duration} {focus : Focus σ}
    {stack : List (Frame σ)} (busy : ¬ Handing base m)
    (step : m.step settings w = paused settings span focus env stack w₁) :
    Completes settings outside base n m w x env' w' ↔
      ∃ k w₂, n = k + 1 ∧ outside.Passes settings span w₁ w₂ ∧
        Completes settings outside base k ⟨focus, env, stack⟩ w₂ x env' w' := by
  constructor
  · exact fun run => completes_paused run busy step
  · rintro ⟨k, w₂, rfl, passes, rest⟩
    refine .step busy ?_ rest
    unfold paused at step
    unfold Outside.Passes at passes
    -- The converse: a pause is passed for nothing, on the spot, or by a reply.
    by_cases free : (span.isZero || !settings.honorDelays) = true
    · rw [if_pos free] at step passes
      subst passes
      exact .next step
    · rw [if_neg free] at step passes
      cases mode : settings.mode with
      | sync =>
          simp only [mode] at step passes
          subst passes
          exact .next step
      | async =>
          simp only [mode] at step passes
          exact .replied step ⟨rfl, passes⟩

/-- A step that hands on an outcome is the last one. -/
theorem completes_last {m : Machine σ} (busy : ¬ Handing base m)
    (step : m.step settings w = (.next ⟨.unwind y, env, base⟩, w₁)) :
    Completes settings outside base n m w x env' w' ↔
      n = 1 ∧ env' = env ∧ x = y ∧ w' = w₁ := by
  constructor
  · intro run
    rcases completes_next run busy step with ⟨k, rfl, rest⟩
    cases rest with
    | done => exact ⟨rfl, rfl, rfl, rfl⟩
    | step busy' => exact absurd ⟨⟨y, rfl⟩, rfl⟩ busy'
  · rintro ⟨rfl, rfl, rfl, rfl⟩
    exact .step busy (.next step) .done

/-- What settles the whole, read off what is wanted. -/
theorem settles_iff {result : Except Defect Bool} {attempt : UInt32} {spent : Prop}
    (verdict : wantsAgain r y w = (result, w₁)) :
    Settles r.mode r.filter attempt spent y w x w' ↔
      match result with
      | .error d => x = .die d ∧ w' = w₁
      | .ok false => x = y ∧ w' = w₁
      | .ok true => spent ∧ x = y ∧ w' = w₁.report (.scheduleExhausted attempt) := by
  constructor
  · intro settles
    -- The verdict is determined by the outcome, so each way of settling fits only one of the three.
    cases settles with
    | enough judged =>
        have said := judges_iff.1 judged
        rw [verdict] at said
        cases said
        exact ⟨rfl, rfl⟩
    | panic judged =>
        have said := judges_iff.1 judged
        rw [verdict] at said
        cases said
        exact ⟨rfl, rfl⟩
    | exhausted judged stopped =>
        have said := judges_iff.1 judged
        rw [verdict] at said
        cases said
        exact ⟨stopped, rfl, rfl⟩
  · have judged := judges_iff.2 verdict
    rcases result with d | again
    · rintro ⟨rfl, rfl⟩
      exact .panic judged
    · cases again with
      | false =>
          rintro ⟨rfl, rfl⟩
          exact .enough judged
      | true =>
          rintro ⟨stopped, rfl, rfl⟩
          exact .exhausted judged stopped

/-- A recurring source has ended: this settles the whole, or the source is run again. -/
theorem completes_judged :
    Completes settings outside base n ⟨.unwind y, env, .recur r :: base⟩ w x env' w' ↔
      (n = 1 ∧ env' = env ∧
        Settles r.mode r.filter r.attempt (r.schedule.step r.state = .stop) y w x w') ∨
      ∃ k delay state w₁ w₂, n = k + 1 ∧ Judges r.mode r.filter y w (.ok true) w₁ ∧
        r.schedule.step r.state = .again delay state ∧
        outside.Passes settings delay (w₁.report (againEvent r.mode r.attempt delay)) w₂ ∧
        Completes settings outside base k
          ((Code.recurring { r with state := state, attempt := saturatingSucc r.attempt }).machine
            env base) w₂ x env' w' := by
  have stepped : Machine.step settings ⟨.unwind y, env, .recur r :: base⟩ w =
    recurStep settings r y env base w := rfl
  unfold recurStep at stepped
  rcases verdict : wantsAgain r y w with ⟨result, w₁⟩
  rw [verdict] at stepped
  rw [settles_iff verdict]
  simp only [judges_iff, verdict]
  -- Unless another run is wanted and the schedule goes on, the next step is the last one.
  rcases result with d | again
  · rw [completes_last not_handing_cons stepped]
    simp only [Prod.mk.injEq, reduceCtorEq, false_and, and_false, exists_false, or_false]
  · cases again with
    | false =>
        rw [completes_last not_handing_cons stepped]
        simp only [Prod.mk.injEq, Except.ok.injEq, reduceCtorEq, false_and, and_false,
          exists_false, or_false]
    | true =>
        dsimp only at stepped
        cases decision : r.schedule.step r.state with
        | stop =>
            rw [decision] at stepped
            rw [completes_last not_handing_cons stepped]
            simp only [reduceCtorEq, false_and, and_false, exists_false, or_false, true_and]
        | again delay state =>
            rw [decision] at stepped
            rw [completes_paused_iff not_handing_cons stepped]
            simp only [reduceCtorEq, false_and, and_false, false_or]
            constructor
            · rintro ⟨k, w₂, rfl, passes, rest⟩
              exact ⟨k, delay, state, w₁, w₂, rfl, rfl, rfl, passes, rest⟩
            · rintro ⟨k, _, _, _, w₂, rfl, ⟨⟩, ⟨⟩, passes, rest⟩
              exact ⟨k, w₂, rfl, passes, rest⟩

end Rounds

/-- How many steps the rounds up to one of them take, each with the step that hands over its end. -/
def stepsOf : Nat → (Nat → Round σ) → Nat
  | 0, rounds => (rounds 0).steps + 1
  | k + 1, rounds => (rounds 0).steps + 1 + stepsOf k fun i => rounds (i + 1)

section Schedule

variable {s : Schedule} {state next : ScheduleState} {delay : Duration}

theorem delaysFrom_again (decision : s.step state = .again delay next) (k : Nat) :
    s.delaysFrom (k + 1) state = delay :: s.delaysFrom k next := by
  rw [Schedule.delaysFrom, decision]

theorem delaysFrom_stop (decision : s.step state = .stop) (k : Nat) :
    s.delaysFrom k state = [] := by
  cases k with
  | zero => rfl
  | succ k => rw [Schedule.delaysFrom, decision]

/-- A schedule that has not continued yet is spent if it stops. -/
theorem delaysFrom_one_iff :
    s.delaysFrom 1 state = s.delaysFrom 0 state ↔ s.step state = .stop := by
  cases decision : s.step state with
  | stop => simp only [delaysFrom_stop decision]
  | again delay next =>
      rw [delaysFrom_again decision]
      simp only [Schedule.delaysFrom, List.cons_ne_nil, reduceCtorEq]

/-- One that has continued is spent when it is spent from there. -/
theorem delaysFrom_spent_iff (decision : s.step state = .again delay next) (k : Nat) :
    s.delaysFrom (k + 2) state = s.delaysFrom (k + 1) state ↔
      s.delaysFrom (k + 1) next = s.delaysFrom k next := by
  rw [delaysFrom_again decision, delaysFrom_again decision, List.cons_inj_right]

end Schedule

section Runs

variable {settings : Settings} {outside : Outside σ} {base : List (Frame σ)} {w w₁ w₂ w' : World σ}
  {x y : Outcome} {env env' : Context} {n : Nat} {source : Effect σ} {schedule : Schedule}
  {state : ScheduleState} {mode : Recur} {filter : Option (Value → Act σ Bool)} {place k : Nat}
  {rounds : Nat → Round σ}

/-- The only round there is. -/
theorem Rounds.one (run : Completes settings outside [] n (Machine.start source env) w y env w₁) :
    Rounds settings outside source mode filter env place w 0
      fun _ => ⟨w, n, y, w₁, w₁, Duration.zero⟩ where
  begins := rfl
  runs _ _ := run
  wanted _ h := absurd h (Nat.not_lt_zero _)
  passes _ h := absurd h (Nat.not_lt_zero _)

/-- A round in front of others. -/
theorem Rounds.cons {delay : Duration} {w₃ : World σ}
    (run : Completes settings outside [] n (Machine.start source env) w y env w₁)
    (judged : Judges mode filter y w₁ (.ok true) w₂)
    (passes : outside.Passes settings delay
      (w₂.report (againEvent mode (countAt (place + 1)) delay)) w₃)
    (others : Rounds settings outside source mode filter env (place + 1) w₃ k rounds) :
    Rounds settings outside source mode filter env place w (k + 1)
      fun | 0 => ⟨w, n, y, w₁, w₂, delay⟩ | i + 1 => rounds i where
  begins := rfl
  runs
    | 0, _ => run
    | i + 1, h => others.runs i (Nat.le_of_succ_le_succ h)
  wanted
    | 0, _ => judged
    | i + 1, h => others.wanted i (Nat.lt_of_succ_lt_succ h)
  passes
    | 0, _ => by rw [← others.begins] at passes; exact passes
    -- The later rounds were numbered from the next place on.
    | i + 1, h => by
        have later := others.passes i (Nat.lt_of_succ_lt_succ h)
        rwa [Nat.add_right_comm place 1 i] at later

/-- The rounds behind the first one. -/
theorem Rounds.tail (all : Rounds settings outside source mode filter env place w (k + 1) rounds) :
    Rounds settings outside source mode filter env (place + 1) (rounds 1).before k
      fun i => rounds (i + 1) where
  begins := rfl
  runs i h := all.runs (i + 1) (Nat.succ_le_succ h)
  wanted i h := all.wanted (i + 1) (Nat.succ_lt_succ h)
  passes i h := by
    have later := all.passes (i + 1) (Nat.succ_lt_succ h)
    rwa [← Nat.add_assoc place i 1, Nat.add_right_comm place i 1] at later

/-- From any of its runs on, a recurring source goes through rounds. -/
theorem rounds_of_completes
    (run : Completes settings outside base n ((Code.recurring
      ⟨source, schedule, state, mode, filter, countAt (place + 1)⟩).machine env base) w x env' w') :
    env' = env ∧ ∃ k rounds, Rounds settings outside source mode filter env place w k rounds ∧
      schedule.delaysFrom k state = (List.range k).map (fun i => (rounds i).wait) ∧
      Settles mode filter (countAt (place + k + 1))
        (schedule.delaysFrom (k + 1) state = schedule.delaysFrom k state) (rounds k).exit
        (rounds k).after x w' ∧ n = stepsOf k rounds := by
  induction n using Nat.strongRecOn generalizing place state w with
  | ind n ih =>
    -- The run is cut where the source has ended, and once more where the wait is over. What is left
    -- then is a shorter run of the same kind, with the schedule and the count one further.
    rcases completes_source.1 run with ⟨n₁, n₂, y, w₁, rfl, first, second⟩
    rcases completes_judged.1 second with ⟨rfl, rfl, settles⟩ |
      ⟨m, delay, next, w₂, w₃, rfl, judged, decision, passes, rest⟩
    · refine ⟨rfl, 0, _, .one first, rfl, ?_, rfl⟩
      rw [delaysFrom_one_iff]
      exact settles
    · dsimp only at rest
      rw [saturatingSucc_countAt] at rest
      rcases ih m (by omega) rest with ⟨rfl, k, rounds, others, waits, settles, rfl⟩
      refine ⟨rfl, k + 1, _, others.cons first judged passes, ?_, ?_, ?_⟩
      · rw [delaysFrom_again decision, waits, List.range_succ_eq_map, List.map_cons, List.map_map]
        rfl
      · rw [delaysFrom_spent_iff decision]
        rwa [Nat.add_right_comm place 1 k] at settles
      · rw [stepsOf, ← Nat.add_assoc, Nat.add_right_comm]

/-- Rounds are a run of a recurring source. -/
theorem completes_of_rounds (all : Rounds settings outside source mode filter env place w k rounds)
    (waits : schedule.delaysFrom k state = (List.range k).map (fun i => (rounds i).wait))
    (settles : Settles mode filter (countAt (place + k + 1))
      (schedule.delaysFrom (k + 1) state = schedule.delaysFrom k state) (rounds k).exit
      (rounds k).after x w') :
    Completes settings outside base (stepsOf k rounds) ((Code.recurring
      ⟨source, schedule, state, mode, filter, countAt (place + 1)⟩).machine env base) w x env
      w' := by
  induction k generalizing place state w rounds with
  | zero =>
      have first := all.runs 0 (Nat.le_refl 0)
      rw [all.begins] at first
      rw [delaysFrom_one_iff] at settles
      exact completes_source.2 ⟨_, _, _, _, rfl, first,
        completes_judged.2 (.inl ⟨rfl, rfl, settles⟩)⟩
  | succ k ih =>
      have first := all.runs 0 (Nat.zero_le _)
      rw [all.begins] at first
      cases decision : schedule.step state with
      | stop =>
          rw [delaysFrom_stop decision, List.range_succ_eq_map] at waits
          cases waits
      | again delay next =>
          rw [delaysFrom_again decision, List.range_succ_eq_map, List.map_cons, List.map_map]
            at waits
          rcases List.cons.inj waits with ⟨rfl, others⟩
          -- The other rounds are rounds from the next place on.
          rw [delaysFrom_spent_iff decision, ← Nat.add_assoc place k 1,
            Nat.add_right_comm place k 1] at settles
          have rest := ih all.tail others settles
          rw [← saturatingSucc_countAt] at rest
          have between := (completes_judged (r := ⟨source, schedule, state, mode, filter,
            countAt (place + 1)⟩)).2 (.inr ⟨_, _, _, _, _, rfl, all.wanted 0 (Nat.succ_pos k),
              decision, all.passes 0 (Nat.succ_pos k), rest⟩)
          refine completes_source.2 ⟨_, _, _, _, ?_, first, between⟩
          rw [stepsOf]
          omega

end Runs

/-- The waits of a schedule are those of its sequence. -/
theorem delayAt_of_delays {schedule : Schedule} {k : Nat} {waits : Nat → Duration}
    (h : schedule.delays k = (List.range k).map waits) {i : Nat} (lt : i < k) :
    schedule.delayAt i = waits i := by
  have cut := schedule.delays_eq_takeWhile k
  rw [h, List.map_map] at cut
  -- Nothing is cut off, since there are as many waits as places.
  have whole := List.IsPrefix.eq_of_length (List.takeWhile_prefix _)
    ((congrArg List.length cut.symm).trans (by simp))
  rw [whole] at cut
  exact (List.map_inj_left.1 cut i (List.mem_range.2 lt)).symm

/-- After a defect, no source is run again. -/
theorem Judges.isDie_eq_false {mode : Recur} {filter : Option (Value → Act σ Bool)} {x : Outcome}
    {w w' : World σ} (judged : Judges mode filter x w (.ok true) w') : x.isDie = false := by
  cases judged with
  | failure _ _ failed => rw [failed]; rfl
  | tested _ _ failed _ => rw [failed]; rfl
  | success _ succeeded => rw [succeeded]; rfl

/-- There are no more runs after the first one than are allowed. -/
theorem le_of_delays_recurs {times : UInt32} {k : Nat} {waits : Nat → Duration}
    (h : (Schedule.recurs times).delays k = (List.range k).map waits) : k ≤ times.toNat := by
  by_contra more
  have wait := delayAt_of_delays h (Nat.lt_of_not_le more)
  rw [Schedule.delayAt, if_neg (Nat.lt_irrefl _)] at wait
  cases wait

/-- A source that is to be run again is run, and run again with the waits of its schedule between
    the runs, each run in the world that the one before has left and among the same services, until
    it ends in a way after which it is not, or its test panics, or the schedule is spent; and this
    is all that it can come to. The first wait is always the first one of the schedule. No defect
    is followed by another run, a number of continuations is never exceeded, and where delays are
    not waited out, nothing happens between two runs but that the next one is announced. Attempts
    are counted from one, up to the largest count that there is. -/
theorem schedule_spaces_runs (settings : Settings) (outside : Outside σ) (source : Effect σ)
    (schedule : Schedule) (mode : Recur) (filter : Option (Value → Act σ Bool)) (env : Context)
    (w : World σ) :
    (∀ base n x env' w', Completes settings outside base n
        ⟨.eval (.recur source schedule mode filter), env, base⟩ w x env' w' ↔
      env' = env ∧ ∃ k rounds, Rounds settings outside source mode filter env 0 w k rounds ∧
        schedule.delays k = (List.range k).map (fun i => (rounds i).wait) ∧
        Settles mode filter (countAt (k + 1)) (schedule.delays (k + 1) = schedule.delays k)
          (rounds k).exit (rounds k).after x w' ∧ n = 1 + stepsOf k rounds) ∧
    (∀ k rounds, Rounds settings outside source mode filter env 0 w k rounds →
      schedule.delays k = (List.range k).map (fun i => (rounds i).wait) →
      (∀ i < k, (rounds i).exit.isDie = false) ∧
      (∀ times, schedule = .recurs times → k ≤ times.toNat) ∧
      (settings.honorDelays = false → ∀ i < k, (rounds (i + 1)).before =
        (rounds i).judged.report (againEvent mode (countAt (i + 1)) (rounds i).wait))) ∧
    ∀ i, (countAt i).toNat = min i 0xFFFFFFFF := by
  refine ⟨fun base n x env' w' => ?_, fun k rounds all waits => ⟨fun i lt => ?_, ?_, ?_⟩,
    toNat_countAt⟩
  · -- The first step pushes the frame, with the schedule at its beginning.
    have begun : Machine.step settings ⟨.eval (.recur source schedule mode filter), env, base⟩ w =
      (.next ((Code.recurring ⟨source, schedule, schedule.initial, mode, filter,
        countAt (0 + 1)⟩).machine env base), w) := rfl
    constructor
    · intro run
      rcases completes_next run not_handing_eval begun with ⟨m, rfl, rest⟩
      rcases rounds_of_completes rest with ⟨same, k, rounds, all, waits, settles, rfl⟩
      rw [Nat.zero_add] at settles
      exact ⟨same, k, rounds, all, waits, settles, Nat.add_comm _ _⟩
    · rintro ⟨rfl, k, rounds, all, waits, settles, rfl⟩
      rw [Nat.add_comm]
      refine .step not_handing_eval (.next begun) (completes_of_rounds all waits ?_)
      rw [Nat.zero_add]
      exact settles
  · exact (all.wanted i lt).isDie_eq_false
  · rintro times rfl
    exact le_of_delays_recurs waits
  · intro unpaid i lt
    have passes := all.passes i lt
    rw [Outside.Passes, unpaid, Bool.not_false, Bool.or_true, if_pos rfl, Nat.zero_add] at passes
    exact passes

namespace Sample

/-- Fails twice, and counts how often it has been run. -/
def flaky : Effect Nat :=
  .exit (Act.update fun n => (if n < 2 then .fail .null else .success .null, n + 1))

/-- Three more attempts at most, five milliseconds apart. -/
def patience : Schedule :=
  (Schedule.spaced (Duration.ofMillis 5)).withMaxRetries 3

/-- What has been reported when it has been decided so many times to try again. -/
def retries (n : Nat) : Array Event :=
  ((List.range n).map fun i => .retrying (countAt (i + 1)) (Duration.ofMillis 5)).toArray

/-- Its runs, each five milliseconds after the one before. -/
def flakyRound (i : Nat) : Round Nat where
  before := ⟨i, i * 5000000, retries i⟩
  steps := 1
  exit := if i < 2 then .fail .null else .success .null
  after := ⟨i + 1, i * 5000000, retries i⟩
  judged := ⟨i + 1, i * 5000000, retries i⟩
  wait := Duration.ofMillis 5

theorem rounds_flaky : Rounds ⟨.sync, true⟩ .nobody flaky .retry (some fun _ => pure true)
    Context.empty 0 ⟨0, 0, #[]⟩ 2 flakyRound where
  begins := rfl
  runs _ _ := .step not_handing_eval (.next rfl) .done
  wanted
    | 0, _ | 1, _ => .tested rfl rfl rfl rfl
  passes
    | 0, _ | 1, _ => rfl

end Sample

/-- Two failures, and a success on the third attempt, ten milliseconds later. -/
theorem sample_schedule_spaces_runs :
    Completes ⟨.sync, true⟩ .nobody [] 7 (Machine.start
      (Sample.flaky.retryWhile Sample.patience fun _ => pure true) Context.empty) ⟨0, 0, #[]⟩
      (.success .null) Context.empty ⟨3, 10000000, #[.retrying 1 (Duration.ofMillis 5),
        .retrying 2 (Duration.ofMillis 5)]⟩ ∧
    (∀ i < 2, (Sample.flakyRound i).exit.isDie = false) := by
  rcases schedule_spaces_runs ⟨.sync, true⟩ .nobody Sample.flaky Sample.patience .retry
    (some fun _ => pure true) Context.empty ⟨0, 0, #[]⟩ with ⟨whole, bounds, -⟩
  have waits : Sample.patience.delays 2 =
      (List.range 2).map fun i => (Sample.flakyRound i).wait := rfl
  refine ⟨(whole [] 7 _ _ _).2 ⟨rfl, 2, Sample.flakyRound, Sample.rounds_flaky, waits, ?_, rfl⟩,
    (bounds 2 Sample.flakyRound Sample.rounds_flaky waits).1⟩
  exact .enough (.otherwise (fun _ => rfl) nofun)

end EffectKernel
