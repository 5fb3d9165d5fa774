import EffectKernel.Proofs.Evaluation

/-!
# Runs above a Stack

The machine, watched from the moment it starts on something until it hands the outcome
to the frames that were there before. Those frames are the base of the run. A run above
a base is over at the first machine that unwinds with exactly the base left, so it never
looks at a frame of the base, and where the base ends up in the text of the program does
not matter to it.

Counting the steps is what the two halves of the simulation need. A run above a base
that passes through a frame on top of it is a run above that frame followed by a run
above the base, and both are shorter than the whole or as long. That is `completes_split`;
`completes_join` is the way back.

Both rest on one fact about the machine: a step only ever takes the innermost frame off
the stack. `evalStep_keeps`, `resumeStep_keeps` and `unwindStep_keeps` say so for the
three things the machine itself may look at.

What a routine has bound is run by a machine inside, above no frames at all. That machine
does what it would do alone, and the one around it waits: a run with a machine inside is a
run of that machine followed by the rest of the routine.

## Main definitions

* `Machine.Advances`: One step, requests being answered from outside.
* `Machine.Handing`: The machine hands an outcome to the base.
* `Machine.Completes`: A counted run above a base.
* `Machine.Delivers`: A run above a base, however long.
* `Step.Keeps`: A step that leaves a stack in place.

## Theorems

* `evalStep_keeps`, `resumeStep_keeps`, `unwindStep_keeps`: What a step leaves in place.
* `advances_keeps`: A step above a base stays above it.
* `completes_split`: A run above a base through a frame on top of it.
* `completes_join`: The way back.
* `delivers_next`, `delivers_reply`, `delivers_through`: Putting runs together.
* `completes_next`, `completes_ask`, `completes_handing`: Taking runs apart.
* `delivers_within`, `completes_within`: Runs with a machine inside.
-/

namespace EffectKernel

variable {σ : Type}

/-- A step that is not the last one and leaves a stack in place. -/
def Step.Keeps (base : List (Frame σ)) : Step σ → Prop
  | .next m => base <:+ m.stack
  | .done _ => False
  | .ask _ point => base <:+ point.frames

theorem Step.Keeps.mono {base base' : List (Frame σ)} {step : Step σ}
    (h : step.Keeps base') (below : base <:+ base') : step.Keeps base := by
  cases step with
  | next m => exact below.trans h
  | done x => exact h
  | ask request point => exact below.trans h

/-- Whatever a machine inside does, the frames around it stay in place. -/
theorem Step.within_keeps (body : Body σ) (env : Context) (stack : List (Frame σ))
    (step : Step σ) : (step.within body env stack).Keeps stack := by
  cases step <;> exact List.suffix_refl _

namespace Machine

/-- One step of the machine, requests being answered from outside. -/
inductive Advances (settings : Settings) (outside : Outside σ) :
    Machine σ → World σ → Machine σ → World σ → Prop where
  /-- A step to another machine. -/
  | next {m w m' w'} (step : m.step settings w = (.next m', w')) :
      Advances settings outside m w m' w'
  /-- A request and what comes of it. -/
  | replied {m w request point w₁ focus w'}
      (step : m.step settings w = (.ask request point, w₁))
      (reply : outside.Replies request w₁ focus w') :
      Advances settings outside m w (point.resume focus) w'

/-- The machine hands an outcome to the base: nothing on top of it is left. -/
def Handing (base : List (Frame σ)) (m : Machine σ) : Prop :=
  (∃ x, m.focus = .unwind x) ∧ m.stack = base

/-- A run of so many steps to the first machine that hands an outcome to the base, with
    that outcome, the services that can then be read, and the world. -/
inductive Completes (settings : Settings) (outside : Outside σ) (base : List (Frame σ)) :
    Nat → Machine σ → World σ → Outcome → Context → World σ → Prop where
  /-- Nothing is left to do. -/
  | done {x env w} : Completes settings outside base 0 ⟨.unwind x, env, base⟩ w x env w
  /-- A step, and the rest of the run. -/
  | step {n m w m' w' x env w''} (busy : ¬ m.Handing base)
      (advance : Advances settings outside m w m' w')
      (rest : Completes settings outside base n m' w' x env w'') :
      Completes settings outside base (n + 1) m w x env w''

/-- A run to the first machine that hands an outcome to the base. -/
def Delivers (settings : Settings) (outside : Outside σ) (base : List (Frame σ))
    (m : Machine σ) (w : World σ) (x : Outcome) (env : Context) (w' : World σ) : Prop :=
  ∃ n, Completes settings outside base n m w x env w'

theorem not_handing_eval {base : List (Frame σ)} {e : Effect σ} {env : Context}
    {stack : List (Frame σ)} : ¬ Handing base ⟨.eval e, env, stack⟩ := by
  rintro ⟨⟨x, h⟩, -⟩
  cases h

theorem not_handing_resume {base : List (Frame σ)} {r : Act σ (Routine σ)}
    {env : Context} {stack : List (Frame σ)} :
    ¬ Handing base ⟨.resume r, env, stack⟩ := by
  rintro ⟨⟨x, h⟩, -⟩
  cases h

theorem not_handing_within {base stack : List (Frame σ)} {body : Body σ} {env : Context}
    {m : Machine σ} : ¬ (m.within body env stack).Handing base := by
  rintro ⟨⟨x, h⟩, -⟩
  cases h

theorem not_handing_cons {base : List (Frame σ)} {focus : Focus σ} {env : Context}
    {frame : Frame σ} : ¬ Handing base ⟨focus, env, frame :: base⟩ := by
  rintro ⟨-, h⟩
  exact absurd (congrArg List.length h) (by simp)

/-- Frames on top of a base keep a machine from handing anything to the base. -/
theorem not_handing_of_suffix {base : List (Frame σ)} {frame : Frame σ} {m : Machine σ}
    (h : frame :: base <:+ m.stack) : ¬ m.Handing base := by
  rintro ⟨-, hstack⟩
  have hlength := h.length_le
  rw [hstack, List.length_cons] at hlength
  omega

theorem applied_keeps (env : Context) (stack : List (Frame σ))
    (r : Except Defect (Effect σ) × World σ) : (applied env stack r).1.Keeps stack := by
  rcases r with ⟨_ | _, _⟩ <;> exact List.suffix_refl _

theorem paused_keeps (settings : Settings) (span : Duration) (focus : Focus σ)
    (env : Context) (stack : List (Frame σ)) (w : World σ) :
    (paused settings span focus env stack w).1.Keeps stack := by
  unfold paused
  split
  · exact List.suffix_refl _
  · split <;> exact List.suffix_refl _

/-- An effect leaves the stack in place. -/
theorem evalStep_keeps (settings : Settings) (e : Effect σ) (env : Context)
    (stack : List (Frame σ)) (w : World σ) :
    (evalStep settings e env stack w).1.Keeps stack := by
  -- No step of an effect pops anything: it pushes one frame or none.
  cases e with
  | exit thunk =>
      simp only [evalStep]
      split <;> exact List.suffix_refl _
  | suspend make => exact applied_keeps _ _ _
  | callback register =>
      simp only [evalStep]
      split <;> exact List.suffix_refl _
  | promise start =>
      simp only [evalStep]
      split <;> exact List.suffix_refl _
  | flatMap source next => exact List.suffix_cons _ _
  | fold source onSuccess onFailure => exact List.suffix_cons _ _
  | catchDefect source handler => exact List.suffix_cons _ _
  | recur source schedule mode filter => exact List.suffix_cons _ _
  | service key =>
      simp only [evalStep]
      split <;> exact List.suffix_refl _
  | provide source services => exact List.suffix_cons _ _
  | sleep span => exact paused_keeps _ _ _ _ _ _
  | timeout source limit =>
      simp only [evalStep]
      split <;> exact List.suffix_refl _
  | all children collect parallel =>
      simp only [evalStep]
      split
      · exact List.suffix_refl _
      · unfold startAll
        split
        · exact List.suffix_refl _
        · exact List.suffix_cons _ _
  | race children =>
      simp only [evalStep]
      split
      · exact List.suffix_refl _
      · unfold startRace
        split
        · exact List.suffix_refl _
        · exact List.suffix_cons _ _
  | gen body => exact List.suffix_refl _
  | announce event next => exact List.suffix_refl _

/-- A routine leaves the stack in place. -/
theorem resumeStep_keeps (r : Act σ (Routine σ)) (env : Context)
    (stack : List (Frame σ)) (w : World σ) :
    (resumeStep r env stack w).1.Keeps stack := by
  unfold resumeStep
  split
  · exact List.suffix_refl _
  · exact List.suffix_refl _
  · exact List.suffix_refl _
  · exact List.suffix_refl _
  · split <;> exact List.suffix_refl _

theorem recurStep_keeps (settings : Settings) (r : Recurrence σ) (x : Outcome)
    (env : Context) (stack : List (Frame σ)) (w : World σ) :
    (recurStep settings r x env stack w).1.Keeps stack := by
  unfold recurStep
  split
  · exact List.suffix_refl _
  · exact List.suffix_refl _
  · split
    · exact List.suffix_refl _
    · -- The frame is pushed again before the pause, which leaves it in place.
      exact (paused_keeps _ _ _ _ _ _).mono (List.suffix_cons _ _)

theorem allStep_keeps (rest : List (Effect σ)) (collect : Collect)
    (ends : List (Either Value Value)) (x : Outcome) (env : Context)
    (stack : List (Frame σ)) : stack <:+ (allStep rest collect ends x env stack).stack := by
  rcases x with v | e | d
  · cases rest
    · exact List.suffix_refl _
    · exact List.suffix_cons _ _
  · cases collect
    · exact List.suffix_refl _
    · cases rest
      · exact List.suffix_refl _
      · exact List.suffix_cons _ _
  · exact List.suffix_refl _

theorem raceStep_keeps (rest : List (Effect σ)) (x : Outcome) (env : Context)
    (stack : List (Frame σ)) : stack <:+ (raceStep rest x env stack).stack := by
  unfold raceStep
  split
  · exact List.suffix_cons _ _
  · exact List.suffix_refl _

/-- Handing an outcome to a frame leaves the frames below it in place. -/
theorem unwindStep_keeps (settings : Settings) (frame : Frame σ) (x : Outcome)
    (env : Context) (stack : List (Frame σ)) (w : World σ) :
    (unwindStep settings frame x env stack w).1.Keeps stack := by
  unfold unwindStep
  split
  · exact applied_keeps _ _ _
  · exact applied_keeps _ _ _
  · exact applied_keeps _ _ _
  · exact applied_keeps _ _ _
  · exact List.suffix_refl _
  · exact recurStep_keeps _ _ _ _ _ _
  · exact allStep_keeps _ _ _ _ _ _
  · exact raceStep_keeps _ _ _ _
  · exact List.suffix_refl _

/-- A step above a base leaves the base in place. -/
theorem step_keeps (settings : Settings) {base : List (Frame σ)} {m : Machine σ}
    (w : World σ) (above : base <:+ m.stack) (busy : ¬ m.Handing base) :
    (m.step settings w).1.Keeps base := by
  rcases m with ⟨focus, env, stack⟩
  cases focus with
  | eval e => exact (evalStep_keeps settings e env stack w).mono above
  | resume r => exact (resumeStep_keeps r env stack w).mono above
  | within body inner env₁ stack₁ => exact (Step.within_keeps _ _ _ _).mono above
  | unwind x =>
      cases stack with
      | nil => exact absurd ⟨⟨x, rfl⟩, (List.suffix_nil.1 above).symm⟩ busy
      | cons frame stack =>
          -- The base is not the whole stack, so it lies below the innermost frame.
          rcases List.suffix_cons_iff.1 above with heq | hbelow
          · exact absurd ⟨⟨x, rfl⟩, heq.symm⟩ busy
          · exact (unwindStep_keeps settings frame x env stack w).mono hbelow

/-- Only a machine with nothing left to do takes a last step. -/
theorem handing_of_done {settings : Settings} {m : Machine σ} {w w' : World σ} {x : Outcome}
    (h : m.step settings w = (.done x, w')) : m.Handing [] := by
  by_cases hhand : m.Handing []
  · exact hhand
  · -- Any other step leaves something to be done.
    have hkeeps := step_keeps settings w (List.nil_suffix) hhand
    rw [h] at hkeeps
    exact hkeeps.elim

/-- A step above a base stays above it. -/
theorem advances_keeps {settings : Settings} {outside : Outside σ} {base : List (Frame σ)}
    {m m' : Machine σ} {w w' : World σ} (advance : Advances settings outside m w m' w')
    (above : base <:+ m.stack) (busy : ¬ m.Handing base) : base <:+ m'.stack := by
  have h := step_keeps settings w above busy
  -- A reply changes the focus only, so both cases are the same.
  cases advance with
  | next step =>
      rw [step] at h
      exact h
  | replied step reply =>
      rw [step] at h
      rwa [Suspension.stack_resume]

/-- A run above a frame, and a run that begins by handing that frame its outcome, are a
    run above what is below the frame. -/
theorem completes_join {settings : Settings} {outside : Outside σ} {base : List (Frame σ)}
    {frame : Frame σ} {n n' : Nat} {m : Machine σ} {w w₁ w' : World σ} {y x : Outcome}
    {env₁ env' : Context}
    (first : Completes settings outside (frame :: base) n m w y env₁ w₁)
    (above : frame :: base <:+ m.stack)
    (second : Completes settings outside base n' ⟨.unwind y, env₁, frame :: base⟩ w₁ x env' w') :
    Completes settings outside base (n + n') m w x env' w' := by
  -- The frame is never handed anything before the first run is over, and so the base
  -- is not either.
  induction first with
  | done =>
      rw [Nat.zero_add]
      exact second
  | @step n m w m' w' x env w'' busy advance rest ih =>
      rw [Nat.add_right_comm]
      exact .step (not_handing_of_suffix above) advance
        (ih (advances_keeps advance above busy) second)

/-- A run above a base that passes through a frame on top of it: a run above that frame,
    and one that begins by handing the frame its outcome. -/
theorem completes_split {settings : Settings} {outside : Outside σ} {base : List (Frame σ)}
    {frame : Frame σ} {n : Nat} {m : Machine σ} {w w' : World σ} {x : Outcome}
    {env' : Context} (run : Completes settings outside base n m w x env' w')
    (above : frame :: base <:+ m.stack) :
    ∃ n₁ n₂ y env₁ w₁, n₁ + n₂ = n ∧
      Completes settings outside (frame :: base) n₁ m w y env₁ w₁ ∧
      Completes settings outside base n₂ ⟨.unwind y, env₁, frame :: base⟩ w₁ x env' w' := by
  induction run with
  | done => exact absurd ⟨⟨_, rfl⟩, rfl⟩ (not_handing_of_suffix above)
  | @step n m w m' w' x env w'' busy advance rest ih =>
      by_cases hhand : m.Handing (frame :: base)
      · -- The frame is about to be handed its outcome: the first run is over.
        rcases m with ⟨focus, env₁, stack⟩
        rcases hhand with ⟨⟨y, rfl⟩, rfl⟩
        exact ⟨0, n + 1, y, env₁, w, Nat.zero_add _, .done, .step busy advance rest⟩
      · rcases ih (advances_keeps advance above hhand) with
          ⟨n₁, n₂, y, env₁, w₁, hsum, hfirst, hsecond⟩
        exact ⟨n₁ + 1, n₂, y, env₁, w₁, by omega, .step hhand advance hfirst, hsecond⟩

section Together

variable {settings : Settings} {outside : Outside σ} {base : List (Frame σ)}
  {frame : Frame σ} {focus : Focus σ} {m m' : Machine σ} {w w₁ w₂ w' : World σ}
  {x y : Outcome} {env env₁ env' : Context} {n : Nat}

theorem delivers_done : Delivers settings outside base ⟨.unwind x, env, base⟩ w x env w :=
  ⟨0, .done⟩

/-- A step, or a request and what comes of it, and then the rest of the run. -/
theorem delivers_advance (busy : ¬ m.Handing base)
    (advance : Advances settings outside m w m' w₁)
    (rest : Delivers settings outside base m' w₁ x env' w') :
    Delivers settings outside base m w x env' w' := by
  rcases rest with ⟨n, hn⟩
  exact ⟨n + 1, .step busy advance hn⟩

theorem delivers_next (busy : ¬ m.Handing base) (step : m.step settings w = (.next m', w₁))
    (rest : Delivers settings outside base m' w₁ x env' w') :
    Delivers settings outside base m w x env' w' :=
  delivers_advance busy (.next step) rest

theorem delivers_reply {request : Request σ} {point : Suspension σ}
    (busy : ¬ m.Handing base) (step : m.step settings w = (.ask request point, w₁))
    (reply : outside.Replies request w₁ focus w₂)
    (rest : Delivers settings outside base (point.resume focus) w₂ x env' w') :
    Delivers settings outside base m w x env' w' :=
  delivers_advance busy (.replied step reply) rest

/-- Through a frame: first its source is run, then the frame is handed the outcome. -/
theorem delivers_through
    (first : Delivers settings outside (frame :: base) ⟨focus, env, frame :: base⟩ w y env₁ w₁)
    (second : Delivers settings outside base ⟨.unwind y, env₁, frame :: base⟩ w₁ x env' w') :
    Delivers settings outside base ⟨focus, env, frame :: base⟩ w x env' w' := by
  rcases first with ⟨n₁, h₁⟩
  rcases second with ⟨n₂, h₂⟩
  exact ⟨n₁ + n₂, completes_join h₁ (List.suffix_refl _) h₂⟩

theorem completes_pos (run : Completes settings outside base n m w x env' w')
    (busy : ¬ m.Handing base) : 0 < n := by
  cases run with
  | done => exact absurd ⟨⟨_, rfl⟩, rfl⟩ busy
  | step => exact Nat.succ_pos _

theorem completes_next (run : Completes settings outside base n m w x env' w')
    (busy : ¬ m.Handing base) (step : m.step settings w = (.next m', w₁)) :
    ∃ k, n = k + 1 ∧ Completes settings outside base k m' w₁ x env' w' := by
  -- The machine has only this one step, so the run goes on with it.
  cases run with
  | done => exact absurd ⟨⟨_, rfl⟩, rfl⟩ busy
  | @step k _ _ m₁ w₂ _ _ _ _ advance rest =>
      refine ⟨k, rfl, ?_⟩
      cases advance with
      | next step' =>
          rw [step] at step'
          cases step'
          exact rest
      | replied step' reply =>
          rw [step] at step'
          cases step'

theorem completes_ask {request : Request σ} {point : Suspension σ}
    (run : Completes settings outside base n m w x env' w')
    (busy : ¬ m.Handing base) (step : m.step settings w = (.ask request point, w₁)) :
    ∃ k focus w₂, n = k + 1 ∧ outside.Replies request w₁ focus w₂ ∧
      Completes settings outside base k (point.resume focus) w₂ x env' w' := by
  -- A machine that asks goes on with the reply, and there is no other way on.
  cases run with
  | done => exact absurd ⟨⟨_, rfl⟩, rfl⟩ busy
  | @step k _ _ m₁ w₂ _ _ _ _ advance rest =>
      cases advance with
      | next step' =>
          rw [step] at step'
          cases step'
      | replied step' reply =>
          rw [step] at step'
          cases step'
          exact ⟨k, _, w₂, rfl, reply, rest⟩

/-- A machine that hands an outcome to the base has nothing left to do. -/
theorem completes_handing
    (run : Completes settings outside base n ⟨.unwind y, env, base⟩ w x env' w') :
    x = y ∧ env' = env ∧ w' = w := by
  cases run with
  | done => exact ⟨rfl, rfl, rfl⟩
  | step busy advance rest => exact absurd ⟨⟨y, rfl⟩, rfl⟩ busy

/-- Machines that take the same step have the same runs. -/
theorem completes_congr (run : Completes settings outside base n m w x env' w')
    (busy : ¬ m.Handing base) (busy' : ¬ m'.Handing base)
    (same : m'.step settings w = m.step settings w) :
    Completes settings outside base n m' w x env' w' := by
  cases run with
  | done => exact absurd ⟨⟨_, rfl⟩, rfl⟩ busy
  | step _ advance rest =>
      cases advance with
      | next step => exact .step busy' (.next (same.trans step)) rest
      | replied step reply => exact .step busy' (.replied (same.trans step) reply) rest

end Together

section Inside

variable {settings : Settings} {outside : Outside σ} {base : List (Frame σ)} {body : Body σ}
  {m m' : Machine σ} {w w₁ w' : World σ} {x y : Outcome} {env env₁ env' : Context} {n : Nat}

/-- A machine inside takes its own steps, and the one around it stays where it is. -/
theorem step_within (settings : Settings) (body : Body σ) (env : Context)
    (stack : List (Frame σ)) (m : Machine σ) (w : World σ) :
    (m.within body env stack).step settings w =
      ((m.step settings w).1.within body env stack, (m.step settings w).2) :=
  rfl

theorem Advances.within (advance : Advances settings outside m w m' w') (body : Body σ)
    (env : Context) (stack : List (Frame σ)) :
    Advances settings outside (m.within body env stack) w (m'.within body env stack) w' := by
  cases advance with
  | next step => exact .next (by rw [step_within, step]; rfl)
  | replied step reply =>
      rw [← Suspension.resume_within]
      exact .replied (by rw [step_within, step]; rfl) reply

/-- A step with a machine inside that is busy is a step of that machine. -/
theorem Advances.inside (advance : Advances settings outside (m.within body env base) w m' w')
    (busy : ¬ m.Handing []) :
    ∃ m₁, m' = m₁.within body env base ∧ Advances settings outside m w m₁ w' := by
  -- The step of the machine inside is the first one to look at.
  rcases inner : m.step settings w with ⟨step, w₁⟩
  cases step with
  | done y => exact absurd (handing_of_done inner) busy
  | next m₁ =>
      have outer : (m.within body env base).step settings w =
        (.next (m₁.within body env base), w₁) :=
        by rw [step_within, inner]; rfl
      cases advance with
      | next step =>
          cases outer.symm.trans step
          exact ⟨m₁, rfl, .next inner⟩
      | replied step reply => cases outer.symm.trans step
  | ask request point =>
      have outer : (m.within body env base).step settings w =
          (.ask request (point.within body env base), w₁) := by rw [step_within, inner]; rfl
      cases advance with
      | next step => cases outer.symm.trans step
      | replied step reply =>
          cases outer.symm.trans step
          exact ⟨point.resume _, rfl, .replied inner reply⟩

/-- When the machine inside has come to an outcome, the routine goes on from it. -/
theorem step_within_done (settings : Settings) (body : Body σ) (env : Context)
    (stack : List (Frame σ)) (y : Outcome) (env₁ : Context) (w : World σ) :
    ((⟨.unwind y, env₁, []⟩ : Machine σ).within body env stack).step settings w =
      (.next ⟨.resume (body y), env, stack⟩, w) :=
  rfl

/-- A machine runs inside another one just as it does alone, and then the routine goes on. -/
theorem delivers_within (inner : Delivers settings outside [] m w y env₁ w₁)
    (rest : Delivers settings outside base ⟨.resume (body y), env, base⟩ w₁ x
      env' w') :
    Delivers settings outside base (m.within body env base) w x env' w' := by
  obtain ⟨n, run⟩ := inner
  induction run with
  | done => exact delivers_next not_handing_within (step_within_done ..) rest
  | step busy advance _ ih =>
      obtain ⟨n, more⟩ := ih rest
      exact ⟨n + 1, .step not_handing_within (advance.within body env base) more⟩

/-- A run with a machine inside begins with a run of that machine on its own. -/
theorem completes_within (run : Completes settings outside base n (m.within body env base) w x
      env' w') :
    ∃ n₁ n₂ y env₁ w₁, n₁ + (n₂ + 1) = n ∧ Completes settings outside [] n₁ m w y env₁ w₁ ∧
      Completes settings outside base n₂ ⟨.resume (body y), env, base⟩ w₁ x env'
        w' := by
  -- Each step is one of the inner machine until it has an outcome, which resumes the body.
  induction n generalizing m w with
  | zero => exact absurd run (fun run => Nat.lt_irrefl 0 (completes_pos run not_handing_within))
  | succ n ih =>
      by_cases handing : m.Handing []
      · obtain ⟨focus, env₁, stack⟩ := m
        obtain ⟨⟨y, rfl⟩, rfl⟩ := handing
        obtain ⟨k, hk, rest⟩ := completes_next run not_handing_within (step_within_done ..)
        exact ⟨0, n, y, env₁, w, Nat.zero_add _, .done, by rwa [Nat.succ.inj hk]⟩
      · cases run with
        | step _ advance rest =>
            obtain ⟨m₁, rfl, inner⟩ := advance.inside handing
            obtain ⟨n₁, n₂, y, env₁, w₁, hsum, first, second⟩ := ih rest
            exact ⟨n₁ + 1, n₂, y, env₁, w₁, by omega, .step handing inner first, second⟩

end Inside

end Machine

end EffectKernel
