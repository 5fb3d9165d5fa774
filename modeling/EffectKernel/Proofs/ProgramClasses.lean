import EffectKernel.Proofs.Steps

/-!
# Classes of Programs

A class of programs to which the parts of a program belong if the whole does, and also whatever its
functions may make. Its routines do nothing but run effects of the class.

A run on the spot of such a program comes to such programs only, since every effect that comes into
focus comes from the description; and it never has to ask for anything, since nothing but a routine
could make it (`step_of`). What can only end later is not run on the spot, so of callbacks, promises
and sources with limits of time a class need not say anything.

## Main definitions

* `Act.Gives`: Whatever an action gives has some property.
* `ProgramClass`: A class of programs that is closed under parts.
* `Machine.Of`: A program of some class that is being run.

## Theorems

* `step_of`: A machine of a class goes on as such, unless it has ended.
* `steps_of`: Wherever a run on the spot comes to, it goes on from there or has ended.
-/

namespace EffectKernel

variable {σ : Type}

/-- Whatever an action gives has some property. -/
def Act.Gives {α : Type} (act : Act σ α) (P : α → Prop) : Prop :=
  ∀ {s a s'}, act.run s = (.ok a, s') → P a

theorem Act.Gives.guarded {α : Type} {act : Act σ α} {P : α → Prop} (h : act.Gives P)
    {w w' : World σ} {a : α} (call : w.guarded act = (.ok a, w')) : P a := by
  unfold World.guarded at call
  split at call
  · next hrun =>
      cases call
      exact h hrun
  · cases call

theorem Act.gives_pure {α : Type} {a : α} {P : α → Prop} (h : P a) :
    (pure a : Act σ α).Gives P := by
  rintro s b s' ⟨⟩
  exact h

/-- A class of programs to which their parts belong, and whatever their functions make. -/
structure ProgramClass (σ : Type) where
  /-- The effects of the class. -/
  effects : Effect σ → Prop
  /-- The routines of the class. -/
  routines : Routine σ → Prop
  -- The parts of an effect of the class are of the class, and so is what its functions make.
  suspend : ∀ {make}, effects (.suspend make) → make.Gives effects
  flatMap : ∀ {source next}, effects (.flatMap source next) →
    effects source ∧ ∀ v, (next v).Gives effects
  fold : ∀ {source onSuccess onFailure}, effects (.fold source onSuccess onFailure) →
    effects source ∧ (∀ f ∈ onSuccess, ∀ v, (f v).Gives effects) ∧
      ∀ f ∈ onFailure, ∀ e, (f e).Gives effects
  catchDefect : ∀ {source handler}, effects (.catchDefect source handler) →
    effects source ∧ ∀ d, (handler d).Gives effects
  recur : ∀ {source schedule mode filter}, effects (.recur source schedule mode filter) →
    effects source
  provide : ∀ {source services}, effects (.provide source services) → effects source
  all : ∀ {children collect parallel}, effects (.all children collect parallel) →
    ∀ e ∈ children, effects e
  race : ∀ {children}, effects (.race children) → ∀ e ∈ children, effects e
  gen : ∀ {body}, effects (.gen body) → ∀ env, (body env).Gives routines
  announce : ∀ {event next}, effects (.announce event next) → effects next
  -- The routines run effects of the class, and never let go.
  await : ∀ {e env next}, routines (.await e env next) → effects e ∧ ∀ x, (next x).Gives routines
  giveWay : ∀ {next}, ¬ routines (.giveWay next)
  sleep : ∀ {millis next}, ¬ routines (.sleep millis next)

/-- What is left to do is of a class. -/
def Frame.Of (K : ProgramClass σ) : Frame σ → Prop
  | .flatMap next => ∀ v, (next v).Gives K.effects
  | .fold onSuccess onFailure =>
    (∀ f ∈ onSuccess, ∀ v, (f v).Gives K.effects) ∧ ∀ f ∈ onFailure, ∀ e, (f e).Gives K.effects
  | .catchDefect handler => ∀ d, (handler d).Gives K.effects
  | .recur r => K.effects r.source
  | .restore _ => True
  | .all rest _ _ => ∀ e ∈ rest, K.effects e
  | .race rest => ∀ e ∈ rest, K.effects e

/-- Looking at something of a class. What a machine inside looks at is of the class, and so is
    everything around it. -/
def Focus.Of (K : ProgramClass σ) : Focus σ → Prop
  | .eval e => K.effects e
  | .unwind _ => True
  | .resume r => r.Gives K.routines
  | .within body inner _ stack =>
    (∀ x, (body x).Gives K.routines) ∧ inner.Of K ∧ ∀ frame ∈ stack, frame.Of K

/-- A program of a class that is being run. -/
structure Machine.Of (K : ProgramClass σ) (m : Machine σ) : Prop where
  /-- What it looks at is of the class. -/
  focus : m.focus.Of K
  /-- So is everything around it. -/
  stack : ∀ frame ∈ m.stack, frame.Of K

/-- A step to a machine of a class. -/
def Step.Of (K : ProgramClass σ) : Step σ → Prop
  | .next m => m.Of K
  | _ => False

namespace Machine

variable {K : ProgramClass σ} {h : Bool} {env : Context} {stack : List (Frame σ)} {w : World σ}

theorem of_start {e : Effect σ} (he : K.effects e) (env : Context) : (start e env).Of K :=
  ⟨he, fun _ hframe => by cases hframe⟩

theorem of_push {focus : Focus σ} {frame : Frame σ} (hfocus : focus.Of K) (hframe : frame.Of K)
    (all : ∀ frame ∈ stack, frame.Of K) : (⟨focus, env, frame :: stack⟩ : Machine σ).Of K :=
  ⟨hfocus, List.forall_mem_cons.2 ⟨hframe, all⟩⟩

theorem applied_of {make : Act σ (Effect σ)} (made : make.Gives K.effects)
    (all : ∀ frame ∈ stack, frame.Of K) : (applied env stack (w.guarded make)).1.Of K := by
  rcases hcall : w.guarded make with ⟨d | e, w₁⟩
  · exact ⟨trivial, all⟩
  · exact ⟨made.guarded hcall, all⟩

theorem paused_of {span : Duration} {focus : Focus σ} (hfocus : focus.Of K)
    (all : ∀ frame ∈ stack, frame.Of K) :
    (paused ⟨.sync, h⟩ span focus env stack w).1.Of K := by
  unfold paused
  split <;> exact ⟨hfocus, all⟩

theorem startAll_of {children : List (Effect σ)} {collect : Collect}
    (each : ∀ e ∈ children, K.effects e) (all : ∀ frame ∈ stack, frame.Of K) :
    (startAll children collect env stack).Of K := by
  cases children with
  | nil => exact ⟨trivial, all⟩
  | cons e rest =>
      rcases List.forall_mem_cons.1 each with ⟨he, hrest⟩
      exact of_push he hrest all

theorem startRace_of {children : List (Effect σ)} (each : ∀ e ∈ children, K.effects e)
    (all : ∀ frame ∈ stack, frame.Of K) : (startRace children env stack).Of K := by
  cases children with
  | nil => exact ⟨trivial, all⟩
  | cons e rest =>
      rcases List.forall_mem_cons.1 each with ⟨he, hrest⟩
      exact of_push he hrest all

theorem evalStep_of {e : Effect σ} (he : K.effects e) (all : ∀ frame ∈ stack, frame.Of K) :
    (evalStep ⟨.sync, h⟩ e env stack w).1.Of K := by
  -- A class is closed under the parts of an effect, so both the next focus and the frame pushed
  -- belong to it.
  cases e with
  | exit thunk =>
      simp only [evalStep]
      split <;> exact ⟨trivial, all⟩
  | suspend make => exact applied_of (K.suspend he) all
  | callback register => exact ⟨trivial, all⟩
  | promise start => exact ⟨trivial, all⟩
  | flatMap source next => exact of_push (K.flatMap he).1 (K.flatMap he).2 all
  | fold source onSuccess onFailure => exact of_push (K.fold he).1 (K.fold he).2 all
  | catchDefect source handler => exact of_push (K.catchDefect he).1 (K.catchDefect he).2 all
  | recur source schedule mode filter => exact of_push (K.recur he) (K.recur he) all
  | service key =>
      simp only [evalStep]
      split <;> exact ⟨trivial, all⟩
  | provide source services => exact of_push (K.provide he) trivial all
  | sleep span => exact paused_of trivial all
  | timeout source limit => exact ⟨trivial, all⟩
  | all children collect parallel =>
      cases parallel <;> exact startAll_of (K.all he) all
  | race children => exact startRace_of (K.race he) all
  | gen body => exact ⟨K.gen he env, all⟩
  | announce event next => exact ⟨K.announce he, all⟩

theorem resumeStep_of {r : Act σ (Routine σ)} (hr : r.Gives K.routines)
    (all : ∀ frame ∈ stack, frame.Of K) : (resumeStep r env stack w).1.Of K := by
  unfold resumeStep
  rcases hcall : w.guarded r with ⟨d | routine, w₁⟩
  · exact ⟨trivial, all⟩
  · have of := hr.guarded hcall
    cases routine with
    | done x => exact ⟨trivial, all⟩
    | await e env next => exact ⟨⟨(K.await of).2, (K.await of).1, fun _ mem => by cases mem⟩, all⟩
    | giveWay next => exact absurd of K.giveWay
    | sleep millis next => exact absurd of K.sleep

theorem recurStep_of {r : Recurrence σ} (hr : K.effects r.source) {x : Outcome}
    (all : ∀ frame ∈ stack, frame.Of K) : (recurStep ⟨.sync, h⟩ r x env stack w).1.Of K := by
  unfold recurStep
  split
  · exact ⟨trivial, all⟩
  · exact ⟨trivial, all⟩
  · split
    · exact ⟨trivial, all⟩
    · next state _ =>
        have again : (Frame.recur { r with
            state := state, attempt := saturatingSucc r.attempt }).Of K := hr
        exact paused_of hr (List.forall_mem_cons.2 ⟨again, all⟩)

theorem unwindStep_of {frame : Frame σ} (hframe : frame.Of K) {x : Outcome}
    (all : ∀ frame ∈ stack, frame.Of K) :
    (unwindStep ⟨.sync, h⟩ frame x env stack w).1.Of K := by
  -- What a frame calls gives an effect of the class, and the frames below are in it already.
  cases frame with
  | flatMap next =>
      cases x with
      | success v => exact applied_of (hframe v) all
      | fail | die => exact ⟨trivial, all⟩
  | fold onSuccess onFailure =>
      rcases hframe with ⟨success, failure⟩
      cases x with
      | success v =>
          cases onSuccess with
          | none => cases onFailure <;> exact ⟨trivial, all⟩
          | some f => exact applied_of (success f rfl v) all
      | fail e =>
          cases onFailure with
          | none => cases onSuccess <;> exact ⟨trivial, all⟩
          | some f =>
              cases onSuccess <;> exact applied_of (failure f rfl e) all
      | die d => cases onSuccess <;> cases onFailure <;> exact ⟨trivial, all⟩
  | catchDefect handler =>
      cases x with
      | die d => exact applied_of (hframe d) all
      | success | fail => exact ⟨trivial, all⟩
  | recur r => exact recurStep_of hframe all
  | restore outer => exact ⟨trivial, all⟩
  | all rest collect ends =>
      cases rest with
      | nil => cases x <;> cases collect <;> exact ⟨trivial, all⟩
      | cons e rest =>
          rcases List.forall_mem_cons.1 hframe with ⟨he, hrest⟩
          cases x <;> cases collect <;>
            first | exact ⟨trivial, all⟩ | exact of_push he hrest all
  | race rest =>
      cases rest with
      | nil => cases x <;> exact ⟨trivial, all⟩
      | cons e rest =>
          rcases List.forall_mem_cons.1 hframe with ⟨he, hrest⟩
          cases x <;> first | exact ⟨trivial, all⟩ | exact of_push he hrest all

/-- A machine of a class goes on as one of the class when it is run on the spot, unless nobody is
    left to take its outcome. -/
theorem step_of {m : Machine σ} (of : m.Of K) (h : Bool) (w : World σ) :
    (∃ m' w', m.step ⟨.sync, h⟩ w = (.next m', w') ∧ m'.Of K) ∨
      ∃ x env, m = ⟨.unwind x, env, []⟩ := by
  have goesOn : ∀ {p : Step σ × World σ}, p.1.Of K →
      ∃ m' w', p = (.next m', w') ∧ m'.Of K := by
    rintro ⟨_ | _ | _, w'⟩ hp
    · exact ⟨_, w', rfl, hp⟩
    · exact hp.elim
    · exact hp.elim
  rcases m with ⟨focus, env, stack⟩
  -- By induction on what the machine looks at, since a machine inside may take the step.
  induction focus generalizing env stack with
  | eval e => exact .inl (goesOn (evalStep_of of.focus of.stack))
  | resume r => exact .inl (goesOn (resumeStep_of of.focus of.stack))
  | within body inner env₁ stack₁ ih =>
      obtain ⟨⟨goes, hinner, hstack⟩, all⟩ := of
      refine .inl ?_
      rcases ih env₁ stack₁ ⟨hinner, hstack⟩ with ⟨m', w', step, of'⟩ | ⟨x, env₂, heq⟩
      · refine ⟨m'.within body env stack, w', ?_, ⟨goes, of'.focus, of'.stack⟩, all⟩
        exact (step_within ⟨.sync, h⟩ body env stack ⟨inner, env₁, stack₁⟩ w).trans
          (by rw [step]; rfl)
      · cases heq
        exact ⟨⟨.resume (body x), env, stack⟩, w, rfl, goes x, all⟩
  | unwind x =>
      cases stack with
      | nil => exact .inr ⟨x, env, rfl⟩
      | cons frame stack =>
          rcases List.forall_mem_cons.1 of.stack with ⟨hframe, hstack⟩
          exact .inl (goesOn (unwindStep_of hframe hstack))

/-- What a run on the spot of a program of some class comes to is of the class. -/
theorem steps_of {m m' : Machine σ} {n : Nat} {w' : World σ} (of : m.Of K)
    (run : Steps ⟨.sync, h⟩ n m w m' w') : m'.Of K := by
  induction run with
  | none => exact of
  | @more _ _ w _ _ _ _ step _ ih =>
      rcases step_of of h w with ⟨m₁, w₁, step', of₁⟩ | ⟨x, env, rfl⟩
      · rw [step] at step'
        cases step'
        exact ih of₁
      · cases step

end Machine

end EffectKernel
