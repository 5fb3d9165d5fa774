import EffectKernel.Proofs.Callbacks
import EffectKernel.Proofs.Joining
import EffectKernel.Proofs.Turns

/-!
# Defects on Their Way Out

A defect is nobody's business but that of `catchDefect`. Every other frame lets it through:
handing a defect to it takes the frame off the stack and does nothing else. So a defect that
comes up under any number of such frames goes straight to the frames below them. On the way the
machine never looks at an effect, so nothing is begun or run again, and the world stays what it
was, whatever the functions in the frames would have done to it.

The same is true of fibers. The one in which the defect has come up ends in the turn that it has,
and a fiber side by side with others takes all of them with it.

## Main definitions

* `Frame.Passes`: A frame that lets defects through.
* `Machine.Leads`: The run above a base comes to a machine.

## Theorems

* `Machine.Leads.join`, `Machine.Leads.of_append`: Runs above frames are runs above what is below.
* `Machine.steps_die`: A defect passes frames that let it through.
* `Machine.delivers_die`: What dies above such frames dies above what is below them.
* `Fiber.turns_die`, `Fiber.turns_joining_die`: A fiber dies in the turn that it has.
-/

namespace EffectKernel

variable {σ : Type}

open Machine

/-- A frame that lets defects through. -/
def Frame.Passes : Frame σ → Prop
  | .catchDefect _ => False
  | _ => True

namespace Machine

/-- The run above a base comes to a machine. -/
inductive Leads (settings : Settings) (outside : Outside σ) (base : List (Frame σ)) :
    Machine σ → World σ → Machine σ → World σ → Prop where
  /-- It is there. -/
  | here {m w} : Leads settings outside base m w m w
  /-- A step, and the rest of the way. -/
  | onward {m w m₁ w₁ m' w'} (busy : ¬ m.Handing base)
      (advance : Advances settings outside m w m₁ w₁)
      (rest : Leads settings outside base m₁ w₁ m' w') : Leads settings outside base m w m' w'

variable {settings : Settings} {outside : Outside σ} {base frames : List (Frame σ)}
  {frame : Frame σ} {m m₁ m' : Machine σ} {w w₁ w' w'' : World σ} {d : Defect} {x : Outcome}
  {env env' : Context}

namespace Leads

/-- A run that leads on from where another one has led. -/
theorem trans (first : Leads settings outside base m w m₁ w₁)
    (rest : Leads settings outside base m₁ w₁ m' w') : Leads settings outside base m w m' w' := by
  induction first with
  | here => exact rest
  | onward busy advance _ ih => exact .onward busy advance (ih rest)

/-- One step from an effect. -/
theorem eval {e : Effect σ} {stack : List (Frame σ)}
    (step : Machine.step settings ⟨.eval e, env, stack⟩ w = (.next m₁, w₁))
    (rest : Leads settings outside base m₁ w₁ m' w') :
    Leads settings outside base ⟨.eval e, env, stack⟩ w m' w' :=
  .onward not_handing_eval (.next step) rest

/-- What the machine that the run comes to hands to the base is what the run hands to it. -/
theorem delivers (leads : Leads settings outside base m w m' w')
    (rest : Delivers settings outside base m' w' x env w'') :
    Delivers settings outside base m w x env w'' := by
  induction leads with
  | here => exact rest
  | onward busy advance _ ih =>
      rcases ih rest with ⟨n, run⟩
      exact ⟨n + 1, .step busy advance run⟩

/-- A run to the end above a frame, and then one that begins by handing the frame its outcome,
    are a run above what is below the frame. -/
theorem join (first : Delivers settings outside (frame :: base) m w x env w₁)
    (above : frame :: base <:+ m.stack)
    (rest : Leads settings outside base ⟨.unwind x, env, frame :: base⟩ w₁ m' w') :
    Leads settings outside base m w m' w' := by
  rcases first with ⟨n, first⟩
  induction first with
  | done => exact rest
  | step busy advance _ ih =>
      exact .onward (not_handing_of_suffix above) advance
        (ih (advances_keeps advance above busy) rest)

/-- A run above some frames is a run above what is below them. -/
theorem of_append (leads : Leads settings outside (frames ++ base) m w m' w')
    (above : frames ++ base <:+ m.stack) : Leads settings outside base m w m' w' := by
  induction frames with
  | nil => exact leads
  | cons frame rest ih =>
      have lower : Leads settings outside (rest ++ base) m w m' w' := by
        clear ih
        induction leads with
        | here => exact .here
        | onward busy advance _ ih =>
            exact .onward (not_handing_of_suffix above) advance
              (ih (advances_keeps advance above busy))
      exact ih lower ((List.suffix_cons _ _).trans above)

end Leads

/-- A defect that is handed to a frame that lets it through takes the frame off the stack and does
    nothing to the world. -/
theorem step_die (passes : frame.Passes) (env : Context) (stack : List (Frame σ)) (w : World σ) :
    ∃ env', Machine.step settings ⟨.unwind (.die d), env, frame :: stack⟩ w =
      (.next ⟨.unwind (.die d), env', stack⟩, w) := by
  -- `catchDefect` is the one frame that does not pass a defect on.
  cases frame with
  | flatMap next => exact ⟨env, rfl⟩
  | fold onSuccess onFailure =>
      refine ⟨env, ?_⟩
      cases onSuccess <;> cases onFailure <;> rfl
  | catchDefect handler => exact passes.elim
  | recur r =>
      refine ⟨env, ?_⟩
      rcases r with ⟨source, schedule, state, mode, filter, attempt⟩
      cases mode <;> rfl
  | restore outer => exact ⟨outer, rfl⟩
  | all rest collect ends =>
      refine ⟨env, ?_⟩
      cases collect <;> rfl
  | race rest =>
      refine ⟨env, ?_⟩
      cases rest <;> rfl

/-- A defect passes frames that let it through, one in each step, and leaves the world as it is. -/
theorem steps_die (passes : ∀ frame ∈ frames, frame.Passes) (env : Context)
    (base : List (Frame σ)) (w : World σ) :
    ∃ env', Steps settings frames.length ⟨.unwind (.die d), env, frames ++ base⟩ w
      ⟨.unwind (.die d), env', base⟩ w := by
  induction frames generalizing env with
  | nil => exact ⟨env, .none⟩
  | cons frame rest ih =>
      rcases List.forall_mem_cons.1 passes with ⟨first, passes⟩
      rcases step_die first env (rest ++ base) w with ⟨env₁, step⟩
      rcases ih passes env₁ with ⟨env', steps⟩
      exact ⟨env', .more step steps⟩

/-- A run above frames that let defects through, and that ends in a defect, is a run above what is
    below these frames. -/
theorem delivers_die (passes : ∀ frame ∈ frames, frame.Passes)
    (run : Delivers settings outside (frames ++ base) m w (.die d) env w')
    (above : frames ++ base <:+ m.stack) :
    ∃ env', Delivers settings outside base m w (.die d) env' w' := by
  induction frames generalizing env with
  | nil => exact ⟨env, run⟩
  | cons frame rest ih =>
      rcases List.forall_mem_cons.1 passes with ⟨first, passes⟩
      rcases step_die first env (rest ++ base) w' with ⟨env₁, step⟩
      rcases run with ⟨n, run⟩
      have through := completes_join run above (.step not_handing_cons (.next step) .done)
      exact ih passes ⟨_, through⟩ ((List.suffix_cons _ _).trans above)

/-- A run on the spot in which a defect passes all frames ends there, and changes nothing. -/
theorem runBlocking_die (passes : ∀ frame ∈ frames, frame.Passes) (env : Context) (w : World σ)
    {fuel : Nat} (enough : frames.length < fuel) :
    runBlocking settings fuel ⟨.unwind (.die d), env, frames⟩ w = some (.die d, w) := by
  induction frames generalizing env fuel with
  | nil =>
      rcases Nat.exists_eq_add_of_lt enough with ⟨fuel, rfl⟩
      rfl
  | cons frame rest ih =>
      rcases List.forall_mem_cons.1 passes with ⟨first, passes⟩
      rcases step_die first env rest w with ⟨env₁, step⟩
      rcases Nat.exists_eq_add_of_lt enough with ⟨fuel, rfl⟩
      unfold runBlocking
      rw [step]
      exact ih passes env₁ (by rw [List.length_cons]; omega)

end Machine

/-- The death of one of the fibers side by side decides the whole. -/
theorem Join.absorb_die (join : Join) (position : Nat) (d : Defect) :
    join.absorb position (.die d) = .left (.die d) := by
  rcases join with ⟨total, _ | _, ends⟩ | last <;> rfl

namespace Fiber

variable {settings : Settings} {path : Path} {frames : List (Frame σ)} {d : Defect}

/-- A fiber in which a defect passes all frames ends in the turn that it has and changes nothing. -/
theorem turns_die (passes : ∀ frame ∈ frames, frame.Passes) (env : Context) (k : Kernel σ) :
    Turns settings path (.ready ⟨.unwind (.die d), env, frames⟩) k (.ended (.die d)) k := by
  induction frames generalizing env with
  | nil => exact turns_done (.die d) env
  | cons frame rest ih =>
      rcases List.forall_mem_cons.1 passes with ⟨first, passes⟩
      rcases step_die first env rest k.world with ⟨env₁, step⟩
      exact (continues_next step).turns (ih passes env₁)

/-- So does one that has others run side by side, when they have come to the defect. -/
theorem turns_joining_die {join : Join} {children : List (FiberId × Nat × Fiber σ)}
    {k k' : Kernel σ} (passes : ∀ frame ∈ frames, frame.Passes) (env : Context)
    (each : TurnsEach settings path join children 0 0 children.length k (.ended (.die d)) k') :
    Turns settings path (.joining join children ⟨[], env, frames⟩) k (.ended (.die d)) k' :=
  (Continues.joined each).turns (turns_die passes env k')

end Fiber

end EffectKernel
