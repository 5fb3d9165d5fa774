import EffectKernel.Effect.Generator
import EffectKernel.Proofs.ProgramClasses
import EffectKernel.Proofs.Laws.Duality
import EffectKernel.Proofs.OnTheSpot

/-!
# What Is Refused on the Spot

A run on the spot has nobody who could take it up again. So what can only end later is refused: the
node dies there and then, as an effect would that does nothing else, and nothing of it is begun.
What could run side by side is run in order. In both respects the nodes may be exchanged for others,
at any places of a program, and nobody can tell (`Refusal.sound_sides`).

A routine that gives way is all that is left to break off a run. Where routines only run effects no
run is broken off, since such programs are of one class and the machine never has to ask for
anything (`Effect.Straight`). What is refused is not begun, so it does not matter what it would have
done.

## Main definitions

* `Effect.Straight`: Routines in the effect only run effects.
* `Refusal.sides`: What may be exchanged on the spot.

## Theorems

* `not_breaksOff_of_straight`: A program whose routines only run effects is not broken off.
* `Refusal.sound_sides`: On the spot, the exchange cannot be seen.
* `refused_on_the_spot`: Runs on the spot refuse what can only end later.
-/

namespace EffectKernel

open Machine

variable {σ : Type}

/-! ### Runs that are not broken off -/

mutual
/-- An effect in which routines do nothing but run effects, as far as they are run on the spot. -/
inductive Effect.Straight {σ : Type} : Effect σ → Prop where
  | exit {thunk} : Effect.Straight (.exit thunk)
  | suspend {make} (made : make.Gives Effect.Straight) : Effect.Straight (.suspend make)
  | callback {register} : Effect.Straight (.callback register)
  | promise {start} : Effect.Straight (.promise start)
  | flatMap {source next} (first : source.Straight) (then' : ∀ v, (next v).Gives Effect.Straight) :
      Effect.Straight (.flatMap source next)
  | fold {source onSuccess onFailure} (first : source.Straight)
      (success : ∀ f ∈ onSuccess, ∀ v, (f v).Gives Effect.Straight)
      (failure : ∀ f ∈ onFailure, ∀ e, (f e).Gives Effect.Straight) :
      Effect.Straight (.fold source onSuccess onFailure)
  | catchDefect {source handler} (first : source.Straight)
      (caught : ∀ d, (handler d).Gives Effect.Straight) :
      Effect.Straight (.catchDefect source handler)
  | recur {source schedule mode filter} (first : source.Straight) :
      Effect.Straight (.recur source schedule mode filter)
  | service {key} : Effect.Straight (.service key)
  | provide {source services} (body : source.Straight) :
      Effect.Straight (.provide source services)
  | sleep {span} : Effect.Straight (.sleep span)
  | timeout {source limit} : Effect.Straight (.timeout source limit)
  | all {children collect parallel} (each : ∀ e ∈ children, e.Straight) :
      Effect.Straight (.all children collect parallel)
  | race {children} (each : ∀ e ∈ children, e.Straight) : Effect.Straight (.race children)
  | gen {body} (run : ∀ env, (body env).Gives Routine.Straight) : Effect.Straight (.gen body)
  | announce {event next} (goOn : next.Straight) : Effect.Straight (.announce event next)

/-- A routine that does nothing but run such effects. -/
inductive Routine.Straight {σ : Type} : Routine σ → Prop where
  | done {x} : Routine.Straight (.done x)
  | await {e env next} (run : e.Straight) (goOn : ∀ x, (next x).Gives Routine.Straight) :
      Routine.Straight (.await e env next)
end

/-- They are a class of programs. -/
def ProgramClass.straight (σ : Type) : ProgramClass σ where
  effects := Effect.Straight
  routines := Routine.Straight
  suspend := fun | .suspend made => made
  flatMap := fun | .flatMap first then' => ⟨first, then'⟩
  fold := fun | .fold first success failure => ⟨first, success, failure⟩
  catchDefect := fun | .catchDefect first caught => ⟨first, caught⟩
  recur := fun | .recur first => first
  provide := fun | .provide body => body
  all := fun | .all each => each
  race := fun | .race each => each
  gen := fun | .gen run => run
  announce := fun | .announce goOn => goOn
  await := fun | .await run goOn => ⟨run, goOn⟩
  giveWay := nofun
  sleep := nofun

/-- A program whose routines only run effects is not broken off. -/
theorem not_breaksOff_of_straight {e : Effect σ} (straight : e.Straight) (h : Bool) (env : Context)
    (w w' : World σ) : ¬ (Machine.start e env).BreaksOff ⟨.sync, h⟩ w w' := by
  rintro ⟨n, m, w₁, request, point, run, asks⟩
  have of : m.Of (.straight σ) := steps_of (of_start (K := .straight σ) straight env) run
  rcases step_of of h w₁ with ⟨m', w₂, step, -⟩ | ⟨x, env₂, rfl⟩
  · rw [step] at asks
    cases asks
  · cases asks

/-! ### What may be exchanged -/

namespace Refusal

/-- What stands for what on the spot. -/
inductive Sides (Parts : Effect σ → Effect σ → Prop) : Effect σ → Effect σ → Prop where
  /-- What can only end later dies. -/
  | later {e what} (later : e.endsLater? = some what) : Sides Parts e (.die (.asyncInSync what))
  /-- What could run side by side is run in order. -/
  | all {children children' collect} (each : List.Forall₂ Parts children children') :
      Sides Parts (.all children collect true) (.all children' collect false)
  /-- What could be tried side by side is tried in order. -/
  | race {first first' rest rest'} (part : Parts first first')
      (others : List.Forall₂ Parts rest rest') :
      Sides Parts (.race (first :: rest)) (.tower first' rest')

/-- The frames around an effect that is tried, with others to be tried after it. -/
inductive Meanwhile (Parts : Effect σ → Effect σ → Prop) :
    List (Frame σ) → List (Frame σ) → Prop where
  | race {rest rest'} (others : List.Forall₂ Parts rest rest') :
      Meanwhile Parts [.race rest] (rest'.map Duality.trying)

/-- What may be exchanged on the spot. -/
def sides (σ : Type) : Exchange σ where
  exact := True
  tame := False
  effects := Sides
  frames Parts _ := Meanwhile Parts

section Meets

variable {h : Bool} {env : Context} {stack : List (Frame σ)} {w : World σ} {x : Outcome}

/-- What can only end later dies where it stands on the spot. -/
theorem step_later {e : Effect σ} {what : String} (later : e.endsLater? = some what) :
    Machine.step ⟨.sync, h⟩ ⟨.eval e, env, stack⟩ w =
      (.next ⟨.unwind (.die (.asyncInSync what)), env, stack⟩, w) :=
  step_refused rfl later

/-- On the spot, the exchange cannot be seen. -/
theorem sound_sides (σ : Type) (h : Bool) : (sides σ).SoundOn ⟨.sync, h⟩ where
  inexact tame := tame.elim
  effects := by
    rintro Parts e e' env stack stack' w w' side parts meets below worlds
    cases side with
    | later later => exact Exchange.meets_next (step_later later) rfl .unwind below worlds
    | @all children children' collect each =>
        have inOrder : (sides σ).Machines (startAll children collect env stack)
            (startAll children' collect env stack') := by
          cases each with
          | nil => exact .mk .unwind below
          | cons first rest =>
              exact .mk (.eval (parts _ _ first))
                (.frame (.all (rest.imp fun _ _ part => parts _ _ part)) below)
        exact .one rfl rfl inOrder worlds
    | race part others =>
        exact (meets part (.rule (Meanwhile.race others) parts below) worlds).after (.one rfl)
          (Duality.steps_tower _ _ _ _ _)
  frames := by
    rintro Parts frames frames' env stack stack' ⟨others⟩ parts below meets x w w' worlds
    rename_i rest rest'
    -- What is not a failure passes the one frame here and every frame of the tower there.
    have past : x.isFail = false → (sides σ).likeness.Meets ⟨.sync, h⟩
        ⟨.unwind x, env, .race rest :: stack⟩ w
        ⟨.unwind x, env, rest'.map Duality.trying ++ stack'⟩ w' := fun noFailure =>
      (meets worlds).after (.one (letsThrough_race (by simp [noFailure]) _ _ _ _))
        (steps_past (List.forall_mem_map.2 fun next _ => letsThrough_catchAll noFailure _) env
          stack')
    cases x with
    | success v => exact past rfl
    | die d => exact past rfl
    | fail e =>
        cases others with
        | nil => exact (meets worlds).after (.one rfl) .none
        | cons next others =>
            exact .ahead (.one rfl) Nat.one_pos (.one rfl) Nat.one_pos
              (.mk (.eval (parts _ _ next)) (.rule (Meanwhile.race others) parts below)) worlds
  bodies := nofun

end Meets

end Refusal

/-- Runs on the spot refuse what can only end later. A program whose routines only run effects is
    not broken off, so it comes to what its last frame hands on if it comes to an end. An effect
    that can only end later dies where it stands, and no other than what it is called for matters:
    the world stays as it is, its function is not called and its source is not begun, the frames
    around it are handed the defect, and a handler for defects goes on from it. In any program, at
    any places and any number of them, it may be exchanged for an effect that dies, effects side by
    side for the same in order, and effects that are tried side by side for a tower of handlers;
    above any frames, and also where runs are broken off, the program comes to the same. -/
theorem refused_on_the_spot (σ : Type) (h : Bool) :
    (∀ {e : Effect σ}, e.Straight → ∀ env w,
      (∀ w', ¬ (Machine.start e env).BreaksOff ⟨.sync, h⟩ w w') ∧
      ∀ {x w'}, (Machine.start e env).EndsOnSpot ⟨.sync, h⟩ w x w' →
        (Machine.start e env).Finishes ⟨.sync, h⟩ w x env w') ∧
    (∀ {e : Effect σ} {what}, e.endsLater? = some what → ∀ env stack w,
      Machine.step ⟨.sync, h⟩ ⟨.eval e, env, stack⟩ w =
        (.next ⟨.unwind (.die (.asyncInSync what)), env, stack⟩, w) ∧
      ∀ handler, Steps ⟨.sync, h⟩ 2 ⟨.eval (.catchDefect e handler), env, stack⟩ w
        ⟨.unwind (.die (.asyncInSync what)), env, .catchDefect handler :: stack⟩ w) ∧
    (∀ {e : Effect σ} {what}, e.endsLater? = some what →
      (Refusal.sides σ).Likes e (.die (.asyncInSync what))) ∧
    (∀ es : List (Effect σ), (Refusal.sides σ).Likes (.allPar es) (.allOf es)) ∧
    (∀ {es : List (Effect σ)} {e e'}, Effect.raceOf? es = .ok e →
      Effect.firstSuccessOf? es = .ok e' → (Refusal.sides σ).Likes e e') ∧
    ∀ {whole whole' : Effect σ}, (Refusal.sides σ).Likes whole whole' → ∀ env stack w x w',
      EndsOnSpot ⟨.eval whole, env, stack⟩ ⟨.sync, h⟩ w x w' ↔
        EndsOnSpot ⟨.eval whole', env, stack⟩ ⟨.sync, h⟩ w x w' := by
  -- Every child is exchanged for itself.
  have same : ∀ es : List (Effect σ), List.Forall₂ (Refusal.sides σ).Likes es es := fun es =>
    List.forall₂_same.2 fun e _ => Exchange.Likes.refl e
  refine ⟨fun straight env w => ⟨not_breaksOff_of_straight straight h env w, fun ends => ?_⟩,
    fun later env stack w => ⟨Refusal.step_later later, fun handler => ?_⟩,
    fun later => .rule (.later later) fun _ _ alike => alike, fun es => ?_,
    fun {es e e'} race first => ?_, fun alike env stack w x w' => ?_⟩
  · rcases endsOnSpot_iff.1 ends with ⟨env', n, run⟩ | ⟨-, breaks⟩
    · obtain rfl := env_of_steps run
      exact ⟨n, run⟩
    · exact absurd breaks (not_breaksOff_of_straight straight h env w _)
  · exact .more rfl (.one (Refusal.step_later later))
  · exact .flatMap (.rule (Refusal.Sides.all (same es)) fun _ _ alike => alike)
      fun _ => Exchange.gives_act _
  · cases es with
    | nil => cases race
    | cons e es =>
        cases race
        cases first
        exact .rule (Refusal.Sides.race (.refl e) (same es)) fun _ _ alike => alike
  · have machines := (Exchange.reflexive.points ⟨[], env, stack⟩).eval alike
    exact ((Refusal.sound_sides σ h).upheldOn.same_onSpot machines w).iff trivial x w'

namespace Sample

/-- Pauses with a limit of time, and goes on if this is refused. -/
def hasty : Effect Nat :=
  .generator fun cx => pure (cx.bind (told (.timeout pause (Duration.ofMillis 9))) fun result =>
    pure (Gen.ends result))

/-- The same where the limit of time has been refused. -/
def refused : Effect Nat :=
  .generator fun cx => pure (cx.bind (told (.die (.asyncInSync "a timeout"))) fun result =>
    pure (Gen.ends result))

theorem straight_hasty : hasty.Straight := by
  refine .gen fun env => Act.gives_pure (.await (.catchDefect .timeout fun d => ?_) fun x => ?_)
  · exact Act.gives_pure .exit
  · exact Act.gives_pure .done

end Sample

/-- The pause is not begun, and no time passes. -/
theorem sample_refused_on_the_spot :
    Sample.hasty.Straight ∧
    (Machine.start Sample.hasty Context.empty).Finishes ⟨.sync, true⟩ ⟨0, 0, #[]⟩
      (.success (.text (Defect.asyncInSync "a timeout").message)) Context.empty ⟨0, 0, #[]⟩ := by
  rcases refused_on_the_spot Nat true with ⟨whole, -, dies, -, -, same⟩
  have alike : (Refusal.sides Nat).Likes Sample.hasty Sample.refused :=
    .gen fun _ _ => .ok (.await (.catchDefect (dies rfl) fun _ => Exchange.gives_act _)
      fun _ => Exchange.gives_routine _)
  have ends : (Machine.start Sample.refused Context.empty).EndsOnSpot ⟨.sync, true⟩ ⟨0, 0, #[]⟩
      (.success (.text (Defect.asyncInSync "a timeout").message)) ⟨0, 0, #[]⟩ := ⟨20, rfl⟩
  exact ⟨Sample.straight_hasty, (whole Sample.straight_hasty _ _).2
    ((same alike _ _ _ _ _).2 ends)⟩

end EffectKernel
