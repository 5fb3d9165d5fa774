import EffectKernel.Effect.Construct
import EffectKernel.Proofs.Likeness.Runs

/-!
# Exchanging Parts of Programs

An exchange says which effects may take the place of which others. One program is then exchanged
for another one if they are alike but for such places, wherever these are: deep inside, side by
side, or in what the functions of the program make as it runs.

Whether an exchange can be seen from outside is a question about the machine. While the parts that
have been exchanged are run, the frames around them may differ, so an exchange also says which
frames may stand for which others. It is sound (`Exchange.Sound`) if nothing can be seen at the
places themselves: the effects meet when they are run among frames that are alike, and the frames
meet when an outcome is handed to them. Everything else in the two programs is the same, and takes
the same steps. So from there it follows that the whole programs look alike
(`Exchange.Sound.upheld`), so that they come to the same however they are run.

An exchange may also be tame. Then a function that panics may be exchanged for one that gives the
effect that dies by the defect which the panic would become. That is no secret to those who listen
to events, since a panic is reported.

## Main definitions

* `Exchange`: What may take the place of what.
* `Exchange.Likes`: A program and one with parts exchanged.
* `Exchange.Stacks`, `Exchange.Machines`: The same while they are run.
* `Exchange.SoundOn`, `Exchange.Sound`: Nothing can be seen at the places of the exchange.

## Theorems

* `Exchange.Sound.upheld`: Then programs with parts exchanged look alike.
* `Exchange.Likes.refl`: Nothing has to be exchanged.
* `Exchange.reflexive`: So everything looks like itself.
-/

namespace EffectKernel

open Machine

/-- What may take the place of what. -/
structure Exchange (σ : Type) where
  /-- The same events are reported. -/
  exact : Prop
  /-- Panics may be exchanged for deaths. -/
  tame : Prop
  /-- The effects that may be exchanged, where it is known which of their parts may be. -/
  effects : (Effect σ → Effect σ → Prop) → Effect σ → Effect σ → Prop
  /-- The frames that may be exchanged, among given services. -/
  frames : (Effect σ → Effect σ → Prop) → Context → List (Frame σ) → List (Frame σ) → Prop
  /-- The routines that wait for a machine inside and may be exchanged for frames beneath it, among
      given services. -/
  bodies : (Effect σ → Effect σ → Prop) → Context → Body σ → List (Frame σ) → Prop :=
    fun _ _ _ _ => False

namespace Exchange

variable {σ : Type} (X : Exchange σ)

/-- An outcome that stands for a panic. -/
def Dying (p : Panic) (x : Outcome) : Prop :=
  X.tame ∧ x = .die (.ofPanic p)

/-- An effect that stands for a panic. -/
def DyingEffect (p : Panic) (e : Effect σ) : Prop :=
  X.tame ∧ e = Effect.die (.ofPanic p)

/-- A routine that stands for a panic. -/
def DyingRoutine (p : Panic) (r : Routine σ) : Prop :=
  X.tame ∧ r = .done (.die (.ofPanic p))

mutual
/-- A program and one with parts exchanged. -/
inductive Likes : Effect σ → Effect σ → Prop where
  /-- A place where parts are exchanged. -/
  | rule {Parts e e'} (rule : X.effects Parts e e') (parts : ∀ a b, Parts a b → Likes a b) :
      Likes e e'
  | exit {thunk thunk'} (alike : ∀ s, Gives Eq X.Dying (thunk.run s) (thunk'.run s)) :
      Likes (.exit thunk) (.exit thunk')
  | suspend {make make'} (alike : ∀ s, Gives Likes X.DyingEffect (make.run s) (make'.run s)) :
      Likes (.suspend make) (.suspend make')
  | callback {register register'}
      (alike : ∀ handle s, Registered X.exact Likes ((register handle).run s)
        ((register' handle).run s) handle) : Likes (.callback register) (.callback register')
  | promise {start start'}
      (alike : ∀ s, Gives LikesRoutine X.DyingRoutine (start.run s) (start'.run s)) :
      Likes (.promise start) (.promise start')
  | flatMap {source next source' next'} (inner : Likes source source')
      (alike : ∀ v s, Gives Likes X.DyingEffect ((next v).run s) ((next' v).run s)) :
      Likes (.flatMap source next) (.flatMap source' next')
  | fold {source onSuccess onFailure source' onSuccess' onFailure'} (inner : Likes source source')
      (success : Option.Rel (fun next next' => ∀ v s,
        Gives Likes X.DyingEffect ((next v).run s) ((next' v).run s)) onSuccess onSuccess')
      (failure : Option.Rel (fun next next' => ∀ v s,
        Gives Likes X.DyingEffect ((next v).run s) ((next' v).run s)) onFailure onFailure') :
      Likes (.fold source onSuccess onFailure) (.fold source' onSuccess' onFailure')
  | catchDefect {source handler source' handler'} (inner : Likes source source')
      (alike : ∀ d s, Gives Likes X.DyingEffect ((handler d).run s) ((handler' d).run s)) :
      Likes (.catchDefect source handler) (.catchDefect source' handler')
  | recur {source schedule mode filter source'} (inner : Likes source source') :
      Likes (.recur source schedule mode filter) (.recur source' schedule mode filter)
  | service {key} : Likes (.service key) (.service key)
  | provide {source services source'} (inner : Likes source source') :
      Likes (.provide source services) (.provide source' services)
  | sleep {span} : Likes (.sleep span) (.sleep span)
  | timeout {source limit source'} (inner : Likes source source') :
      Likes (.timeout source limit) (.timeout source' limit)
  | all {children collect parallel children'} (each : List.Forall₂ Likes children children') :
      Likes (.all children collect parallel) (.all children' collect parallel)
  | race {children children'} (each : List.Forall₂ Likes children children') :
      Likes (.race children) (.race children')
  | gen {body body'}
      (alike : ∀ env s, Gives LikesRoutine X.DyingRoutine ((body env).run s) ((body' env).run s)) :
      Likes (.gen body) (.gen body')
  | announce {event next next'} (inner : Likes next next') :
      Likes (.announce event next) (.announce event next')

/-- A routine and one with parts exchanged. -/
inductive LikesRoutine : Routine σ → Routine σ → Prop where
  | done {x} : LikesRoutine (.done x) (.done x)
  | await {e env next e' next'} (inner : Likes e e')
      (alike : ∀ x s, Gives LikesRoutine X.DyingRoutine ((next x).run s) ((next' x).run s)) :
      LikesRoutine (.await e env next) (.await e' env next')
  | giveWay {next next'}
      (alike : ∀ s, Gives LikesRoutine X.DyingRoutine (next.run s) (next'.run s)) :
      LikesRoutine (.giveWay next) (.giveWay next')
  | sleep {millis next next'}
      (alike : ∀ s, Gives LikesRoutine X.DyingRoutine (next.run s) (next'.run s)) :
      LikesRoutine (.sleep millis next) (.sleep millis next')
end

/-- A routine that waits, and one with parts exchanged: they go on alike. -/
def LikesBody (body body' : Body σ) : Prop :=
  ∀ x s, Gives X.LikesRoutine X.DyingRoutine ((body x).run s) ((body' x).run s)

/-- A frame and one with parts exchanged, unless it is one that puts back services from before. -/
inductive LikesFrame : Frame σ → Frame σ → Prop where
  | flatMap {next next'}
      (alike : ∀ v s, Gives X.Likes X.DyingEffect ((next v).run s) ((next' v).run s)) :
      LikesFrame (.flatMap next) (.flatMap next')
  | fold {onSuccess onFailure onSuccess' onFailure'}
      (success : Option.Rel (fun next next' => ∀ v s,
        Gives X.Likes X.DyingEffect ((next v).run s) ((next' v).run s)) onSuccess onSuccess')
      (failure : Option.Rel (fun next next' => ∀ v s,
        Gives X.Likes X.DyingEffect ((next v).run s) ((next' v).run s)) onFailure onFailure') :
      LikesFrame (.fold onSuccess onFailure) (.fold onSuccess' onFailure')
  | catchDefect {handler handler'}
      (alike : ∀ d s, Gives X.Likes X.DyingEffect ((handler d).run s) ((handler' d).run s)) :
      LikesFrame (.catchDefect handler) (.catchDefect handler')
  | recur {source schedule state mode filter attempt source'} (inner : X.Likes source source') :
      LikesFrame (.recur ⟨source, schedule, state, mode, filter, attempt⟩)
        (.recur ⟨source', schedule, state, mode, filter, attempt⟩)
  | all {rest collect ends rest'} (each : List.Forall₂ X.Likes rest rest') :
      LikesFrame (.all rest collect ends) (.all rest' collect ends)
  | race {rest rest'} (each : List.Forall₂ X.Likes rest rest') :
      LikesFrame (.race rest) (.race rest')

/-- Frames, and the same with some of them and parts of others exchanged, where these services can
    be read above them. -/
inductive Stacks : Context → List (Frame σ) → List (Frame σ) → Prop where
  | nil {env} : Stacks env [] []
  | frame {env frame frame' stack stack'} (alike : X.LikesFrame frame frame')
      (below : Stacks env stack stack') : Stacks env (frame :: stack) (frame' :: stack')
  | restore {env outer stack stack'} (below : Stacks outer stack stack') :
      Stacks env (.restore outer :: stack) (.restore outer :: stack')
  /-- A place where frames are exchanged. -/
  | rule {Parts env frames frames' stack stack'} (rule : X.frames Parts env frames frames')
      (parts : ∀ a b, Parts a b → X.Likes a b) (below : Stacks env stack stack') :
      Stacks env (frames ++ stack) (frames' ++ stack')

/-- What a machine looks at, and the same with parts exchanged. -/
inductive LikesFocus : Focus σ → Focus σ → Prop where
  | eval {e e'} (alike : X.Likes e e') : LikesFocus (.eval e) (.eval e')
  | unwind {x} : LikesFocus (.unwind x) (.unwind x)
  | resume {r r'} (alike : ∀ s, Gives X.LikesRoutine X.DyingRoutine (r.run s) (r'.run s)) :
      LikesFocus (.resume r) (.resume r')

/-- A machine and the same with parts exchanged. -/
inductive Machines : Machine σ → Machine σ → Prop where
  | mk {focus focus' env stack stack'} (alike : X.LikesFocus focus focus')
      (below : X.Stacks env stack stack') : Machines ⟨focus, env, stack⟩ ⟨focus', env, stack'⟩
  | within {m m' body body' env stack stack'} (inner : Machines m m')
      (alike : X.LikesBody body body') (below : X.Stacks env stack stack') :
      Machines (m.within body env stack) (m'.within body' env stack')
  /-- The first one has a machine inside, and the second one has frames beneath instead. -/
  | bound {Parts m m' body frames env stack stack'} (rule : X.bodies Parts env body frames)
      (parts : ∀ a b, Parts a b → X.Likes a b) (inner : Machines m m') (home : m'.home = env)
      (below : X.Stacks env stack stack') :
      Machines (m.within body env stack) (m'.above (frames ++ stack'))
  /-- The second one has some steps to take until it is alike, which do nothing else. -/
  | behind {n m env e stack e' stack'}
      (steps : ∀ settings w, Steps settings n ⟨.eval e, env, stack⟩ w ⟨.eval e', env, stack'⟩ w)
      (alike : Machines m ⟨.eval e', env, stack'⟩) : Machines m ⟨.eval e, env, stack⟩

/-- Programs with parts exchanged are held to look alike. -/
def likeness : Likeness σ :=
  ⟨X.exact, X.Likes, X.Machines⟩

/-- Nothing can be seen at the places of the exchange where runs have these settings. -/
structure SoundOn (settings : Settings) : Prop where
  /-- Panics are events. -/
  inexact : X.tame → ¬ X.exact
  /-- The effects meet, among frames that are alike, if their parts do. -/
  effects : ∀ {Parts e e'} {env stack stack' w w'},
    X.effects Parts e e' → (∀ a b, Parts a b → X.Likes a b) →
    (∀ {a b env stack stack' w w'}, Parts a b → X.Stacks env stack stack' →
      X.likeness.Worlds w w' →
      X.likeness.Meets settings ⟨.eval a, env, stack⟩ w ⟨.eval b, env, stack'⟩ w') →
    X.Stacks env stack stack' → X.likeness.Worlds w w' →
    X.likeness.Meets settings ⟨.eval e, env, stack⟩ w ⟨.eval e', env, stack'⟩ w'
  /-- The frames meet when an outcome is handed to them, if those below them do. -/
  frames : ∀ {Parts frames frames'} {env stack stack'},
    X.frames Parts env frames frames' → (∀ a b, Parts a b → X.Likes a b) →
    X.Stacks env stack stack' →
    (∀ {x w w'}, X.likeness.Worlds w w' →
      X.likeness.Meets settings ⟨.unwind x, env, stack⟩ w ⟨.unwind x, env, stack'⟩ w') →
    ∀ {x w w'}, X.likeness.Worlds w w' →
      X.likeness.Meets settings ⟨.unwind x, env, frames ++ stack⟩ w
        ⟨.unwind x, env, frames' ++ stack'⟩ w'
  /-- Routines and frames meet when a bound effect has ended. -/
  bodies : ∀ {Parts body frames} {env stack stack' x w w'}, X.bodies Parts env body frames →
    (∀ a b, Parts a b → X.Likes a b) → X.Stacks env stack stack' → X.likeness.Worlds w w' →
    X.likeness.Meets settings ⟨.resume (body x), env, stack⟩ w
      ⟨.unwind x, env, frames ++ stack'⟩ w'

/-- Nothing can be seen at the places of the exchange. -/
structure Sound : Prop where
  /-- Panics are events. -/
  inexact : X.tame → ¬ X.exact
  /-- The effects meet, among frames that are alike, if their parts do. -/
  effects : ∀ {Parts e e'} (settings : Settings) {env stack stack' w w'},
    X.effects Parts e e' → (∀ a b, Parts a b → X.Likes a b) →
    (∀ {a b env stack stack' w w'}, Parts a b → X.Stacks env stack stack' →
      X.likeness.Worlds w w' →
      X.likeness.Meets settings ⟨.eval a, env, stack⟩ w ⟨.eval b, env, stack'⟩ w') →
    X.Stacks env stack stack' → X.likeness.Worlds w w' →
    X.likeness.Meets settings ⟨.eval e, env, stack⟩ w ⟨.eval e', env, stack'⟩ w'
  /-- The frames meet when an outcome is handed to them, if those below them do. -/
  frames : ∀ {Parts frames frames'} (settings : Settings) {env stack stack'},
    X.frames Parts env frames frames' → (∀ a b, Parts a b → X.Likes a b) →
    X.Stacks env stack stack' →
    (∀ {x w w'}, X.likeness.Worlds w w' →
      X.likeness.Meets settings ⟨.unwind x, env, stack⟩ w ⟨.unwind x, env, stack'⟩ w') →
    ∀ {x w w'}, X.likeness.Worlds w w' →
      X.likeness.Meets settings ⟨.unwind x, env, frames ++ stack⟩ w
        ⟨.unwind x, env, frames' ++ stack'⟩ w'
  /-- Routines and frames meet when a bound effect has ended. -/
  bodies : ∀ {Parts body frames} (settings : Settings) {env stack stack' x w w'},
    X.bodies Parts env body frames → (∀ a b, Parts a b → X.Likes a b) →
    X.Stacks env stack stack' → X.likeness.Worlds w w' →
    X.likeness.Meets settings ⟨.resume (body x), env, stack⟩ w
      ⟨.unwind x, env, frames ++ stack'⟩ w'

variable {X}

theorem Sound.on (sound : X.Sound) (settings : Settings) : X.SoundOn settings :=
  ⟨sound.inexact, sound.effects settings, sound.frames settings, sound.bodies settings⟩

theorem Stacks.alike {env : Context} {stack stack' : List (Frame σ)}
    (h : X.Stacks env stack stack') : X.likeness.Points ⟨[], env, stack⟩ ⟨[], env, stack'⟩ :=
  ⟨fun _ => .mk .unwind h, fun alike => .mk (.eval alike) h⟩

/-! ### Functions -/

/-- A function gives the same as itself. -/
theorem gives_same {α : Type} {Death : Panic → α → Prop} (r : Except Panic α × σ) :
    Gives Eq Death r r := by
  rcases r with ⟨_ | _, _⟩
  · exact .error
  · exact .ok rfl

/-- What comes of two functions that are alike, when their panics have become defects. -/
inductive Guarded {α : Type} (L : Likeness σ) (Like : α → α → Prop) (Death : Panic → α → Prop) :
    Except Defect α × World σ → Except Defect α × World σ → Prop where
  | ok {a b v v'} (alike : Like a b) (worlds : L.Worlds v v') :
      Guarded L Like Death (.ok a, v) (.ok b, v')
  | error {d v v'} (worlds : L.Worlds v v') : Guarded L Like Death (.error d, v) (.error d, v')
  | death {p b v v'} (death : Death p b) (worlds : ¬ L.exact → L.Worlds v v') :
      Guarded L Like Death (.error (.ofPanic p), v) (.ok b, v')

theorem guarded {α : Type} {L : Likeness σ} {Like : α → α → Prop} {Death : Panic → α → Prop}
    {act act' : Act σ α} {w w' : World σ} (worlds : L.Worlds w w')
    (alike : ∀ s, Gives Like Death (act.run s) (act'.run s)) :
    Guarded L Like Death (w.guarded act) (w'.guarded act') := by
  have gives := alike w.store
  unfold World.guarded
  rw [← worlds.store]
  generalize act.run w.store = result at gives ⊢
  generalize act'.run w.store = result' at gives ⊢
  cases gives with
  | ok alike => exact .ok alike (worlds.stored _)
  | error => exact .error ((worlds.stored _).report _)
  | death death => exact .death death fun inexact => (worlds.stored _).reportLeft inexact _

section Steps

variable {settings : Settings} {m m' : Machine σ} {w w' v v' : World σ} {env : Context}
  {stack stack' : List (Frame σ)} {focus focus' : Focus σ}

/-- An effect that dies takes a step to do so. -/
theorem steps_dying (d : Defect) (env : Context) (stack : List (Frame σ)) (w : World σ) :
    Steps settings 1 ⟨.eval (Effect.die d), env, stack⟩ w ⟨.unwind (.die d), env, stack⟩ w :=
  .one rfl

theorem step_exit {thunk : Act σ Outcome} {x : Outcome}
    (given : w.guarded thunk = (.ok x, v)) :
    Machine.step settings ⟨.eval (.exit thunk), env, stack⟩ w =
      (.next ⟨.unwind x, env, stack⟩, v) := by
  simp only [Machine.step, stepAt, evalStep, given]

theorem step_exit_error {thunk : Act σ Outcome} {d : Defect}
    (given : w.guarded thunk = (.error d, v)) :
    Machine.step settings ⟨.eval (.exit thunk), env, stack⟩ w =
      (.next ⟨.unwind (.die d), env, stack⟩, v) := by
  simp only [Machine.step, stepAt, evalStep, given]

theorem step_service {key : ServiceKey} {service : Value} (found : env.get? key = some service) :
    Machine.step settings ⟨.eval (.service key), env, stack⟩ w =
      (.next ⟨.unwind (.success service), env, stack⟩, w) := by
  simp only [Machine.step, stepAt, evalStep, found]

theorem step_service_missing {key : ServiceKey} (missing : env.get? key = none) :
    Machine.step settings ⟨.eval (.service key), env, stack⟩ w =
      (.next ⟨.unwind (.die (.missingService key.name)), env, stack⟩, w) := by
  simp only [Machine.step, stepAt, evalStep, missing]

/-- Two machines that step to machines with parts exchanged. -/
theorem meets_next (left : m.step settings w = (.next ⟨focus, env, stack⟩, v))
    (right : m'.step settings w' = (.next ⟨focus', env, stack'⟩, v'))
    (alike : X.LikesFocus focus focus') (below : X.Stacks env stack stack')
    (worlds : X.likeness.Worlds v v') : X.likeness.Meets settings m w m' w' :=
  .one left right (.mk alike below) worlds

/-- Two machines that go on with what functions give. -/
theorem meets_applied (inexact : X.tame → ¬ X.exact) {act act' : Act σ (Effect σ)}
    (left : m.step settings w = applied env stack (w.guarded act))
    (right : m'.step settings w' = applied env stack' (w'.guarded act'))
    (alike : ∀ s, Gives X.Likes X.DyingEffect (act.run s) (act'.run s))
    (below : X.Stacks env stack stack') (worlds : X.likeness.Worlds w w') :
    X.likeness.Meets settings m w m' w' := by
  have given := guarded worlds alike
  generalize w.guarded act = result at given left
  generalize w'.guarded act' = result' at given right
  cases given with
  | ok alike worlds => exact meets_next left right (.eval alike) below worlds
  | error worlds => exact meets_next left right .unwind below worlds
  | death death worlds =>
      -- A panic in one corresponds to an effect that dies in the other, which takes its own steps
      -- to do so.
      rcases death with ⟨tame, rfl⟩
      exact .ahead (.one left) Nat.one_pos (.more right (steps_dying _ _ _ _)) (Nat.succ_pos _)
        (.mk .unwind below) (worlds (inexact tame))

/-- Two machines that wait out a delay. -/
theorem meets_paused {span : Duration}
    (left : m.step settings w = paused settings span focus env stack v)
    (right : m'.step settings w' = paused settings span focus' env stack' v')
    (alike : X.Machines ⟨focus, env, stack⟩ ⟨focus', env, stack'⟩)
    (worlds : X.likeness.Worlds v v') : X.likeness.Meets settings m w m' w' := by
  unfold paused at left right
  -- A pause that is skipped is one step; otherwise the mode decides between moving the clock and
  -- asking.
  by_cases skipped : (span.isZero || !settings.honorDelays) = true
  · rw [if_pos skipped] at left right
    exact .one left right alike worlds
  · rw [if_neg skipped] at left right
    cases hmode : settings.mode with
    | sync =>
        rw [hmode] at left right
        refine .one left right alike ?_
        rw [worlds.clock]
        exact worlds.timed _
    | async =>
        rw [hmode] at left right
        exact .asking .none left .none right (.pause alike) worlds

/-- Effects with parts exchanged that are to run side by side. -/
theorem starts_each {children children' : List (Effect σ)}
    (each : List.Forall₂ X.Likes children children') (env : Context) :
    List.Forall₂ (X.likeness.Starts env env) children children' :=
  each.imp fun _ _ alike => .mk (.eval alike) .nil

/-- Effects with parts exchanged meet. -/
theorem meets_eval (sound : X.SoundOn settings) {e e' : Effect σ} {env : Context}
    {stack stack' : List (Frame σ)} {w w' : World σ} (alike : X.Likes e e')
    (below : X.Stacks env stack stack') (worlds : X.likeness.Worlds w w') :
    X.likeness.Meets settings ⟨.eval e, env, stack⟩ w ⟨.eval e', env, stack'⟩ w' := by
  match alike with
  | .rule rule parts =>
      exact sound.effects rule parts
        (fun part below worlds => meets_eval sound (parts _ _ part) below worlds) below worlds
  | @Likes.exit _ _ thunk thunk' alike =>
      have given := guarded worlds alike
      generalize left : w.guarded thunk = result at given
      generalize right : w'.guarded thunk' = result' at given
      cases given with
      | ok alike worlds =>
          subst alike
          exact meets_next (step_exit left) (step_exit right) .unwind below worlds
      | error worlds =>
          exact meets_next (step_exit_error left) (step_exit_error right) .unwind below worlds
      | death death worlds =>
          rcases death with ⟨tame, rfl⟩
          exact meets_next (step_exit_error left) (step_exit right) .unwind below
            (worlds (sound.inexact tame))
  | .suspend alike => exact meets_applied sound.inexact rfl rfl alike below worlds
  | .callback alike =>
      rcases settings with ⟨_ | _, honor⟩
      · exact meets_next rfl rfl .unwind below worlds
      · exact .asking .none rfl .none rfl (.listen alike below.alike) worlds
  | .promise alike =>
      rcases settings with ⟨_ | _, honor⟩
      · exact meets_next rfl rfl .unwind below worlds
      · exact meets_next rfl rfl (.resume alike) below worlds
  | .flatMap inner alike =>
      exact meets_next rfl rfl (.eval inner) (.frame (.flatMap alike) below) worlds
  | .fold inner success failure =>
      exact meets_next rfl rfl (.eval inner) (.frame (.fold success failure) below) worlds
  | .catchDefect inner alike =>
      exact meets_next rfl rfl (.eval inner) (.frame (.catchDefect alike) below) worlds
  | .recur inner => exact meets_next rfl rfl (.eval inner) (.frame (.recur inner) below) worlds
  | @Likes.service _ _ key =>
      cases found : env.get? key with
      | some service =>
          exact meets_next (step_service found) (step_service found) .unwind below worlds
      | none =>
          exact meets_next (step_service_missing found) (step_service_missing found) .unwind below
            worlds
  | .provide inner => exact meets_next rfl rfl (.eval inner) (.restore below) worlds
  | .sleep => exact meets_paused rfl rfl (.mk .unwind below) worlds
  | .timeout inner =>
      rcases settings with ⟨_ | _, honor⟩
      · exact meets_next rfl rfl .unwind below worlds
      · exact .asking .none rfl .none rfl (.within (.mk (.eval inner) .nil) below.alike) worlds
  | @Likes.all _ _ children collect parallel children' each =>
      -- Where they cannot be run side by side, they are run in order.
      have inOrder : X.Machines (startAll children collect env stack)
          (startAll children' collect env stack') := by
        cases each with
        | nil => exact .mk .unwind below
        | cons first rest => exact .mk (.eval first) (.frame (.all rest) below)
      rcases settings with ⟨_ | _, honor⟩ <;> cases parallel
      · exact .one rfl rfl inOrder worlds
      · exact .one rfl rfl inOrder worlds
      · exact .one rfl rfl inOrder worlds
      · exact .asking .none rfl .none rfl (.gather (starts_each each env) below.alike) worlds
  | @Likes.race _ _ children children' each =>
      have inOrder : X.Machines (startRace children env stack)
          (startRace children' env stack') := by
        cases each with
        | nil => exact .mk .unwind below
        | cons first rest => exact .mk (.eval first) (.frame (.race rest) below)
      rcases settings with ⟨_ | _, honor⟩
      · exact .one rfl rfl inOrder worlds
      · exact .asking .none rfl .none rfl (.compete (starts_each each env) below.alike) worlds
  | .gen alike => exact meets_next rfl rfl (.resume (alike env)) below worlds
  | .announce inner => exact meets_next rfl rfl (.eval inner) below (worlds.report _)

/-- Routines with parts exchanged meet. -/
theorem meets_resume (sound : X.SoundOn settings) {r r' : Act σ (Routine σ)}
    (alike : ∀ s, Gives X.LikesRoutine X.DyingRoutine (r.run s) (r'.run s))
    (below : X.Stacks env stack stack') (worlds : X.likeness.Worlds w w') :
    X.likeness.Meets settings ⟨.resume r, env, stack⟩ w ⟨.resume r', env, stack'⟩
      w' := by
  have given := guarded worlds alike
  have left : Machine.step settings ⟨.resume r, env, stack⟩ w =
    resumeStep r env stack w := rfl
  have right : Machine.step settings ⟨.resume r', env, stack'⟩ w' =
    resumeStep r' env stack' w' := rfl
  unfold resumeStep at left right
  -- Both calls are made variables, and the routines they give decide the next step.
  generalize w.guarded r = result at given left
  generalize w'.guarded r' = result' at given right
  cases given with
  | error worlds => exact meets_next left right .unwind below worlds
  | death death worlds =>
      rcases death with ⟨tame, rfl⟩
      exact meets_next left right .unwind below (worlds (sound.inexact tame))
  | ok alike worlds =>
      cases alike with
      | done => exact meets_next left right .unwind below worlds
      | await inner alike =>
          exact .one left right (.within (.mk (.eval inner) .nil) alike below) worlds
      | giveWay alike =>
          exact .asking .none left .none right (.giveWay (.mk (.resume alike) below)) worlds
      | @sleep millis next next' alike =>
          dsimp only at left right
          by_cases zero : millis = 0
          · rw [if_pos zero] at left right
            exact meets_next left right (.resume alike) below worlds
          · rw [if_neg zero] at left right
            exact .asking .none left .none right (.pause (.mk (.resume alike) below)) worlds

/-- Sources that may be run again meet. -/
theorem meets_recur {source source' : Effect σ} {schedule : Schedule} {state : ScheduleState}
    {mode : Recur} {filter : Option (Value → Act σ Bool)} {attempt : UInt32} {x : Outcome}
    (inner : X.Likes source source') (below : X.Stacks env stack stack')
    (worlds : X.likeness.Worlds w w') :
    X.likeness.Meets settings
      ⟨.unwind x, env, .recur ⟨source, schedule, state, mode, filter, attempt⟩ :: stack⟩ w
      ⟨.unwind x, env, .recur ⟨source', schedule, state, mode, filter, attempt⟩ :: stack'⟩ w' := by
  have left : Machine.step settings
      ⟨.unwind x, env, .recur ⟨source, schedule, state, mode, filter, attempt⟩ :: stack⟩ w =
    recurStep settings ⟨source, schedule, state, mode, filter, attempt⟩ x env stack w := rfl
  have right : Machine.step settings
      ⟨.unwind x, env, .recur ⟨source', schedule, state, mode, filter, attempt⟩ :: stack'⟩ w' =
    recurStep settings ⟨source', schedule, state, mode, filter, attempt⟩ x env stack' w' := rfl
  -- The same failures are tested by the same test.
  have given : Guarded X.likeness Eq (fun _ _ => False)
      (wantsAgain ⟨source, schedule, state, mode, filter, attempt⟩ x w)
      (wantsAgain ⟨source', schedule, state, mode, filter, attempt⟩ x w') := by
    cases mode with
    | repeating => cases x <;> exact .ok rfl worlds
    | retry =>
        cases x with
        | success v => exact .ok rfl worlds
        | die d => exact .ok rfl worlds
        | fail e =>
            cases filter with
            | none => exact .ok rfl worlds
            | some test => exact guarded worlds fun s => gives_same ((test e).run s)
  unfold recurStep at left right
  generalize wantsAgain ⟨source, schedule, state, mode, filter, attempt⟩ x w = result
    at given left
  generalize wantsAgain ⟨source', schedule, state, mode, filter, attempt⟩ x w' = result'
    at given right
  cases given with
  | error worlds => exact meets_next left right .unwind below worlds
  | death death => exact death.elim
  | @ok again _ v v' same worlds =>
      subst same
      cases again with
      | false => exact meets_next left right .unwind below worlds
      | true =>
          dsimp only at left right
          cases decision : schedule.step state with
          | stop =>
              rw [decision] at left right
              exact meets_next left right .unwind below (worlds.report _)
          | again delay state =>
              rw [decision] at left right
              exact meets_paused left right (.mk (.eval inner) (.frame (.recur inner) below))
                (worlds.report _)

/-- The end of a child is handed to effects that collect it. -/
theorem machines_all {rest rest' : List (Effect σ)} {collect : Collect}
    {ends : List (Either Value Value)} {x : Outcome} (each : List.Forall₂ X.Likes rest rest')
    (below : X.Stacks env stack stack') :
    X.Machines (allStep rest collect ends x env stack)
      (allStep rest' collect ends x env stack') := by
  cases each with
  | nil => cases x <;> cases collect <;> exact .mk .unwind below
  | cons next rest =>
      have goesOn := LikesFocus.eval next
      -- With a child left a value or a kept failure goes on to it; anything else settles the whole.
      cases x with
      | success v => exact .mk goesOn (.frame (.all rest) below)
      | die d => exact .mk .unwind below
      | fail e =>
          cases collect with
          | shortCircuit => exact .mk .unwind below
          | every => exact .mk goesOn (.frame (.all rest) below)

/-- An outcome is handed to frames with parts exchanged. -/
theorem meets_unwind (sound : X.SoundOn settings) {x : Outcome} (below : X.Stacks env stack stack')
    (worlds : X.likeness.Worlds w w') :
    X.likeness.Meets settings ⟨.unwind x, env, stack⟩ w ⟨.unwind x, env, stack'⟩ w' := by
  -- By induction on the frames, since those that are exchanged may hand the outcome further down
  -- before the machines are alike again.
  induction below generalizing x w w' with
  | nil => exact .ended .none .none worlds
  | restore below => exact meets_next rfl rfl .unwind below worlds
  | rule rule parts below ih =>
      exact sound.frames rule parts below (fun worlds => ih worlds) worlds
  | frame alike below =>
      cases alike with
      | flatMap alike =>
          cases x with
          | success v => exact meets_applied sound.inexact rfl rfl (alike v) below worlds
          | fail e => exact meets_next rfl rfl .unwind below worlds
          | die d => exact meets_next rfl rfl .unwind below worlds
      | fold success failure =>
          cases x with
          | success v =>
              cases success with
              | none => cases failure <;> exact meets_next rfl rfl .unwind below worlds
              | some alike => exact meets_applied sound.inexact rfl rfl (alike v) below worlds
          | fail e =>
              cases failure with
              | none => cases success <;> exact meets_next rfl rfl .unwind below worlds
              | some alike =>
                  cases success <;> exact meets_applied sound.inexact rfl rfl (alike e) below worlds
          | die d =>
              cases success <;> cases failure <;> exact meets_next rfl rfl .unwind below worlds
      | catchDefect alike =>
          cases x with
          | success v => exact meets_next rfl rfl .unwind below worlds
          | fail e => exact meets_next rfl rfl .unwind below worlds
          | die d => exact meets_applied sound.inexact rfl rfl (alike d) below worlds
      | recur inner => exact meets_recur inner below worlds
      | all each => exact .one rfl rfl (machines_all each below) worlds
      | race each =>
          cases each with
          | nil => cases x <;> exact meets_next rfl rfl .unwind below worlds
          | cons next rest =>
              cases x with
              | success v => exact meets_next rfl rfl .unwind below worlds
              | fail e =>
                  exact meets_next rfl rfl (.eval next) (.frame (.race rest) below) worlds
              | die d => exact meets_next rfl rfl .unwind below worlds

end Steps

/-- Where nothing can be seen at the places of the exchange, programs with parts exchanged look
    alike. -/
theorem SoundOn.upheldOn {settings : Settings} (sound : X.SoundOn settings) :
    X.likeness.UpheldOn settings := by
  intro m w m' w' alike worlds
  induction alike generalizing w w' with
  | mk alike below =>
      cases alike with
      | eval alike => exact meets_eval sound alike below worlds
      | unwind => exact meets_unwind sound below worlds
      | resume alike => exact meets_resume sound alike below worlds
  | @within m m' body body' env stack stack' _ alike below ih =>
      refine (ih worlds).surrounded (surrounds_within body env stack)
        (surrounds_within body' env stack') (fun _ same => .within same alike below)
        fun x _ _ _ worlds => ?_
      exact meets_next (step_within_done ..) (step_within_done ..) (.resume (alike x)) below worlds
  | @bound Parts m m' body frames env stack stack' rule parts _ home below ih =>
      refine (ih worlds).surrounded (surrounds_within body env stack)
        (surrounds_above (frames ++ stack'))
        (fun same alike => .bound rule parts alike (same.trans home) below)
        fun x env₁ v v' worlds => ?_
      -- The bound effect has left the services as they were before it.
      rw [home]
      exact (sound.bodies rule parts below worlds).after (.one (step_within_done ..)) .none
  | behind steps _ ih => exact (ih worlds).after .none (steps settings w')

theorem Sound.upheld (sound : X.Sound) : X.likeness.Upheld :=
  fun settings => (sound.on settings).upheldOn

/-! ### Nothing exchanged -/

mutual
theorem Likes.refl : (e : Effect σ) → X.Likes e e
  | .exit thunk => .exit fun s => gives_same (thunk.run s)
  | .suspend make => .suspend (gives_act make)
  | .callback register => .callback fun handle => registered_act (register handle)
  | .promise start => .promise (gives_routine start)
  | .flatMap source next => .flatMap (Likes.refl source) fun v => gives_act (next v)
  | .fold source onSuccess onFailure =>
      .fold (Likes.refl source) (gives_handler onSuccess) (gives_handler onFailure)
  | .catchDefect source handler => .catchDefect (Likes.refl source) fun d => gives_act (handler d)
  | .recur source _ _ _ => .recur (Likes.refl source)
  | .service _ => .service
  | .provide source _ => .provide (Likes.refl source)
  | .sleep _ => .sleep
  | .timeout source _ => .timeout (Likes.refl source)
  | .all children _ _ => .all (likes_each children)
  | .race children => .race (likes_each children)
  | .gen body => .gen fun env => gives_routine (body env)
  | .announce _ next => .announce (Likes.refl next)

theorem likes_each : (children : List (Effect σ)) → List.Forall₂ X.Likes children children
  | [] => .nil
  | e :: rest => .cons (Likes.refl e) (likes_each rest)

theorem gives_act : (act : Act σ (Effect σ)) → ∀ s,
    Gives X.Likes X.DyingEffect (act.run s) (act.run s)
  | ⟨run⟩, s => gives_result (run s)

theorem gives_result : (r : Except Panic (Effect σ) × σ) → Gives X.Likes X.DyingEffect r r
  | (.ok e, _) => .ok (Likes.refl e)
  | (.error _, _) => .error

theorem gives_handler : (handler : Option (Value → Act σ (Effect σ))) →
    Option.Rel (fun next next' => ∀ v s,
      Gives X.Likes X.DyingEffect ((next v).run s) ((next' v).run s)) handler handler
  | none => .none
  | some next => .some fun v => gives_act (next v)

theorem LikesRoutine.refl : (r : Routine σ) → X.LikesRoutine r r
  | .done _ => .done
  | .await e _ next => .await (Likes.refl e) fun x => gives_routine (next x)
  | .giveWay next => .giveWay (gives_routine next)
  | .sleep _ next => .sleep (gives_routine next)

theorem gives_routine : (act : Act σ (Routine σ)) → ∀ s,
    Gives X.LikesRoutine X.DyingRoutine (act.run s) (act.run s)
  | ⟨run⟩, s => gives_routine_result (run s)

theorem gives_routine_result : (r : Except Panic (Routine σ) × σ) →
    Gives X.LikesRoutine X.DyingRoutine r r
  | (.ok r, _) => .ok (LikesRoutine.refl r)
  | (.error _, _) => .error

theorem registered_act {handle : Handle} :
    (act : Act σ (List (Signal σ) × Option Panic)) → ∀ s,
      Registered X.exact X.Likes (act.run s) (act.run s) handle
  | ⟨run⟩, s => registered_result (run s)

theorem registered_result {handle : Handle} :
    (r : Except Panic (List (Signal σ) × Option Panic) × σ) →
      Registered X.exact X.Likes r r handle
  | (.ok (signals, _), _) => .same (signals_each signals)
  | (.error _, _) => .error

theorem signal_same : (signal : Signal σ) → Signal.Alike X.Likes signal signal
  | .complete _ _ => .complete
  | .resume _ e => .resume (Likes.refl e)
  | .release _ => .release
  | .later _ _ act => .later (signals_act act)

theorem signals_each : (signals : List (Signal σ)) →
    List.Forall₂ (Signal.Alike X.Likes) signals signals
  | [] => .nil
  | signal :: rest => .cons (signal_same signal) (signals_each rest)

theorem signals_act : (act : Act σ (List (Signal σ))) → ∀ s,
    Gives (List.Forall₂ (Signal.Alike X.Likes)) (fun _ _ => False) (act.run s) (act.run s)
  | ⟨run⟩, s => signals_result (run s)

theorem signals_result : (r : Except Panic (List (Signal σ)) × σ) →
    Gives (List.Forall₂ (Signal.Alike X.Likes)) (fun _ _ => False) r r
  | (.ok signals, _) => .ok (signals_each signals)
  | (.error _, _) => .error
end

theorem Stacks.refl (env : Context) (stack : List (Frame σ)) : X.Stacks env stack stack := by
  induction stack generalizing env with
  | nil => exact .nil
  | cons frame rest ih =>
      cases frame with
      | restore outer => exact .restore (ih outer)
      | flatMap next => exact .frame (.flatMap fun v => gives_act (next v)) (ih env)
      | fold onSuccess onFailure =>
          exact .frame (.fold (gives_handler onSuccess) (gives_handler onFailure)) (ih env)
      | catchDefect handler => exact .frame (.catchDefect fun d => gives_act (handler d)) (ih env)
      | recur recurrence => exact .frame (.recur (.refl _)) (ih env)
      | all children collect ends => exact .frame (.all (likes_each children)) (ih env)
      | race children => exact .frame (.race (likes_each children)) (ih env)

theorem Machines.refl (m : Machine σ) : X.Machines m m := by
  rcases m with ⟨focus, env, stack⟩
  induction focus generalizing env stack with
  | eval e => exact .mk (.eval (.refl e)) (.refl env stack)
  | unwind x => exact .mk .unwind (.refl env stack)
  | resume r => exact .mk (.resume (gives_routine r)) (.refl env stack)
  | within body inner env₁ stack₁ ih =>
      exact .within (m := ⟨inner, env₁, stack₁⟩) (ih env₁ stack₁)
        (fun x => gives_routine (body x)) (.refl env stack)

/-- Effects that are alike, where a machine waits. -/
theorem points_refl (point : Suspension σ) : X.likeness.Points point point where
  unwind _ := .refl _
  eval {e e'} alike := by
    rcases point with ⟨hosts, env, stack⟩
    induction hosts with
    | nil => exact .mk (.eval alike) (.refl env stack)
    | cons host hosts ih =>
        exact .within ih (fun x => gives_routine (host.body x))
          (.refl host.env host.stack)

/-- Everything looks like itself. -/
theorem reflexive : X.likeness.Reflexive where
  effects := .refl
  machines := .refl
  points := points_refl

end Exchange

end EffectKernel
