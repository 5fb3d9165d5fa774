import EffectKernel.Effect.Again
import EffectKernel.Proofs.Crossing
import EffectKernel.Proofs.Laws.Sequencing

/-!
# Duality of the Channels

An effect with exchanged channels fails where it succeeded and succeeds where it failed. So whatever
is done with failures can be done with values, if the channels are exchanged before that and again
afterwards: a failure is transformed, observed or gone on from like a value, a source is run again
after failures as it is after values, and the first effect to succeed is the first one to fail, with
the last of all failures as the last of all values.

The partners are not alike to the machine. A handler of failures is one kind of frame and a function
that goes on from values another one; effects that are tried one after the other are a handler in a
handler in a handler, where their partners are children that are collected one by one. But the
frames of the one side are always mirrored by frames of the other side that lie between two frames
which exchange the channels (`Duality.MirrorFrames`). What is no failure passes the one frames, and
since it is no value any more between the exchanges, it passes their mirror too
(`Duality.steps_around`). A failure arrives at the mirror as a value, where the same functions are
called with it, by partners.

Only those who listen to events see a difference, and only where a source is run again, since it is
reported whether this is because of a failure or because of a value.

## Main definitions

* `Duality.Laws`: The laws, up to a relation of effects.
* `Duality.Mirrors`, `Duality.MirrorFrames`: What does with values what is done with failures.
* `Duality.duality`: Anything may be exchanged for its mirror between exchanged channels.

## Theorems

* `Duality.sound_duality`: The exchange cannot be seen.
* `duality_laws`: The laws hold in any program, however it is run.
-/

namespace EffectKernel

open Machine

variable {σ : Type}

namespace Duality

/-- The last one of some values. -/
def last : Value → Value
  | .list values => values.getLast?.getD .null
  | v => v

/-- The laws, up to a relation of effects. Those who look at events can tell whether a source is run
    again since it has failed or since it has succeeded. -/
structure Laws (σ : Type) (exact : Prop) (Like : Effect σ → Effect σ → Prop) : Prop where
  /-- To exchange the channels twice changes nothing. -/
  flip_flip : ∀ e : Effect σ, Like e e.flip.flip
  /-- To transform a failure is to transform a value. -/
  mapError : ∀ (e : Effect σ) f, Like (e.mapError f) (e.flip.map f).flip
  /-- To go on from a failure is to go on from a value, with the channels exchanged. -/
  catchAll : ∀ (e : Effect σ) h,
    Like (e.catchAll h) (e.flip.andThen fun x => do return (← h x).flip).flip
  /-- To observe a failure is to observe a value. -/
  tapError : ∀ (e : Effect σ) f, Like (e.tapError f) (e.flip.tap f).flip
  /-- To run again after failures is to run again after values. -/
  retry : ¬ exact → ∀ (e : Effect σ) s, Like (e.retry s) (e.flip.repeated s).flip
  /-- The first success is the first failure, and the last failure is the last value. -/
  firstSuccess : ∀ (first : Effect σ) rest, ∃ e, Effect.firstSuccessOf? (first :: rest) = .ok e ∧
    Like e ((Effect.allOf ((first :: rest).map Effect.flip)).map fun v => pure (last v)).flip

/-- Laws that hold up to a relation hold up to a weaker one. -/
theorem Laws.mono {exact : Prop} {Like Like' : Effect σ → Effect σ → Prop}
    (laws : Laws σ exact Like) (weaker : ∀ {e e'}, Like e e' → Like' e e') :
    Laws σ exact Like' where
  flip_flip e := weaker (laws.flip_flip e)
  mapError e f := weaker (laws.mapError e f)
  catchAll e h := weaker (laws.catchAll e h)
  tapError e f := weaker (laws.tapError e f)
  retry inexact e s := weaker (laws.retry inexact e s)
  firstSuccess first rest :=
    have ⟨e, made, like⟩ := laws.firstSuccess first rest
    ⟨e, made, weaker like⟩

/-! ### Channels exchanged -/

/-- The frame of an effect with exchanged channels. -/
def flipping : Frame σ :=
  .fold (some fun v => pure (.fail v)) (some fun e => pure (.succeed e))

/-- The frame that waits for a failure and then runs another effect. -/
def trying (next : Effect σ) : Frame σ :=
  .fold none (some fun _ => pure next)

/-- What two handlers give, of which the second one works with exchanged channels. -/
inductive Turns : Effect σ → Effect σ → Prop where
  | flip {e} : Turns e e.flip
  | fail {v} : Turns (.fail v) (.succeed v)

/-- A function that makes a list of values out of values that have been collected. -/
def Gathers (next : Value → Act σ (Effect σ)) : Prop :=
  ∀ values : List Value,
    next (Outcome.toList (values.map .right)) = pure (.succeed (.list values))

/-- What the one effect does with failures the other one does with values. -/
inductive Mirrors (exact : Prop) (Parts : Effect σ → Effect σ → Prop) :
    Effect σ → Effect σ → Prop where
  | source {e e'} (part : Parts e e') : Mirrors exact Parts e e'.flip
  | catchAll {e e' h k} (part : Parts e e')
      (turns : ∀ v s, Gives Turns (fun _ _ => False) ((h v).run s) ((k v).run s)) :
      Mirrors exact Parts (e.catchAll h) (e'.flip.andThen k)
  | retry {e e' s} (inexact : ¬ exact) (part : Parts e e') :
      Mirrors exact Parts (e.retry s) (e'.flip.repeated s)
  | tower {first first' rest rest'} (part : Parts first first')
      (others : List.Forall₂ Parts rest rest') :
      Mirrors exact Parts (Effect.tower first rest)
        ((Effect.allOf ((first' :: rest').map Effect.flip)).map fun v => pure (last v))

/-- What the one frames do with failures the other ones do with values. -/
inductive MirrorFrames (exact : Prop) (Parts : Effect σ → Effect σ → Prop) :
    List (Frame σ) → List (Frame σ) → Prop where
  | source : MirrorFrames exact Parts [] []
  | catchAll {h k} (turns : ∀ v s, Gives Turns (fun _ _ => False) ((h v).run s) ((k v).run s)) :
      MirrorFrames exact Parts [.fold none (some h)] [.flatMap k]
  | retry {e e' schedule state attempt} (inexact : ¬ exact) (part : Parts e e') :
      MirrorFrames exact Parts [.recur ⟨e, schedule, state, .retry, none, attempt⟩]
        [.recur ⟨e'.flip, schedule, state, .repeating, none, attempt⟩]
  | tower {rest rest' next} (values : List Value) (gathers : Gathers next)
      (others : List.Forall₂ Parts rest rest') :
      MirrorFrames exact Parts (rest.map trying)
        [.all (rest'.map Effect.flip) .shortCircuit (values.map .right), .flatMap next,
          .flatMap fun v => do return .succeed (← pure (last v))]

/-- Effects may be exchanged for those that do with values what they do with failures, if the
    channels are exchanged before and afterwards. -/
def duality (σ : Type) (exact : Prop) : Exchange σ where
  exact := exact
  tame := False
  effects Parts e e' := ∃ mirror, Mirrors exact Parts e mirror ∧ e' = mirror.flip
  frames Parts _ frames frames' := ∃ mirror, MirrorFrames exact Parts frames mirror ∧
    frames' = flipping :: (mirror ++ [flipping])

section Meets

variable {settings : Settings} {exact : Prop} {env : Context} {stack stack' : List (Frame σ)}
  {w w' : World σ} {x : Outcome}

/-! ### What is no failure -/

/-- The frames let everything through but failures. -/
theorem MirrorFrames.letsThrough {Parts : Effect σ → Effect σ → Prop}
    {frames mirror : List (Frame σ)} (mirrors : MirrorFrames exact Parts frames mirror)
    (noFailure : x.isFail = false) : ∀ frame ∈ frames, frame.LetsThrough x := by
  cases mirrors with
  | tower gathers others =>
      exact List.forall_mem_map.2 fun next _ => letsThrough_catchAll noFailure _
  | _ =>
      simp only [List.forall_mem_cons, List.not_mem_nil, letsThrough_catchAll noFailure,
        letsThrough_retry noFailure, false_imp_iff, implies_true, and_self]

/-- Their mirror images let everything through but values. -/
theorem MirrorFrames.letsThrough_mirror {Parts : Effect σ → Effect σ → Prop}
    {frames mirror : List (Frame σ)} (mirrors : MirrorFrames exact Parts frames mirror)
    (noValue : x.isSuccess = false) : ∀ frame ∈ mirror, frame.LetsThrough x := by
  cases mirrors <;>
    simp only [List.forall_mem_cons, List.not_mem_nil, letsThrough_flatMap noValue,
      letsThrough_all noValue, letsThrough_repeating noValue, false_imp_iff, implies_true,
      and_self]

/-- A value is a failure behind exchanged channels, and a value again in front of them. -/
theorem steps_around {mirror : List (Frame σ)} (noFailure : x.isFail = false)
    (through : ∀ {y : Outcome}, y.isSuccess = false → ∀ frame ∈ mirror, frame.LetsThrough y)
    (env : Context) (stack : List (Frame σ)) :
    ∃ n, Steps settings n ⟨.unwind x, env, flipping :: (mirror ++ [flipping]) ++ stack⟩ w
      ⟨.unwind x, env, stack⟩ w := by
  rw [List.cons_append, List.append_assoc]
  cases x with
  | fail e => cases noFailure
  | die d =>
      exact ⟨_, .more rfl ((steps_past (through rfl) env _).trans (.one rfl))⟩
  | success v =>
      exact ⟨_, .more rfl (.more rfl ((steps_past (through rfl) env _).trans
        (.more rfl (.one rfl))))⟩

/-! ### Failures -/

/-- Effects that are tried one after the other begin with the first one. -/
theorem steps_tower (first : Effect σ) (rest : List (Effect σ)) (env : Context)
    (stack : List (Frame σ)) (w : World σ) :
    Steps settings rest.length ⟨.eval (Effect.tower first rest), env, stack⟩ w
      ⟨.eval first, env, rest.map trying ++ stack⟩ w := by
  induction rest generalizing first with
  | nil => exact .none
  | cons next rest ih => exact (ih (first.catchAll fun _ => pure next)).trans (.one rfl)

/-- To run all of several effects is to gather their values. -/
theorem exists_allOf (effects : List (Effect σ)) :
    ∃ next, Effect.allOf effects = .flatMap (.all effects .shortCircuit false) next ∧
      Gathers next := by
  refine ⟨_, rfl, fun values => ?_⟩
  simp only [Outcome.listOf?_toList, Effect.successes, Either.mapM_right?_map_right]

/-- The last one of the values that have been collected is the one that has come last. -/
theorem Gathers.steps {next : Value → Act σ (Effect σ)} (gathers : Gathers next)
    (values : List Value) (y : Value) :
    Steps settings 5
      ⟨.unwind (.success y), env, .all [] .shortCircuit (values.map .right) :: .flatMap next ::
        (.flatMap fun v => do return .succeed (← pure (last v))) :: stack⟩ w
      ⟨.unwind (.success y), env, stack⟩ w := by
  -- The values are kept in reverse, the newest first.
  have inOrder : (Either.right y :: values.map Either.right : List (Either Value Value)).reverse =
      (values.reverse ++ [y]).map .right := by
    rw [List.reverse_cons, List.map_append, List.map_reverse]
    rfl
  have collected {rest : List (Frame σ)} : Machine.step settings
      ⟨.unwind (.success (Outcome.toList (Either.right y :: values.map .right).reverse)), env,
        .flatMap next :: rest⟩ w =
      (.next ⟨.eval (.succeed (.list (values.reverse ++ [y]))), env, rest⟩, w) := by
    rw [inOrder]
    simp only [Machine.step, Machine.stepAt, Machine.unwindStep, gathers (values.reverse ++ [y])]
    rfl
  have chosen : last (.list (values.reverse ++ [y])) = y := by
    rw [last, List.getLast?_concat, Option.getD_some]
  have ends : Steps settings 1
      ⟨.eval (.succeed (last (.list (values.reverse ++ [y])))), env, stack⟩ w
      ⟨.unwind (.success y), env, stack⟩ w := by
    rw [chosen]
    exact .one rfl
  exact .more rfl (.more collected (.more rfl (.more rfl ends)))

section Sound

variable {Parts : Effect σ → Effect σ → Prop}
  (parts : ∀ a b, Parts a b → (duality σ exact).Likes a b)
  (below : (duality σ exact).Stacks env stack stack')
  (worlds : (duality σ exact).likeness.Worlds w w')

include parts below

/-- Frames may be exchanged for their mirror images between two turns of the outcome. -/
theorem stacks_mirror {frames mirror : List (Frame σ)}
    (mirrors : MirrorFrames exact Parts frames mirror) :
    (duality σ exact).Stacks env (frames ++ stack)
      (flipping :: (mirror ++ [flipping]) ++ stack') :=
  .rule ⟨mirror, mirrors, rfl⟩ parts below

include worlds

/-- An effect, and one that does the same between exchanged channels. -/
theorem meets_mirror {e mirror : Effect σ} (mirrors : Mirrors exact Parts e mirror)
    (meets : ∀ {a b env stack stack' w w'}, Parts a b → (duality σ exact).Stacks env stack stack' →
      (duality σ exact).likeness.Worlds w w' → (duality σ exact).likeness.Meets settings
        ⟨.eval a, env, stack⟩ w ⟨.eval b, env, stack'⟩ w') :
    (duality σ exact).likeness.Meets settings ⟨.eval e, env, stack⟩ w
      ⟨.eval mirror.flip, env, stack'⟩ w' := by
  have lie {frames mirror : List (Frame σ)} (mirrors : MirrorFrames exact Parts frames mirror) :=
    stacks_mirror parts below mirrors
  cases mirrors with
  | source part => exact (meets part (lie .source) worlds).after .none (.more rfl (.one rfl))
  | catchAll part turns =>
      -- The other side exchanges the channels, goes on from the value and exchanges them again.
      exact .ahead (.one rfl) Nat.one_pos (.more rfl (.more rfl (.one rfl))) (Nat.succ_pos 2)
        (.mk (.eval (parts _ _ part)) (lie (.catchAll turns))) worlds
  | retry inexact part =>
      exact .ahead (.one rfl) Nat.one_pos (.more rfl (.more rfl (.one rfl))) (Nat.succ_pos 2)
        (.mk (.eval (parts _ _ part)) (lie (.retry inexact part))) worlds
  | @tower first first' rest rest' part others =>
      rcases exists_allOf ((first' :: rest').map Effect.flip) with ⟨next, same, gathers⟩
      rw [same]
      exact (meets part (lie (.tower [] gathers others)) worlds).after
        (steps_tower first rest env stack w)
        (.more rfl (.more rfl ((Sequencing.steps_all _ _ _).trans (.one rfl))))

/-- A failure is handed to a handler, and as a value to one that works with exchanged channels. -/
theorem meets_turns {h k : Value → Act σ (Effect σ)} {y : Value}
    (turns : ∀ v s, Gives Turns (fun _ _ => False) ((h v).run s) ((k v).run s)) :
    (duality σ exact).likeness.Meets settings
      ⟨.unwind (.fail y), env, .fold none (some h) :: stack⟩ w
      ⟨.unwind (.success y), env, .flatMap k :: flipping :: stack'⟩ w' := by
  have left : Machine.step settings ⟨.unwind (.fail y), env, .fold none (some h) :: stack⟩ w =
    applied env stack (w.guarded (h y)) := rfl
  have right : Machine.step settings
      ⟨.unwind (.success y), env, .flatMap k :: flipping :: stack'⟩ w' =
    applied env (flipping :: stack') (w'.guarded (k y)) := rfl
  have given := Exchange.guarded worlds (turns y)
  -- Both calls are kept as variables, so that the cases are those of what the calls have in common.
  generalize w.guarded (h y) = made at left given
  generalize w'.guarded (k y) = made' at right given
  cases given with
  | death death => exact death.elim
  | error worlds =>
      exact .ahead (.one left) Nat.one_pos (.more right (.one rfl)) (Nat.succ_pos 1)
        (.mk .unwind below) worlds
  | ok turn worlds =>
      cases turn with
      | flip =>
          exact .ahead (.one left) Nat.one_pos (.more right (.one rfl)) (Nat.succ_pos 1)
            (.mk (.eval (.refl _)) (stacks_mirror parts below .source)) worlds
      | fail =>
          exact .ahead (.more left (.one rfl)) (Nat.succ_pos 1)
            (.more right (.more rfl (.more rfl (.one rfl)))) (Nat.succ_pos 3)
            (.mk .unwind below) worlds

/-- A failure is handed to a source that may be run again after failures, and as a value to one that
    may be run again after values. -/
theorem meets_again {e e' : Effect σ} {schedule : Schedule} {state : ScheduleState}
    {attempt : UInt32} {y : Value} (inexact : ¬ exact) (part : Parts e e') :
    (duality σ exact).likeness.Meets settings
      ⟨.unwind (.fail y), env, .recur ⟨e, schedule, state, .retry, none, attempt⟩ :: stack⟩ w
      ⟨.unwind (.success y), env,
        .recur ⟨e'.flip, schedule, state, .repeating, none, attempt⟩ :: flipping :: stack'⟩ w' := by
  have left : Machine.step settings
      ⟨.unwind (.fail y), env, .recur ⟨e, schedule, state, .retry, none, attempt⟩ :: stack⟩ w =
    recurStep settings ⟨e, schedule, state, .retry, none, attempt⟩ (.fail y) env stack w := rfl
  have right : Machine.step settings
      ⟨.unwind (.success y), env,
        .recur ⟨e'.flip, schedule, state, .repeating, none, attempt⟩ :: flipping :: stack'⟩ w' =
    recurStep settings ⟨e'.flip, schedule, state, .repeating, none, attempt⟩ (.success y) env
      (flipping :: stack') w' := rfl
  simp only [recurStep, wantsAgain] at left right
  cases decision : schedule.step state with
  | stop =>
      rw [decision] at left right
      exact .ahead (.one left) Nat.one_pos (.more right (.more rfl (.one rfl))) (Nat.succ_pos 2)
        (.mk .unwind below) (worlds.report _)
  | again delay next =>
      rw [decision] at left right
      -- A wait may come before the source is run again, and at that point the other machine still
      -- has to exchange the channels.
      have again : (duality σ exact).Machines
          ⟨.eval e, env, .recur ⟨e, schedule, next, .retry, none, saturatingSucc attempt⟩ :: stack⟩
          ⟨.eval e'.flip, env, .recur ⟨e'.flip, schedule, next, .repeating, none,
            saturatingSucc attempt⟩ :: flipping :: stack'⟩ :=
        .behind (fun _ _ => .one rfl) (.mk (.eval (parts _ _ part))
          (stacks_mirror parts below (.retry inexact part)))
      exact Exchange.meets_paused left right again
        ((worlds.reportLeft inexact _).reportRight inexact _)

end Sound

/-- The sides of the laws cannot be told apart. -/
theorem sound_duality (σ : Type) (exact : Prop) : (duality σ exact).Sound where
  inexact tame := tame.elim
  effects settings := by
    rintro env stack stack' w w' ⟨mirror, mirrors, rfl⟩ parts meets below worlds
    exact meets_mirror parts below worlds mirrors meets
  frames settings := by
    rintro env stack stack' ⟨mirror, mirrors, rfl⟩ parts below meets x w w' worlds
    rcases x.isFail_or_eq_fail with noFailure | ⟨y, rfl⟩
    · rcases steps_around noFailure mirrors.letsThrough_mirror env stack' with ⟨n, around⟩
      exact (meets worlds).after (steps_past (mirrors.letsThrough noFailure) env stack) around
    · have turned {rest : List (Frame σ)} {w : World σ} : Steps settings 2
          ⟨.unwind (.fail y), env, flipping :: rest⟩ w ⟨.unwind (.success y), env, rest⟩ w :=
        .more rfl (.one rfl)
      cases mirrors with
      -- The mirror is handed a value, except where there is nothing between the exchanges.
      | source => exact (meets worlds).after .none (turned.trans (.more rfl (.one rfl)))
      | catchAll turns => exact (meets_turns parts below worlds turns).after .none turned
      | retry inexact part => exact (meets_again parts below worlds inexact part).after .none turned
      | tower values gathers others =>
          cases others with
          -- Nothing is left to be tried, and the last value is taken out of the list.
          | nil =>
              exact (meets worlds).after .none
                (turned.trans ((gathers.steps values y).trans (.more rfl (.one rfl))))
          | cons part others =>
              exact .ahead (.one rfl) Nat.one_pos (turned.trans (.more rfl (.one rfl)))
                (Nat.succ_pos 3) (.mk (.eval (parts _ _ part))
                  (stacks_mirror parts below (.tower (y :: values) gathers others))) worlds
  bodies _ := nofun

end Meets

/-- An effect that fails with what a function gives turns into one that succeeds with it. -/
theorem turns_fail (act : Act σ Value) (s : σ) :
    Gives Turns (fun _ _ => False) ((do return .fail (← act) : Act σ (Effect σ)).run s)
      ((do return .succeed (← act) : Act σ (Effect σ)).run s) := by
  rw [Act.run_bind, Act.run_bind]
  rcases act.run s with ⟨p | v, s⟩
  · exact .error
  · exact .ok .fail

/-- Whatever effect a function makes, it turns into the same with its channels exchanged. -/
theorem turns_flip (act : Act σ (Effect σ)) (s : σ) :
    Gives Turns (fun _ _ => False) (act.run s) ((do return (← act).flip).run s) := by
  rw [Act.run_bind]
  rcases act.run s with ⟨p | e, s⟩
  · exact .error
  · exact .ok .flip

/-- What mirrors an effect may take its place, with exchanged channels. -/
theorem likes_of_mirrors {exact : Prop} {e mirror : Effect σ}
    (mirrors : Mirrors exact (duality σ exact).Likes e mirror) :
    (duality σ exact).Likes e mirror.flip :=
  .rule ⟨mirror, mirrors, rfl⟩ fun _ _ h => h

/-- The sides may be exchanged, since nothing has to be exchanged inside. -/
theorem laws_likes (σ : Type) (exact : Prop) : Laws σ exact (duality σ exact).Likes where
  flip_flip e := likes_of_mirrors (.source (.refl e))
  mapError e f := likes_of_mirrors (.catchAll (.refl e) fun v => turns_fail (f v))
  catchAll e h := likes_of_mirrors (.catchAll (.refl e) fun v => turns_flip (h v))
  tapError e f := likes_of_mirrors (.catchAll (.refl e) fun v => turns_fail do f v; return v)
  retry inexact e _ := likes_of_mirrors (.retry inexact (.refl e))
  firstSuccess first rest :=
    ⟨_, rfl, likes_of_mirrors (.tower (.refl first) (Exchange.likes_each rest))⟩

end Duality

/-- The two channels are dual. Whatever an operation does with failures, its partner does with
    values, and the two sides of each law come to the same, above any frames and among any services,
    on the spot or in a fiber that others run beside: there is the same outcome, if there is one,
    the same state of the program and the same time. Except where sources are run again, there are
    the same events, too. And so it is with programs in which the sides are exchanged, at any places
    and any number of them. -/
theorem duality_laws (σ : Type) :
    Duality.Laws σ False (Effect.Equivalent False) ∧
    Duality.Laws σ True (Effect.Equivalent True) ∧
    ∀ exact, Duality.Laws σ exact (Duality.duality σ exact).Likes ∧
      ∀ {whole whole' : Effect σ}, (Duality.duality σ exact).Likes whole whole' →
        whole.Equivalent exact whole' := by
  have equivalent : ∀ exact {whole whole' : Effect σ},
      (Duality.duality σ exact).Likes whole whole' → whole.Equivalent exact whole' :=
    fun exact _ _ alike => (Duality.sound_duality σ exact).equivalent alike
  exact ⟨(Duality.laws_likes σ False).mono (equivalent False),
    (Duality.laws_likes σ True).mono (equivalent True), fun exact =>
    ⟨Duality.laws_likes σ exact, equivalent exact⟩⟩

namespace Sample

/-- Fails twice. -/
def unlucky : Effect Nat :=
  .exit (Act.update fun n => (if n < 2 then .fail .null else .success .null, n + 1))

/-- As often as it takes, with five milliseconds in between. -/
def patiently : Schedule :=
  .spaced (Duration.ofMillis 5)

end Sample

/-- Two failures are two values between exchanged channels, and a failure ends the whole there. -/
theorem sample_duality_laws :
    ∃ w, ((Sample.unlucky.flip.repeated Sample.patiently).flip.provide Context.empty).EndsIn
      ⟨.async, true⟩ Context.empty (Kernel.start 0) (.success .null) w ∧
      w.store = 3 ∧ w.clock = 10000000 := by
  rcases duality_laws Nat with ⟨-, -, exchanged⟩
  rcases exchanged False with ⟨laws, equivalent⟩
  have alike : (Duality.duality Nat False).Likes
      ((Sample.unlucky.retry Sample.patiently).provide Context.empty)
      ((Sample.unlucky.flip.repeated Sample.patiently).flip.provide Context.empty) :=
    .provide (laws.retry id _ _)
  have same := (equivalent alike).run ⟨.async, true⟩ Context.empty (Kernel.start 0)
  exact (same.same _ _ _).1 ⟨_, ⟨20, rfl⟩, rfl, rfl⟩

end EffectKernel
