import EffectKernel.Effect.Channels
import EffectKernel.Effect.Generator
import EffectKernel.Proofs.Likeness.Exchange

/-!
# Generators as Nodes

A generator block is straight-line code that binds effects and reads services. It goes on from the
value of an effect that it has bound; a failure or a defect leaves the block and is how the whole
ends, and so is a service that is missing. In between the code may do anything to the state of the
program, and it may panic.

The block is run as a routine. It holds the services that were there when it began and reads them
for itself, as often as it likes, without anybody else being asked. An effect that it binds gets a
machine of its own, among the services that the block holds and above no frames, and the machine
around it waits. What comes of the effect is handed to the code as a result, and the code ends early
if there is no value. The code may panic then, too, and this is caught around it and not where the
effect has been run.

The same can be said with nodes: bind for bind a node that goes on from a value, a node for each
service that is read, and an effect that is known at the end. These come out of functions that the
machine calls, the panics too. There is one machine only, and what the block has yet to do lies on
its stack, above whatever else is there.

The two cannot be told apart (`generators_are_nodes`). While a bound effect is run, a machine goes
on inside another one in the one program, and above a frame of the node in the other. When it has
ended, the same code is run from the same state, up to the next effect that is bound. The services
are the same then as in the beginning: whatever the bound effect was given in addition has been
taken back. So a service that the block has held on to is the one that the node finds.

## Main definitions

* `Block`: The code of a generator.
* `Block.routine`, `Block.generator`: The code as a routine.
* `Block.made`, `Block.nodes`: The code as nodes.
* `Block.Waits`: What a block waits with while a bound effect is run.
* `Block.sugar`: Generators are exchanged for nodes.
* `Machine.readable`: The services that can be read where a machine is.

## Theorems

* `Block.meets`: A routine and the nodes that stand for it meet.
* `Block.sound_sugar`: The exchange cannot be seen.
* `generators_are_nodes`: Generators and nodes come to the same.
-/

namespace EffectKernel

open Machine

/-- The code of a generator. -/
inductive Block (σ : Type) : Type where
  /-- Ends: with a value, or early, with a failure or by a defect. -/
  | ends (result : Except Halt Value)
  /-- Panics. -/
  | panics (p : Panic)
  /-- Binds an effect, and goes on from its value. -/
  | bind (effect : Effect σ) (next : Value → Block σ)
  /-- Reads a service. -/
  | service (key : ServiceKey) (next : Value → Block σ)
  /-- Does something to the state of the program. -/
  | code (act : Act σ Value) (next : Value → Block σ)

/-- The effect that ends as a generator does. -/
def Effect.ofResult {σ : Type} : Except Halt Value → Effect σ
  | .ok v => .succeed v
  | .error ⟨.fail e⟩ => .fail e
  | .error ⟨.die d⟩ => .die d

/-- The effect of a result is its outcome. -/
theorem Effect.ofResult_eq {σ : Type} (result : Except Halt Value) :
    (Effect.ofResult result : Effect σ) = .exit (pure (Halt.outcome result)) := by
  rcases result with ⟨⟨_ | _⟩⟩ | v <;> rfl

namespace Block

variable {σ : Type}

/-- The code as a routine, with the handle that it has been given. -/
def routine (cx : Gen) : Block σ → Act σ (Routine σ)
  | .ends result => pure (Gen.ends result)
  | .panics p => Act.stop p
  | .bind e next => pure (cx.bind e (Gen.orHalt fun v => (next v).routine cx))
  | .service key next => Gen.orHalt (fun v => (next v).routine cx) (cx.service key)
  | .code act next => do (next (← act)).routine cx

/-- The effect that runs the code as a routine. -/
def generator (block : Block σ) : Effect σ :=
  .generator fun cx => block.routine cx

/-- What a function gives that goes on with the code as nodes. -/
def made : Block σ → Act σ (Effect σ)
  | .ends result => pure (.ofResult result)
  | .panics p => Act.stop p
  | .bind e next => pure (e.andThen fun v => (next v).made)
  | .service key next => pure ((Effect.service key).andThen fun v => (next v).made)
  | .code act next => do (next (← act)).made

/-- The code as nodes. -/
def nodes : Block σ → Effect σ
  | .ends result => .ofResult result
  | .bind e next => e.andThen fun v => (next v).made
  | .service key next => (Effect.service key).andThen fun v => (next v).made
  | block => .suspend block.made

/-- While a bound effect is run, a routine waits around its machine, and a node beneath it. The
    services around the routine are those that it holds. -/
inductive Waits : Context → Body σ → List (Frame σ) → Prop where
  | bind {cx : Gen} {next : Value → Block σ} :
      Waits cx.context (fun x => Gen.orHalt (fun v => (next v).routine cx) (Halt.result x))
        [.flatMap fun v => (next v).made]

/-- Generators are exchanged for nodes. -/
def sugar (σ : Type) : Exchange σ where
  exact := True
  tame := False
  effects _ e e' := ∃ block : Block σ, e = block.generator ∧ e' = block.nodes
  frames _ _ _ _ := False
  bodies _ := Waits

section Meets

variable {settings : Settings} {cx : Gen} {stack stack' : List (Frame σ)} {block : Block σ}
  {r : Act σ (Routine σ)} {w w' v : World σ} {m' : Machine σ}

/-- A point of the code, as seen from where the routine began its way to it: the routine has come
    here without a step, where the nodes have taken some. -/
structure At (block : Block σ) (cx : Gen) (r : Act σ (Routine σ)) (w v : World σ) : Prop where
  /-- The routine goes on as the code does from here. -/
  goesOn : r.run w.store = (block.routine cx).run v.store
  clock : w.clock = v.clock
  events : w.events = v.events

/-- What the code does from here. -/
theorem At.guarded (here : block.At cx r w v) :
    w.guarded r = v.guarded (block.routine cx) := by
  unfold World.guarded
  rw [here.goesOn, here.clock, here.events]

/-- The routine begins. -/
theorem At.start (worlds : (sugar σ).likeness.Worlds w v) :
    block.At cx (block.routine cx) w v :=
  ⟨by rw [worlds.store], worlds.clock, worlds.events trivial⟩

/-- A machine that looks at the routine of a block takes the step of the block. -/
theorem step_resume (settings : Settings) (stack : List (Frame σ)) (here : block.At cx r w v) :
    Machine.step settings ⟨.resume r, cx.context, stack⟩ w =
      resumeStep (block.routine cx) cx.context stack v := by
  change resumeStep r cx.context stack w = _
  unfold resumeStep
  rw [here.guarded]

/-- Nodes that are known are made in a step. -/
theorem meets_made {e : Effect σ}
    (made : m'.step settings w' = applied cx.context stack' (v.guarded (pure e)))
    (meets : (sugar σ).likeness.Meets settings ⟨.resume r, cx.context, stack⟩ w
      ⟨.eval e, cx.context, stack'⟩ v) :
    (sugar σ).likeness.Meets settings ⟨.resume r, cx.context, stack⟩ w m' w' :=
  meets.after .none (.one made)

/-- A block that ends does so in one step, as the effect does that ends in the same way. -/
theorem meets_ends {result : Except Halt Value} (below : (sugar σ).Stacks cx.context stack stack')
    (here : (Block.ends result).At cx r w v) :
    (sugar σ).likeness.Meets settings ⟨.resume r, cx.context, stack⟩ w
      ⟨.eval (.ofResult result), cx.context, stack'⟩ v := by
  rw [Effect.ofResult_eq]
  exact Exchange.meets_next (step_resume settings stack here) rfl .unwind below (.refl v)

/-- An effect that is bound begins in a machine inside the one of the routine, and above the frame
    of the node, among the same services. -/
theorem meets_bind {e : Effect σ} {next : Value → Block σ}
    (below : (sugar σ).Stacks cx.context stack stack') (here : (Block.bind e next).At cx r w v) :
    (sugar σ).likeness.Meets settings ⟨.resume r, cx.context, stack⟩ w
      ⟨.eval (e.andThen fun v => (next v).made), cx.context, stack'⟩ v := by
  have begun : (sugar σ).Machines
      ((Machine.start e cx.context).within
        (fun x => Gen.orHalt (fun v => (next v).routine cx) (Halt.result x)) cx.context stack)
      ((Machine.start e cx.context).above ([.flatMap fun v => (next v).made] ++ stack')) :=
    .bound Waits.bind (fun _ _ (part : (sugar σ).Likes _ _) => part) (.refl _) rfl below
  exact .one (step_resume settings stack here) rfl begun (.refl v)

/-- A routine and the nodes that stand for it meet, whether the nodes are there already or are yet
    to be made. -/
theorem meets (block : Block σ) (below : (sugar σ).Stacks cx.context stack stack')
    (here : block.At cx r w v) :
    (∀ {m' : Machine σ} {w'},
      m'.step settings w' = applied cx.context stack' (v.guarded block.made) →
      (sugar σ).likeness.Meets settings ⟨.resume r, cx.context, stack⟩ w m' w') ∧
    (sugar σ).likeness.Meets settings ⟨.resume r, cx.context, stack⟩ w
      ⟨.eval block.nodes, cx.context, stack'⟩ v := by
  -- By induction on the code. A routine takes one step to the next effect that it binds, so it
  -- stays where it is while the nodes take theirs; `here` says how far they have come.
  induction block generalizing v with
  | ends result =>
      exact ⟨fun made => meets_made made (meets_ends below here), meets_ends below here⟩
  | panics p =>
      have panicking : ∀ {m' : Machine σ} {w'},
          m'.step settings w' = applied cx.context stack' (v.guarded (Act.stop p)) →
          (sugar σ).likeness.Meets settings ⟨.resume r, cx.context, stack⟩ w m' w' :=
        fun made =>
          Exchange.meets_next (step_resume settings stack here) made .unwind below (.refl _)
      exact ⟨panicking, panicking rfl⟩
  | bind e next =>
      exact ⟨fun made => meets_made made (meets_bind below here), meets_bind below here⟩
  | service key next ih =>
      have known : (sugar σ).likeness.Meets settings ⟨.resume r, cx.context, stack⟩ w
          ⟨.eval ((Effect.service key).andThen fun v => (next v).made), cx.context, stack'⟩ v := by
        cases found : cx.context.get? key with
        | some service =>
            -- The node is asked for the service, and the routine has read it long ago.
            have read : Steps settings 2
                ⟨.eval ((Effect.service key).andThen fun v => (next v).made), cx.context, stack'⟩ v
                ⟨.unwind (.success service), cx.context,
                  .flatMap (fun v => (next v).made) :: stack'⟩ v :=
              .more rfl (.one (Exchange.step_service found))
            have further : (next service).At cx r w v :=
              ⟨by rw [here.goesOn, routine, Gen.service, found]; rfl, here.clock, here.events⟩
            exact ((ih service further).1 rfl).after .none read
        | none =>
            have missing : Steps settings 3
                ⟨.eval ((Effect.service key).andThen fun v => (next v).made), cx.context, stack'⟩ v
                ⟨.unwind (.die (.missingService key.name)), cx.context, stack'⟩ v :=
              .more rfl (.more (Exchange.step_service_missing found) (.one rfl))
            have step := step_resume settings stack here
            rw [routine, Gen.service, found] at step
            exact .ahead (.one step) Nat.one_pos missing (Nat.succ_pos 2) (.mk .unwind below)
              (.refl v)
      exact ⟨fun made => meets_made made known, known⟩
  | code act next ih =>
      have going : ∀ {m' : Machine σ} {w'},
          m'.step settings w' =
            applied cx.context stack' (v.guarded (Block.code act next).made) →
          (sugar σ).likeness.Meets settings ⟨.resume r, cx.context, stack⟩ w m' w' := by
        intro m' w' made
        have step := step_resume settings stack here
        rw [routine] at step
        rw [Block.made] at made
        rcases hact : act.run v.store with ⟨p | a, s⟩
        · unfold resumeStep World.guarded at step
          unfold World.guarded at made
          rw [Act.run_bind, hact] at step made
          exact Exchange.meets_next step made .unwind below (.refl _)
        · have further : (next a).At cx r w { v with store := s } :=
            ⟨by rw [here.goesOn, routine, Act.run_bind, hact], here.clock, here.events⟩
          refine (ih a further).1 (made.trans ?_)
          unfold World.guarded
          rw [Act.run_bind, hact]
      exact ⟨going, going rfl⟩

end Meets

/-- Nothing can be seen where generators are exchanged for nodes. -/
theorem sound_sugar (σ : Type) : (sugar σ).Sound where
  inexact tame := tame.elim
  effects settings := by
    rintro env stack stack' w w' ⟨block, rfl, rfl⟩ - - below worlds
    have begun : block.At ⟨env⟩ (block.routine ⟨env⟩) w w' := .start worlds
    exact (block.meets below begun).2.after (.one rfl) .none
  frames settings := by
    intro _ _ _ rule
    exact rule.elim
  bodies settings := by
    -- The bound effect has ended: the routine is handed a result, and the node an outcome.
    intro env stack stack' x w w' waits _ below worlds
    cases waits with
    | @bind cx next =>
        cases x with
        | success v => exact ((next v).meets below (.start worlds)).1 rfl
        | fail e => exact Exchange.meets_next rfl rfl .unwind below worlds
        | die d => exact Exchange.meets_next rfl rfl .unwind below worlds

end Block

/-- The services that can be read where something is looked at. -/
def Focus.readable {σ : Type} : Focus σ → Context → Context
  | .within _ inner env _, _ => inner.readable env
  | .eval _, env => env
  | .unwind _, env => env
  | .resume _, env => env

/-- The services that can be read where a machine is, or the one inside it. -/
def Machine.readable {σ : Type} (m : Machine σ) : Context :=
  m.focus.readable m.env

/-- Machines that differ in generators are among the same services. -/
theorem Block.readable_eq {σ : Type} {m m' : Machine σ} (alike : (sugar σ).Machines m m') :
    m.readable = m'.readable := by
  induction alike with
  | mk alike => cases alike <;> rfl
  | within _ _ _ ih => exact ih
  | bound _ _ _ _ _ ih => exact ih
  | behind _ _ ih => exact ih

/-- Generators come to the same as nodes. In any program, at any places and any number of them, the
    one may stand for the other, and so they may in what is run above any frames and among any
    services, on the spot or in a fiber that others run beside: there is the same outcome, if there
    is one, the same state of the program, the same time and the same events. And not only the ends
    are the same. On the way there the two programs meet again and again, among the same services,
    and ask for the same things. -/
theorem generators_are_nodes (σ : Type) :
    (∀ block : Block σ, (Block.sugar σ).Likes block.generator block.nodes) ∧
    (∀ {whole whole' : Effect σ}, (Block.sugar σ).Likes whole whole' →
      (∀ settings env k x w,
        whole.EndsIn settings env k x w ↔ whole'.EndsIn settings env k x w) ∧
      (∀ settings env stack w x w', Machine.EndsOnSpot ⟨.eval whole, env, stack⟩ settings w x w' ↔
        Machine.EndsOnSpot ⟨.eval whole', env, stack⟩ settings w x w') ∧
      ∀ settings observe id env stack k x w,
        Machine.EndsInFiber ⟨.eval whole, env, stack⟩ settings observe id k x w ↔
          Machine.EndsInFiber ⟨.eval whole', env, stack⟩ settings observe id k x w) ∧
    (Block.sugar σ).likeness.Upheld ∧
    ∀ m m', (Block.sugar σ).likeness.machines m m' → m.readable = m'.readable := by
  have upheld := (Block.sound_sugar σ).upheld
  have refl := Exchange.reflexive (X := Block.sugar σ)
  refine ⟨fun block => .rule ⟨block, rfl, rfl⟩ fun _ _ h => h, ?_, upheld,
    fun m m' alike => Block.readable_eq alike⟩
  -- One likeness serves all three kinds of run; only the machines they begin with differ.
  intro whole whole' alike
  refine ⟨fun settings env k x w => ?_, fun settings env stack w x w' => ?_,
    fun settings observe id env stack k x w => ?_⟩
  · have starts := (refl.points ⟨[], env, []⟩).eval alike
    exact (upheld.same_run refl starts settings k).iff trivial x w
  · have machines := (refl.points ⟨[], env, stack⟩).eval alike
    exact ((upheld.on settings).same_onSpot machines w).iff trivial x w'
  · have machines := (refl.points ⟨[], env, stack⟩).eval alike
    exact (upheld.same_inFiber refl machines settings observe id k).iff trivial x w

namespace Sample

/-- A service. -/
def scale : ServiceKey :=
  ⟨0, "scale"⟩

/-- Counts a run, waits, and reads a service that is there and one that is not. -/
def block : Block Nat :=
  .code (Act.update fun n => (.null, n + 1)) fun _ =>
    .bind (.sleep (Duration.ofMillis 5)) fun _ =>
      .service scale fun _ =>
        .service ⟨1, "missing"⟩ fun v => .ends (.ok v)

/-- The block, or whatever stands for it, where a defect that the block dies by is caught. -/
def caught (e : Effect Nat) : Effect Nat :=
  e.catchDefect fun _ => do
    Act.modify (· + 10)
    return .succeed (.text "caught")

end Sample

/-- The nodes of a block come to where the block itself does. -/
theorem sample_generators_are_nodes :
    (Sample.caught Sample.block.nodes).EndsIn ⟨.async, true⟩
      (Context.single Sample.scale .null) (Kernel.start 0) (.success (.text "caught"))
      ⟨11, 5000000, #[]⟩ := by
  have alike : (Block.sugar Nat).Likes (Sample.caught Sample.block.generator)
      (Sample.caught Sample.block.nodes) :=
    .catchDefect ((generators_are_nodes Nat).1 Sample.block) fun _ => Exchange.gives_act _
  exact (((generators_are_nodes Nat).2.1 alike).1 _ _ _ _ _).1 ⟨20, rfl⟩

end EffectKernel
