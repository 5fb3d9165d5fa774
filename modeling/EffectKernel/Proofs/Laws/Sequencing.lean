import EffectKernel.Effect.Many
import EffectKernel.Proofs.Likeness.Equivalence
import EffectKernel.Proofs.SingleSteps

/-!
# Laws of Sequencing

To go on from the value of an effect is associative, and to succeed is neutral for it; to transform
a value, to combine two of them or to drop the first of two are ways to go on. What is meant by
that is that the two sides of each law can stand for each other in any program.

The machine does not know of such laws. Where a program goes on twice, one frame lies upon the other
while the source is run, and where it goes on by going on, there is just one frame, and another one
later. Two values that are combined are collected by a frame that holds the effects still to come
and the values so far, in the place of a function that remembers the first value. So while the
same effect is run on both sides, other frames lie beneath it (`Sequencing.Meanwhile`). All of these
frames look at values only, and let anything else through (`steps_past`). When a value is handed to
them, both sides call the same function, or go on with the same effect, and then again
other frames lie beneath.

## Main definitions

* `Sequencing.Laws`: The laws, up to a relation of effects.
* `Sequencing.Sides`, `Sequencing.Meanwhile`: The sides of the laws, and their frames.
* `Sequencing.sides`: The sides may be exchanged.

## Theorems

* `Sequencing.sound_sides`: The exchange cannot be seen.
* `sequencing_laws`: The laws hold in any program, however it is run.
-/

namespace EffectKernel

open Machine

variable {σ : Type}

/-! ### The laws -/

namespace Sequencing

/-- The second component of a pair. -/
def second : Value → Value
  | .pair _ w => w
  | v => v

/-- The laws, up to a relation of effects. -/
structure Laws (σ : Type) (Like : Effect σ → Effect σ → Prop) : Prop where
  /-- To go on from a value that is there is to begin with what is made of it. -/
  succeed_andThen : ∀ v f, Like ((Effect.succeed v).andThen f) (.suspend (f v))
  /-- To go on by succeeding with the value changes nothing. -/
  andThen_succeed : ∀ e : Effect σ, Like e (e.andThen fun v => pure (.succeed v))
  /-- To go on twice is to go on by going on. -/
  andThen_andThen : ∀ (e : Effect σ) f g,
    Like ((e.andThen f).andThen g) (e.andThen fun v => do return (← f v).andThen g)
  /-- To transform a value is to go on by succeeding with another one. -/
  map : ∀ (e : Effect σ) p, Like (e.map p) (e.andThen fun v => do return .succeed (← p v))
  /-- To combine two values is to go on by transforming the second one. -/
  zipWith : ∀ (a b : Effect σ) p,
    Like (a.zipWith b p) (a.andThen fun v => pure (b.map fun w => p v w))
  /-- The value that is kept is the second one of the pair. -/
  zipRight : ∀ a b : Effect σ, Like (a.zipRight b) ((a.zip b).map fun v => pure (second v))

/-- Laws that hold up to a relation hold up to a weaker one. -/
theorem Laws.mono {Like Like' : Effect σ → Effect σ → Prop} (laws : Laws σ Like)
    (weaker : ∀ {e e'}, Like e e' → Like' e e') : Laws σ Like' where
  succeed_andThen v f := weaker (laws.succeed_andThen v f)
  andThen_succeed e := weaker (laws.andThen_succeed e)
  andThen_andThen e f g := weaker (laws.andThen_andThen e f g)
  map e p := weaker (laws.map e p)
  zipWith a b p := weaker (laws.zipWith a b p)
  zipRight a b := weaker (laws.zipRight a b)

/-- A function that combines two values that have been collected. -/
def Combines (next : Value → Act σ (Effect σ)) (p : Value → Value → Act σ Value) : Prop :=
  ∀ v w, next (Outcome.toList [.right v, .right w]) = do return .succeed (← p v w)

/-- The sides of the laws, where parts of them may be exchanged. -/
inductive Sides (Parts : Effect σ → Effect σ → Prop) : Effect σ → Effect σ → Prop where
  | value {v f} : Sides Parts ((Effect.succeed v).andThen f) (.suspend (f v))
  | unit {e e'} (part : Parts e e') : Sides Parts e (e'.andThen fun v => pure (.succeed v))
  | assoc {e e' f g} (part : Parts e e') :
      Sides Parts ((e.andThen f).andThen g) (e'.andThen fun v => do return (← f v).andThen g)
  | both {a a' b b' p} (first : Parts a a') (last : Parts b b') :
      Sides Parts (a.zipWith b p) (a'.andThen fun v => pure (b'.map fun w => p v w))
  | right {a a' b b'} (first : Parts a a') (last : Parts b b') :
      Sides Parts (a.zipRight b) ((a'.zip b').map fun v => pure (second v))

/-- The frames that lie on either side while the same effect is run. -/
inductive Meanwhile (Parts : Effect σ → Effect σ → Prop) :
    List (Frame σ) → List (Frame σ) → Prop where
  | unit : Meanwhile Parts [] [.flatMap fun v => pure (.succeed v)]
  | assoc {f g} : Meanwhile Parts [.flatMap f, .flatMap g]
      [.flatMap fun v => do return (← f v).andThen g]
  /-- The first of two whose values are combined. -/
  | both {next p b b'} (combines : Combines next p) (last : Parts b b') :
      Meanwhile Parts [.all [b] .shortCircuit [], .flatMap next]
        [.flatMap fun v => pure (b'.map fun w => p v w)]
  /-- The second of them. -/
  | bothLast {next p v} (combines : Combines next p) :
      Meanwhile Parts [.all [] .shortCircuit [.right v], .flatMap next]
        [.flatMap fun w => do return .succeed (← p v w)]
  /-- The first of two whose second value is kept. -/
  | right {next b b'} (combines : Combines next fun v w => pure (.pair v w)) (last : Parts b b') :
      Meanwhile Parts [.flatMap fun _ => pure b]
        [.all [b'] .shortCircuit [], .flatMap next,
          .flatMap fun v => do return .succeed (← pure (second v))]
  /-- The second of them. -/
  | rightLast {next v} (combines : Combines next fun v w => pure (.pair v w)) :
      Meanwhile Parts []
        [.all [] .shortCircuit [.right v], .flatMap next,
          .flatMap fun v => do return .succeed (← pure (second v))]

/-- The sides of the laws may be exchanged. -/
def sides (σ : Type) : Exchange σ where
  exact := True
  tame := False
  effects := Sides
  frames Parts _ := Meanwhile Parts

section Meets

variable {settings : Settings} {env : Context} {stack stack' : List (Frame σ)} {w w' : World σ}
  {x : Outcome}

/-- An outcome that is no value passes the frames on both sides. -/
theorem Meanwhile.letsThrough {Parts : Effect σ → Effect σ → Prop}
    {frames frames' : List (Frame σ)} (lie : Meanwhile Parts frames frames')
    (noValue : x.isSuccess = false) :
    (∀ frame ∈ frames, frame.LetsThrough x) ∧ ∀ frame ∈ frames', frame.LetsThrough x := by
  cases lie <;>
    simp only [List.forall_mem_cons, List.not_mem_nil, letsThrough_flatMap noValue,
      letsThrough_all noValue, false_imp_iff, implies_true, and_self]

/-- Two effects whose values are combined are collected first. -/
theorem exists_zipWith (a b : Effect σ) (p : Value → Value → Act σ Value) :
    ∃ next, a.zipWith b p = .flatMap (.all [a, b] .shortCircuit false) next ∧ Combines next p :=
  ⟨_, rfl, fun _ _ => rfl⟩

/-- Effects that are collected one after the other begin with the first one. -/
theorem steps_all (first : Effect σ) (rest : List (Effect σ)) (next : Value → Act σ (Effect σ)) :
    Steps settings 2
      ⟨.eval (.flatMap (.all (first :: rest) .shortCircuit false) next), env, stack⟩ w
      ⟨.eval first, env, .all rest .shortCircuit [] :: .flatMap next :: stack⟩ w := by
  refine .more rfl (.one ?_)
  rcases settings with ⟨_ | _, honor⟩ <;> rfl

/-- Two values that have been gathered are combined in one step. -/
theorem Combines.step {next : Value → Act σ (Effect σ)} {p : Value → Value → Act σ Value}
    (combines : Combines next p) (u v : Value) :
    Machine.step settings
        ⟨.unwind (.success (Outcome.toList [.right u, .right v])), env, .flatMap next :: stack⟩ w =
      applied env stack (w.guarded do return .succeed (← p u v)) := by
  rw [← combines]
  rfl

/-- A value, where the program goes on twice or goes on by going on. -/
theorem meets_assoc {f g : Value → Act σ (Effect σ)} {v : Value}
    (below : (sides σ).Stacks env stack stack') (worlds : (sides σ).likeness.Worlds w w') :
    (sides σ).likeness.Meets settings
      ⟨.unwind (.success v), env, .flatMap f :: .flatMap g :: stack⟩ w
      ⟨.unwind (.success v), env, (.flatMap fun v => do return (← f v).andThen g) :: stack'⟩
      w' := by
  obtain rfl := worlds.eq trivial
  have left : Machine.step settings
      ⟨.unwind (.success v), env, .flatMap f :: .flatMap g :: stack⟩ w =
    applied env (.flatMap g :: stack) (w.guarded (f v)) := rfl
  have right : Machine.step settings
      ⟨.unwind (.success v), env, (.flatMap fun v => do return (← f v).andThen g) :: stack'⟩ w =
    applied env stack' (w.guarded do return (← f v).andThen g) := rfl
  rw [World.guarded_bind] at right
  generalize w.guarded (f v) = made at left right
  rcases made with ⟨d | e, u⟩
  · -- A panic still has to pass what would have gone on last.
    exact .ahead (.more left (.one rfl)) (Nat.succ_pos 1) (.one right) Nat.one_pos
      (.mk .unwind below) (.refl u)
  · exact .ahead (.one left) Nat.one_pos (.more right (.one rfl)) (Nat.succ_pos 1)
      (.mk (.eval (.refl e)) (.frame (.flatMap fun v => Exchange.gives_act (g v)) below)) (.refl u)

/-- The sides of the laws cannot be told apart. -/
theorem sound_sides (σ : Type) : (sides σ).Sound where
  inexact tame := tame.elim
  effects settings := by
    rintro env stack stack' w w' side parts meets below worlds
    cases side with
    | value =>
        exact (Exchange.meets_applied False.elim rfl rfl (Exchange.gives_act _) below worlds).after
          (.more rfl (.one rfl)) .none
    | unit part =>
        exact (meets part (.rule Meanwhile.unit parts below) worlds).after .none (.one rfl)
    | assoc part =>
        exact .ahead (.more rfl (.one rfl)) (Nat.succ_pos 1) (.one rfl) Nat.one_pos
          (.mk (.eval (parts _ _ part)) (.rule Meanwhile.assoc parts below)) worlds
    | @both a a' b b' p first last =>
        rcases exists_zipWith a b p with ⟨next, same, combines⟩
        rw [same]
        exact .ahead (steps_all _ _ _) (Nat.succ_pos 1) (.one rfl) Nat.one_pos
          (.mk (.eval (parts _ _ first)) (.rule (Meanwhile.both combines last) parts below)) worlds
    | @right a a' b b' first last =>
        rcases exists_zipWith a' b' fun v w => pure (.pair v w) with ⟨next, same, combines⟩
        rw [Effect.zip, same]
        exact .ahead (.one rfl) Nat.one_pos (.more rfl (steps_all _ _ _)) (Nat.succ_pos 2)
          (.mk (.eval (parts _ _ first)) (.rule (Meanwhile.right combines last) parts below)) worlds
  frames settings := by
    intro env stack stack' lie parts below meets x w w' worlds
    -- What is no value comes to the frames below, on both sides.
    have past : x.isSuccess = false → (sides σ).likeness.Meets settings ⟨.unwind x, env, _⟩ w
        ⟨.unwind x, env, _⟩ w' := fun noValue =>
      (meets worlds).after (steps_past (lie.letsThrough noValue).1 env stack)
        (steps_past (lie.letsThrough noValue).2 env stack')
    cases x with
    | fail e => exact past rfl
    | die d => exact past rfl
    | success v =>
        cases lie with
        -- Where a side still has something to run, it lies above other frames from there on.
        | assoc => exact meets_assoc below worlds
        | unit => exact (meets worlds).after .none (.more rfl (.one rfl))
        | both combines last =>
            exact .ahead (.one rfl) Nat.one_pos (.more rfl (.one rfl)) (Nat.succ_pos 1)
              (.mk (.eval (parts _ _ last)) (.rule (Meanwhile.bothLast combines) parts below))
              worlds
        | @bothLast next p u combines =>
            exact (Exchange.meets_applied False.elim (combines.step u v) rfl
              (Exchange.gives_act _) below worlds).after (.one rfl) .none
        | right combines last =>
            exact .ahead (.one rfl) Nat.one_pos (.one rfl) Nat.one_pos
              (.mk (.eval (parts _ _ last)) (.rule (Meanwhile.rightLast combines) parts below))
              worlds
        | @rightLast next u combines =>
            exact (meets worlds).after .none
              (.more rfl (.more (combines.step u v) (.more rfl (.more rfl (.one rfl)))))
  bodies _ := nofun

end Meets

/-- The sides may be exchanged, since nothing has to be exchanged inside. -/
theorem laws_likes (σ : Type) : Laws σ (sides σ).Likes where
  succeed_andThen _ _ := .rule .value fun _ _ h => h
  andThen_succeed e := .rule (.unit (.refl e)) fun _ _ h => h
  andThen_andThen e _ _ := .rule (.assoc (.refl e)) fun _ _ h => h
  map e p := .refl (e.map p)
  zipWith a b _ := .rule (.both (.refl a) (.refl b)) fun _ _ h => h
  zipRight a b := .rule (.right (.refl a) (.refl b)) fun _ _ h => h

end Sequencing

/-- To go on from values obeys its laws. The two sides of each of them come to the same, above any
    frames and among any services, on the spot or in a fiber that others run beside: there is the
    same outcome, if there is one, the same state of the program, the same time and the same events.
    And so do programs in which they are exchanged, at any places and any number of them. -/
theorem sequencing_laws (σ : Type) :
    Sequencing.Laws σ (Effect.Equivalent True) ∧
    Sequencing.Laws σ (Sequencing.sides σ).Likes ∧
    ∀ {whole whole' : Effect σ}, (Sequencing.sides σ).Likes whole whole' →
      whole.Equivalent True whole' := by
  have equivalent : ∀ {whole whole' : Effect σ}, (Sequencing.sides σ).Likes whole whole' →
      whole.Equivalent True whole' := fun alike => (Sequencing.sound_sides σ).equivalent alike
  exact ⟨(Sequencing.laws_likes σ).mono equivalent, Sequencing.laws_likes σ, equivalent⟩

namespace Sample

/-- Five milliseconds. -/
def pause : Effect Nat :=
  .sleep (Duration.ofMillis 5)

/-- Counts one. -/
def countOne : Value → Act Nat (Effect Nat) := fun _ => do
  Act.modify (· + 1)
  return .unit

/-- Counts ten, and panics. -/
def countTen : Value → Act Nat (Effect Nat) := fun _ => do
  Act.modify (· + 10)
  Act.stopWith "too many"

/-- Goes on from any defect with its message. -/
def told (e : Effect Nat) : Effect Nat :=
  e.catchDefect fun d => pure (.succeed (.text d.message))

end Sample

/-- The function that goes on last panics, wherever it stands. -/
theorem sample_sequencing_laws :
    (Sample.told (Sample.pause.andThen fun v => do
      return (← Sample.countOne v).andThen Sample.countTen)).EndsIn ⟨.async, true⟩ Context.empty
      (Kernel.start 0) (.success (.text "too many"))
      ⟨11, 5000000, #[.panicCaptured (.ofPanic ⟨some "too many"⟩)]⟩ := by
  have alike : (Sequencing.sides Nat).Likes
      (Sample.told ((Sample.pause.andThen Sample.countOne).andThen Sample.countTen))
      (Sample.told (Sample.pause.andThen fun v => do
        return (← Sample.countOne v).andThen Sample.countTen)) :=
    .catchDefect ((sequencing_laws Nat).2.1.andThen_andThen _ _ _) fun _ => Exchange.gives_act _
  have same := ((sequencing_laws Nat).2.2 alike).run ⟨.async, true⟩ Context.empty (Kernel.start 0)
  exact (same.events trivial _ _).1 ⟨20, rfl⟩

end EffectKernel
