import EffectKernel.Proofs.Laws.Duality
import EffectKernel.Proofs.RunRelations

/-!
# Laws of Collecting

Effects that are run in order and collected, in any of the three ways: the values of all, the ends
of all, or the values of all unless there are failures, which are reported by their places. All
three run their children one after the other, each in the world that the one before has left, and
never run a child behind one that ends the whole. They differ in which ends do, and in what they
make of the ends if none does.

One frame serves all three. It holds the children that are still to come and the ends so far, and
what it comes to follows by induction on the children that are still to come
(`RunRelation.collecting`). That is the same for every way to run them, also for runs that are
broken off.

To collect the ends of all is to collect the values of all, if every child is made to succeed with
its end. Here the children themselves are the same, and only the frames above them differ, so the
two can be exchanged at any places of a program (`Collecting.sound_sides`).

## Main definitions

* `Outcome.ofEnd`: How a child ended, as an outcome.
* `InTurn`: Children have been run one after the other.
* `StopsAt`: One of them ends the whole.
* `Collected`: What collecting effects come to.
* `Collecting.sides`: Which effects may be exchanged.

## Theorems

* `RunRelation.collecting`: What comes of the children that are still to come.
* `RunRelation.collected`: What comes of all of them.
* `Collecting.sound_sides`: The exchange cannot be seen.
* `collecting_modes_agree`: The three ways to collect agree.
-/

namespace EffectKernel

open Machine

variable {σ : Type}

/-- How a child of a collecting effect ended, as an outcome. -/
def Outcome.ofEnd : Either Value Value → Outcome
  | .left e => .fail e
  | .right v => .success v

/-- Effects have been run one after the other, each in the world that the one before has left, and
    have ended with these outcomes. -/
inductive InTurn (ends : Effect σ → World σ → Outcome → World σ → Prop) :
    List (Effect σ) → World σ → List Outcome → World σ → Prop where
  | none {w} : InTurn ends [] w [] w
  | more {e es w x w₁ xs w'} (first : ends e w x w₁) (others : InTurn ends es w₁ xs w') :
      InTurn ends (e :: es) w (x :: xs) w'

/-- Effects have been run one after the other up to the first whose outcome ends the whole, and none
    behind it. -/
inductive StopsAt (ends : Effect σ → World σ → Outcome → World σ → Prop)
    (goesOn : Outcome → Bool) : List (Effect σ) → World σ → Outcome → World σ → Prop where
  | here {e es w x w'} (first : ends e w x w') (stops : goesOn x = false) :
      StopsAt ends goesOn (e :: es) w x w'
  | later {e es w y w₁ x w'} (first : ends e w y w₁) (more : goesOn y = true)
      (others : StopsAt ends goesOn es w₁ x w') : StopsAt ends goesOn (e :: es) w x w'

/-- Whether children are run after one that has ended so. -/
def Collect.goesOn : Collect → Outcome → Bool
  | .shortCircuit, x => x.isSuccess
  | .every, x => !x.isDie

/-- What effects that collect others come to, by what these come to. -/
structure Collected (ends : Effect σ → World σ → Outcome → World σ → Prop)
    (es : List (Effect σ)) : Prop where
  /-- The values of all, or the first outcome that is no value. -/
  all : ∀ w x w', ends (.allOf es) w x w' ↔
    (∃ values : List Value, InTurn ends es w (values.map .success) w' ∧
      x = .success (.list values)) ∨
    StopsAt ends (·.isSuccess) es w x w'
  /-- The ends of all, or the first defect. -/
  either : ∀ w x w', ends (.allEither es) w x w' ↔
    (∃ slots : List (Either Value Value), InTurn ends es w (slots.map Outcome.ofEnd) w' ∧
      x = .success (Outcome.toList slots)) ∨
    StopsAt ends (!·.isDie) es w x w'
  /-- The values of all if none has failed, otherwise their failures by their places, or the first
      defect. -/
  validate : ∀ w x w', ends (.allValidate es) w x w' ↔
    (∃ values : List Value, InTurn ends es w (values.map .success) w' ∧
      x = .success (.list values)) ∨
    (∃ slots : List (Either Value Value), InTurn ends es w (slots.map Outcome.ofEnd) w' ∧
      (∃ e, .left e ∈ slots) ∧
        x = .fail (.list (slots.map fun slot => Value.ofOption slot.left?))) ∨
    StopsAt ends (!·.isDie) es w x w'

/-- What collecting effects come to where no child dies, and how their ends are parted. -/
structure Parted (ends : Effect σ → World σ → Outcome → World σ → Prop)
    (es : List (Effect σ)) (w : World σ) (slots : List (Either Value Value)) (w' : World σ) :
    Prop where
  /-- The ends of all are told. -/
  either : ends (.allEither es) w (.success (Outcome.toList slots)) w' ∧
    Outcome.listOf? (Outcome.toList slots) = some slots
  /-- Nothing on the left is nothing that is reported. -/
  valid : (Either.partition slots).1 = [] →
    ends (.allValidate es) w (.success (.list (Either.partition slots).2)) w'
  /-- What is on the left is what is reported, in order. -/
  lefts : (Either.partition slots).1 ≠ [] → ∃ places : List (Option Value),
    ends (.allValidate es) w (.fail (.list (places.map Value.ofOption))) w' ∧
    places.length = es.length ∧ places.reduceOption = (Either.partition slots).1
  /-- What is on the right are the values, in order. -/
  rights : (Either.partition slots).2 = (slots.map Outcome.ofEnd).filterMap Exit.success?
  /-- Nothing is lost, and nothing is there twice. -/
  whole : ((Either.partition slots).1.map Either.left ++
    (Either.partition slots).2.map Either.right).Perm slots

/-! ### Children that are collected -/

section Children

variable {ends : Effect σ → World σ → Outcome → World σ → Prop} {goesOn : Outcome → Bool}
  {e : Effect σ} {es : List (Effect σ)} {w w' : World σ} {x : Outcome}

theorem inTurn_nil {xs : List Outcome} : InTurn ends [] w xs w' ↔ xs = [] ∧ w' = w := by
  constructor
  · rintro ⟨⟩
    exact ⟨rfl, rfl⟩
  · rintro ⟨rfl, rfl⟩
    exact .none

/-- The first of several children, and the others in the world that it has left. -/
theorem inTurn_cons {xs : List Outcome} :
    InTurn ends (e :: es) w (x :: xs) w' ↔ ∃ w₁, ends e w x w₁ ∧ InTurn ends es w₁ xs w' := by
  constructor
  · rintro ⟨⟩
    exact ⟨_, ‹_›, ‹_›⟩
  · rintro ⟨w₁, first, others⟩
    exact .more first others

theorem not_inTurn_cons_nil : ¬ InTurn ends (e :: es) w [] w' := nofun

theorem not_stopsAt_nil : ¬ StopsAt ends goesOn [] w x w' := nofun

/-- The first of several children ends the whole, or one of the others does. -/
theorem stopsAt_cons :
    StopsAt ends goesOn (e :: es) w x w' ↔ ∃ y w₁, ends e w y w₁ ∧
      if goesOn y then StopsAt ends goesOn es w₁ x w' else x = y ∧ w' = w₁ := by
  constructor
  · rintro ⟨⟩
    · exact ⟨x, w', ‹_›, by rw [if_neg (by simp [*])]; exact ⟨rfl, rfl⟩⟩
    · exact ⟨_, _, ‹_›, by rw [if_pos ‹_›]; exact ‹_›⟩
  · rintro ⟨y, w₁, first, rest⟩
    by_cases more : goesOn y = true
    · rw [if_pos more] at rest
      exact .later first more rest
    · rw [if_neg more] at rest
      obtain ⟨rfl, rfl⟩ := rest
      exact .here first (by simpa using more)

/-- As many outcomes as effects. -/
theorem InTurn.length {xs : List Outcome} (run : InTurn ends es w xs w') :
    xs.length = es.length := by
  induction run with
  | none => rfl
  | more _ _ ih => exact congrArg (· + 1) ih

end Children

/-! ### What comes of them -/

section Comes

variable {settings : Settings} {comes : OutcomeRelation σ} {env : Context} {stack : List (Frame σ)}
  {rest : List (Effect σ)} {collect : Collect} {before : List (Either Value Value)}
  {x y : Outcome} {w w' : World σ} {next : Value → Act σ (Effect σ)}

/-- An end is known from its outcome. -/
theorem Outcome.ofEnd_injective : Function.Injective Outcome.ofEnd := by
  rintro (_ | _) (_ | _) ⟨⟩ <;> rfl

/-- An outcome that is no value passes a way on from values. -/
theorem RunRelation.pass_flatMap (rel : RunRelation settings comes)
    (noValue : y.isSuccess = false) :
    comes ⟨.unwind y, env, [.flatMap next]⟩ w x w' ↔ x = y ∧ w' = w := by
  rw [rel.step (letsThrough_flatMap noValue next settings env [] w), rel.final]

/-- An end that is handed to the frame that collects ends the whole, or the next child is run. -/
theorem RunRelation.handed (rel : RunRelation settings comes) :
    comes (allStep rest collect before y env [.flatMap next]) w x w' ↔
      if collect.goesOn y then ∃ slot, y = Outcome.ofEnd slot ∧
        comes ((Code.collecting rest collect (slot :: before)).machine env [.flatMap next]) w x w'
      else x = y ∧ w' = w := by
  -- Where it does not end the whole, it is kept.
  have kept : ∀ slot, (∃ slot', Outcome.ofEnd slot = Outcome.ofEnd slot' ∧
      comes ((Code.collecting rest collect (slot' :: before)).machine env [.flatMap next]) w x
        w') ↔
      comes ((Code.collecting rest collect (slot :: before)).machine env [.flatMap next]) w x w' :=
    fun slot => by simp only [Outcome.ofEnd_injective.eq_iff, exists_eq_left']
  cases y with
  | success v =>
      have goesOn : collect.goesOn (.success v) = true := by cases collect <;> rfl
      rw [goesOn, if_pos rfl]
      refine Iff.trans ?_ (kept (.right v)).symm
      cases rest <;> exact Iff.rfl
  | die d =>
      have stops : collect.goesOn (.die d) = false := by cases collect <;> rfl
      rw [stops, if_neg Bool.false_ne_true]
      exact rel.pass_flatMap rfl
  | fail e =>
      cases collect with
      | shortCircuit => exact rel.pass_flatMap rfl
      | every =>
          refine Iff.trans ?_ (kept (.left e)).symm
          cases rest <;> exact Iff.rfl

/-- A child is run, and its end is handed to the frame that collects. -/
theorem RunRelation.child (rel : RunRelation settings comes) (e : Effect σ) :
    comes ((Code.collecting (e :: rest) collect before).machine env [.flatMap next]) w x w' ↔
      ∃ y w₁, comes (Machine.start e env) w y w₁ ∧
        comes (allStep rest collect before y env [.flatMap next]) w₁ x w' := by
  have passes : ∀ frame ∈ [Frame.all rest collect before, .flatMap next],
      ∀ d, frame.LetsThrough (.die d) := by
    intro frame mem d
    simp only [List.mem_cons, List.not_mem_nil, or_false] at mem
    rcases mem with rfl | rfl
    · exact letsThrough_all_die rest collect before d
    · exact letsThrough_flatMap rfl next
  exact (rel.through passes).trans (exists₂_congr fun y w₁ => and_congr_right fun _ => rel.step rfl)

/-- From some child on, either all children are run and what has been collected is handed on, or one
    of them ends the whole. -/
theorem RunRelation.collecting (rel : RunRelation settings comes) (es : List (Effect σ)) :
    comes ((Code.collecting es collect before).machine env [.flatMap next]) w x w' ↔
      (∃ (slots : List (Either Value Value)) (w₁ : World σ),
        InTurn (fun e => comes (Machine.start e env)) es w (slots.map Outcome.ofEnd) w₁ ∧
        (∀ slot ∈ slots, collect.goesOn (.ofEnd slot) = true) ∧
        comes ⟨.unwind (.success (Outcome.toList (before.reverse ++ slots))), env,
          [.flatMap next]⟩ w₁ x w') ∨
      StopsAt (fun e => comes (Machine.start e env)) collect.goesOn es w x w' := by
  induction es generalizing before w with
  | nil =>
      simp only [inTurn_nil, List.map_eq_nil_iff, not_stopsAt_nil, or_false]
      constructor
      · exact fun run => ⟨[], w, ⟨rfl, rfl⟩, nofun, by rwa [List.append_nil]⟩
      · rintro ⟨slots, w₁, ⟨rfl, rfl⟩, -, run⟩
        rwa [List.append_nil] at run
  | cons e es ih =>
      rw [rel.child, stopsAt_cons]
      simp only [rel.handed, ih]
      constructor
      · rintro ⟨y, w₁, first, run⟩
        split at run
        next more =>
          obtain ⟨slot, rfl, ⟨slots, w₂, others, all, run⟩ | stops⟩ := run
          · refine .inl ⟨slot :: slots, w₂, .more first others,
              List.forall_mem_cons.2 ⟨more, all⟩, ?_⟩
            rwa [List.reverse_cons, List.append_assoc] at run
          · exact .inr ⟨_, w₁, first, by rwa [if_pos more]⟩
        next stops => exact .inr ⟨y, w₁, first, by rwa [if_neg stops]⟩
      · rintro (⟨_ | ⟨slot, slots⟩, w₂, others, all, run⟩ | ⟨y, w₁, first, rest⟩)
        · exact (not_inTurn_cons_nil others).elim
        · rcases List.forall_mem_cons.1 all with ⟨more, all⟩
          rcases inTurn_cons.1 others with ⟨w₁, first, others⟩
          refine ⟨_, w₁, first, ?_⟩
          rw [if_pos more]
          refine ⟨slot, rfl, .inl ⟨slots, w₂, others, all, ?_⟩⟩
          rwa [List.reverse_cons, List.append_assoc]
        · refine ⟨y, w₁, first, ?_⟩
          split at rest
          next more =>
            rw [if_pos more]
            -- What does not end the whole is a value or a failure.
            obtain ⟨slot, rfl⟩ : ∃ slot, y = Outcome.ofEnd slot := by
              cases y with
              | success v => exact ⟨.right v, rfl⟩
              | fail e => exact ⟨.left e, rfl⟩
              | die d => cases collect <;> cases more
            exact ⟨slot, rfl, .inr rest⟩
          next stops => rwa [if_neg stops]

/-- Effects that are collected and whose ends settle the outcome. -/
theorem RunRelation.settled (rel : RunRelation settings comes) (es : List (Effect σ))
    (settles : List (Either Value Value) → Outcome)
    (settled : ∀ slots, next (Outcome.toList slots) = pure (.exit (pure (settles slots)))) :
    comes (Machine.start (.flatMap (.all es collect false) next) env) w x w' ↔
      (∃ slots : List (Either Value Value),
        InTurn (fun e => comes (Machine.start e env)) es w (slots.map Outcome.ofEnd) w' ∧
        (∀ slot ∈ slots, collect.goesOn (.ofEnd slot) = true) ∧ x = settles slots) ∨
      StopsAt (fun e => comes (Machine.start e env)) collect.goesOn es w x w' := by
  have begun : Machine.step settings ⟨.eval (.all es collect false), env, [.flatMap next]⟩ w =
      (.next ((Code.collecting es collect []).machine env [.flatMap next]), w) := by
    rw [← startAll_eq]
    rfl
  rw [Machine.start, rel.step rfl, rel.step begun, rel.collecting]
  refine or_congr_left (exists_congr fun slots => ?_)
  -- When all ends have come, there are three more steps to the outcome.
  have made : ∀ w₁, Machine.step settings ⟨.unwind (.success (Outcome.toList slots)), env,
      [.flatMap next]⟩ w₁ = (.next ⟨.eval (.exit (pure (settles slots))), env, []⟩, w₁) := by
    intro w₁
    simp only [Machine.step, stepAt, unwindStep, settled]
    rfl
  have ended : ∀ w₁ : World σ,
      Machine.step settings ⟨.eval (.exit (pure (settles slots))), env, []⟩ w₁ =
        (.next ⟨.unwind (settles slots), env, []⟩, w₁) := fun _ => rfl
  simp only [List.reverse_nil, List.nil_append, rel.step (made _), rel.step (ended _), rel.final]
  constructor
  · rintro ⟨w₁, run, all, rfl, rfl⟩
    exact ⟨run, all, rfl⟩
  · rintro ⟨run, all, rfl⟩
    exact ⟨w', run, all, rfl, rfl⟩

end Comes

/-! ### The three ways to collect -/

/-- Ends that are all values. -/
theorem exists_values {slots : List (Either Value Value)}
    (all : ∀ slot ∈ slots, (Outcome.ofEnd slot).isSuccess = true) :
    ∃ values : List Value, slots = values.map .right := by
  induction slots with
  | nil => exact ⟨[], rfl⟩
  | cons slot slots ih =>
      rcases List.forall_mem_cons.1 all with ⟨first, all⟩
      obtain ⟨values, rfl⟩ := ih all
      cases slot with
      | left e => cases first
      | right v => exact ⟨v :: values, rfl⟩

/-- The ends of children that all come to values. -/
theorem map_ofEnd_right (values : List Value) :
    (values.map .right).map Outcome.ofEnd = values.map .success := by
  rw [List.map_map]
  rfl

/-- What is made of ends that should all be values. -/
def succeeded (slots : List (Either Value Value)) : Outcome :=
  match slots.mapM Either.right? with
  | some values => .success (.list values)
  | none => .die (.typeMismatch "a successful outcome")

/-- If all have succeeded the values are there. -/
theorem succeeded_map_right (values : List Value) :
    succeeded (values.map .right) = .success (.list values) := by
  rw [succeeded, Either.mapM_right?_map_right]

theorem successes_eq (slots : List (Either Value Value)) :
    (Effect.successes slots : Effect σ) = .exit (pure (succeeded slots)) := by
  unfold Effect.successes succeeded
  cases slots.mapM Either.right? <;> rfl

/-- Ends are all values, or there is a failure among them. -/
theorem all_isRight_or (slots : List (Either Value Value)) :
    (∃ values : List Value, slots = values.map .right) ∨
      (slots.all Either.isRight = false ∧ ∃ e, .left e ∈ slots) := by
  by_cases all : ∀ slot ∈ slots, (Outcome.ofEnd slot).isSuccess = true
  · exact .inl (exists_values all)
  · push Not at all
    rcases all with ⟨_ | v, mem, noValue⟩
    · exact .inr ⟨List.all_eq_false.2 ⟨_, mem, Bool.false_ne_true⟩, _, mem⟩
    · exact absurd rfl noValue

/-- What the three ways to collect come to, in every way to run them. -/
theorem RunRelation.collected {settings : Settings} {comes : OutcomeRelation σ}
    (rel : RunRelation settings comes)
    (env : Context) (es : List (Effect σ)) :
    Collected (fun e => comes (Machine.start e env)) es where
  -- Each of the three is what `settled` says, read through what the last frame makes of the slots.
  all w x w' := by
    refine (rel.settled es succeeded fun slots => ?_).trans (or_congr_left ?_)
    · simp only [Outcome.listOf?_toList, successes_eq]
    · constructor
      · rintro ⟨slots, run, all, rfl⟩
        obtain ⟨values, rfl⟩ := exists_values all
        exact ⟨values, by rwa [map_ofEnd_right] at run, succeeded_map_right values⟩
      · rintro ⟨values, run, rfl⟩
        exact ⟨values.map .right, by rwa [map_ofEnd_right],
          List.forall_mem_map.2 fun _ _ => rfl, (succeeded_map_right values).symm⟩
  either w x w' := by
    refine (rel.settled es (fun slots => .success (Outcome.toList slots)) fun slots => ?_).trans
      (or_congr_left ?_)
    · simp only [Outcome.listOf?_toList]
      rfl
    · refine exists_congr fun slots => and_congr_right fun _ => and_iff_right ?_
      rintro (_ | _) - <;> rfl
  validate w x w' := by
    refine (rel.settled es (fun slots => if slots.all Either.isRight then succeeded slots
      else .fail (.list (slots.map fun slot => Value.ofOption slot.left?)))
      fun slots => ?_).trans ?_
    · simp only [Outcome.listOf?_toList, successes_eq]
      split <;> rfl
    · rw [← or_assoc]
      refine or_congr_left ?_
      constructor
      · rintro ⟨slots, run, -, rfl⟩
        -- All slots are values, or one of them holds an error and the list of errors is the result.
        rcases all_isRight_or slots with ⟨values, rfl⟩ | ⟨some, failed⟩
        · refine .inl ⟨values, by rwa [map_ofEnd_right] at run, ?_⟩
          rw [if_pos (by simp [Either.isRight]), succeeded_map_right]
        · exact .inr ⟨slots, run, failed, by rw [some, if_neg Bool.false_ne_true]⟩
      · have goesOn : ∀ slots : List (Either Value Value),
            ∀ slot ∈ slots, Collect.every.goesOn (.ofEnd slot) = true := by
          rintro slots (_ | _) - <;> rfl
        rintro (⟨values, run, rfl⟩ | ⟨slots, run, ⟨e, mem⟩, rfl⟩)
        · refine ⟨values.map .right, by rwa [map_ofEnd_right], goesOn _, ?_⟩
          rw [if_pos (by simp [Either.isRight]), succeeded_map_right]
        · refine ⟨slots, run, goesOn _, ?_⟩
          rw [List.all_eq_false.2 ⟨_, mem, Bool.false_ne_true⟩, if_neg Bool.false_ne_true]

/-! ### Ends that are parted -/

section Parted

variable {slots : List (Either Value Value)}

/-- Both sides together are what has been parted. -/
theorem partition_perm (slots : List (Either Value Value)) :
    ((Either.partition slots).1.map Either.left ++
      (Either.partition slots).2.map Either.right).Perm slots := by
  induction slots with
  | nil => exact .nil
  | cons slot slots ih =>
      cases slot with
      | left e => exact .cons _ ih
      | right v => exact List.perm_middle.trans (.cons _ ih)

/-- What is on the right are the values. -/
theorem partition_rights (slots : List (Either Value Value)) :
    (Either.partition slots).2 = (slots.map Outcome.ofEnd).filterMap Exit.success? := by
  rw [List.filterMap_map]
  exact congrArg (List.filterMap · slots) (funext fun slot => by cases slot <;> rfl)

/-- With nothing on the left, all ends are values. -/
theorem eq_map_right_of_lefts (empty : (Either.partition slots).1 = []) :
    slots = (Either.partition slots).2.map .right := by
  rcases all_isRight_or slots with ⟨values, rfl⟩ | ⟨-, e, mem⟩
  · simp [Either.partition, List.filterMap_map, Function.comp_def, Either.right?]
  · have absent := List.filterMap_eq_nil_iff.1 empty _ mem
    cases absent

/-- Where no child dies, the ends are parted like the failures and the values. -/
theorem Collected.parted {ends : Effect σ → World σ → Outcome → World σ → Prop}
    {es : List (Effect σ)} (collected : Collected ends es) {w w' : World σ}
    (run : InTurn ends es w (slots.map Outcome.ofEnd) w') : Parted ends es w slots w' where
  either := ⟨(collected.either w _ w').2 (.inl ⟨slots, run, rfl⟩), Outcome.listOf?_toList slots⟩
  valid empty := by
    rw [eq_map_right_of_lefts empty, map_ofEnd_right] at run
    exact (collected.validate w _ w').2 (.inl ⟨_, run, rfl⟩)
  lefts nonempty := by
    obtain ⟨e, mem⟩ := List.exists_mem_of_ne_nil _ nonempty
    obtain ⟨slot, mem, left⟩ := List.mem_filterMap.1 mem
    -- The error taken from the list stands in one of the slots.
    have failed : .left e ∈ slots := by
      cases slot with
      | left e' =>
          cases left
          exact mem
      | right v => cases left
    refine ⟨slots.map Either.left?, ?_, ?_, ?_⟩
    · rw [List.map_map]
      exact (collected.validate w _ w').2 (.inr (.inl ⟨slots, run, ⟨e, failed⟩, rfl⟩))
    · rw [← run.length, List.length_map, List.length_map]
    · exact List.filterMap_map
  rights := partition_rights slots
  whole := partition_perm slots

end Parted

/-! ### Ends as values -/

namespace Collecting

/-- A function that succeeds with the ends that have been collected. -/
def Tells (next : Value → Act σ (Effect σ)) : Prop :=
  ∀ slots, next (Outcome.toList slots) = pure (.succeed (Outcome.toList slots))

/-- To collect ends is to run all children and to tell how they have ended. -/
theorem exists_allEither (es : List (Effect σ)) :
    ∃ next, Effect.allEither es = .flatMap (.all es .every false) next ∧ Tells next := by
  refine ⟨_, rfl, fun slots => ?_⟩
  simp only [Outcome.listOf?_toList]

/-- The frame around an effect that is made to succeed with its end. -/
def ending : Frame σ :=
  .fold (some fun v => do return .succeed (← pure (Outcome.ofEither (.right v))))
    (some fun e => do return .succeed (← pure (Outcome.ofEither (.left e))))

/-- An end that has become the value of a child. -/
def asValue (slot : Either Value Value) : Either Value Value :=
  .right (Outcome.ofEither slot)

/-- The ends of all are the values of all, if every child is made to succeed with its end. -/
inductive Sides (Parts : Effect σ → Effect σ → Prop) : Effect σ → Effect σ → Prop where
  | either {es es'} (each : List.Forall₂ Parts es es') :
      Sides Parts (.allEither es) (.allOf (es'.map .either))

/-- The frames that lie on either side while a child is run. -/
inductive Meanwhile (Parts : Effect σ → Effect σ → Prop) :
    List (Frame σ) → List (Frame σ) → Prop where
  | child {rest rest' before next next'} (tells : Tells next) (gathers : Duality.Gathers next')
      (others : List.Forall₂ Parts rest rest') :
      Meanwhile Parts [.all rest .every before, .flatMap next]
        [ending, .all (rest'.map .either) .shortCircuit (before.map asValue), .flatMap next']

/-- The two ways to collect ends may be exchanged. -/
def sides (σ : Type) : Exchange σ where
  exact := True
  tame := False
  effects := Sides
  frames Parts _ := Meanwhile Parts

section Meets

variable {settings : Settings} {env : Context} {stack stack' : List (Frame σ)} {w w' : World σ}
  {before : List (Either Value Value)} {rest rest' : List (Effect σ)}
  {next next' : Value → Act σ (Effect σ)} {Parts : Effect σ → Effect σ → Prop}

/-- An end that does not end the whole is collected. -/
theorem steps_every (slot : Either Value Value) :
    Steps settings 1 ⟨.unwind (.ofEnd slot), env, .all rest .every before :: stack⟩ w
      ((Code.collecting rest .every (slot :: before)).machine env stack) w := by
  refine .one ?_
  cases slot <;> cases rest <;> rfl

/-- Where a child is made to succeed with its end, this is collected. -/
theorem steps_ending (slot : Either Value Value) :
    Steps settings 3
      ⟨.unwind (.ofEnd slot), env, ending :: .all rest .shortCircuit before :: stack⟩ w
      ((Code.collecting rest .shortCircuit (asValue slot :: before)).machine env stack) w := by
  have collected : Machine.step settings
      ⟨.unwind (.success (Outcome.ofEither slot)), env, .all rest .shortCircuit before :: stack⟩ w =
    (.next
      ((Code.collecting rest .shortCircuit (asValue slot :: before)).machine env stack), w) := by
    cases rest <;> rfl
  cases slot <;> exact .more rfl (.more rfl (.one collected))

/-- Where both sides have come to some child, they run the same children from there on, or hand on
    the same ends. -/
theorem meets_collecting (tells : Tells next) (gathers : Duality.Gathers next')
    (each : List.Forall₂ Parts rest rest') (parts : ∀ a b, Parts a b → (sides σ).Likes a b)
    (below : (sides σ).Stacks env stack stack') (worlds : (sides σ).likeness.Worlds w w')
    {m m' : Machine σ} {v v' : World σ} {n n' : Nat}
    (left : Steps settings n m v
      ((Code.collecting rest .every before).machine env (.flatMap next :: stack)) w) (moves : 0 < n)
    (right : Steps settings n' m' v'
      ((Code.collecting (rest'.map .either) .shortCircuit (before.map asValue)).machine env
        (.flatMap next' :: stack')) w') : (sides σ).likeness.Meets settings m v m' v' := by
  -- At the end both frames make the same list of sides; before it both begin the next child.
  cases each with
  | nil =>
      have told : Machine.step settings ⟨.unwind (.success (Outcome.toList before.reverse)), env,
          .flatMap next :: stack⟩ w =
        (.next ⟨.eval (.succeed (Outcome.toList before.reverse)), env, stack⟩, w) := by
        simp only [Machine.step, stepAt, unwindStep, tells before.reverse]
        rfl
      have gathered : Machine.step settings ⟨.unwind (.success (Outcome.toList
          (before.map asValue).reverse)), env, .flatMap next' :: stack'⟩ w' =
        (.next ⟨.eval (.succeed (Outcome.toList before.reverse)), env, stack'⟩, w') := by
        have values : (before.map asValue).reverse =
            (before.reverse.map Outcome.ofEither).map .right := by
          rw [← List.map_reverse, List.map_map]
          rfl
        simp only [Machine.step, stepAt, unwindStep, values, gathers _]
        rfl
      exact .ahead (left.trans (.one told)) (Nat.succ_pos _) (right.trans (.one gathered))
        (Nat.succ_pos _) (.mk (.eval (.refl _)) below) worlds
  | cons first others =>
      exact .ahead left moves (right.trans (.one rfl)) (Nat.succ_pos _)
        (.mk (.eval (parts _ _ first))
          (.rule (Meanwhile.child tells gathers others) parts below)) worlds

/-- The ways to collect ends cannot be told apart. -/
theorem sound_sides (σ : Type) : (sides σ).Sound where
  inexact tame := tame.elim
  effects settings := by
    rintro env stack stack' w w' ⟨each⟩ parts meets below worlds
    rename_i es es'
    obtain ⟨next, same, tells⟩ := exists_allEither es
    obtain ⟨next', same', gathers⟩ := Duality.exists_allOf (es'.map Effect.either)
    rw [same, same']
    have begun : ∀ (es : List (Effect σ)) collect env (stack : List (Frame σ)) w,
        Machine.step settings ⟨.eval (.all es collect false), env, stack⟩ w =
          (.next ((Code.collecting es collect []).machine env stack), w) := by
      intro es collect env stack w
      rw [← startAll_eq]
      rfl
    exact meets_collecting tells gathers each parts below worlds
      (.more rfl (.one (begun _ _ _ _ _))) (Nat.succ_pos 1) (.more rfl (.one (begun _ _ _ _ _)))
  frames settings := by
    rintro env stack stack' ⟨tells, gathers, others⟩ parts below meets x w w' worlds
    cases x with
    | success v =>
        exact meets_collecting tells gathers others parts below worlds (steps_every (.right v))
          Nat.one_pos (steps_ending (.right v))
    | fail e =>
        exact meets_collecting tells gathers others parts below worlds (steps_every (.left e))
          Nat.one_pos (steps_ending (.left e))
    | die d =>
        -- A defect ends the whole on both sides.
        exact (meets worlds).after (.more rfl (.one rfl)) (.more rfl (.more rfl (.one rfl)))
  bodies _ := nofun

end Meets

end Collecting

/-- Children of an effect that collects are run one after the other, each in the world that the one
    before has left. The values of all are there if all children succeed, and the first other
    outcome ends the whole. The ends of all are there unless a child dies, which ends the whole. The
    values are there unless a child fails or dies, and then failures are reported by their places,
    but no child behind one that dies is run. This is so whatever comes of requests, and on the
    spot, also for runs that are broken off. So to collect ends is to collect values where every
    child is made to succeed with its end, at any places of a program; and the ends are parted into
    the failures that are reported and the values, each in order. -/
theorem collecting_modes_agree (σ : Type) :
    (∀ settings outside env (es : List (Effect σ)),
      Collected (fun e => e.Ends settings outside env) es ∧
      ∀ {w slots w'}, InTurn (fun e => e.Ends settings outside env) es w
        (slots.map Outcome.ofEnd) w' →
          Parted (fun e => e.Ends settings outside env) es w slots w') ∧
    (∀ settings env (es : List (Effect σ)),
      Collected (fun e => (Machine.start e env).EndsOnSpot settings) es ∧
      ∀ {w slots w'}, InTurn (fun e => (Machine.start e env).EndsOnSpot settings) es w
        (slots.map Outcome.ofEnd) w' →
          Parted (fun e => (Machine.start e env).EndsOnSpot settings) es w slots w') ∧
    (∀ es : List (Effect σ), (Effect.allEither es).Equivalent True (.allOf (es.map .either))) ∧
    (∀ es : List (Effect σ),
      (Collecting.sides σ).Likes (.allEither es) (.allOf (es.map .either))) ∧
    ∀ {whole whole' : Effect σ}, (Collecting.sides σ).Likes whole whole' →
      whole.Equivalent True whole' := by
  have equivalent : ∀ {whole whole' : Effect σ}, (Collecting.sides σ).Likes whole whole' →
      whole.Equivalent True whole' := fun alike => (Collecting.sound_sides σ).equivalent alike
  -- The two programs are exchanged by the rule itself, with each child exchanged for itself.
  have likes : ∀ es : List (Effect σ),
      (Collecting.sides σ).Likes (.allEither es) (.allOf (es.map .either)) := fun es =>
    .rule (.either (List.forall₂_same.2 fun e _ => Exchange.Likes.refl e)) fun _ _ alike => alike
  refine ⟨fun settings outside env es => ?_, fun settings env es => ?_,
    fun es => equivalent (likes es), likes, equivalent⟩
  · have collected := (runRelation_ends settings outside).collected env es
    exact ⟨collected, fun run => collected.parted run⟩
  · have collected := (runRelation_onSpot settings).collected env es
    exact ⟨collected, fun run => collected.parted run⟩

namespace Sample

/-- Counts how often it has been run. -/
def ticket : Effect Nat :=
  .exit (Act.update fun n => (.success (.ofNat n), n + 1))

/-- Two tickets, and a failure between them. -/
def queue : List (Effect Nat) :=
  [ticket, .fail (.text "closed"), ticket]

/-- How the queue ends. -/
def served : List (Either Value Value) :=
  [.right (.ofNat 0), .left (.text "closed"), .right (.ofNat 1)]

end Sample

/-- The second ticket is given out although there has been a failure before, which is reported by
    its place and is on the left when the ends are parted. -/
theorem sample_collecting_modes_agree :
    (Machine.start (.allValidate Sample.queue) Context.empty).EndsOnSpot ⟨.sync, true⟩ ⟨0, 0, #[]⟩
      (.fail (.list [.null, .record1 "some" (.text "closed"), .null])) ⟨2, 0, #[]⟩ ∧
    Parted (fun e => (Machine.start e Context.empty).EndsOnSpot ⟨.sync, true⟩) Sample.queue
      ⟨0, 0, #[]⟩ Sample.served ⟨2, 0, #[]⟩ ∧
    Either.partition Sample.served = ([.text "closed"], [.ofNat 0, .ofNat 1]) ∧
    ((Effect.allEither Sample.queue).andThen fun v => pure (.succeed v)).Equivalent True
      ((Effect.allOf (Sample.queue.map .either)).andThen fun v => pure (.succeed v)) := by
  rcases collecting_modes_agree Nat with ⟨-, onSpot, -, likes, equivalent⟩
  -- The three children end one after the other, and only the second fails.
  have run : InTurn (fun e => (Machine.start e Context.empty).EndsOnSpot ⟨.sync, true⟩)
      Sample.queue ⟨0, 0, #[]⟩ (Sample.served.map Outcome.ofEnd) ⟨2, 0, #[]⟩ :=
    .more ⟨2, rfl⟩ (.more ⟨2, rfl⟩ (.more ⟨2, rfl⟩ .none))
  have parted := (onSpot ⟨.sync, true⟩ Context.empty Sample.queue).2 run
  have validated := ((onSpot ⟨.sync, true⟩ Context.empty Sample.queue).1.validate _ _ _).2
    (.inr (.inl ⟨Sample.served, run, ⟨.text "closed", by simp [Sample.served]⟩, rfl⟩))
  exact ⟨validated, parted, rfl, equivalent (.flatMap (likes _) fun _ => Exchange.gives_act _)⟩

end EffectKernel
