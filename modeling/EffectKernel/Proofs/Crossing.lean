import EffectKernel.Proofs.Defects
import EffectKernel.Proofs.Enclosures

/-!
# Defects Cross Operations

A defect crosses all operations around the effect that dies by it, however many there are.

When the evaluation of a whole comes to the effect in its middle is told node by node
(`Hole.Reaches`): the source of a node is reached at once, a child when those before it have come
to ends that let the next one begin, what a function makes when it makes that effect, and a source
that recurs again after each run that is to be followed by another one. Two things make sure that
this is when the effect is run. The machine does come there, and the frames that it then has on top
of those it began with are those of the nodes around the effect, none of which keeps a defect
(`Hole.Reaches.leads`). And it is run at no other time: what it would do elsewhere could be
anything, for an effect that does the same wherever it is reached may take its place
(`Hole.fill_congr`).

So a defect goes from the effect through these frames to the end of the whole. Children that run
side by side are run by fibers of their own. The one in which the defect comes up ends, which
decides the whole, and the fiber that waits for them goes on with the defect.

## Main definitions

* `Recurs`, `Collects`, `AllFail`: What has happened before a part of a node is run.
* `Hole.Reaches`, `Enclosure.Reaches`: When the evaluation of the whole comes to the effect in it.
* `Crosses`: How a defect gets from the effect to the end of the whole.

## Theorems

* `Hole.Reaches.leads`, `Hole.ReachesIn.leads`: The machine comes to the effect.
* `Hole.fill_congr`, `Hole.fillAll_congr`: The effect is run nowhere else.
* `defects_cross`: A defect crosses all operations around the effect.
-/

namespace EffectKernel

variable {σ : Type}

open Machine

section Reaching

variable (settings : Settings) (outside : Outside σ) (env : Context)

/-- A recurring source has been run some times, and is to be run again. -/
inductive Recurs (r₀ : Recurrence σ) (w₀ : World σ) : Recurrence σ → World σ → Prop where
  /-- It has not been run. -/
  | first : Recurs r₀ w₀ r₀ w₀
  /-- After a run that is to be followed by another one. -/
  | again {r w y w₁ w₂ delay state w₃} (before : Recurs r₀ w₀ r w)
      (run : Evaluates settings outside (.effect r.source) (.of env) w y w₁)
      (verdict : wantsAgain r y w₁ = (.ok true, w₂))
      (decision : r.schedule.step r.state = .again delay state)
      (pause : outside.Passes settings delay
        (w₂.report (againEvent r.mode r.attempt delay)) w₃) :
      Recurs r₀ w₀ { r with state := state, attempt := saturatingSucc r.attempt } w₃

/-- Children have come to ends that let the next one begin. -/
inductive Collects (collect : Collect) : List (Effect σ) → List (Either Value Value) → World σ →
    List (Either Value Value) → World σ → Prop where
  /-- There are none. -/
  | none {ends w} : Collects collect [] ends w ends w
  /-- The first one has ended in a value. -/
  | value {child rest ends w v w₁ ends' w'}
      (first : Evaluates settings outside (.effect child) (.of env) w (.success v) w₁)
      (others : Collects collect rest (.right v :: ends) w₁ ends' w') :
      Collects collect (child :: rest) ends w ends' w'
  /-- It has failed, and failures are collected. -/
  | failure {child rest ends w e w₁ ends' w'} (every : collect = .every)
      (first : Evaluates settings outside (.effect child) (.of env) w (.fail e) w₁)
      (others : Collects collect rest (.left e :: ends) w₁ ends' w') :
      Collects collect (child :: rest) ends w ends' w'

/-- Children have been tried, and all of them have failed. -/
inductive AllFail : List (Effect σ) → World σ → World σ → Prop where
  /-- There are none. -/
  | none {w} : AllFail [] w w
  /-- The first one has failed, and so have the others. -/
  | failure {child rest w e w₁ w'}
      (first : Evaluates settings outside (.effect child) (.of env) w (.fail e) w₁)
      (others : AllFail rest w₁ w') : AllFail (child :: rest) w w'

end Reaching

/-- The evaluation of a node, from some services and a world, comes to the effect in its hole, with
    the services and in the world that there are then. -/
inductive Hole.Reaches (settings : Settings) (outside : Outside σ) (e : Effect σ) :
    Hole σ → Context → World σ → Context → World σ → Prop where
  | flatMap {next env w} : Reaches settings outside e (.flatMap next) env w env w
  | fold {onSuccess onFailure env w} :
      Reaches settings outside e (.fold onSuccess onFailure) env w env w
  | recur {schedule mode filter env w r w'}
      (runs : Recurs settings outside env ⟨e, schedule, schedule.initial, mode, filter, 1⟩ w r w') :
      Reaches settings outside e (.recur schedule mode filter) env w env w'
  | provide {services env w} :
      Reaches settings outside e (.provide services) env w (env.merge services) w
  /-- Children that are run in order. -/
  | all {before after collect parallel env w ends w'}
      (inOrder : parallel = false ∨ settings.mode = .sync)
      (earlier : Collects settings outside env collect before [] w ends w') :
      Reaches settings outside e (.all before after collect parallel) env w env w'
  | race {before after env w w'} (mode : settings.mode = .sync)
      (earlier : AllFail settings outside env before w w') :
      Reaches settings outside e (.race before after) env w env w'
  /-- The function makes nothing of its own. -/
  | made {source next env w v w₁ w'}
      (first : Evaluates settings outside (.effect source) (.of env) w (.success v) w₁)
      (call : w₁.guarded (next v) = (.ok none, w')) :
      Reaches settings outside e (.made source next) env w env w'
  | madeOfValue {source next onFailure env w v w₁ w'}
      (first : Evaluates settings outside (.effect source) (.of env) w (.success v) w₁)
      (call : w₁.guarded (next v) = (.ok none, w')) :
      Reaches settings outside e (.madeOfValue source next onFailure) env w env w'
  | madeOfFailure {source onSuccess next env w v w₁ w'}
      (first : Evaluates settings outside (.effect source) (.of env) w (.fail v) w₁)
      (call : w₁.guarded (next v) = (.ok none, w')) :
      Reaches settings outside e (.madeOfFailure source onSuccess next) env w env w'

/-- The evaluation of nodes around each other, the innermost first, comes to the effect in the
    middle: that of the outer ones to the inner ones, and theirs to the effect. -/
def Hole.ReachesIn (settings : Settings) (outside : Outside σ) :
    List (Hole σ) → Effect σ → Context → World σ → Context → World σ → Prop
  | [], _, env, w, env', w' => env' = env ∧ w' = w
  | hole :: outer, e, env, w, env', w' =>
    ∃ env₁ w₁, ReachesIn settings outside outer (hole.fill e) env w env₁ w₁ ∧
      hole.Reaches settings outside e env₁ w₁ env' w'

/-- The evaluation of operations around each other comes to the effect in the middle. -/
def Enclosure.Reaches (settings : Settings) (outside : Outside σ)
    (operations : List (Enclosure σ)) (e : Effect σ) (env : Context) (w : World σ)
    (env' : Context) (w' : World σ) : Prop :=
  Hole.ReachesIn settings outside (holesOf operations) e env w env' w'

/-- What there is of a node is run in order. -/
def Hole.InOrder (settings : Settings) : Hole σ → Prop
  | .all _ _ _ parallel => parallel = false ∨ settings.mode = .sync
  | .race _ _ => settings.mode = .sync
  | _ => True

/-- What an operation works on is run in order. -/
def Enclosure.InOrder (settings : Settings) : Enclosure σ → Prop
  | .allPar _ _ => settings.mode = .sync
  | .race _ _ => settings.mode = .sync
  | _ => True

/-- An operation that runs its parts in order is made of holes that do. -/
theorem Enclosure.InOrder.holes {settings : Settings} {operation : Enclosure σ}
    (inOrder : operation.InOrder settings) : ∀ hole ∈ operation.holes, hole.InOrder settings := by
  have tower : ∀ rest : List (Effect σ), ∀ hole ∈ towerHoles rest, hole.InOrder settings := by
    intro rest hole mem
    rcases List.mem_map.1 mem with ⟨next, -, rfl⟩
    trivial
  -- Only a child of a join makes a demand on the mode; every other hole is reached in both.
  cases operation with
  | firstSuccessOf before after =>
      cases before with
      | nil => exact tower after
      | cons first before =>
          intro hole mem
          rcases List.mem_cons.1 mem with rfl | mem
          · trivial
          · exact tower after hole mem
  | allPar before after =>
      intro hole mem
      rcases List.mem_cons.1 mem with rfl | mem
      · exact .inr inOrder
      · cases List.mem_singleton.1 mem
        trivial
  | zip | zipAfter | zipWith | zipWithAfter | allOf | allValidate | allEither =>
      intro hole mem
      rcases List.mem_cons.1 mem with rfl | mem
      · exact .inl rfl
      · cases List.mem_singleton.1 mem
        trivial
  | race before after =>
      intro hole mem
      cases List.mem_singleton.1 mem
      exact inOrder
  | _ =>
      intro hole mem
      cases List.mem_singleton.1 mem
      trivial

section Arrival

variable {settings : Settings} {outside : Outside σ} {env env' : Context} {w w' w₁ : World σ}
  {e : Effect σ} {base : List (Frame σ)} {v : Value} {x : Outcome}

/-- A piece of a program that has been evaluated, above a base. -/
theorem Evaluates.delivers {code : Code σ}
    (run : Evaluates settings outside code (.of env) w x w') (base : List (Frame σ)) :
    Delivers settings outside base (code.machine env base) w x env w' :=
  delivers_of_evaluates run base

/-- A function that makes what is put in is like one that makes nothing. -/
theorem World.guarded_orPut (w : World σ) (next : Value → Act σ (Option (Effect σ)))
    (e : Effect σ) (v : Value) :
    w.guarded (Effect.orPut next e v) =
      match w.guarded (next v) with
      | (.ok made, w) => (.ok (made.getD e), w)
      | (.error d, w) => (.error d, w) := by
  unfold World.guarded Effect.orPut
  rw [Act.run_bind]
  rcases (next v).run w.store with ⟨p | made, s⟩ <;> rfl

/-- A source that recurs stays the same. -/
theorem Recurs.source_eq {r₀ r : Recurrence σ} (runs : Recurs settings outside env r₀ w r w') :
    r.source = r₀.source := by
  induction runs with
  | first => rfl
  | again _ _ _ _ _ ih => exact ih

/-- The run of a source that recurs comes to each of its runs. -/
theorem Recurs.leads {r₀ r : Recurrence σ} (runs : Recurs settings outside env r₀ w r w') :
    Leads settings outside base ⟨.eval r₀.source, env, .recur r₀ :: base⟩ w
      ⟨.eval r.source, env, .recur r :: base⟩ w' := by
  induction runs with
  | first => exact .here
  | @again r w y _ _ _ _ _ _ run verdict decision pause ih =>
      refine ih.trans ?_
      refine .join (run.delivers (.recur r :: base)) (List.suffix_refl _) ?_
      refine .onward not_handing_cons (advances_paused ?_ pause) .here
      simp only [step, stepAt, unwindStep, recurStep, verdict, decision]

/-- The run of children in order comes to each of them. -/
theorem Collects.leads {collect : Collect} {before rest : List (Effect σ)}
    {ends ends' : List (Either Value Value)}
    (earlier : Collects settings outside env collect before ends w ends' w') :
    Leads settings outside base
      ((Code.collecting (before ++ rest) collect ends).machine env base) w
      ((Code.collecting rest collect ends').machine env base) w' := by
  induction earlier with
  | none => exact .here
  | @value child others ends w v w₁ ends' w' first _ ih =>
      -- The child delivers its value above the frame, which begins the next child with one step.
      refine .join (first.delivers (.all (others ++ rest) collect ends :: base))
        (List.suffix_refl _) (.onward not_handing_cons (.next ?_) ih)
      simp only [step, stepAt, unwindStep, allStep]
      cases others ++ rest <;> rfl
  | @failure child others ends w e w₁ ends' w' every first _ ih =>
      subst every
      refine .join (first.delivers (.all (others ++ rest) .every ends :: base))
        (List.suffix_refl _) (.onward not_handing_cons (.next ?_) ih)
      simp only [step, stepAt, unwindStep, allStep]
      cases others ++ rest <;> rfl

/-- The run of children that are tried comes to each of them. -/
theorem AllFail.leads {before after : List (Effect σ)}
    (earlier : AllFail settings outside env before w w') :
    Leads settings outside base (startRace (before ++ e :: after) env base) w
      ⟨.eval e, env, .race after :: base⟩ w' := by
  induction earlier with
  | none => exact .here
  | @failure child others w v w₁ w' first _ ih =>
      refine .join (first.delivers (.race (others ++ e :: after) :: base)) (List.suffix_refl _)
        (.onward not_handing_cons (.next ?_) ih)
      simp only [step, stepAt, unwindStep]
      cases others <;> rfl

/-- A function that makes nothing of its own goes on with the effect that is put in. -/
theorem leads_made {next : Value → Act σ (Option (Effect σ))} {frame : Frame σ}
    (step : Machine.step settings ⟨.unwind x, env, frame :: base⟩ w =
      applied env base (w.guarded (Effect.orPut next e v)))
    (call : w.guarded (next v) = (.ok none, w')) :
    Leads settings outside base ⟨.unwind x, env, frame :: base⟩ w ⟨.eval e, env, base⟩ w' := by
  rw [World.guarded_orPut, call] at step
  exact .onward not_handing_cons (.next step) .here

/-- When the evaluation of a node reaches the effect in its hole, the machine has come there, above
    frames that let defects through. -/
theorem Hole.Reaches.leads {hole : Hole σ}
    (reaches : hole.Reaches settings outside e env w env' w') :
    ∃ frames : List (Frame σ), (∀ frame ∈ frames, frame.Passes) ∧ ∀ base,
      Leads settings outside base ⟨.eval (hole.fill e), env, base⟩ w
        ⟨.eval e, env', frames ++ base⟩ w' := by
  -- One frame at most is pushed by each hole, and where the effect is made by a handler the frame
  -- has been popped again.
  have one : ∀ {frame : Frame σ}, frame.Passes → ∀ f ∈ [frame], f.Passes := by
    intro frame passes f mem
    rwa [List.mem_singleton.1 mem]
  have none : ∀ f ∈ ([] : List (Frame σ)), f.Passes := fun _ h => by cases h
  cases reaches with
  | @flatMap next => exact ⟨[.flatMap next], one trivial, fun _ => .eval rfl .here⟩
  | @fold onSuccess onFailure =>
      exact ⟨[.fold onSuccess onFailure], one trivial, fun _ => .eval rfl .here⟩
  | @provide services => exact ⟨[.restore env], one trivial, fun _ => .eval rfl .here⟩
  | @recur _ _ _ _ _ r _ runs =>
      refine ⟨[.recur r], one trivial, fun base => .eval rfl ?_⟩
      have led : Leads _ _ base _ _ _ _ := runs.leads
      rwa [runs.source_eq] at led
  | @all before after collect parallel _ _ ends _ inOrder earlier =>
      refine ⟨[.all after collect ends], one trivial, fun base => .eval (step_all inOrder) ?_⟩
      rw [startAll_eq]
      exact earlier.leads
  | @race before after _ _ _ mode earlier =>
      refine ⟨[.race after], one trivial, fun base => .eval ?_ earlier.leads⟩
      simp only [step, stepAt, fill, evalStep, mode]
  | @made source next _ _ _ _ _ first call =>
      refine ⟨[], none, fun base => .eval rfl ?_⟩
      exact .join (first.delivers (.flatMap (Effect.orPut next e) :: base)) (List.suffix_refl _)
        (leads_made rfl call)
  | @madeOfValue source next onFailure _ _ _ _ _ first call =>
      refine ⟨[], none, fun base => .eval rfl ?_⟩
      exact .join (first.delivers (.fold (some (Effect.orPut next e)) onFailure :: base))
        (List.suffix_refl _) (leads_made rfl call)
  | @madeOfFailure source onSuccess next _ _ _ _ _ first call =>
      refine ⟨[], none, fun base => .eval rfl ?_⟩
      refine .join (first.delivers (.fold onSuccess (some (Effect.orPut next e)) :: base))
        (List.suffix_refl _) (leads_made ?_ call)
      cases onSuccess <;> rfl

/-- When the evaluation of nodes around each other reaches the effect in the middle, the machine has
    come there, above frames that let defects through. -/
theorem Hole.ReachesIn.leads {holes : List (Hole σ)}
    (reaches : ReachesIn settings outside holes e env w env' w') :
    ∃ frames : List (Frame σ), (∀ frame ∈ frames, frame.Passes) ∧ ∀ base,
      Leads settings outside base ⟨.eval (fillAll holes e), env, base⟩ w
        ⟨.eval e, env', frames ++ base⟩ w' := by
  induction holes generalizing e env' w' with
  | nil =>
      rcases reaches with ⟨rfl, rfl⟩
      exact ⟨[], fun _ h => (by cases h), fun _ => .here⟩
  | cons hole outer ih =>
      rcases reaches with ⟨env₁, w₁, around, within⟩
      -- The outer holes are reached first; their frames lie below those of this hole.
      rcases ih around with ⟨frames, passes, comes⟩
      rcases within.leads with ⟨inner, passes', goesOn⟩
      refine ⟨inner ++ frames, fun frame mem => ?_, fun base => (comes base).trans ?_⟩
      · exact (List.mem_append.1 mem).elim (passes' frame) (passes frame)
      · rw [List.append_assoc]
        exact (goesOn (frames ++ base)).of_append (List.suffix_refl _)

end Arrival

section Congruence

variable {settings : Settings} {outside : Outside σ} {env : Context} {w w' : World σ}
  {e e' : Effect σ} {x : Outcome} {s : Surroundings}

/-- What a function makes does not depend on what is put in where it makes something of its own. -/
theorem evaluates_orPut {next : Value → Act σ (Option (Effect σ))} {v : Value}
    (alike : ∀ {w₁}, w.guarded (next v) = (.ok none, w₁) →
      Evaluates settings outside (.effect e) s w₁ x w' →
      Evaluates settings outside (.effect e') s w₁ x w')
    (run : Evaluates settings outside (.effect (.suspend (Effect.orPut next e v))) s w x w') :
    Evaluates settings outside (.effect (.suspend (Effect.orPut next e' v))) s w x w' := by
  have call' := w.guarded_orPut next e' v
  cases run with
  | asked _ asks => cases asks
  | refused _ later => cases later
  | suspendPanic call =>
      rw [World.guarded_orPut] at call
      -- The two handlers are called alike and differ only where nothing was made: there `e` or `e'`
      -- goes on.
      rcases made : w.guarded (next v) with ⟨d | _ | other, w₂⟩ <;>
        simp only [made, Prod.mk.injEq, reduceCtorEq, false_and] at call call'
      rcases call with ⟨⟨⟩, rfl⟩
      exact .suspendPanic call'
  | suspend call goesOn =>
      rw [World.guarded_orPut] at call
      rcases made : w.guarded (next v) with ⟨d | _ | other, w₂⟩ <;>
        simp only [made, Prod.mk.injEq, reduceCtorEq, false_and] at call call'
      · rcases call with ⟨⟨⟩, rfl⟩
        exact .suspend call' (alike made goesOn)
      · rcases call with ⟨⟨⟩, rfl⟩
        exact .suspend call' goesOn

/-- The runs of a recurring source are all there is of it. -/
theorem evaluates_recurring {r₀ r : Recurrence σ} {w₀ : World σ}
    (runs : Recurs settings outside env r₀ w₀ r w)
    (alike : ∀ {r' y w₁ w₂}, Recurs settings outside env r₀ w₀ r' w₁ →
      Evaluates settings outside (.effect r'.source) (.of env) w₁ y w₂ →
      Evaluates settings outside (.effect e') (.of env) w₁ y w₂)
    (run : Evaluates settings outside (.recurring r) (.of env) w x w') :
    Evaluates settings outside (.recurring { r with source := e' }) (.of env) w x w' := by
  -- By induction on the evaluation: each run of the source is one that has been reached.
  generalize hcode : Code.recurring r = code at run
  generalize hs : Surroundings.of env = s at run
  induction run generalizing r with
  | recurringEnough run verdict =>
      cases hcode
      subst hs
      exact .recurringEnough (alike runs run) verdict
  | recurringPanic run verdict =>
      cases hcode
      subst hs
      exact .recurringPanic (alike runs run) verdict
  | recurringExhausted run verdict decision =>
      cases hcode
      subst hs
      exact .recurringExhausted (alike runs run) verdict decision
  | recurringAgain run verdict decision pause _ _ ih =>
      cases hcode
      subst hs
      exact .recurringAgain (alike runs run) verdict decision pause
        (ih (runs.again run verdict decision pause) rfl rfl)
  | _ => cases hcode

/-- A child is run when those before it have come to ends that let it begin. -/
theorem evaluates_collecting {collect : Collect} {before after : List (Effect σ)}
    {ends : List (Either Value Value)}
    (alike : ∀ {ends' y w₁ w₂}, Collects settings outside env collect before ends w ends' w₁ →
      Evaluates settings outside (.effect e) (.of env) w₁ y w₂ →
      Evaluates settings outside (.effect e') (.of env) w₁ y w₂)
    (run : Evaluates settings outside (.collecting (before ++ e :: after) collect ends) (.of env)
      w x w') :
    Evaluates settings outside (.collecting (before ++ e' :: after) collect ends) (.of env)
      w x w' := by
  -- The children in front are collected as before; the first that settles the whole does so in
  -- both.
  induction before generalizing ends w with
  | nil =>
      cases run with
      | collectValue first others => exact .collectValue (alike .none first) others
      | collectFailure first others => exact .collectFailure (alike .none first) others
      | collectStop first => exact .collectStop (alike .none first)
      | collectDie first => exact .collectDie (alike .none first)
  | cons child before ih =>
      cases run with
      | collectValue first others =>
          exact .collectValue first (ih (fun earlier => alike (.value first earlier)) others)
      | collectFailure first others =>
          exact .collectFailure first
            (ih (fun earlier => alike (.failure rfl first earlier)) others)
      | collectStop first => exact .collectStop first
      | collectDie first => exact .collectDie first

/-- A child is tried when all those before it have failed. -/
theorem evaluates_trying {child : Effect σ} {before after rest : List (Effect σ)}
    (alike : ∀ {y w₁ w₂}, AllFail settings outside env before w w₁ →
      Evaluates settings outside (.effect e) (.of env) w₁ y w₂ →
      Evaluates settings outside (.effect e') (.of env) w₁ y w₂)
    (children : child :: rest = before ++ e :: after)
    (run : Evaluates settings outside (.trying child rest) (.of env) w x w') :
    ∃ child' rest', child' :: rest' = before ++ e' :: after ∧
      Evaluates settings outside (.trying child' rest') (.of env) w x w' := by
  -- Down the list of children until the exchanged one is next; one that succeeds in front of it
  -- ends both alike.
  induction before generalizing child rest w with
  | nil =>
      cases children
      refine ⟨e', after, rfl, ?_⟩
      cases run with
      | tryNext first others => exact .tryNext (alike .none first) others
      | tryEnd first last => exact .tryEnd (alike .none first) last
  | cons b before ih =>
      rcases List.cons_eq_cons.1 children with ⟨rfl, hrest⟩
      refine ⟨child, before ++ e' :: after, rfl, ?_⟩
      cases run with
      | tryNext first others =>
          rcases ih (fun earlier => alike (.failure first earlier)) hrest others with
            ⟨next, rest', heq, others'⟩
          rw [← heq]
          exact .tryNext first others'
      | tryEnd first last =>
          refine .tryEnd first fun failed => ?_
          -- A failure that ends the list would be the last child's, and here the exchanged one is
          -- still to come.
          have empty := last failed
          subst empty
          simp at hrest

/-- An effect that does the same as another one wherever the evaluation of a node reaches that may
    take its place in the hole. -/
theorem Hole.fill_congr {hole : Hole σ} (inOrder : hole.InOrder settings)
    (alike : ∀ {env' y w₁ w₂}, hole.Reaches settings outside e env w env' w₁ →
      Evaluates settings outside (.effect e) (.of env') w₁ y w₂ →
      Evaluates settings outside (.effect e') (.of env') w₁ y w₂)
    (run : Evaluates settings outside (.effect (hole.fill e)) (.of env) w x w') :
    Evaluates settings outside (.effect (hole.fill e')) (.of env) w x w' := by
  cases hole with
  | flatMap next =>
      cases run with
      | flatMap first goesOn => exact .flatMap (alike .flatMap first) goesOn
      | flatMapPass first pass => exact .flatMapPass (alike .flatMap first) pass
      | asked _ asks => cases asks
      | refused _ later => cases later
  | fold onSuccess onFailure =>
      cases run with
      | foldSuccess first goesOn => exact .foldSuccess (alike .fold first) goesOn
      | foldFailure first goesOn => exact .foldFailure (alike .fold first) goesOn
      | foldPass first noValue noFailure => exact .foldPass (alike .fold first) noValue noFailure
      | asked _ asks => cases asks
      | refused _ later => cases later
  | recur schedule mode filter =>
      cases run with
      | recur runs =>
          refine .recur (evaluates_recurring .first (fun earlier first => ?_) runs)
          rw [earlier.source_eq] at first
          exact alike (.recur earlier) first
      | asked _ asks => cases asks
      | refused _ later => cases later
  | provide services =>
      cases run with
      | provide body =>
          -- Which provides the services come from does not matter.
          have same : ((Surroundings.of env).inside services).context =
            (Surroundings.of (env.merge services)).context := rfl
          exact .provide (evaluates_congr same.symm (alike .provide (evaluates_congr same body)))
      | asked _ asks => cases asks
      | refused _ later => cases later
  | all before after collect parallel =>
      cases run with
      | all inOrder run => exact .all inOrder (evaluates_collecting (fun earlier =>
          alike (.all inOrder earlier)) run)
      | refused _ later => cases later
      | asked mode asks =>
          rcases inOrder with rfl | sync
          · cases asks
          · rw [sync] at mode
            cases mode
  | race before after =>
      have sync : settings.mode = .sync := inOrder
      simp only [fill] at run ⊢
      generalize hchildren : before ++ e :: after = children at run
      cases run with
      | race mode run =>
          rcases evaluates_trying (fun earlier => alike (.race mode earlier)) hchildren.symm
            run with ⟨child, rest, heq, run⟩
          rw [← heq]
          exact .race mode run
      | raceEmpty => simp at hchildren
      | refused _ later => cases later
      | asked mode _ =>
          rw [sync] at mode
          cases mode
  | made source next =>
      cases run with
      | flatMap first goesOn =>
          exact .flatMap first (evaluates_orPut (fun call => alike (.made first call)) goesOn)
      | flatMapPass first pass => exact .flatMapPass first pass
      | asked _ asks => cases asks
      | refused _ later => cases later
  | madeOfValue source next onFailure =>
      cases run with
      | foldSuccess first goesOn =>
          exact .foldSuccess first
            (evaluates_orPut (fun call => alike (.madeOfValue first call)) goesOn)
      | foldFailure first goesOn => exact .foldFailure first goesOn
      | foldPass first noValue noFailure =>
          exact .foldPass first (fun value => nomatch noValue value) noFailure
      | asked _ asks => cases asks
      | refused _ later => cases later
  | madeOfFailure source onSuccess next =>
      cases run with
      | foldSuccess first goesOn => exact .foldSuccess first goesOn
      | foldFailure first goesOn =>
          exact .foldFailure first
            (evaluates_orPut (fun call => alike (.madeOfFailure first call)) goesOn)
      | foldPass first noValue noFailure =>
          exact .foldPass first noValue fun failed => nomatch noFailure failed
      | asked _ asks => cases asks
      | refused _ later => cases later

/-- An effect that does the same as another one wherever the evaluation of the whole reaches that
    may take its place in the middle. -/
theorem Hole.fillAll_congr {holes : List (Hole σ)}
    (inOrder : ∀ hole ∈ holes, hole.InOrder settings)
    (alike : ∀ {env' y w₁ w₂}, ReachesIn settings outside holes e env w env' w₁ →
      Evaluates settings outside (.effect e) (.of env') w₁ y w₂ →
      Evaluates settings outside (.effect e') (.of env') w₁ y w₂)
    (run : Evaluates settings outside (.effect (fillAll holes e)) (.of env) w x w') :
    Evaluates settings outside (.effect (fillAll holes e')) (.of env) w x w' := by
  induction holes generalizing e e' with
  | nil => exact alike ⟨rfl, rfl⟩ run
  | cons hole outer ih =>
      rcases List.forall_mem_cons.1 inOrder with ⟨first, others⟩
      refine ih others (fun {env₁ y w₁ w₂} around inner => ?_) run
      exact hole.fill_congr first (fun within => alike ⟨env₁, w₁, around, within⟩) inner

end Congruence

/-- How a defect gets from the effect in the middle of a whole to the end of the whole. The whole
    begins among some services and in a world, the effect among other services and in a second
    world, and it leaves a third one. -/
structure Crosses (settings : Settings) (outside : Outside σ) (whole e : Effect σ) (d : Defect)
    (env env' : Context) (w w₁ w₂ : World σ) (frames : List (Frame σ)) : Prop where
  /-- All frames around the effect let defects through. -/
  passes : ∀ frame ∈ frames, frame.Passes
  /-- The run of the whole comes to the effect above these frames. -/
  arrives : ∀ base, Leads settings outside base ⟨.eval whole, env, base⟩ w
    ⟨.eval e, env', frames ++ base⟩ w₁
  /-- There the effect dies. -/
  dies : ∀ base, Delivers settings outside (frames ++ base) ⟨.eval e, env', frames ++ base⟩ w₁
    (.die d) env' w₂
  /-- Each of the next steps takes a frame off the stack, and nothing else happens to the frames or
      to the world. -/
  leaves : ∀ base inner outer, frames = inner ++ outer →
    ∃ env₁, Steps settings inner.length ⟨.unwind (.die d), env', frames ++ base⟩ w₂
      ⟨.unwind (.die d), env₁, outer ++ base⟩ w₂
  /-- So the whole dies by the same defect. -/
  ends : ∀ base, Delivers settings outside base ⟨.eval whole, env, base⟩ w (.die d) env w₂
  /-- On the spot that is the end of the run. -/
  onSpot : ∀ fuel, frames.length < fuel →
    runBlocking settings fuel ⟨.unwind (.die d), env', frames⟩ w₂ = some (.die d, w₂)
  /-- In a fiber it is the end of the turn. -/
  inTurn : ∀ path k, Fiber.Turns settings path (.ready ⟨.unwind (.die d), env', frames⟩) k
    (.ended (.die d)) k

/-- How a defect gets from a child that runs side by side with others to the fiber that waits for
    them, which has some frames and services. -/
structure CrossesSide (settings : Settings) (frames : List (Frame σ)) (env : Context)
    (before : List (Effect σ)) (child : Effect σ) (after : List (Effect σ)) : Prop where
  /-- All frames of the fiber let defects through. -/
  passes : ∀ frame ∈ frames, frame.Passes
  /-- The children are asked for. -/
  asks : ∀ base w, Machine.step settings
    ⟨.eval (.all (before ++ child :: after) .shortCircuit true), env, frames ++ base⟩ w =
      (.ask (.gather (before ++ child :: after) .shortCircuit) ⟨[], env, frames ++ base⟩, w)
  /-- The child is run by one of the fibers that the fiber then waits for. -/
  begins : ∀ (path : Path) (k : Kernel σ), ∃ join fibers id,
    (k.grant path (.gather (before ++ child :: after) .shortCircuit) ⟨[], env, frames⟩).1 =
      .joining join fibers ⟨[], env, frames⟩ ∧
    (id, before.length, .ready (Machine.start child env)) ∈ fibers
  /-- When one of them dies, that decides the whole, and the world stays what it is. -/
  decides : ∀ {path : Path} {join : Join} {fibers : List (FiberId × Nat × Fiber σ)}
    {waiting gaveWay count id position : Nat} {fiber : Fiber σ} {k k' : Kernel σ} {d : Defect},
    k.firstWoken? fibers = some (id, position, fiber) →
    Fiber.Turns settings (id :: path) fiber (k.unwake id) (.ended (.die d)) k' →
    ∃ k'', Fiber.TurnsEach settings path join fibers waiting gaveWay count k (.ended (.die d)) k'' ∧
      k''.world = k'.world
  /-- The fiber that waits for them dies in the same turn. -/
  inTurn : ∀ {path : Path} {join : Join} {fibers : List (FiberId × Nat × Fiber σ)}
    {k k' : Kernel σ} {d : Defect},
    Fiber.TurnsEach settings path join fibers 0 0 fibers.length k (.ended (.die d)) k' →
    Fiber.Turns settings path (.joining join fibers ⟨[], env, frames⟩) k (.ended (.die d)) k'

/-- The child of effects that are to run side by side is among the fibers that are begun. -/
theorem Kernel.mem_enlist (env : Context) (before : List (Effect σ)) (e : Effect σ)
    (after : List (Effect σ)) (position : Nat) (k : Kernel σ) :
    ∃ id, (id, position + before.length, Fiber.ready (Machine.start e env)) ∈
      (Kernel.enlist env (before ++ e :: after) position k).1 := by
  induction before generalizing position k with
  | nil => exact ⟨_, List.mem_cons_self⟩
  | cons b before ih =>
      rcases ih (position + 1) (k.draw.2.wakeOne k.fresh) with ⟨id, mem⟩
      rw [Nat.add_assoc, Nat.add_comm 1] at mem
      exact ⟨id, List.mem_cons_of_mem _ mem⟩

/-- A defect of a child that runs beside others ends the whole, above any frames that let it
    through: it is absorbed as the outcome of the join, and the others are given up. -/
theorem crossesSide {settings : Settings} (mode : settings.mode = .async)
    {frames : List (Frame σ)} (passes : ∀ frame ∈ frames, frame.Passes) (env : Context)
    (before : List (Effect σ)) (child : Effect σ) (after : List (Effect σ)) :
    CrossesSide settings frames env before child after := by
  refine ⟨passes, fun base w => ?_, fun path k => ?_, ?_, fun each => ?_⟩
  · simp only [step, stepAt, evalStep, mode]
  · rcases Kernel.mem_enlist env before child after 0 k with ⟨id, mem⟩
    rw [Nat.zero_add] at mem
    exact ⟨_, _, id, rfl, mem⟩
  · intro path join fibers waiting gaveWay count id position fiber k k' d first turn
    exact ⟨_, .decided first turn (join.absorb_die position d), k'.world_leaveAll _⟩
  · exact Fiber.turns_joining_die passes env each

/-- A defect crosses all operations around the effect that dies by it. Whenever the evaluation of
    the whole reaches the effect, and the effect dies there, the machine has come to it above frames
    that let defects through, the defect takes one of them off the stack in each step, and the whole
    dies by it in the world that the effect has left. What runs in order runs the effect nowhere
    else: any effect that does the same there may take its place. And children that run side by side
    take the fiber that waits for them with them. -/
theorem defects_cross (settings : Settings) (outside : Outside σ)
    (operations : List (Enclosure σ)) (e : Effect σ) :
    (∀ {d env w env' w₁ w₂}, Enclosure.Reaches settings outside operations e env w env' w₁ →
      Evaluates settings outside (.effect e) (.of env') w₁ (.die d) w₂ →
      ∃ frames, Crosses settings outside (Enclosure.plugAll operations e) e d env env' w w₁ w₂
        frames) ∧
    ((∀ operation ∈ operations, operation.InOrder settings) → ∀ {e' env w x w'},
      (∀ {env' y w₁ w₂}, Enclosure.Reaches settings outside operations e env w env' w₁ →
        Evaluates settings outside (.effect e) (.of env') w₁ y w₂ →
        Evaluates settings outside (.effect e') (.of env') w₁ y w₂) →
      Evaluates settings outside (.effect (Enclosure.plugAll operations e)) (.of env) w x w' →
      Evaluates settings outside (.effect (Enclosure.plugAll operations e')) (.of env) w x w') ∧
    ∀ (_ : settings.mode = .async) {before after outer env w env' w₁},
      Enclosure.Reaches settings outside outer
        (Effect.allPar (before ++ Enclosure.plugAll operations e :: after)) env w env' w₁ →
      ∃ frames, CrossesSide settings frames env' before (Enclosure.plugAll operations e) after ∧
        ∀ base, Leads settings outside base
          ⟨.eval (Enclosure.plugAll (operations ++ .allPar before after :: outer) e), env, base⟩ w
          ⟨.eval (.all (before ++ Enclosure.plugAll operations e :: after) .shortCircuit true),
            env', frames ++ base⟩ w₁ := by
  refine ⟨fun {d env w env' w₁ w₂} reaches died => ?_, fun inOrder {e' env w x w'} alike run => ?_,
    fun mode {before after outer env w env' w₁} reaches => ?_⟩
  · rcases Hole.ReachesIn.leads reaches with ⟨frames, passes, arrives⟩
    rw [Enclosure.fillAll_holesOf] at arrives
    have dies := fun base => died.delivers (frames ++ base)
    refine ⟨frames, passes, arrives, dies, fun base inner outer parts => ?_, fun base => ?_,
      fun fuel enough => runBlocking_die passes env' w₂ enough,
      fun path k => Fiber.turns_die passes env' k⟩
    · subst parts
      rw [List.append_assoc]
      exact steps_die (fun frame h => passes frame (List.mem_append_left _ h)) env' _ w₂
    · rcases delivers_die passes (dies base) (List.suffix_refl _) with ⟨env₂, through⟩
      have whole := (arrives base).delivers through
      -- The services are those that the whole began with.
      have same : env₂ = env := (@delivers_iff_evaluates σ settings outside
        (.effect (Enclosure.plugAll operations e)) (.of env) base w w₂ (.die d) env₂).1 whole |>.1
      rwa [same] at whole
  · rw [← Enclosure.fillAll_holesOf] at run ⊢
    refine Hole.fillAll_congr (fun hole mem => ?_) alike run
    rcases List.mem_flatMap.1 mem with ⟨operation, among, mem⟩
    exact (inOrder operation among).holes hole mem
  · rcases Hole.ReachesIn.leads reaches with ⟨frames, passes, arrives⟩
    rw [Enclosure.fillAll_holesOf] at arrives
    have whole : Enclosure.plugAll (operations ++ .allPar before after :: outer) e =
        Enclosure.plugAll outer
          (Effect.allPar (before ++ Enclosure.plugAll operations e :: after)) := by
      rw [Enclosure.plugAll, List.foldl_append]
      rfl
    -- On top of the frames around it there is the one that takes the ends of the children.
    obtain ⟨next, parts⟩ : ∃ next, ∀ children : List (Effect σ),
        Effect.allPar children = .flatMap (.all children .shortCircuit true) next :=
      ⟨_, fun _ => rfl⟩
    rw [whole]
    rw [parts] at arrives ⊢
    have all : ∀ frame ∈ Frame.flatMap next :: frames, frame.Passes :=
      List.forall_mem_cons.2 ⟨trivial, passes⟩
    refine ⟨_, crossesSide mode all env' before _ after, fun base => ?_⟩
    exact (arrives base).trans (Leads.of_append (Leads.eval rfl .here)
      (List.suffix_refl (frames ++ base)))

namespace Sample

/-- An effect that fails at first and then dies. It counts how often it has been run. -/
def fatal : Effect Nat :=
  .exit (Act.update fun n => (if n = 0 then .fail .null else .die (.raised "lost"), n + 1))

/-- A handler for failures, which would count a hundredfold. -/
def handler (e : Value) : Act Nat (Effect Nat) := do
  Act.modify (· + 100)
  return .succeed e

/-- Running again what fails, the handler, and one more service. -/
def shelters : List (Enclosure Nat) :=
  [.retry (.recurs 3), .catchAll handler, .provideService ⟨0, "clock"⟩ .null]

/-- The effect has been run once and is to be run again. -/
def again : Array Event :=
  #[.retrying 1 .zero]

end Sample

/-- The defect comes out of all operations. The effect has been run twice, since it failed at first,
    and the handler has not been called. -/
theorem sample_defects_cross :
    Delivers ⟨.sync, true⟩ .nobody []
      ⟨.eval (Enclosure.plugAll Sample.shelters Sample.fatal), Context.empty, []⟩ ⟨0, 0, #[]⟩
      (.die (.raised "lost")) Context.empty ⟨2, 0, Sample.again⟩ := by
  have failed : Evaluates ⟨.sync, true⟩ .nobody (.effect Sample.fatal)
      (.of (Context.empty.merge (Context.single ⟨0, "clock"⟩ .null))) ⟨0, 0, #[]⟩
      (.fail .null) ⟨1, 0, #[]⟩ := .exit rfl
  -- Provided a clock, through the fold, and the first attempt of the retry having failed.
  have reaches : Enclosure.Reaches ⟨.sync, true⟩ .nobody Sample.shelters Sample.fatal Context.empty
      ⟨0, 0, #[]⟩ (Context.empty.merge (Context.single ⟨0, "clock"⟩ .null))
      ⟨1, 0, Sample.again⟩ :=
    ⟨_, _, ⟨_, _, ⟨_, _, ⟨rfl, rfl⟩, .provide⟩, .fold⟩,
      .recur (.again .first failed rfl rfl rfl)⟩
  have dies : Evaluates ⟨.sync, true⟩ .nobody (.effect Sample.fatal)
      (.of (Context.empty.merge (Context.single ⟨0, "clock"⟩ .null))) ⟨1, 0, Sample.again⟩
      (.die (.raised "lost")) ⟨2, 0, Sample.again⟩ := .exit rfl
  rcases (defects_cross ⟨.sync, true⟩ .nobody Sample.shelters Sample.fatal).1 reaches dies with
    ⟨frames, crosses⟩
  exact crosses.ends []

end EffectKernel
