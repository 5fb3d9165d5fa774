import EffectKernel.Proofs.FiberFrames

/-!
# Observations of a Machine

What comes of a machine can be observed in several ways: how it ends on the spot, what its turn is
in a fiber, or what a fiber ends with that the caller waits for. And a fiber anywhere can be
followed from poll to poll while its surroundings do what they like (`Fiber.PollTrace`). Then it is
observed how each turn has left everything and what the fiber waits for after it, whether it ends
at last or not. Nobody can see more of a fiber than that.

All of these observations go by the steps of the machine. So two machines that take the same step
come to the same, and steps that change nothing in the world can be left out
(`Observation.fallsIn`). Most of them also cut a run above frames where these are handed an outcome
(`CutObservation`). Whoever knows which steps some frames take when they are handed an outcome
needs nothing else to say what comes of them, in all of these ways at once.

## Main definitions

* `Machine.FallsIn`: A machine takes the same step as another one.
* `Observation`: What comes of machines, by their steps.
* `CutObservation`: What comes of them, cut where frames are handed an outcome.
* `Fiber.PollTrace`: A fiber that is followed from poll to poll.

## Theorems

* `pollEnds_above`, `pollTrace_above`: What comes of a fiber above frames.
* `cutObservation_onSpot`, `observation_turns`, `cutObservation_pollEnds`,
  `cutObservation_pollTrace`: The ways to observe.
* `driveEnds_fallsIn`, `driveEnds_cut`: What a fiber ends with that the caller waits for.
-/

namespace EffectKernel

open Machine

variable {σ : Type}

/-! ### Machines that fall in with each other -/

/-- A machine takes the same step as another one, after steps that change nothing in the world. -/
inductive Machine.FallsIn (settings : Settings) (w : World σ) : Machine σ → Machine σ → Prop where
  | same {m m₁} (same : m.step settings w = m₁.step settings w) : FallsIn settings w m m₁
  | next {m m₁ m₂} (step : m.step settings w = (.next m₁, w)) (rest : FallsIn settings w m₁ m₂) :
      FallsIn settings w m m₂

namespace Machine.FallsIn

variable {settings : Settings} {w : World σ} {m m₁ m₂ : Machine σ} {x : Outcome} {env : Context}

theorem refl (m : Machine σ) : FallsIn settings w m m :=
  .same rfl

theorem one (step : m.step settings w = (.next m₁, w)) : FallsIn settings w m m₁ :=
  .next step (.refl m₁)

theorem trans (first : FallsIn settings w m m₁) (second : FallsIn settings w m₁ m₂) :
    FallsIn settings w m m₂ := by
  induction first with
  | same same =>
      -- The step that both of them take is also the next one of the second.
      cases second with
      | same same' => exact .same (same.trans same')
      | next step rest => exact .next (same.trans step) rest
  | next step _ ih => exact .next step (ih second)

/-- An outcome passes frames if it passes each of them. -/
theorem past {frames : List (Frame σ)}
    (each : ∀ frame ∈ frames, ∀ stack,
      FallsIn settings w ⟨.unwind x, env, frame :: stack⟩ ⟨.unwind x, env, stack⟩)
    (stack : List (Frame σ)) :
    FallsIn settings w ⟨.unwind x, env, frames ++ stack⟩ ⟨.unwind x, env, stack⟩ := by
  induction frames with
  | nil => exact .refl _
  | cons frame rest ih =>
      rcases List.forall_mem_cons.1 each with ⟨first, others⟩
      exact (first (rest ++ stack)).trans (ih others)

end Machine.FallsIn

/-! ### Observing by steps -/

section Observations

variable {W R : Type}

/-- What comes of machines, observed by their steps. -/
structure Observation (settings : Settings) (world : W → World σ)
    (comes : Machine σ → W → R → W → Prop) : Prop where
  /-- Machines that take the same step come to the same. -/
  same : ∀ {m m₁ w r w'}, m.step settings (world w) = m₁.step settings (world w) →
    comes m₁ w r w' → comes m w r w'
  /-- A step that changes nothing in the world can be left out. -/
  next : ∀ {m m₁ w r w'}, m.step settings (world w) = (.next m₁, world w) →
    (comes m w r w' ↔ comes m₁ w r w')

/-- What comes of machines, where a run above frames is cut when they are handed an outcome. There
    may be none, if it breaks off before that. -/
structure CutObservation (settings : Settings) (world : W → World σ)
    (comes : Machine σ → W → R → W → Prop) (ends : Machine σ → W → Outcome → W → Prop)
    (breaks : Machine σ → W → R → W → Prop) : Prop extends Observation settings world comes where
  /-- An effect is run above frames until these are handed its outcome. -/
  cut : ∀ {e env frames w r w'}, comes ⟨.eval e, env, frames⟩ w r w' ↔
    (∃ x v, ends (.start e env) w x v ∧ comes ⟨.unwind x, env, frames⟩ v r w') ∨
    breaks (.start e env) w r w'

/-- Machines that fall in with each other come to the same. -/
theorem Observation.fallsIn {settings : Settings} {world : W → World σ}
    {comes : Machine σ → W → R → W → Prop} (observation : Observation settings world comes)
    {m m₁ : Machine σ} {w w' : W} {r : R} (fallsIn : FallsIn settings (world w) m m₁) :
    comes m w r w' ↔ comes m₁ w r w' := by
  induction fallsIn with
  | same same => exact ⟨observation.same same.symm, observation.same same⟩
  | next step _ ih => exact (observation.next step).trans ih

end Observations

/-! ### On the spot -/

/-- What comes of machines on the spot. -/
theorem cutObservation_onSpot (settings : Settings) :
    CutObservation (σ := σ) settings id (fun m => m.EndsOnSpot settings)
      (fun m w x v => m.Finishes settings w x m.env v)
      (fun m w y w' => y = brokenOff ∧ m.BreaksOff settings w w') where
  same := by
    rintro m m₁ w y w' same ⟨_ | fuel, ends⟩
    · cases ends
    · refine ⟨fuel + 1, ?_⟩
      rw [runBlocking] at ends ⊢
      rwa [show m.step settings w = m₁.step settings w from same]
  next step := endsOnSpot_steps (.one step)
  cut := endsOnSpot_cut

namespace Fiber

/-! ### Fibers -/

section Turns

variable {settings : Settings} {path : Path} {k : Kernel σ} {m m₁ : Machine σ} {turn : Turn σ}
  {k' : Kernel σ}

/-- Machines that take the same step have the same turn. -/
theorem turns_of_step (same : m.step settings k.world = m₁.step settings k.world)
    (turns : Turns settings path (.ready m₁) k turn k') :
    Turns settings path (.ready m) k turn k' := by
  obtain ⟨least, turns⟩ := turns
  refine exists_enough_of_succ least fun fuel enough => ?_
  rw [← turns (fuel + 1) (by omega), Fiber.turn, Fiber.turn, same]

/-- The turn of a machine in a fiber. -/
theorem observation_turns (settings : Settings) (path : Path) :
    Observation (σ := σ) settings Kernel.world fun m => Turns settings path (.ready m) where
  same := turns_of_step
  next step := (continues_next step).turns_iff

end Turns

section PollEnds

variable {settings : Settings} {observe : Nat → σ → σ} {id : FiberId} {f f₁ : Fiber σ}
  {k k₁ k' : Kernel σ} {x y : Outcome} {base : List (Frame σ)} {m m₁ : Machine σ}

/-- A fiber that has every turn that another one has comes to the same from the midst of it. -/
theorem PollEnds.imp (polls : PollEnds settings observe id f k x k')
    (turns : ∀ {turn k'}, Turns settings [id] f k turn k' → Turns settings [id] f₁ k₁ turn k') :
    PollEnds settings observe id f₁ k₁ x k' := by
  rcases polls with ended | ⟨waits, round, later⟩
  · exact .ended (turns ended)
  · exact .waits (turns waits) round later

/-- What a fiber above frames comes to from the midst of its turn is what the frames come to from
    where the fiber has ended without them. -/
theorem pollEnds_above :
    PollEnds settings observe id (f.above base) k y k' ↔
      ∃ x k₁, PollEnds settings observe id f k x k₁ ∧
        PollEnds settings observe id (.ready ⟨.unwind x, f.home, base⟩) k₁ y k' := by
  constructor
  · rintro (ended | ⟨waits, round, later⟩)
    · rcases (turns_above (by simp)).1 ended with ⟨x, k₁, alone, rest⟩ | ⟨_, ⟨⟩, -⟩
      exact ⟨x, k₁, .ended alone, .ended rest⟩
    -- The poll ends the inner program and goes on below it, or leaves it waiting above the frames.
    · rcases (turns_above (by simp)).1 waits with ⟨x, k₁, alone, rest⟩ | ⟨f₁, ⟨⟩, home, alone⟩
      · exact ⟨x, k₁, .ended alone, .waits rest round later⟩
      · obtain ⟨x, k₁, first, rest⟩ := driveEnds_above.1 later
        exact ⟨x, k₁, .waits alone (round_above.1 round) first, home ▸ rest⟩
  · rintro ⟨x, k₁, alone | ⟨alone, round, later⟩, rest⟩
    · rcases rest with ended | ⟨waits, round, later⟩
      · exact .ended ((turns_above (by simp)).2 (.inl ⟨x, k₁, alone, ended⟩))
      · exact .waits ((turns_above (by simp)).2 (.inl ⟨x, k₁, alone, waits⟩)) round later
    · exact .waits ((turns_above (by simp)).2 (.inr ⟨_, rfl, alone.home, alone⟩))
        (round_above.2 round) (driveEnds_above.2 ⟨x, k₁, later, alone.home ▸ rest⟩)

/-- What a fiber of the caller's comes to from the midst of its turn. -/
theorem cutObservation_pollEnds (settings : Settings) (observe : Nat → σ → σ) (id : FiberId) :
    CutObservation settings Kernel.world (fun m => PollEnds settings observe id (.ready m))
      (fun m => PollEnds settings observe id (.ready m)) (fun _ _ (_ : Outcome) _ => False) where
  same same polls := polls.imp (turns_of_step same)
  next step := (continues_next step).pollEnds_iff
  cut := by
    intro e env frames w r w'
    rw [or_false]
    exact pollEnds_above (f := .ready (.start e env))

/-- Machines that fall in with each other come to the same in a fiber that the caller waits for. -/
theorem driveEnds_fallsIn (fallsIn : ∀ w, FallsIn settings w m m₁) :
    DriveEnds settings observe id (.ready m) k x k' ↔
      DriveEnds settings observe id (.ready m₁) k x k' :=
  have polls (k : Kernel σ) : PollEnds settings observe id (.ready m) k x k' ↔
      PollEnds settings observe id (.ready m₁) k x k' :=
    (cutObservation_pollEnds settings observe id).fallsIn (fallsIn k.world)
  ⟨driveEnds_congr rfl (fun _ => rfl) fun k => (polls k).1,
    driveEnds_congr rfl (fun _ => rfl) fun k => (polls k).2⟩

/-- There, too, an effect is run above frames until these are handed its outcome. -/
theorem driveEnds_cut {e : Effect σ} {env : Context} :
    DriveEnds settings observe id (.ready ⟨.eval e, env, base⟩) k y k' ↔
      ∃ x k₁, DriveEnds settings observe id (.ready (.start e env)) k x k₁ ∧
        PollEnds settings observe id (.ready ⟨.unwind x, env, base⟩) k₁ y k' :=
  driveEnds_above (f := .ready (.start e env))

end PollEnds

/-! ### Fibers that are followed from poll to poll -/

end Fiber

/-- What lies between two turns of a fiber. -/
structure Interval (σ : Type) where
  /-- How the one has left everything. -/
  left : Kernel σ
  /-- The first point in time that the fiber waits for. -/
  wake : Option Nat
  /-- Who has to be woken in it, by the time. -/
  due : Nat → List Path
  /-- The handles that are left when the fiber is dropped. -/
  handles : List Handle
  /-- How the other one finds everything. -/
  found : Kernel σ

/-- A fiber waits in an interval. -/
structure Interval.Shows (i : Interval σ) (path : Path) (f : Fiber σ) : Prop where
  /-- It waits for that point in time. -/
  wake : i.wake = f.nextWake
  /-- They have to be woken in it. -/
  due : ∀ time, i.due time = f.dueAt time path
  /-- It waits for these handles. -/
  handles : i.handles = f.handles

namespace Fiber

/-- A fiber that is followed from the midst of a turn on, while its surroundings do what they like
    between its turns: through some of the given intervals, so that others are left, and up to its
    outcome if it has come to one. -/
inductive PollTrace (settings : Settings) (path : Path) : Fiber σ → Kernel σ × List (Interval σ) →
    Option Outcome → Kernel σ × List (Interval σ) → Prop where
  /-- It ends in this turn. -/
  | ended {f k x k' rest} (turns : Turns settings path f k (.ended x) k') :
      PollTrace settings path f (k, rest) (some x) (k', rest)
  /-- It waits, and is not followed any further. -/
  | waits {f f₁ k i rest} (turns : Turns settings path f k (.waiting f₁) i.left)
      (shows : i.Shows path f₁) : PollTrace settings path f (k, i :: rest) none (i.found, rest)
  /-- It waits, and is followed from its next turn on. -/
  | later {f f₁ k i rest r w'} (turns : Turns settings path f k (.waiting f₁) i.left)
      (shows : i.Shows path f₁) (others : PollTrace settings path f₁ (i.found, rest) r w') :
      PollTrace settings path f (k, i :: rest) r w'

section PollTrace

variable {settings : Settings} {path : Path} {f f₁ : Fiber σ} {k k₁ : Kernel σ}
  {is : List (Interval σ)} {w w' : Kernel σ × List (Interval σ)} {r : Option Outcome} {x : Outcome}
  {base : List (Frame σ)} {i : Interval σ}

@[simp] theorem handles_above (base : List (Frame σ)) (f : Fiber σ) :
    (f.above base).handles = f.handles := by
  cases f <;> simp only [above, Fiber.handles]

/-- What a fiber shows while it waits does not depend on the frames beneath. -/
theorem shows_above : i.Shows path (f.above base) ↔ i.Shows path f := by
  constructor
  · rintro ⟨wake, due, handles⟩
    simp only [nextWake_above, dueAt_above, handles_above] at wake due handles
    exact ⟨wake, due, handles⟩
  · rintro ⟨wake, due, handles⟩
    exact ⟨by rwa [nextWake_above], fun time => by rw [due, dueAt_above], by rwa [handles_above]⟩

/-- A fiber that has every turn that another one has can be followed like it. -/
theorem PollTrace.imp (trace : PollTrace settings path f (k, is) r w')
    (turns : ∀ {turn k'}, turn ≠ .exhausted → Turns settings path f k turn k' →
      Turns settings path f₁ k₁ turn k') : PollTrace settings path f₁ (k₁, is) r w' := by
  cases trace with
  | ended ended => exact .ended (turns (by simp) ended)
  | waits waits shows => exact .waits (turns (by simp) waits) shows
  | later waits shows others => exact .later (turns (by simp) waits) shows others

/-- A fiber above frames that is followed, without them. -/
theorem PollTrace.cut (trace : PollTrace settings path (f.above base) w r w') :
    (∃ x v, PollTrace settings path f w (some x) v ∧
      PollTrace settings path (.ready ⟨.unwind x, f.home, base⟩) v r w') ∨
    (r = none ∧ PollTrace settings path f w none w') := by
  generalize whole : f.above base = g at trace
  -- In each turn the fiber alone ends or waits. It is the first turn in which it ends that counts.
  induction trace generalizing f with
  | ended turns =>
      subst whole
      rcases (turns_above (by simp)).1 turns with ⟨x, k₁, alone, rest⟩ | ⟨_, ⟨⟩, -⟩
      exact .inl ⟨x, _, .ended alone, .ended rest⟩
  | waits turns shows =>
      subst whole
      rcases (turns_above (by simp)).1 turns with ⟨x, k₁, alone, rest⟩ | ⟨f₁, ⟨⟩, home, alone⟩
      · exact .inl ⟨x, _, .ended alone, .waits rest shows⟩
      · exact .inr ⟨rfl, .waits alone (shows_above.1 shows)⟩
  | later turns shows others ih =>
      subst whole
      rcases (turns_above (by simp)).1 turns with ⟨x, k₁, alone, rest⟩ | ⟨f₁, ⟨⟩, home, alone⟩
      · exact .inl ⟨x, _, .ended alone, .later rest shows others⟩
      · have shows := shows_above.1 shows
        rcases ih rfl with ⟨x, v, first, rest⟩ | ⟨rfl, first⟩
        · exact .inl ⟨x, v, .later alone shows first, home ▸ rest⟩
        · exact .inr ⟨rfl, .later alone shows first⟩

/-- A fiber that is followed up to its outcome, and then the frames beneath it. -/
theorem PollTrace.join {v : Kernel σ × List (Interval σ)}
    (trace : PollTrace settings path f w (some x) v)
    (rest : PollTrace settings path (.ready ⟨.unwind x, f.home, base⟩) v r w') :
    PollTrace settings path (f.above base) w r w' := by
  generalize whole : some x = y at trace
  induction trace with
  | ended turns =>
      cases whole
      -- The frames begin in the turn in which the fiber ends.
      exact rest.imp fun complete last => (turns_above complete).2 (.inl ⟨_, _, turns, last⟩)
  | waits => cases whole
  | later turns shows others ih =>
      exact .later ((turns_above (by simp)).2 (.inr ⟨_, rfl, turns.home, turns⟩))
        (shows_above.2 shows) (ih (turns.home ▸ rest) whole)

/-- A fiber that waits when it is not followed any further waits above frames, too. -/
theorem PollTrace.lift (trace : PollTrace settings path f w none w') :
    PollTrace settings path (f.above base) w none w' := by
  generalize whole : none = y at trace
  induction trace with
  | ended => cases whole
  | waits turns shows =>
      exact .waits ((turns_above (by simp)).2 (.inr ⟨_, rfl, turns.home, turns⟩))
        (shows_above.2 shows)
  | later turns shows others ih =>
      exact .later ((turns_above (by simp)).2 (.inr ⟨_, rfl, turns.home, turns⟩))
        (shows_above.2 shows) (ih whole)

/-- A fiber above frames is followed as without them until they are handed its outcome. -/
theorem pollTrace_above :
    PollTrace settings path (f.above base) w r w' ↔
      (∃ x v, PollTrace settings path f w (some x) v ∧
        PollTrace settings path (.ready ⟨.unwind x, f.home, base⟩) v r w') ∨
      (r = none ∧ PollTrace settings path f w none w') := by
  refine ⟨PollTrace.cut, ?_⟩
  rintro (⟨x, v, trace, rest⟩ | ⟨rfl, trace⟩)
  · exact trace.join rest
  · exact trace.lift

/-- A fiber anywhere that is followed from turn to turn. -/
theorem cutObservation_pollTrace (settings : Settings) (path : Path) :
    CutObservation (σ := σ) settings (fun w => w.1.world)
      (fun m => PollTrace settings path (.ready m))
      (fun m w x => PollTrace settings path (.ready m) w (some x))
      (fun m w r w' => r = none ∧ PollTrace settings path (.ready m) w none w') where
  same same trace := trace.imp fun _ => turns_of_step same
  next step :=
    ⟨fun trace => trace.imp fun _ => (continues_next step).turns_iff.1,
      fun trace => trace.imp fun _ => (continues_next step).turns_iff.2⟩
  cut := pollTrace_above (f := .ready (.start _ _))

end PollTrace

end Fiber

end EffectKernel
