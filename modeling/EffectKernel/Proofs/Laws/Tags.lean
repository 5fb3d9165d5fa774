import EffectKernel.Proofs.Laws.Duality
import EffectKernel.Proofs.Observations

/-!
# Laws of Tags

Handlers that are registered for tags are asked by one frame, which looks for the first one that is
registered for the tag of the failure and asks no other. A chain of handlers for one tag each puts
up a frame for every handler, the first one innermost. A failure goes past the frames for other
tags, and the first frame for its own tag asks its handler. Up to there the two are alike, since
both go on with the same handler (`Dispatched`).

But then the single frame is gone. What its handler comes to is handed to the frames below, even if
it is a failure with a tag that somebody is registered for. In the chain the frames of those that
are registered behind the handler are still there, and they are handed what it comes to. So the two
come to the same if it does not fail with one of their tags (`Effect.SparesLater`), and otherwise
one of them may be asked (`later_handler_is_asked`). That has to be known only of the handler that
is called in this run, and only of what it does there.

Nothing of this depends on how the program is run. It is proved once, for all ways to observe what
comes of a run (`CutObservation.dispatches`).

## Main definitions

* `Dispatched`: How it goes on after the source, and who is registered behind the one that is asked.
* `Effect.SparesLater`: No handler fails with a tag that is registered behind it.
* `Effect.Dispatches`: One frame for all handlers, and a chain of them.

## Theorems

* `fallsIn_tags`, `fallsIn_chain`: The frames go on with the handler that is dispatched to.
* `CutObservation.handed`: The two kinds of frames are handed the same outcome.
* `tags_are_dispatched`: Dispatching, however it is run.
* `later_handler_is_asked`: A chain has handlers that one frame has not.
-/

namespace EffectKernel

open Machine

variable {σ : Type}

/-- How it goes on after a source that has ended so, with handlers registered for tags, and which of
    them are registered behind the one that is asked. -/
inductive Dispatched :
    List (TagHandler σ) → Outcome → Focus σ → List (TagHandler σ) → Prop where
  /-- What is no failure is left. -/
  | past {handlers x} (noFailure : x.isFail = false) : Dispatched handlers x (.unwind x) []
  /-- A failure is left if nobody is registered for its tag. -/
  | unhandled {handlers e} (nobody : ∀ h ∈ handlers, h.tag ≠ e.tag) :
      Dispatched handlers (.fail e) (.unwind (.fail e)) []
  /-- The first handler that is registered for its tag is asked. -/
  | handled {before h later e} (others : ∀ g ∈ before, g.tag ≠ e.tag) (own : h.tag = e.tag) :
      Dispatched (before ++ h :: later) (.fail e) (.eval (.suspend (h.handle e))) later

/-- No effect that a handler has given for how the source has ended fails with a tag that is
    registered behind that handler. -/
def Effect.SparesLater {W : Type} (source : Effect σ) (handlers : List (TagHandler σ))
    (env : Context) (first ends : Machine σ → W → Outcome → W → Prop) (w : W) : Prop :=
  ∀ x v focus later, first (.start source env) w x v → Dispatched handlers x focus later →
    ∀ e v', ends ⟨focus, env, []⟩ v (.fail e) v' → ∀ h ∈ later, h.tag ≠ e.tag

/-- Handlers that are registered for tags, above any frames, and the chain of them. -/
structure Effect.Dispatches {W R : Type} (source : Effect σ) (handlers : List (TagHandler σ))
    (env : Context) (base : List (Frame σ)) (comes : Machine σ → W → R → W → Prop)
    (ends : Machine σ → W → Outcome → W → Prop) (breaks : Machine σ → W → R → W → Prop) :
    Prop where
  /-- The source is run as it would be alone. It goes on with what is dispatched to, and all
      handlers are gone by then. -/
  tags : ∀ w r w', comes ⟨.eval (source.catchTags handlers), env, base⟩ w r w' ↔
    (∃ x v focus later, ends (.start source env) w x v ∧ Dispatched handlers x focus later ∧
      comes ⟨focus, env, base⟩ v r w') ∨
    breaks (.start source env) w r w'
  /-- The chain comes to the same unless a handler fails with a tag registered behind it. -/
  chain : ∀ w, source.SparesLater handlers env ends ends w → ∀ r w',
    comes ⟨.eval (handlers.foldl Effect.catchTag source), env, base⟩ w r w' ↔
      comes ⟨.eval (source.catchTags handlers), env, base⟩ w r w'

/-! ### Handlers that are asked -/

section Dispatched

variable {handlers rest later : List (TagHandler σ)} {h : TagHandler σ} {e : Value} {x : Outcome}
  {focus : Focus σ}

/-- What is no failure is left, whoever is registered. -/
theorem dispatched_past (noFailure : x.isFail = false) :
    Dispatched handlers x focus later ↔ focus = .unwind x ∧ later = [] := by
  constructor
  · intro dispatched
    cases dispatched with
    | past => exact ⟨rfl, rfl⟩
    | unhandled | handled => cases noFailure
  · rintro ⟨rfl, rfl⟩
    exact .past noFailure

/-- A failure is left, or there is a first one among the handlers for its tag. -/
theorem dispatched_fail :
    Dispatched handlers (.fail e) focus later ↔
      ((∀ h ∈ handlers, h.tag ≠ e.tag) ∧ focus = .unwind (.fail e) ∧ later = []) ∨
      ∃ before h, handlers = before ++ h :: later ∧ (∀ g ∈ before, g.tag ≠ e.tag) ∧
        h.tag = e.tag ∧ focus = .eval (.suspend (h.handle e)) := by
  constructor
  · intro dispatched
    cases dispatched with
    | past noFailure => cases noFailure
    | unhandled nobody => exact .inl ⟨nobody, rfl, rfl⟩
    | handled others own => exact .inr ⟨_, _, rfl, others, own, rfl⟩
  · rintro (⟨nobody, rfl, rfl⟩ | ⟨before, h, rfl, others, own, rfl⟩)
    · exact .unhandled nobody
    · exact .handled others own

/-- A failure that nobody is registered for stays a failure. -/
theorem dispatched_nil :
    Dispatched [] (.fail e) focus later ↔ focus = .unwind (.fail e) ∧ later = [] := by
  simp [dispatched_fail]

/-- The handler that is registered first is asked if it is one for the tag. -/
theorem dispatched_cons :
    Dispatched (h :: rest) (.fail e) focus later ↔
      if h.tag = e.tag then focus = .eval (.suspend (h.handle e)) ∧ later = rest
      else Dispatched rest (.fail e) focus later := by
  split
  next own =>
    constructor
    · rw [dispatched_fail]
      rintro (⟨nobody, -⟩ | ⟨_ | ⟨first, before⟩, g, all, others, -, rfl⟩)
      · exact absurd own (nobody h List.mem_cons_self)
      · cases all
        exact ⟨rfl, rfl⟩
      · cases all
        exact absurd own (others h List.mem_cons_self)
    · rintro ⟨rfl, rfl⟩
      exact dispatched_fail.2 (.inr ⟨[], h, rfl, nofun, own, rfl⟩)
  next other =>
    -- A handler for another tag is in front of whichever is chosen from the rest.
    rw [dispatched_fail, dispatched_fail]
    refine or_congr ?_ ⟨?_, ?_⟩
    · rw [List.forall_mem_cons, and_iff_right other]
    · rintro ⟨_ | ⟨first, before⟩, g, all, others, own, rfl⟩
      · cases all
        exact absurd own other
      · cases all
        exact ⟨before, g, rfl, (List.forall_mem_cons.1 others).2, own, rfl⟩
    · rintro ⟨before, g, rfl, others, own, rfl⟩
      exact ⟨h :: before, g, rfl, List.forall_mem_cons.2 ⟨other, others⟩, own, rfl⟩

/-- There is one way to go on, whatever the source has ended with. -/
theorem existsUnique_dispatched (handlers : List (TagHandler σ)) (x : Outcome) :
    ∃! next : Focus σ × List (TagHandler σ), Dispatched handlers x next.1 next.2 := by
  rcases x.isFail_or_eq_fail with noFailure | ⟨e, rfl⟩
  · exact ⟨(.unwind x, []), .past noFailure,
      fun next dispatched => Prod.ext_iff.2 ((dispatched_past noFailure).1 dispatched)⟩
  · -- Only for a failure does it matter who is registered, and it is the first one for its tag.
    induction handlers with
    | nil =>
        exact ⟨(.unwind (.fail e), []), .unhandled nofun,
          fun next dispatched => Prod.ext_iff.2 (dispatched_nil.1 dispatched)⟩
    | cons h rest ih =>
        simp only [dispatched_cons]
        by_cases own : h.tag = e.tag
        · simp only [if_pos own]
          exact ⟨(.eval (.suspend (h.handle e)), rest), ⟨rfl, rfl⟩,
            fun next dispatched => Prod.ext_iff.2 dispatched⟩
        · simpa only [if_neg own] using ih

end Dispatched

/-! ### Frames that ask handlers -/

/-- What one handler makes of a failure. -/
def TagHandler.catches (h : TagHandler σ) (e : Value) : Act σ (Effect σ) := do
  if ← (pure (e.tag == h.tag) : Act σ Bool) then h.handle e else return .fail e

/-- What the first one of some handlers makes of a failure. -/
def TagHandler.firstCatches (handlers : List (TagHandler σ)) (e : Value) : Act σ (Effect σ) :=
  match handlers.find? fun h => h.tag == e.tag with
  | some h => h.handle e
  | none => pure (.fail e)

/-- The frame that goes on from a failure. -/
abbrev Frame.onFailure (next : Value → Act σ (Effect σ)) : Frame σ :=
  .fold none (some next)

/-- The frames of a chain of handlers. -/
abbrev chainFrames (handlers : List (TagHandler σ)) : List (Frame σ) :=
  handlers.map fun h => .onFailure h.catches

section Frames

variable {settings : Settings} {w : World σ} {env : Context} {base : List (Frame σ)}
  {handlers later : List (TagHandler σ)} {h : TagHandler σ} {e : Value} {x : Outcome}
  {focus : Focus σ} {next : Value → Act σ (Effect σ)}

/-- What is no failure goes past a frame that waits for one. -/
theorem fallsIn_past (noFailure : x.isFail = false) (next : Value → Act σ (Effect σ))
    (stack : List (Frame σ)) :
    FallsIn settings w ⟨.unwind x, env, .onFailure next :: stack⟩ ⟨.unwind x, env, stack⟩ :=
  .one (letsThrough_catchAll noFailure next settings env stack w)

/-- A failure is given to the function that waits for it. -/
theorem fallsIn_asked {act : Act σ (Effect σ)} (asks : next e = act) (stack : List (Frame σ)) :
    FallsIn settings w ⟨.unwind (.fail e), env, .onFailure next :: stack⟩
      ⟨.eval (.suspend act), env, stack⟩ := by
  subst asks
  exact .same rfl

/-- A failure goes past a function that makes the same failure of it. -/
theorem fallsIn_left (leaves : next e = pure (.fail e)) (stack : List (Frame σ)) :
    FallsIn settings w ⟨.unwind (.fail e), env, .onFailure next :: stack⟩
      ⟨.unwind (.fail e), env, stack⟩ :=
  (fallsIn_asked leaves stack).trans (.next rfl (.one rfl))

/-- A handler is asked about failures with its tag. -/
theorem TagHandler.catches_own (own : h.tag = e.tag) : h.catches e = h.handle e := by
  rw [catches, beq_iff_eq.2 own.symm]
  rfl

/-- All other failures stay what they are. -/
theorem TagHandler.catches_other (other : h.tag ≠ e.tag) : h.catches e = pure (.fail e) := by
  rw [catches, beq_eq_false_iff_ne.2 other.symm]
  rfl

/-- Of several handlers the first one with the tag is asked. -/
theorem TagHandler.firstCatches_handled {before : List (TagHandler σ)}
    (others : ∀ g ∈ before, g.tag ≠ e.tag) (own : h.tag = e.tag) :
    firstCatches (before ++ h :: later) e = h.handle e := by
  have found : (before ++ h :: later).find? (fun g => g.tag == e.tag) = some h :=
    List.find?_eq_some_iff_append.2
      ⟨beq_iff_eq.2 own, before, later, rfl, fun g mem => by simpa using others g mem⟩
  rw [firstCatches, found]

/-- None is asked about a failure with another tag. -/
theorem TagHandler.firstCatches_unhandled (nobody : ∀ h ∈ handlers, h.tag ≠ e.tag) :
    firstCatches handlers e = pure (.fail e) := by
  have found : handlers.find? (fun h => h.tag == e.tag) = none :=
    List.find?_eq_none.2 fun h mem => by simpa using nobody h mem
  rw [firstCatches, found]

/-- The frames of a chain of handlers go on with the one that is dispatched to, above the frames of
    those that are registered behind it. -/
theorem fallsIn_chain (dispatched : Dispatched handlers x focus later) :
    FallsIn settings w ⟨.unwind x, env, chainFrames handlers ++ base⟩
      ⟨focus, env, chainFrames later ++ base⟩ := by
  have other {e : Value} {before : List (TagHandler σ)} (others : ∀ g ∈ before, g.tag ≠ e.tag)
      (stack : List (Frame σ)) :
      FallsIn settings w ⟨.unwind (.fail e), env, chainFrames before ++ stack⟩
        ⟨.unwind (.fail e), env, stack⟩ :=
    -- Each of them is called with the failure and gives it back.
    .past (List.forall_mem_map.2 fun g mem => fallsIn_left (g.catches_other (others g mem))) stack
  cases dispatched with
  | past noFailure => exact .past (List.forall_mem_map.2 fun h _ => fallsIn_past noFailure _) base
  | unhandled nobody => exact other nobody base
  | @handled before h _ e others own =>
      rw [chainFrames, List.map_append, List.map_cons, List.append_assoc, List.cons_append]
      exact (other others _).trans (fallsIn_asked (h.catches_own own) _)

/-- One frame for all handlers goes on with the one that is dispatched to. -/
theorem fallsIn_tags (dispatched : Dispatched handlers x focus later) :
    FallsIn settings w ⟨.unwind x, env, .onFailure (TagHandler.firstCatches handlers) :: base⟩
      ⟨focus, env, base⟩ := by
  cases dispatched with
  | past noFailure => exact fallsIn_past noFailure _ base
  | unhandled nobody => exact fallsIn_left (TagHandler.firstCatches_unhandled nobody) base
  | handled others own => exact fallsIn_asked (TagHandler.firstCatches_handled others own) base

/-- One frame is put up before the source is run. -/
theorem fallsIn_catchTags (source : Effect σ) (handlers : List (TagHandler σ)) :
    FallsIn settings w ⟨.eval (source.catchTags handlers), env, base⟩
      ⟨.eval source, env, .onFailure (TagHandler.firstCatches handlers) :: base⟩ :=
  .one rfl

/-- A chain of handlers puts up all its frames before the source is run. -/
theorem fallsIn_foldl (source : Effect σ) (handlers : List (TagHandler σ)) :
    FallsIn settings w ⟨.eval (handlers.foldl Effect.catchTag source), env, base⟩
      ⟨.eval source, env, chainFrames handlers ++ base⟩ := by
  induction handlers generalizing source with
  | nil => exact .refl _
  | cons h rest ih => exact (ih (source.catchTag h)).trans (.one rfl)

end Frames

/-! ### What comes of them -/

section DriveEnds

variable {W R : Type} {settings : Settings} {world : W → World σ}
  {comes : Machine σ → W → R → W → Prop} {ends : Machine σ → W → Outcome → W → Prop}
  {breaks : Machine σ → W → R → W → Prop} {env : Context} {base : List (Frame σ)} {w w' : W} {r : R}
  {handlers later : List (TagHandler σ)} {x : Outcome} {focus : Focus σ}

/-- The handlers that are registered behind the one that is asked are not asked if that one does not
    fail with their tags. -/
theorem CutObservation.spared (observation : CutObservation settings world comes ends breaks)
    (dispatched : Dispatched handlers x focus later)
    (spares : ∀ e v, ends ⟨focus, env, []⟩ w (.fail e) v → ∀ h ∈ later, h.tag ≠ e.tag) :
    comes ⟨focus, env, chainFrames later ++ base⟩ w r w' ↔ comes ⟨focus, env, base⟩ w r w' := by
  cases dispatched with
  | past | unhandled => exact Iff.rfl
  | handled others own =>
      rw [observation.cut, observation.cut]
      refine or_congr_left (exists₂_congr fun y v => and_congr_right fun ended => ?_)
      -- What the handler has come to is nothing for those behind it.
      have left : Dispatched later y (.unwind y) [] := by
        rcases y.isFail_or_eq_fail with noFailure | ⟨e, rfl⟩
        · exact .past noFailure
        · exact .unhandled (spares e v ended)
      exact observation.fallsIn (fallsIn_chain left)

/-- Whether the chain or one frame for all handlers is handed an outcome, they go on alike unless a
    handler fails with a tag that is registered behind it. -/
theorem CutObservation.handed (observation : CutObservation settings world comes ends breaks)
    (spares : ∀ focus later, Dispatched handlers x focus later →
      ∀ e v, ends ⟨focus, env, []⟩ w (.fail e) v → ∀ h ∈ later, h.tag ≠ e.tag) :
    comes ⟨.unwind x, env, chainFrames handlers ++ base⟩ w r w' ↔
      comes ⟨.unwind x, env, .onFailure (TagHandler.firstCatches handlers) :: base⟩ w r w' := by
  obtain ⟨⟨focus, later⟩, dispatched, -⟩ := existsUnique_dispatched handlers x
  rw [observation.fallsIn (fallsIn_chain dispatched), observation.fallsIn (fallsIn_tags dispatched)]
  exact observation.spared dispatched (spares focus later dispatched)

/-- One frame for all handlers that is handed an outcome goes on with what is dispatched to. -/
theorem CutObservation.handed_iff (observation : CutObservation settings world comes ends breaks) :
    comes ⟨.unwind x, env, .onFailure (TagHandler.firstCatches handlers) :: base⟩ w r w' ↔
      ∃ focus later, Dispatched handlers x focus later ∧ comes ⟨focus, env, base⟩ w r w' := by
  constructor
  · intro run
    obtain ⟨⟨focus, later⟩, dispatched, -⟩ := existsUnique_dispatched handlers x
    exact ⟨focus, later, dispatched, (observation.fallsIn (fallsIn_tags dispatched)).1 run⟩
  · rintro ⟨focus, later, dispatched, run⟩
    exact (observation.fallsIn (fallsIn_tags dispatched)).2 run

/-- No handler fails with a tag that is registered behind it if none can, wherever it is called. -/
theorem Effect.sparesLater_of_never {source : Effect σ}
    {first : Machine σ → W → Outcome → W → Prop}
    (never : ∀ before h later, handlers = before ++ h :: later → ∀ e v e' v',
      ends (.start (.suspend (h.handle e)) env) v (.fail e') v' → ∀ g ∈ later, g.tag ≠ e'.tag) :
    source.SparesLater handlers env first ends w := by
  intro x v focus later _ dispatched e v' fails
  cases dispatched with
  | past | unhandled => exact nofun
  | handled others own => exact never _ _ _ rfl _ _ _ _ fails

/-- Dispatching, in any way to tell what comes of a run that cuts it above frames. -/
theorem CutObservation.dispatches (observation : CutObservation settings world comes ends breaks)
    (source : Effect σ) (handlers : List (TagHandler σ)) (env : Context) (base : List (Frame σ)) :
    source.Dispatches handlers env base comes ends breaks where
  tags w r w' := by
    rw [observation.fallsIn (fallsIn_catchTags source handlers), observation.cut]
    simp only [observation.handed_iff, ← exists_and_left]
  chain w spares r w' := by
    rw [observation.fallsIn (fallsIn_catchTags source handlers),
      observation.fallsIn (fallsIn_foldl source handlers), observation.cut, observation.cut]
    exact or_congr_left (exists₂_congr fun x v => and_congr_right fun ended =>
      observation.handed fun focus later => spares x v focus later ended)

end DriveEnds

section Fibers

variable {settings : Settings} {observe : Nat → σ → σ} {id : FiberId} {env : Context}
  {base : List (Frame σ)} {k k' : Kernel σ} {y : Outcome} {source : Effect σ}
  {handlers : List (TagHandler σ)}

/-- In a fiber that the caller waits for, it goes on with what is dispatched to. -/
theorem driveEnds_catchTags :
    Fiber.DriveEnds settings observe id
      (.ready ⟨.eval (source.catchTags handlers), env, base⟩) k y k' ↔
      ∃ x k₁ focus later, Fiber.DriveEnds settings observe id (.ready (.start source env)) k x k₁ ∧
        Dispatched handlers x focus later ∧
        Fiber.PollEnds settings observe id (.ready ⟨focus, env, base⟩) k₁ y k' := by
  rw [Fiber.driveEnds_fallsIn fun _ => fallsIn_catchTags source handlers, Fiber.driveEnds_cut]
  simp only [(Fiber.cutObservation_pollEnds settings observe id).handed_iff, ← exists_and_left]

/-- There, too, the chain comes to the same unless a handler fails with a tag registered behind
    it. -/
theorem driveEnds_foldl_catchTag
    (spares : source.SparesLater handlers env
      (fun m => Fiber.DriveEnds settings observe id (.ready m))
      (fun m => Fiber.PollEnds settings observe id (.ready m)) k) :
    Fiber.DriveEnds settings observe id
        (.ready ⟨.eval (handlers.foldl Effect.catchTag source), env, base⟩) k y k' ↔
      Fiber.DriveEnds settings observe id
        (.ready ⟨.eval (source.catchTags handlers), env, base⟩) k y
        k' := by
  rw [Fiber.driveEnds_fallsIn fun _ => fallsIn_foldl source handlers,
    Fiber.driveEnds_fallsIn fun _ => fallsIn_catchTags source handlers, Fiber.driveEnds_cut,
    Fiber.driveEnds_cut]
  -- The source ends the same way in both; what differs is which handlers still listen to the
  -- handler's own failure, and that is what `spares` is about.
  exact exists₂_congr fun x k₁ => and_congr_right fun ended =>
    (Fiber.cutObservation_pollEnds settings observe id).handed fun focus later =>
      spares x k₁ focus later ended

end Fibers

/-- Dispatching, however it is run: on the spot, in a fiber anywhere that is followed from turn to
    turn while its surroundings do what they like, and in a fiber that the caller waits for. There
    is one way to go on from how the source has ended. If it has failed, the first handler that is
    registered for the tag is called once, and no other; what it has come to is handed to the frames
    below as it is. If nobody is registered for the tag, or if the source has not failed, that is
    how it has ended. A chain of the handlers, one after the other, comes to the same in the same
    world unless the one that is called fails with a tag that is registered behind it. -/
theorem tags_are_dispatched (source : Effect σ) (handlers : List (TagHandler σ)) (env : Context)
    (base : List (Frame σ)) (settings : Settings) :
    (∀ x, ∃! next : Focus σ × List (TagHandler σ), Dispatched handlers x next.1 next.2) ∧
    source.Dispatches handlers env base (fun m => m.EndsOnSpot settings)
      (fun m w x v => m.Finishes settings w x m.env v)
      (fun m w y w' => y = brokenOff ∧ m.BreaksOff settings w w') ∧
    (∀ path, source.Dispatches handlers env base (fun m => Fiber.PollTrace settings path (.ready m))
      (fun m w x => Fiber.PollTrace settings path (.ready m) w (some x))
      (fun m w r w' => r = none ∧ Fiber.PollTrace settings path (.ready m) w none w')) ∧
    ∀ observe id k y k',
      (Fiber.DriveEnds settings observe id
        (.ready ⟨.eval (source.catchTags handlers), env, base⟩) k y
          k' ↔
        ∃ x k₁ focus later, Fiber.DriveEnds settings observe id
          (.ready (.start source env)) k x k₁ ∧
          Dispatched handlers x focus later ∧
          Fiber.PollEnds settings observe id (.ready ⟨focus, env, base⟩) k₁ y k') ∧
      (source.SparesLater handlers env (fun m => Fiber.DriveEnds settings observe id (.ready m))
          (fun m => Fiber.PollEnds settings observe id (.ready m)) k →
        (Fiber.DriveEnds settings observe id
            (.ready ⟨.eval (handlers.foldl Effect.catchTag source), env, base⟩) k y k' ↔
          Fiber.DriveEnds settings observe id
            (.ready ⟨.eval (source.catchTags handlers), env, base⟩) k
            y k')) := by
  refine ⟨existsUnique_dispatched handlers, ?_, fun path => ?_, fun observe id k y k' => ?_⟩
  · exact (cutObservation_onSpot settings).dispatches source handlers env base
  · exact (Fiber.cutObservation_pollTrace settings path).dispatches source handlers env base
  · exact ⟨driveEnds_catchTags, driveEnds_foldl_catchTag⟩

namespace Sample

/-- An error with a tag. -/
def tagged (tag : String) : Value :=
  .record1 "tag" (.text tag)

/-- A source that fails. -/
def unparsed : Effect Nat :=
  .fail (tagged "parse")

/-- Another one, with another tag. -/
def offline : Effect Nat :=
  .fail (tagged "network")

/-- Handlers of which the second one fails with the tag of the first, and the third one is
    registered for the tag of the second once more. -/
def recoveries : List (TagHandler Nat) :=
  [⟨"network", fun _ => pure (.succeed .null)⟩,
    ⟨"parse", fun _ => do
      Act.modify (· + 1)
      return offline⟩,
    ⟨"parse", fun e => pure (.fail e)⟩]

/-- Handlers of which the first one fails with the tag of the second. -/
def misleading : List (TagHandler Nat) :=
  [⟨"network", fun _ => pure unparsed⟩, ⟨"parse", fun _ => pure (.succeed .null)⟩]

end Sample

/-- The second handler is called once, and its failure is left although there is a handler for it,
    in the chain, too. -/
theorem sample_tags_are_dispatched :
    Sample.unparsed.SparesLater Sample.recoveries .empty
      (fun m w x v => m.Finishes ⟨.sync, true⟩ w x m.env v)
      (fun m w x v => m.Finishes ⟨.sync, true⟩ w x m.env v) ⟨0, 0, #[]⟩ ∧
    EndsOnSpot ⟨.eval (Sample.recoveries.foldl Effect.catchTag Sample.unparsed), .empty, []⟩
      ⟨.sync, true⟩ ⟨0, 0, #[]⟩ (.fail (Sample.tagged "network")) ⟨1, 0, #[]⟩ := by
  -- The handler that recovers fails with a tag which only an earlier handler is registered for.
  have spares : Sample.unparsed.SparesLater Sample.recoveries .empty
      (fun m w x v => m.Finishes ⟨.sync, true⟩ w x m.env v)
      (fun m w x v => m.Finishes ⟨.sync, true⟩ w x m.env v) ⟨0, 0, #[]⟩ := by
    refine Effect.sparesLater_of_never ?_
    rintro (_ | ⟨_, _ | ⟨_, _ | ⟨_, before⟩⟩⟩) h later split e v e' v' fails
    · cases split
      cases (finishes_unique fails ⟨2, .more rfl (.one rfl)⟩).1
    · cases split
      cases (finishes_unique fails ⟨2, .more rfl (.one rfl)⟩).1
      decide
    · cases split
      exact nofun
    · simp [Sample.recoveries] at split
  have dispatches :=
    (tags_are_dispatched Sample.unparsed Sample.recoveries .empty [] ⟨.sync, true⟩).2.1
  refine ⟨spares, (dispatches.chain _ spares _ _).2 ((dispatches.tags _ _ _).2 (.inl ?_))⟩
  have first : Dispatched Sample.recoveries (.fail (Sample.tagged "parse")) _ _ :=
    dispatched_fail.2 (.inr ⟨Sample.recoveries.take 1, _, rfl, by decide, rfl, rfl⟩)
  exact ⟨_, _, _, _, ⟨1, .one rfl⟩, first, 3, rfl⟩

/-- Where a handler fails with a tag that is registered behind it, its failure is left by one frame
    for all handlers, but the chain asks the other one. -/
theorem later_handler_is_asked :
    EndsOnSpot ⟨.eval (Sample.offline.catchTags Sample.misleading), .empty, []⟩ ⟨.sync, true⟩
      ⟨0, 0, #[]⟩ (.fail (Sample.tagged "parse")) ⟨0, 0, #[]⟩ ∧
    EndsOnSpot ⟨.eval (Sample.misleading.foldl Effect.catchTag Sample.offline), .empty, []⟩
      ⟨.sync, true⟩ ⟨0, 0, #[]⟩ (.success .null) ⟨0, 0, #[]⟩ :=
  ⟨⟨5, rfl⟩, ⟨8, rfl⟩⟩

end EffectKernel
