import EffectKernel.Proofs.Likeness.Exchange

/-!
# Equivalent Effects

Two effects are equivalent if nobody can tell which of them has been run: there is the same
outcome, if there is one, the same state of the program and the same time, among whatever services,
above whatever frames, on the spot or in a fiber that others run beside. Events are looked at or
not.

This is about one effect at a time, and says nothing of what it is a part of. Where it comes from
an exchange it does, though, since parts may be exchanged at any places of a program.

## Main definitions

* `SameEnds`: Two ways to end cannot be told apart, but for the events.
* `Effect.Equivalent`: Two effects cannot be told apart.

## Theorems

* `Exchange.Sound.equivalent`: Programs with parts exchanged are equivalent.
-/

namespace EffectKernel

variable {σ : Type}

/-- What an action does that goes on from what another one gives. -/
theorem World.guarded_bind {α β : Type} (w : World σ) (act : Act σ α) (next : α → Act σ β) :
    w.guarded (act >>= next) =
      match w.guarded act with
      | (.ok a, w) => w.guarded (next a)
      | (.error d, w) => (.error d, w) := by
  unfold World.guarded
  rw [Act.run_bind]
  rcases act.run w.store with ⟨_ | _, _⟩ <;> rfl

/-- Two ways to end have the same outcome, and leave the same state of the program at the same
    time. -/
def SameEnds (ends ends' : Outcome → World σ → Prop) : Prop :=
  ∀ x s time, (∃ w, ends x w ∧ w.store = s ∧ w.clock = time) ↔
    ∃ w, ends' x w ∧ w.store = s ∧ w.clock = time

/-- Two ways to end cannot be told apart, not even by the events if they count. -/
structure Indistinct (exact : Prop) (ends ends' : Outcome → World σ → Prop) : Prop where
  /-- The outcome, the state of the program and the time. -/
  same : SameEnds ends ends'
  /-- The events, too. -/
  events : exact → ∀ x w, ends x w ↔ ends' x w

/-- Two effects cannot be told apart by running them, whether the events count or not. -/
structure Effect.Equivalent (exact : Prop) (e e' : Effect σ) : Prop where
  /-- In any of the ways to run them. -/
  run : ∀ settings env k, Indistinct exact (e.EndsIn settings env k) (e'.EndsIn settings env k)
  /-- On the spot, above any frames. -/
  onSpot : ∀ settings env stack w,
    Indistinct exact (Machine.EndsOnSpot ⟨.eval e, env, stack⟩ settings w)
      (Machine.EndsOnSpot ⟨.eval e', env, stack⟩ settings w)
  /-- In a fiber, above any frames and beside any others. -/
  inFiber : ∀ settings observe id env stack k,
    Indistinct exact (Machine.EndsInFiber ⟨.eval e, env, stack⟩ settings observe id k)
      (Machine.EndsInFiber ⟨.eval e', env, stack⟩ settings observe id k)

/-- What cannot be told apart for a likeness cannot be told apart. -/
theorem Likeness.Same.indistinct {L : Likeness σ} {ends ends' : Outcome → World σ → Prop}
    (same : L.Same ends ends') : Indistinct L.exact ends ends' :=
  ⟨same.iff_store, same.iff⟩

/-- Where nothing can be seen at the places of the exchange, programs with parts exchanged are
    equivalent. -/
theorem Exchange.Sound.equivalent {X : Exchange σ} (sound : X.Sound) {e e' : Effect σ}
    (alike : X.Likes e e') : e.Equivalent X.exact e' where
  run settings env k :=
    (sound.upheld.same_run reflexive
      ((reflexive.points ⟨[], env, []⟩).eval alike) settings k).indistinct
  onSpot settings env stack w :=
    ((sound.on settings).upheldOn.same_onSpot
      ((reflexive.points ⟨[], env, stack⟩).eval alike) w).indistinct
  inFiber settings observe id env stack k :=
    (sound.upheld.same_inFiber reflexive
      ((reflexive.points ⟨[], env, stack⟩).eval alike) settings observe
      id k).indistinct

end EffectKernel
