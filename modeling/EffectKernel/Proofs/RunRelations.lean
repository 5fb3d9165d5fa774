import EffectKernel.Proofs.Ending
import EffectKernel.Proofs.Laws.Sequencing
import EffectKernel.Proofs.OnTheSpot

/-!
# Relations between Machines and Outcomes

What a program comes to can be said for any way to run it, which is a relation between a machine,
the world that it begins in, its outcome, and the world that it leaves. Three things have to be
known of such a relation. A run goes by steps, it is over when nobody is left to take the outcome,
and it is cut where a part of the program has ended. The last one is asked for only where the frames
around the part let defects through, since then it is also true of runs that are broken off.

Machines that get whatever their surroundings may give them are run in such a way
(`runRelation_ends`), and so are machines on the spot (`runRelation_onSpot`).

## Main definitions

* `OutcomeRelation`: What machines come to in some way to run them.
* `RunRelation`: The three things that have to be known of it.

## Theorems

* `delivers_cut`: A run above frames is cut where they are handed an outcome.
* `runRelation_ends`, `runRelation_onSpot`: The two ways to run machines.
-/

namespace EffectKernel

open Machine

variable {σ : Type}

/-- What machines come to in some way to run them. -/
abbrev OutcomeRelation (σ : Type) : Type :=
  Machine σ → World σ → Outcome → World σ → Prop

/-- A way to run machines, by what they come to. -/
structure RunRelation (settings : Settings) (comes : OutcomeRelation σ) : Prop where
  /-- A run is over when nobody is left to take the outcome. -/
  final : ∀ {x env w y w'}, comes ⟨.unwind x, env, []⟩ w y w' ↔ y = x ∧ w' = w
  /-- A run goes by steps. -/
  step : ∀ {m m' w w₁ x w'}, m.step settings w = (.next m', w₁) →
    (comes m w x w' ↔ comes m' w₁ x w')
  /-- A run above frames that let defects through is cut where they are handed an outcome. -/
  through : ∀ {e env frames w x w'}, (∀ frame ∈ frames, ∀ d, frame.LetsThrough (.die d)) →
    (comes ⟨.eval e, env, frames⟩ w x w' ↔ ∃ y w₁, comes (Machine.start e env) w y w₁ ∧
      comes ⟨.unwind y, env, frames⟩ w₁ x w')

section Runs

variable {settings : Settings} {outside : Outside σ} {m : Machine σ} {w w' : World σ}
  {x : Outcome} {env env' : Context} {n : Nat}

/-- A run above frames is cut where they are handed an outcome. -/
theorem delivers_cut (frames : List (Frame σ)) :
    Delivers settings outside [] (m.above frames) w x env' w' ↔
      ∃ y env₁ w₁, Delivers settings outside [] m w y env₁ w₁ ∧
        Delivers settings outside [] ⟨.unwind y, env₁, frames⟩ w₁ x env' w' := by
  have whole : ∀ m : Machine σ, m.Handing [] → ∃ y, m = ⟨.unwind y, m.env, []⟩ := by
    rintro ⟨focus, env, stack⟩ ⟨⟨y, rfl⟩, rfl⟩
    exact ⟨y, rfl⟩
  constructor
  · rintro ⟨n, run⟩
    induction n generalizing m w with
    | zero =>
        rcases m with ⟨focus, env, stack⟩
        obtain ⟨same, rfl⟩ := completes_zero.1 run
        simp only [above, Machine.mk.injEq, List.append_eq_nil_iff] at same
        obtain ⟨rfl, rfl, rfl, rfl⟩ := same
        exact ⟨x, env, w, delivers_done, delivers_done⟩
    | succ n ih =>
        -- The cut is where the machine above the frames has its outcome.
        by_cases handing : Handing [] m
        · obtain ⟨y, same⟩ := whole m handing
          rw [same] at run ⊢
          exact ⟨y, m.env, w, delivers_done, n + 1, run⟩
        · obtain ⟨-, m₁, w₁, advance, rest⟩ := completes_succ.1 run
          obtain ⟨m₂, rfl, moves⟩ := (advances_above frames handing).1 advance
          obtain ⟨y, env₁, w₂, ⟨k, first⟩, last⟩ := ih rest
          exact ⟨y, env₁, w₂, ⟨k + 1, .step handing moves first⟩, last⟩
  · rintro ⟨y, env₁, w₁, ⟨k, first⟩, last⟩
    induction first with
    | done => exact last
    | @step _ m _ _ _ _ _ _ busy advance _ ih =>
        have busy' : ¬ Handing [] (m.above frames) := by
          rintro ⟨unwinds, stack⟩
          exact busy ⟨unwinds, (List.append_eq_nil_iff.1 stack).1⟩
        obtain ⟨k, rest⟩ := ih last
        exact ⟨k + 1, .step busy' ((advances_above frames busy).2 ⟨_, rfl, advance⟩) rest⟩

/-- One way is to let anything come of a request that the surroundings allow. -/
theorem runRelation_ends (settings : Settings) (outside : Outside σ) :
    RunRelation settings fun m w x w' => ∃ env', Delivers settings outside [] m w x env' w' where
  final := by
    intro x env w y w'
    constructor
    · rintro ⟨env', n, run⟩
      obtain ⟨rfl, -, rfl⟩ := completes_handing run
      exact ⟨rfl, rfl⟩
    · rintro ⟨rfl, rfl⟩
      exact ⟨env, delivers_done⟩
  step := by
    intro m m' w w₁ x w' step
    have busy : ¬ m.Handing [] := by
      rcases m with ⟨focus, env, stack⟩
      rintro ⟨⟨y, rfl⟩, rfl⟩
      cases step
    constructor
    · rintro ⟨env', n, run⟩
      obtain ⟨k, -, rest⟩ := completes_next run busy step
      exact ⟨env', k, rest⟩
    · rintro ⟨env', rest⟩
      exact ⟨env', delivers_next busy step rest⟩
  -- The run of the part and what comes after it are cut apart at the frames; the part leaves the
  -- environment as it was.
  through := by
    intro e env frames w x w' _
    have cut := fun env' =>
      @delivers_cut σ settings outside (Machine.start e env) w w' x env' frames
    constructor
    · rintro ⟨env', run⟩
      obtain ⟨y, env₁, w₁, ⟨n, first⟩, last⟩ := (cut env').1 run
      obtain rfl := env_of_completes first
      exact ⟨y, w₁, ⟨_, n, first⟩, env', last⟩
    · rintro ⟨y, w₁, ⟨env₁, n, first⟩, env', last⟩
      obtain rfl := env_of_completes first
      exact ⟨env', (cut env').2 ⟨y, _, w₁, ⟨n, first⟩, last⟩⟩

/-- Another way is to run machines on the spot. A run that is broken off dies, so the frames above
    which it is broken off might as well be handed its outcome. -/
theorem runRelation_onSpot (settings : Settings) :
    RunRelation (σ := σ) settings fun m w x w' => m.EndsOnSpot settings w x w' where
  final := endsOnSpot_done
  step step := endsOnSpot_steps (.one step)
  through := by
    intro e env frames w x w' passes
    rw [show (⟨.eval e, env, frames⟩ : Machine σ) = (Machine.start e env).above frames from rfl,
      endsOnSpot_above]
    -- Broken off inside, the whole ends with the same defect: it passes all the frames.
    have die : ∀ v, EndsOnSpot ⟨.unwind brokenOff, env, frames⟩ settings v x w' ↔
        x = brokenOff ∧ w' = v := by
      intro v
      have past : Steps settings frames.length ⟨.unwind brokenOff, env, frames ++ []⟩ v
          ⟨.unwind brokenOff, env, []⟩ v := steps_past (fun frame mem => passes frame mem _) env []
      rw [List.append_nil] at past
      rw [endsOnSpot_steps past, endsOnSpot_done]
    constructor
    · rintro (⟨y, env₁, w₁, finishes, last⟩ | ⟨rfl, breaks⟩)
      · obtain rfl : env₁ = env := finishes.elim fun _ run => env_of_steps run
        exact ⟨y, w₁, endsOnSpot_iff.2 (.inl ⟨_, finishes⟩), last⟩
      · exact ⟨brokenOff, w', endsOnSpot_iff.2 (.inr ⟨rfl, breaks⟩), (die w').2 ⟨rfl, rfl⟩⟩
    · rintro ⟨y, w₁, first, last⟩
      rcases endsOnSpot_iff.1 first with ⟨env₁, finishes⟩ | ⟨rfl, breaks⟩
      · obtain rfl : env₁ = env := finishes.elim fun _ run => env_of_steps run
        exact .inl ⟨y, _, w₁, finishes, last⟩
      · obtain ⟨rfl, rfl⟩ := (die w₁).1 last
        exact .inr ⟨rfl, breaks⟩

end Runs

end EffectKernel
