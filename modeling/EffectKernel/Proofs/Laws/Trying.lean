import EffectKernel.Proofs.Laws.Collecting

/-!
# Laws of Trying

There are two ways to try effects one after the other until one of them does not fail. They can be
written as a tower of handlers, each of which waits for a failure and then runs one more effect. Or
they can race on the spot, where nothing runs side by side, so that a race tries them in order.

The machine sees little in common between the two. A tower puts up one frame for each effect before
the first one runs, and a race has a single frame that holds all the effects that are still to come.
But three things are true of both (`Tries`): what is no failure goes past them, a failure makes them
run the next effect, and a failure with no effect left goes past them, too. Everything else follows
from these by induction on the effects that are left, above any frames (`Tries.comesTo`), so the two
come to the same.

## Main definitions

* `Tried`: Effects have been tried one after the other.
* `BrokenOffAt`: One of them has been broken off.
* `Tries`: Frames that try effects one after the other.

## Theorems

* `tries_race`, `tries_tower`: Both ways try effects one after the other.
* `Tries.comesTo`: What effects come to that are tried.
* `race_is_firstSuccess`: Both ways come to the same.
-/

namespace EffectKernel

open Machine

variable {σ : Type}

/-- Effects have been tried one after the other, each in the world that the one before has left. The
    first that did not fail has settled the outcome, and none behind it was run; or all have failed,
    and the outcome is the failure of the last one. -/
def Tried (ends : Effect σ → World σ → Outcome → World σ → Prop) (es : List (Effect σ))
    (w : World σ) (x : Outcome) (w' : World σ) : Prop :=
  StopsAt ends (·.isFail) es w x w' ∨
    ∃ (errors : List Value) (last : Value),
      InTurn ends es w ((errors ++ [last]).map .fail) w' ∧ x = .fail last

/-- Effects have been tried one after the other up to one that was broken off, and those before it
    have failed. -/
def BrokenOffAt (settings : Settings) (env : Context) (es : List (Effect σ)) (w w' : World σ) :
    Prop :=
  ∃ before e after, ∃ errors : List Value, ∃ w₁, es = before ++ e :: after ∧
    InTurn (fun e w x w' => (Machine.start e env).Finishes settings w x env w') before w
      (errors.map .fail) w₁ ∧
    (Machine.start e env).BreaksOff settings w₁ w'

/-- Frames that try the given effects after the one that runs above them. -/
structure Tries (settings : Settings) (frames : List (Effect σ) → List (Frame σ)) : Prop where
  /-- What is no failure settles the outcome. -/
  past : ∀ {x : Outcome}, x.isFail = false → ∀ rest env stack w, ∃ n,
    Steps settings n ⟨.unwind x, env, frames rest ++ stack⟩ w ⟨.unwind x, env, stack⟩ w
  /-- After a failure the next effect is run. -/
  next : ∀ v e rest env stack w, ∃ n,
    Steps settings n ⟨.unwind (.fail v), env, frames (e :: rest) ++ stack⟩ w
      ⟨.eval e, env, frames rest ++ stack⟩ w
  /-- The last failure is left where there is no other effect. -/
  last : ∀ v env stack w, ∃ n,
    Steps settings n ⟨.unwind (.fail v), env, frames [] ++ stack⟩ w
      ⟨.unwind (.fail v), env, stack⟩ w

/-! ### Effects that are tried -/

section Tried

variable {ends : Effect σ → World σ → Outcome → World σ → Prop} {e e' : Effect σ}
  {es : List (Effect σ)} {w w' : World σ} {x : Outcome}

/-- The last effect settles the outcome in any case. -/
theorem tried_singleton : Tried ends [e] w x w' ↔ ends e w x w' := by
  constructor
  · rintro (stops | ⟨errors, last, run, rfl⟩)
    · obtain ⟨y, w₁, run, rest⟩ := stopsAt_cons.1 stops
      by_cases failed : y.isFail = true
      · rw [if_pos failed] at rest
        exact (not_stopsAt_nil rest).elim
      · rw [if_neg failed] at rest
        obtain ⟨rfl, rfl⟩ := rest
        exact run
    · -- One effect has only one end.
      have one : errors = [] := by
        have count := run.length
        simp only [List.length_map, List.length_append, List.length_singleton] at count
        exact List.length_eq_zero_iff.1 (by omega)
      subst one
      obtain ⟨w₁, run, rest⟩ := inTurn_cons.1 run
      obtain ⟨-, rfl⟩ := inTurn_nil.1 rest
      exact run
  · intro run
    -- Anything but a failure stops here; a failure is the last one's.
    rcases x.isFail_or_eq_fail with noFailure | ⟨v, rfl⟩
    · exact .inl (.here run noFailure)
    · exact .inr ⟨[], v, .more run .none, rfl⟩

/-- An effect that is not the last one settles the outcome if it does not fail. -/
theorem tried_cons :
    Tried ends (e :: e' :: es) w x w' ↔
      (ends e w x w' ∧ x.isFail = false) ∨
      ∃ v w₁, ends e w (.fail v) w₁ ∧ Tried ends (e' :: es) w₁ x w' := by
  constructor
  · rintro (stops | ⟨errors, last, run, rfl⟩)
    · cases stops with
      | here run noFailure => exact .inl ⟨run, noFailure⟩
      | @later _ _ _ y w₁ _ _ run failed others =>
          rcases y.isFail_or_eq_fail with noFailure | ⟨v, rfl⟩
          · exact absurd failed (noFailure ▸ Bool.false_ne_true)
          · exact .inr ⟨v, w₁, run, .inl others⟩
    · cases errors with
      | nil =>
          -- There would be one end for two effects.
          have count := run.length
          simp only [List.map_nil, List.nil_append, List.map_cons,
            List.length_cons, List.length_nil] at count
          omega
      | cons v errors =>
          obtain ⟨w₁, first, others⟩ := inTurn_cons.1 run
          exact .inr ⟨v, w₁, first, .inr ⟨errors, last, others, rfl⟩⟩
  · rintro (⟨run, noFailure⟩ | ⟨v, w₁, first, stops | ⟨errors, last, others, rfl⟩⟩)
    · exact .inl (.here run noFailure)
    · exact .inl (.later first rfl stops)
    · exact .inr ⟨v :: errors, last, .more first others, rfl⟩

end Tried

section BrokenOff

variable {settings : Settings} {env : Context} {e : Effect σ} {es : List (Effect σ)}
  {w w' : World σ}

theorem not_brokenOffAt_nil : ¬ BrokenOffAt settings env ([] : List (Effect σ)) w w' := by
  rintro ⟨before, e, after, errors, w₁, split, -⟩
  cases before <;> cases split

/-- The first effect is broken off, or it fails and one behind it is broken off. -/
theorem brokenOffAt_cons :
    BrokenOffAt settings env (e :: es) w w' ↔
      (Machine.start e env).BreaksOff settings w w' ∨
      ∃ v w₁, (Machine.start e env).Finishes settings w (.fail v) env w₁ ∧
        BrokenOffAt settings env es w₁ w' := by
  constructor
  · rintro ⟨before, e', after, errors, w₁, split, run, breaks⟩
    -- The one broken off is the first, or the first fails and it is one of the rest.
    cases before with
    | nil =>
        cases split
        obtain ⟨-, rfl⟩ := inTurn_nil.1 run
        exact .inl breaks
    | cons first before =>
        cases split
        cases errors with
        | nil => exact (not_inTurn_cons_nil run).elim
        | cons v errors =>
            obtain ⟨w₂, first, others⟩ := inTurn_cons.1 run
            exact .inr ⟨v, w₂, first, before, e', after, errors, w₁, rfl, others, breaks⟩
  · rintro (breaks | ⟨v, w₁, first, before, e', after, errors, w₂, rfl, others, breaks⟩)
    · exact ⟨[], e, es, [], w, rfl, .none, breaks⟩
    · exact ⟨e :: before, e', after, v :: errors, w₂, rfl, .more first others, breaks⟩

end BrokenOff

/-! ### Frames that try effects -/

/-- The frame of a race tries the effects that it holds. -/
theorem tries_race (settings : Settings) :
    Tries (σ := σ) settings fun rest => [.race rest] where
  past := by
    intro x noFailure rest env stack w
    exact ⟨1, .one (letsThrough_race (by simp [noFailure]) _ _ _ _)⟩
  next _ _ _ _ _ _ := ⟨1, .one rfl⟩
  last _ _ _ _ := ⟨1, .one rfl⟩

/-- The frames of a tower try one effect each. -/
theorem tries_tower (settings : Settings) :
    Tries (σ := σ) settings (·.map Duality.trying) where
  past noFailure _ env stack _ :=
    ⟨_, steps_past (List.forall_mem_map.2 fun _ _ => letsThrough_catchAll noFailure _) env
      stack⟩
  next _ _ _ _ _ _ := ⟨1, .one rfl⟩
  last _ _ _ _ := ⟨0, .none⟩

/-- Effects that are tried above some frames come to an outcome that these are handed, or one of
    them is broken off and everything with it. -/
theorem Tries.comesTo {settings : Settings} {frames : List (Effect σ) → List (Frame σ)}
    (tries : Tries settings frames) (first : Effect σ) (rest : List (Effect σ)) (env : Context)
    (stack : List (Frame σ)) (w : World σ) (x : Outcome) (w' : World σ) :
    EndsOnSpot ⟨.eval first, env, frames rest ++ stack⟩ settings w x w' ↔
      (∃ y w₁, Tried (fun e w x w' => (Machine.start e env).Finishes settings w x env w')
          (first :: rest) w y w₁ ∧ EndsOnSpot ⟨.unwind y, env, stack⟩ settings w₁ x w') ∨
      (x = brokenOff ∧ BrokenOffAt settings env (first :: rest) w w') := by
  -- What is no failure is handed to the frames below, whatever else could be tried.
  have past {y : Outcome} (noFailure : y.isFail = false) (rest : List (Effect σ)) (w : World σ) :
      EndsOnSpot ⟨.unwind y, env, frames rest ++ stack⟩ settings w x w' ↔
        EndsOnSpot ⟨.unwind y, env, stack⟩ settings w x w' :=
    (tries.past noFailure rest env stack w).elim fun _ run => endsOnSpot_steps run
  induction rest generalizing first w with
  | nil =>
      rw [endsOnSpot_cut, brokenOffAt_cons]
      simp only [tried_singleton, not_brokenOffAt_nil, and_false, exists_false, or_false]
      refine or_congr_left (exists₂_congr fun y w₁ => and_congr_right fun _ => ?_)
      cases y with
      | success v => exact past rfl [] w₁
      | fail v => exact (tries.last v env stack w₁).elim fun _ run => endsOnSpot_steps run
      | die d => exact past rfl [] w₁
  | cons e rest ih =>
      -- After a failure the others are tried, and that is what is known by induction.
      have next (v : Value) (w : World σ) :
          EndsOnSpot ⟨.unwind (.fail v), env, frames (e :: rest) ++ stack⟩ settings w x w' ↔ _ :=
        (tries.next v e rest env stack w).elim fun _ run =>
          (endsOnSpot_steps run).trans (ih e w)
      rw [endsOnSpot_cut, brokenOffAt_cons]
      simp only [tried_cons]
      constructor
      · rintro (⟨y, w₁, run, goesOn⟩ | ⟨broken, breaks⟩)
        · rcases y.isFail_or_eq_fail with noFailure | ⟨v, rfl⟩
          · exact .inl ⟨y, w₁, .inl ⟨run, noFailure⟩, (past noFailure _ w₁).1 goesOn⟩
          · rcases (next v w₁).1 goesOn with ⟨y, w₂, tried, goesOn⟩ | ⟨broken, others⟩
            · exact .inl ⟨y, w₂, .inr ⟨v, w₁, run, tried⟩, goesOn⟩
            · exact .inr ⟨broken, .inr ⟨v, w₁, run, others⟩⟩
        · exact .inr ⟨broken, .inl breaks⟩
      · rintro (⟨y, w₂, ⟨run, noFailure⟩ | ⟨v, w₁, run, tried⟩, goesOn⟩ |
          ⟨broken, breaks | ⟨v, w₁, run, others⟩⟩)
        · exact .inl ⟨y, w₂, run, (past noFailure _ w₂).2 goesOn⟩
        · exact .inl ⟨_, w₁, run, (next v w₁).2 (.inl ⟨y, w₂, tried, goesOn⟩)⟩
        · exact .inr ⟨broken, breaks⟩
        · exact .inl ⟨_, w₁, run, (next v w₁).2 (.inr ⟨broken, others⟩)⟩

/-- To try effects in order by handlers and to let them race on the spot is the same program. Both
    can be made of effects if there is one at all. Above any frames they come to the same outcome in
    the same world, or neither comes to any. The effects are run in order, each in the world that
    the one before has left; the first that succeeds or dies settles the outcome, and none behind it
    is run. If all fail, the outcome is the failure of the last one. That outcome is handed to the
    frames in the world in which it has been come to. Only if an effect is broken off whose
    predecessors have failed, the frames are dropped with it. -/
theorem race_is_firstSuccess (h : Bool) (first : Effect σ) (rest : List (Effect σ)) :
    ∃ tower race, Effect.firstSuccessOf? (first :: rest) = .ok tower ∧
      Effect.raceOf? (first :: rest) = .ok race ∧
      ∀ env stack w x w',
        (EndsOnSpot ⟨.eval tower, env, stack⟩ ⟨.sync, h⟩ w x w' ↔
          EndsOnSpot ⟨.eval race, env, stack⟩ ⟨.sync, h⟩ w x w') ∧
        (EndsOnSpot ⟨.eval race, env, stack⟩ ⟨.sync, h⟩ w x w' ↔
          (∃ y w₁, Tried (fun e w x w' => (Machine.start e env).Finishes ⟨.sync, h⟩ w x env w')
              (first :: rest) w y w₁ ∧
            EndsOnSpot ⟨.unwind y, env, stack⟩ ⟨.sync, h⟩ w₁ x w') ∨
          (x = brokenOff ∧ BrokenOffAt ⟨.sync, h⟩ env (first :: rest) w w')) := by
  refine ⟨_, _, rfl, rfl, fun env stack w x w' => ?_⟩
  -- A tower puts up all its frames before the first effect, a race just one.
  have tower := (endsOnSpot_steps (Duality.steps_tower first rest env stack w)).trans
    ((tries_tower ⟨.sync, h⟩).comesTo first rest env stack w x w')
  have begun : Machine.step ⟨.sync, h⟩ ⟨.eval (.race (first :: rest)), env, stack⟩ w =
      (.next ⟨.eval first, env, .race rest :: stack⟩, w) := rfl
  have race := (endsOnSpot_steps (.one begun)).trans
    ((tries_race ⟨.sync, h⟩).comesTo first rest env stack w x w')
  exact ⟨tower.trans race.symm, race⟩

end EffectKernel
