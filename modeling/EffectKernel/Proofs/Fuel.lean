import EffectKernel.Proofs.Attending
import EffectKernel.Proofs.Joining

/-!
# Fuel of Turns, Tasks and Rounds

A turn that has come to its end has been given enough steps, and more of them do not change how it
ends. The steps of a turn are shared by the fibers in it, so this goes by induction on their number
for fibers and for those side by side at once (`turn_more_aux`). From there it follows for tasks,
for batches of them, and for a caller that has got what it waits for, which does not need more
rounds either (`drive_more`).

## Theorems

* `turn_more`, `turnEach_more`: More steps do not change a turn.
* `turns_of_turn`: A turn that has come to its end has been given enough steps.
* `drive_more`: More steps and rounds do not change what the caller gets.
-/

namespace EffectKernel

variable {σ : Type}

namespace Fiber

/-- One step more does not change turns of so many steps that have come to their ends. -/
def TurnsStable (σ : Type) (settings : Settings) (fuel : Nat) : Prop :=
  ∀ {path} {f : Fiber σ} {k r k'}, turn settings fuel path f k = (r, k') → r ≠ .exhausted →
    turn settings (fuel + 1) path f k = (r, k')

/-- Nor does it change those of fibers side by side. -/
def EachStable (σ : Type) (settings : Settings) (fuel : Nat) : Prop :=
  ∀ {path join} {children : List (FiberId × Nat × Fiber σ)} {waiting gaveWay count k r k'},
    turnEach settings fuel path join children waiting gaveWay count k = (r, k') →
    r ≠ .exhausted →
    turnEach settings (fuel + 1) path join children waiting gaveWay count k = (r, k')

section Succ

variable {settings : Settings} {fuel : Nat}

/-- One more step of a turn. What is left of the turn after it is a turn with less fuel. -/
theorem TurnsStable.succ (one : TurnsStable σ settings fuel) (each : EachStable σ settings fuel) :
    TurnsStable σ settings (fuel + 1) := by
  intro path f k r k' h complete
  -- A turn that stopped for lack of fuel is excluded by `complete`, so what a fiber inside did it
  -- does with more fuel as well.
  cases f with
  | ready m =>
      rw [turn] at h ⊢
      rcases taken : m.step settings k.world with ⟨_ | _ | ⟨request, env, stack⟩, w⟩
      · simp only [taken] at h ⊢
        exact one h complete
      · simp only [taken] at h ⊢
        exact h
      · cases request <;> simp only [taken] at h ⊢ <;> first | exact h | exact one h complete
  | asleep wake m =>
      rw [turn] at h ⊢
      split at h
      next come => rw [if_pos come]; exact one h complete
      next early => rw [if_neg early]; exact h
  | yielded m =>
      rw [turn] at h ⊢
      exact one h complete
  | listening handle point =>
      rw [turn] at h ⊢
      rcases taken : k.collect? handle with _ | ⟨focus, k₁⟩
      · simp only [taken] at h ⊢
        exact h
      · simp only [taken] at h ⊢
        exact one h complete
  | limited limit deadline inner point =>
      rw [turn] at h ⊢
      rcases first : turn settings fuel path inner k with ⟨_ | _ | _, k₁⟩
      · rw [one first (by simp)]
        simp only [first] at h ⊢
        exact one h complete
      · rw [one first (by simp)]
        simp only [first] at h ⊢
        split at h
        next come => rw [if_pos come]; exact one h complete
        next early => rw [if_neg early]; exact h
      · simp only [first] at h
        cases h
        exact absurd rfl complete
  | joining join children point =>
      rw [turn] at h ⊢
      rcases first : turnEach settings fuel path join children 0 0 children.length k with
        ⟨_ | _ | _, k₁⟩
      · rw [each first (by simp)]
        simp only [first] at h ⊢
        exact one h complete
      · rw [each first (by simp)]
        simp only [first] at h ⊢
        exact h
      · simp only [first] at h
        cases h
        exact absurd rfl complete

/-- One more step of the turns of fibers side by side. -/
theorem EachStable.succ (one : TurnsStable σ settings fuel) (each : EachStable σ settings fuel) :
    EachStable σ settings (fuel + 1) := by
  intro path join children waiting gaveWay count k r k' h complete
  rw [turnEach] at h ⊢
  rcases next : k.firstWoken? children with _ | ⟨id, position, f⟩
  · simp only [next] at h ⊢
    exact h
  · simp only [next] at h ⊢
    -- A child that lacks fuel stops the whole, so every child's turn here was complete.
    rcases first : turn settings fuel (id :: path) f (k.unwake id) with ⟨_ | _ | _, k₁⟩
    · rw [one first (by simp)]
      simp only [first] at h ⊢
      split at h
      · exact h
      · exact each h complete
    · rw [one first (by simp)]
      simp only [first] at h ⊢
      generalize (if k₁.isWoken id = true then gaveWay + 1 else gaveWay) = gave at h ⊢
      split at h
      next stop => rw [if_pos stop]; exact h
      next more => rw [if_neg more]; exact each h complete
    · simp only [first] at h
      cases h
      exact absurd rfl complete

end Succ

/-- One step more changes neither. -/
theorem turn_more_aux (settings : Settings) (fuel : Nat) :
    TurnsStable σ settings fuel ∧ EachStable σ settings fuel := by
  induction fuel with
  | zero =>
      refine ⟨fun h complete => ?_, fun h complete => ?_⟩
      · cases h
        exact absurd rfl complete
      · cases h
        exact absurd rfl complete
  | succ fuel ih => exact ⟨TurnsStable.succ ih.1 ih.2, EachStable.succ ih.1 ih.2⟩

variable {settings : Settings} {fuel fuel' : Nat} {path : Path} {f : Fiber σ} {k k' : Kernel σ}
  {r : Turn σ}

/-- More steps do not change a turn that has come to its end. -/
theorem turn_more (h : turn settings fuel path f k = (r, k')) (complete : r ≠ .exhausted)
    (more : fuel ≤ fuel') : turn settings fuel' path f k = (r, k') := by
  induction more with
  | refl => exact h
  | step _ ih => exact (turn_more_aux settings _).1 ih complete

/-- A turn that has come to its end has been given enough steps. -/
theorem turns_of_turn (h : turn settings fuel path f k = (r, k')) (complete : r ≠ .exhausted) :
    Turns settings path f k r k' :=
  ⟨fuel, fun _ more => turn_more h complete more⟩

/-- A fiber has one turn in a kernel. -/
theorem Turns.unique {r' : Turn σ} {k₁ : Kernel σ} (turns : Turns settings path f k r k')
    (other : Turns settings path f k r' k₁) : r = r' ∧ k' = k₁ := by
  obtain ⟨least, turns⟩ := turns
  obtain ⟨least', other⟩ := other
  have same := turns (max least least') (Nat.le_max_left _ _)
  rw [other (max least least') (Nat.le_max_right _ _)] at same
  cases same
  exact ⟨rfl, rfl⟩

/-- Neither do more steps change turns of fibers side by side. -/
theorem turnEach_more {join : Join} {children : List (FiberId × Nat × Fiber σ)}
    {waiting gaveWay count : Nat} {r : JoinTurn σ}
    (h : turnEach settings fuel path join children waiting gaveWay count k = (r, k'))
    (complete : r ≠ .exhausted) (more : fuel ≤ fuel') :
    turnEach settings fuel' path join children waiting gaveWay count k = (r, k') := by
  induction more with
  | refl => exact h
  | step _ ih => exact (turn_more_aux settings _).2 ih complete

/-- Turns side by side that have come to their end have been given enough steps. -/
theorem turnsEach_of_turnEach {join : Join} {children : List (FiberId × Nat × Fiber σ)}
    {waiting gaveWay count : Nat} {r : JoinTurn σ}
    (h : turnEach settings fuel path join children waiting gaveWay count k = (r, k'))
    (complete : r ≠ .exhausted) :
    TurnsEach settings path join children waiting gaveWay count k r k' :=
  ⟨fuel, fun _ more => turnEach_more h complete more⟩

end Fiber

namespace Kernel

variable {fuel fuel' n : Nat} {k k' : Kernel σ}

/-- More steps do not change the turn of a task. -/
theorem runTask_more {task : Task σ} (h : k.runTask fuel task = some k') (more : fuel ≤ fuel') :
    k.runTask fuel' task = some k' := by
  unfold runTask at h ⊢
  dsimp only at h ⊢
  split at h
  next stop => rw [if_pos stop]; exact h
  next go =>
    rw [if_neg go]
    cases hwork : task.work with
    | errand due handle act =>
        rw [hwork] at h
        exact h
    | run started settings f =>
        rw [hwork] at h
        dsimp only at h ⊢
        generalize (if started then k.unwake task.id
          else (k.unwake task.id).report .fiberStarted) = begun at h ⊢
        rcases turned : f.turn settings fuel [task.id] begun with ⟨r, k₁⟩
        rw [turned] at h
        -- A turn cut short gives no kernel at all.
        by_cases short : r = .exhausted
        · subst short
          cases h
        · rw [Fiber.turn_more turned short more]
          exact h

/-- More steps do not change a batch. -/
theorem runBatch_more (h : k.runBatch fuel n = some k') (more : fuel ≤ fuel') :
    k.runBatch fuel' n = some k' := by
  -- Each task of the batch runs alike, so the next one starts from the same kernel.
  induction n generalizing k with
  | zero => exact h
  | succ n ih =>
      unfold runBatch at h ⊢
      cases next : k.nextTask? with
      | none =>
          simp only [next] at h ⊢
          exact h
      | some task =>
          simp only [next] at h ⊢
          cases ran : k.runTask fuel task with
          | none =>
              rw [ran] at h
              cases h
          | some k₁ =>
              rw [ran] at h
              rw [runTask_more ran more]
              exact ih h

/-- More steps do not change a look at the caller. -/
theorem attend_more {await : Await σ} {r : Attended σ} (h : k.attend fuel await = (r, k'))
    (complete : r ≠ .exhausted) (more : fuel ≤ fuel') : k.attend fuel' await = (r, k') := by
  cases await with
  | time wake => exact h
  | task id => exact h
  | quiet => exact h
  | fiber settings id f =>
      unfold attend at h ⊢
      dsimp only at h ⊢
      split at h
      -- Only a fiber that has been woken uses fuel.
      next woken =>
        rw [if_pos woken]
        rcases turned : f.turn settings fuel [id] (k.unwake id) with ⟨r', k₁⟩
        rw [turned] at h
        have complete' : r' ≠ .exhausted := by
          rintro rfl
          cases h
          exact complete rfl
        rw [Fiber.turn_more turned complete' more]
        exact h
      next away => rw [if_neg away]; exact h

/-- More steps and rounds do not change what the caller gets. -/
theorem drive_more {observe : Nat → σ → σ} {rounds rounds' : Nat} {await : Await σ}
    {r : Option Outcome × Kernel σ} (h : k.drive observe fuel rounds await = some r)
    (more : fuel ≤ fuel') (longer : rounds ≤ rounds') :
    k.drive observe fuel' rounds' await = some r := by
  -- Round by round: the look at what is awaited, the batch, and then the same choice between going
  -- on and waiting.
  induction rounds generalizing k await rounds' with
  | zero => cases h
  | succ rounds ih =>
      obtain ⟨rounds', rfl⟩ := Nat.exists_eq_add_of_le' (Nat.le_trans (Nat.succ_pos rounds) longer)
      have longer := Nat.le_of_succ_le_succ longer
      unfold drive at h ⊢
      rcases looked : k.attend fuel await with ⟨_ | await' | _, k₁⟩
      · rw [attend_more looked (by simp) more]
        rw [looked] at h
        exact h
      · rw [attend_more looked (by simp) more]
        rw [looked] at h
        dsimp only at h ⊢
        cases batch : k₁.runBatch fuel batchSize with
        | none =>
            rw [batch] at h
            cases h
        | some k₂ =>
            rw [runBatch_more batch more]
            rw [batch] at h
            dsimp only at h ⊢
            split at h
            next busy => rw [if_pos busy]; exact ih h longer
            next idle =>
              rw [if_neg idle]
              cases next : k₂.nextWake await' with
              | none =>
                  rw [next] at h
                  cases h
              | some time =>
                  rw [next] at h
                  exact ih h longer
      · rw [looked] at h
        cases h

end Kernel

end EffectKernel
