import EffectKernel.Proofs.Fuel
import EffectKernel.Proofs.OnTheSpot
import EffectKernel.Proofs.ServicesAtEnd

/-!
# Frames Beneath a Fiber

A fiber above frames does what it does without them, whatever it waits for in between and whoever
else has turns meanwhile. Nothing but the services at its end has to be known of it: they are
those that it began among, since whoever changes them has a frame that puts them back
(`step_home`). When the fiber would have ended, the frames are handed its outcome, in the same turn
(`turn_lifted`).

Whoever waits for a fiber sees turns of it, and between two of them rounds in which others run and
time passes. None of this depends on the frames beneath. So what a fiber above frames comes to
(`driveEnds_above`) is what the frames come to, from where the fiber without them has ended.

## Main definitions

* `Fiber.above`: The fiber with frames beneath its own.
* `Kernel.Round`: What happens between two looks at a fiber.
* `Fiber.DriveEnds`: A fiber that the caller waits for comes to an outcome.
* `Fiber.PollEnds`: A fiber in its turn comes to an outcome, in this turn or later.

## Theorems

* `turn_lifted`: A turn above frames.
* `driveEnds_above`: What a fiber above frames comes to.
-/

namespace EffectKernel

open Machine

variable {σ : Type}

/-! ### Turns -/

namespace Fiber

/-- The fiber with frames beneath its own. -/
def above (base : List (Frame σ)) : Fiber σ → Fiber σ
  | .ready m => .ready (m.above base)
  | .asleep wake m => .asleep wake (m.above base)
  | .yielded m => .yielded (m.above base)
  | .listening handle point => .listening handle (point.above base)
  | .limited limit deadline inner point => .limited limit deadline inner (point.above base)
  | .joining join children point => .joining join children (point.above base)

/-- The services that are left when a fiber has come to its end. -/
def home : Fiber σ → Context
  | .ready m => m.home
  | .asleep _ m => m.home
  | .yielded m => m.home
  | .listening _ point => point.home
  | .limited _ _ _ point => point.home
  | .joining _ _ point => point.home

/-- When a fiber has to be woken does not depend on the frames beneath. -/
@[simp] theorem nextWake_above (base : List (Frame σ)) (f : Fiber σ) :
    (f.above base).nextWake = f.nextWake := by
  cases f <;> simp only [above, nextWake]

/-- Nor does who is woken then. -/
@[simp] theorem dueAt_above (base : List (Frame σ)) (f : Fiber σ) (time : Nat) (path : Path) :
    (f.above base).dueAt time path = f.dueAt time path := by
  cases f <;> simp only [above, dueAt]

/-- A machine is resumed above frames as without them. -/
theorem ready_above (base : List (Frame σ)) (point : Suspension σ) (focus : Focus σ) :
    (ready (point.resume focus)).above base = ready ((point.above base).resume focus) := by
  rw [above, Suspension.resume_above]

/-- What a machine asks for is granted above frames as without them. -/
theorem grant_above (base : List (Frame σ)) (path : Path) (request : Request σ)
    (point : Suspension σ) (k : Kernel σ) :
    k.grant path request (point.above base) =
      ((k.grant path request point).1.above base, (k.grant path request point).2) := by
  obtain ⟨_ | ⟨host, hosts⟩, env, stack⟩ := point
  all_goals
    cases request with
    | listen register =>
        simp only [Kernel.grant]
        split <;> rfl
    | _ => rfl

/-- Whatever a machine is granted, it goes on to where it would have. -/
theorem grant_home {path : Path} {request : Request σ} {point : Suspension σ} {k : Kernel σ} :
    (k.grant path request point).1.home = point.home := by
  cases request with
  | listen register =>
      simp only [Kernel.grant]
      split
      · rfl
      · exact point.home_resume _
      · exact point.home_resume _
  | pause span focus => exact point.home_resume focus
  | giveWay focus => exact point.home_resume focus
  | _ => rfl

/-- A turn above frames, told by the turn without them. -/
inductive Lifted (settings : Settings) (path : Path) (base : List (Frame σ)) (fuel : Nat)
    (f : Fiber σ) (k : Kernel σ) : Turn σ × Kernel σ → Prop where
  /-- The fiber ends; the frames are handed its outcome. -/
  | ended {x k'} (continues : Continues settings path (f.above base) k
      (.ready ⟨.unwind x, f.home, base⟩) k') : Lifted settings path base fuel f k (.ended x, k')
  /-- The fiber waits. -/
  | waiting {f' k'} (turns : Turns settings path (f.above base) k (.waiting (f'.above base)) k')
      (home : f'.home = f.home) : Lifted settings path base fuel f k (.waiting f', k')
  /-- The steps are too few. -/
  | exhausted {k' k''}
      (short : turn settings fuel path (f.above base) k = (.exhausted, k'')) :
      Lifted settings path base fuel f k (.exhausted, k')

section Turns

variable {settings : Settings} {path : Path} {base : List (Frame σ)} {fuel : Nat}
  {f f' : Fiber σ} {k k' : Kernel σ} {r : Turn σ × Kernel σ}

/-- A turn in which the fiber first goes on as another one. -/
theorem Lifted.goesOn (lifted : Lifted settings path base fuel f' k' r)
    (first : Continues settings path (f.above base) k (f'.above base) k')
    (step : turn settings (fuel + 1) path (f.above base) k =
      turn settings fuel path (f'.above base) k') (home : f'.home = f.home) :
    Lifted settings path base (fuel + 1) f k r := by
  cases lifted with
  | ended continues =>
      rw [home] at continues
      exact .ended (first.trans continues)
  | waiting turns home' => exact .waiting (first.turns turns) (home'.trans home)
  | exhausted short => exact .exhausted (step.trans short)

/-- A turn in which the fiber goes on as another one after one step. -/
theorem Lifted.after (lifted : Lifted settings path base fuel f' k' r)
    (first : ∀ fuel, turn settings (fuel + 1) path (f.above base) k =
      turn settings fuel path (f'.above base) k') (home : f'.home = f.home) :
    Lifted settings path base (fuel + 1) f k r :=
  lifted.goesOn (.one first) (first fuel) home

/-- A turn that is over at once. -/
theorem Lifted.atOnce
    (last : ∀ fuel, turn settings (fuel + 1) path (f.above base) k =
      (.waiting (f'.above base), k')) (home : f'.home = f.home) :
    Lifted settings path base fuel f k (.waiting f', k') :=
  .waiting (.one last) home

/-- A machine with a turn above frames: it takes a step as it does without them. -/
theorem lifted_ready (base : List (Frame σ))
    (ih : ∀ (f : Fiber σ) k, Lifted settings path base fuel f k (turn settings fuel path f k))
    (m : Machine σ) (k : Kernel σ) :
    Lifted settings path base (fuel + 1) (.ready m) k
      (turn settings (fuel + 1) path (.ready m) k) := by
  by_cases handing : Handing [] m
  · -- This is the end, where the frames are handed the outcome.
    rcases m with ⟨focus, env, stack⟩
    obtain ⟨⟨x, rfl⟩, rfl⟩ := handing
    exact .ended ⟨0, 0, fun _ _ => rfl⟩
  · have lifted : (m.above base).step settings k.world =
        ((m.step settings k.world).1.above base, (m.step settings k.world).2) :=
      step_above_eq base handing
    have home := step_home settings m k.world
    rcases taken : m.step settings k.world with ⟨m₁ | y | ⟨request, point⟩, w₁⟩
    · rw [taken] at lifted home
      rw [turn, taken]
      refine (ih _ _).after (fun fuel => ?_) home
      rw [above, turn, lifted]
      rfl
    · exact absurd (handing_of_done taken) handing
    · rw [taken] at lifted home
      by_cases gives : ∃ focus, request = .giveWay focus
      · obtain ⟨focus, rfl⟩ := gives
        rw [turn, taken]
        refine .atOnce (fun fuel => ?_) ((point.home_resume focus).trans home)
        rw [above, turn, lifted]
        simp only [Step.above, Kernel.grant, above, Suspension.resume_above]
      · -- Whoever does not give way looks at what has been granted.
        have stays : ∀ focus, request ≠ .giveWay focus := fun focus same => gives ⟨focus, same⟩
        rw [skips_ask taken stays fuel]
        refine (ih _ _).after (fun fuel => ?_) (grant_home.trans home)
        rw [above, skips_ask lifted stays fuel, grant_above]

/-- A turn above frames is told by the turn without them. -/
theorem turn_lifted (settings : Settings) (path : Path) (base : List (Frame σ)) (fuel : Nat)
    (f : Fiber σ) (k : Kernel σ) :
    Lifted settings path base fuel f k (turn settings fuel path f k) := by
  induction fuel generalizing f k with
  | zero => exact .exhausted rfl
  | succ fuel ih =>
      cases f with
      | ready m => exact lifted_ready base ih m k
      | asleep wake m =>
          rw [turn]
          split
          next come =>
            exact (ih _ _).after (fun fuel => by simp only [above, turn, if_pos come]) rfl
          next early => exact .atOnce (fun fuel => by simp only [above, turn, if_neg early]) rfl
      | yielded m =>
          rw [turn]
          exact (ih _ _).after (fun fuel => by simp only [above, turn]) rfl
      | listening handle point =>
          rw [turn]
          cases taken : k.collect? handle with
          | some result =>
              refine (ih _ _).after (fun fuel => ?_) (point.home_resume _)
              rw [ready_above, above, turn, taken]
          | none => exact .atOnce (fun fuel => by simp only [above, turn, taken]) rfl
      | limited limit deadline inner point =>
          rw [turn]
          -- The fiber inside has the same turn in both.
          rcases first : turn settings fuel path inner k with ⟨y | inner₁ | _, k₁⟩
          · refine (ih _ _).goesOn ?_ ?_ (point.home_resume _)
            · rw [ready_above]
              exact .limited (turns_of_turn first (by simp))
            · rw [ready_above, above, turn, first]
          · have turns := turns_of_turn first (by simp)
            dsimp only
            split
            next due =>
              refine (ih _ _).goesOn ?_ ?_ (point.home_resume _)
              · rw [ready_above]
                exact .timedOut turns due
              · rw [ready_above]
                simp only [above, turn, first, if_pos due]
            next early => exact .waiting (.limited turns early) rfl
          · have short : turn settings (fuel + 1) path
                ((limited limit deadline inner point).above base) k = (.exhausted, k₁) := by
              simp only [above, turn, first]
            exact .exhausted short
      | joining join children point =>
          rw [turn]
          rcases first : turnEach settings fuel path join children 0 0 children.length k with
            ⟨y | ⟨join₁, children₁⟩ | _, k₁⟩
          · refine (ih _ _).goesOn ?_ ?_ (point.home_resume _)
            · rw [ready_above]
              exact .joined (turnsEach_of_turnEach first (by simp))
            · rw [ready_above, above, turn, first]
          · exact .waiting (.joining (turnsEach_of_turnEach first (by simp))) rfl
          · have short : turn settings (fuel + 1) path
                ((joining join children point).above base) k = (.exhausted, k₁) := by
              simp only [above, turn, first]
            exact .exhausted short

/-- A fiber that waits has the services left at its end that it had before its turn. -/
theorem Turns.home (turns : Turns settings path f k (.waiting f') k') : f'.home = f.home := by
  obtain ⟨fuel, turns⟩ := turns
  have lifted := turn_lifted settings path [] fuel f k
  rw [turns fuel (Nat.le_refl _)] at lifted
  cases lifted with
  | waiting _ home => exact home

/-- What a fiber comes to in its turn is what it comes to as the one it goes on as. -/
theorem Continues.turns_iff {f₁ : Fiber σ} {k₁ : Kernel σ} {turn : Turn σ}
    (first : Continues settings path f k f₁ k₁) :
    Turns settings path f k turn k' ↔ Turns settings path f₁ k₁ turn k' := by
  refine ⟨fun turns => ?_, first.turns⟩
  obtain ⟨least, steps, first⟩ := first
  obtain ⟨enough, turns⟩ := turns
  refine ⟨max least enough, fun fuel hfuel => ?_⟩
  rw [← first fuel (by omega)]
  exact turns (fuel + steps) (by omega)

/-- A turn of a fiber above frames is a turn without them, after which they are handed its outcome
    if that is its end. -/
theorem turns_above {base : List (Frame σ)} {turn : Turn σ} (complete : turn ≠ .exhausted) :
    Turns settings path (f.above base) k turn k' ↔
      (∃ x k₁, Turns settings path f k (.ended x) k₁ ∧
        Turns settings path (.ready ⟨.unwind x, f.home, base⟩) k₁ turn k') ∨
      ∃ f', turn = .waiting (f'.above base) ∧ f'.home = f.home ∧
        Turns settings path f k (.waiting f') k' := by
  constructor
  · rintro ⟨fuel, turns⟩
    -- What the fiber does by itself decides what it does above the frames, given the same fuel.
    have lifted := turn_lifted settings path base fuel f k
    rcases alone : Fiber.turn settings fuel path f k with ⟨r, k₁⟩
    rw [alone] at lifted
    cases lifted with
    | ended continues =>
        exact .inl ⟨_, k₁, turns_of_turn alone (by simp), continues.turns_iff.1 ⟨fuel, turns⟩⟩
    | waiting turns' home =>
        obtain ⟨rfl, rfl⟩ := Turns.unique ⟨fuel, turns⟩ turns'
        exact .inr ⟨_, rfl, home, turns_of_turn alone (by simp)⟩
    | exhausted short =>
        rw [turns fuel (Nat.le_refl _)] at short
        cases short
        exact absurd rfl complete
  · rintro (⟨x, k₁, ⟨fuel, alone⟩, rest⟩ | ⟨f', rfl, home, ⟨fuel, alone⟩⟩)
    all_goals
      have lifted := turn_lifted settings path base fuel f k
      rw [alone fuel (Nat.le_refl _)] at lifted
    · cases lifted with
      | ended continues => exact continues.turns_iff.2 rest
    · cases lifted with
      | waiting turns => exact turns

end Turns

end Fiber

/-! ### Rounds -/

/-- What happens between two looks at the one whom the caller waits for. Others have their turns,
    and if nobody is left who could have one, the clock moves. -/
inductive Kernel.Round (observe : Nat → σ → σ) (await : Await σ) (k : Kernel σ) :
    Kernel σ → Prop where
  /-- Somebody can still run. -/
  | busy {fuel k'} (batch : k.runBatch fuel batchSize = some k')
      (busy : k'.isBusy await = true) : Round observe await k k'
  /-- Nobody can. -/
  | idle {fuel k₁ time} (batch : k.runBatch fuel batchSize = some k₁)
      (idle : k₁.isBusy await = false) (next : k₁.nextWake await = some time) :
      Round observe await k ((k₁.modifyStore (observe k₁.now)).advance await time)

/-- What the caller has got after a turn of its fiber. -/
def Turn.attended (settings : Settings) (id : FiberId) : Turn σ → Attended σ
  | .ended x => .done (some x)
  | .waiting f => .still (.fiber settings id f)
  | .exhausted => .exhausted

namespace Kernel

variable {observe : Nat → σ → σ} {await await' : Await σ} {fuel rounds : Nat}
  {k k₁ k₂ : Kernel σ} {r : Option Outcome × Kernel σ}

/-- A fiber of the caller's that has been woken has its turn when it is looked at. -/
theorem attend_turn {settings : Settings} {id : FiberId} {f : Fiber σ} {turn : Turn σ}
    (woken : k.isWoken id = true)
    (turned : f.turn settings fuel [id] (k.unwake id) = (turn, k₁)) :
    k.attend fuel (.fiber settings id f) = (turn.attended settings id, k₁) := by
  rw [attend, if_pos woken, turned]
  cases turn <;> rfl

/-- A caller that still waits after a look goes through a round and is looked at again. -/
theorem round_of_drive (still : k.attend fuel await = (.still await', k₁))
    (run : k.drive observe fuel (rounds + 1) await = some r) :
    ∃ k₂, k₁.Round observe await' k₂ ∧ k₂.drive observe fuel rounds await' = some r := by
  rw [drive, still] at run
  dsimp only at run
  cases batch : k₁.runBatch fuel batchSize with
  | none =>
      rw [batch] at run
      cases run
  | some k₂ =>
      rw [batch] at run
      dsimp only at run
      -- With work left the next round begins at once; if not, the clock has to move on first.
      split at run
      next busy => exact ⟨k₂, .busy batch busy, run⟩
      next idle =>
        cases next : k₂.nextWake await' with
        | none =>
            rw [next] at run
            cases run
        | some time =>
            rw [next] at run
            exact ⟨_, .idle batch (Bool.eq_false_iff.2 idle) next, run⟩

/-- A look at the caller's fiber and what comes between, put in front of the rounds that are left.
    More fuel is harmless, so the largest of the three amounts will do. -/
theorem drive_of_round {least : Nat}
    (still : ∀ fuel, least ≤ fuel → k.attend fuel await = (.still await', k₁))
    (round : k₁.Round observe await' k₂) (run : k₂.drive observe fuel rounds await' = some r) :
    ∃ fuel, k.drive observe fuel (rounds + 1) await = some r := by
  cases round with
  | @busy enough _ batch busy =>
      -- Fuel for the turn, for the batch and for the rest of the run: the greatest of the three is
      -- enough for all.
      obtain ⟨top, hleast, henough, hfuel⟩ : ∃ top, least ≤ top ∧ enough ≤ top ∧ fuel ≤ top :=
        ⟨max least (max enough fuel), by omega, by omega, by omega⟩
      refine ⟨top, ?_⟩
      rw [drive, still top hleast]
      simp only [runBatch_more batch henough, if_pos busy]
      exact drive_more run hfuel (Nat.le_refl _)
  | @idle enough _ _ batch idle next =>
      obtain ⟨top, hleast, henough, hfuel⟩ : ∃ top, least ≤ top ∧ enough ≤ top ∧ fuel ≤ top :=
        ⟨max least (max enough fuel), by omega, by omega, by omega⟩
      refine ⟨top, ?_⟩
      rw [drive, still top hleast]
      simp only [runBatch_more batch henough, idle, Bool.false_eq_true, if_false, next]
      exact drive_more run hfuel (Nat.le_refl _)

end Kernel

namespace Fiber

/-- A fiber that the caller waits for comes to an outcome within so many rounds. -/
def DriveEndsIn (settings : Settings) (observe : Nat → σ → σ) (id : FiberId) (rounds : Nat)
    (f : Fiber σ) (k : Kernel σ) (x : Outcome) (k' : Kernel σ) : Prop :=
  ∃ fuel, k.drive observe fuel rounds (.fiber settings id f) = some (some x, k')

/-- A fiber that the caller waits for comes to an outcome. -/
def DriveEnds (settings : Settings) (observe : Nat → σ → σ) (id : FiberId) (f : Fiber σ)
    (k : Kernel σ) (x : Outcome) (k' : Kernel σ) : Prop :=
  ∃ rounds, DriveEndsIn settings observe id rounds f k x k'

/-- A fiber that the caller waits for comes to an outcome from the midst of its turn. -/
inductive PollEnds (settings : Settings) (observe : Nat → σ → σ) (id : FiberId) (f : Fiber σ)
    (k : Kernel σ) (x : Outcome) (k' : Kernel σ) : Prop where
  /-- It ends in this turn. -/
  | ended (turns : Turns settings [id] f k (.ended x) k') : PollEnds settings observe id f k x k'
  /-- It waits, and ends later. -/
  | waits {f₁ k₁ k₂} (turns : Turns settings [id] f k (.waiting f₁) k₁)
      (round : k₁.Round observe (.fiber settings id f₁) k₂)
      (later : DriveEnds settings observe id f₁ k₂ x k') : PollEnds settings observe id f k x k'

section Rounds

variable {settings : Settings} {observe : Nat → σ → σ} {id : FiberId} {rounds : Nat}
  {f f₁ : Fiber σ} {k k₁ k₂ k' : Kernel σ} {x y : Outcome} {base : List (Frame σ)}

/-- What comes between two looks: tasks have their turns, and if then nobody can run the clock
    moves. -/
theorem round_iff {await : Await σ} :
    k.Round observe await k' ↔ ∃ fuel k₁, k.runBatch fuel Kernel.batchSize = some k₁ ∧
      ((k₁.isBusy await = true ∧ k' = k₁) ∨ (k₁.isBusy await = false ∧ ∃ time,
        k₁.nextWake await = some time ∧
          k' = (k₁.modifyStore (observe k₁.now)).advance await time)) := by
  constructor
  · rintro (⟨batch, busy⟩ | ⟨batch, idle, next⟩)
    · exact ⟨_, _, batch, .inl ⟨busy, rfl⟩⟩
    · exact ⟨_, _, batch, .inr ⟨idle, _, next, rfl⟩⟩
  · rintro ⟨fuel, k₁, batch, ⟨busy, rfl⟩ | ⟨idle, time, next, rfl⟩⟩
    · exact .busy batch busy
    · exact .idle batch idle next

/-- What happens between two looks at a fiber depends on it only as far as it waits for points in
    time. -/
theorem round_congr (wake : f.nextWake = f₁.nextWake)
    (due : ∀ time, f.dueAt time [id] = f₁.dueAt time [id]) :
    k.Round observe (.fiber settings id f) k' ↔ k.Round observe (.fiber settings id f₁) k' := by
  simp only [round_iff, Kernel.isBusy, Kernel.nextWake, Kernel.advance, Await.nextWake,
    Await.dueAt, wake, due]

/-- What happens between two looks does not depend on the frames beneath. -/
theorem round_above :
    k.Round observe (.fiber settings id (f.above base)) k' ↔
      k.Round observe (.fiber settings id f) k' :=
  round_congr (nextWake_above base f) fun time => dueAt_above base f time [id]

/-- A fiber that the caller looks at. -/
theorem driveEndsIn_succ :
    DriveEndsIn settings observe id (rounds + 1) f k x k' ↔
      (k.isWoken id = true ∧ (Turns settings [id] f (k.unwake id) (.ended x) k' ∨
        ∃ f₁ k₁ k₂, Turns settings [id] f (k.unwake id) (.waiting f₁) k₁ ∧
          k₁.Round observe (.fiber settings id f₁) k₂ ∧
          DriveEndsIn settings observe id rounds f₁ k₂ x k')) ∨
      (k.isWoken id = false ∧ ∃ k₂, k.Round observe (.fiber settings id f) k₂ ∧
        DriveEndsIn settings observe id rounds f k₂ x k') := by
  cases woken : k.isWoken id with
  | false =>
      -- Not woken, the fiber is left alone in this round.
      have still : ∀ fuel, k.attend fuel (.fiber settings id f) =
          (.still (.fiber settings id f), k) := fun fuel => by
        simp only [Kernel.attend, woken, Bool.false_eq_true, if_false]
      simp only [Bool.false_eq_true, false_and, false_or, true_and]
      constructor
      · rintro ⟨fuel, run⟩
        obtain ⟨k₂, round, rest⟩ := Kernel.round_of_drive (still fuel) run
        exact ⟨k₂, round, fuel, rest⟩
      · rintro ⟨k₂, round, fuel, rest⟩
        exact Kernel.drive_of_round (fun fuel (_ : 0 ≤ fuel) => still fuel) round rest
  | true =>
      simp only [Bool.true_eq_false, true_and, false_and, or_false]
      constructor
      · rintro ⟨fuel, run⟩
        -- Woken, it has its turn first, which ends the run or leaves the fiber waiting behind it.
        rcases turned : turn settings fuel [id] f (k.unwake id) with ⟨r, k₁⟩
        have look := Kernel.attend_turn woken turned
        cases r with
        | ended y =>
            rw [Kernel.drive, look] at run
            cases run
            exact .inl (turns_of_turn turned (by simp))
        | waiting f₁ =>
            obtain ⟨k₂, round, rest⟩ := Kernel.round_of_drive look run
            exact .inr ⟨f₁, k₁, k₂, turns_of_turn turned (by simp), round, fuel, rest⟩
        | exhausted =>
            rw [Kernel.drive, look] at run
            cases run
      · rintro (⟨fuel, turns⟩ | ⟨f₁, k₁, k₂, ⟨least, turns⟩, round, fuel, rest⟩)
        · refine ⟨fuel, ?_⟩
          rw [Kernel.drive, Kernel.attend_turn woken (turns fuel (Nat.le_refl _))]
          rfl
        · exact Kernel.drive_of_round
            (fun _ enough => Kernel.attend_turn woken (turns _ enough)) round rest

/-- More rounds do not change what the caller gets. -/
theorem DriveEndsIn.more {rounds' : Nat} (drives : DriveEndsIn settings observe id rounds f k x k')
    (longer : rounds ≤ rounds') : DriveEndsIn settings observe id rounds' f k x k' :=
  drives.imp fun _ run => Kernel.drive_more run (Nat.le_refl _) longer

/-- A fiber that the caller waits for has its turn if it has been woken, and otherwise others go
    first. -/
theorem driveEnds_iff :
    DriveEnds settings observe id f k x k' ↔
      (k.isWoken id = true ∧ PollEnds settings observe id f (k.unwake id) x k') ∨
      (k.isWoken id = false ∧ ∃ k₂, k.Round observe (.fiber settings id f) k₂ ∧
        DriveEnds settings observe id f k₂ x k') := by
  constructor
  -- A drive that ends takes at least one round, and the rest of it is a drive with one round less.
  · rintro ⟨_ | rounds, drives⟩
    · obtain ⟨fuel, run⟩ := drives
      cases run
    · rcases driveEndsIn_succ.1 drives with ⟨woken, turns | ⟨f₁, k₁, k₂, turns, round, rest⟩⟩ |
        ⟨away, k₂, round, rest⟩
      · exact .inl ⟨woken, .ended turns⟩
      · exact .inl ⟨woken, .waits turns round ⟨rounds, rest⟩⟩
      · exact .inr ⟨away, k₂, round, rounds, rest⟩
  · rintro (⟨woken, turns | ⟨turns, round, rounds, rest⟩⟩ | ⟨away, k₂, round, rounds, rest⟩)
    · exact ⟨1, driveEndsIn_succ.2 (.inl ⟨woken, .inl turns⟩)⟩
    · exact ⟨rounds + 1, driveEndsIn_succ.2 (.inl ⟨woken, .inr ⟨_, _, _, turns, round, rest⟩⟩)⟩
    · exact ⟨rounds + 1, driveEndsIn_succ.2 (.inr ⟨away, k₂, round, rest⟩)⟩

/-- A fiber that goes on as another one comes to what that one comes to. -/
theorem Continues.pollEnds_iff (first : Continues settings [id] f k f₁ k₁) :
    PollEnds settings observe id f k x k' ↔ PollEnds settings observe id f₁ k₁ x k' := by
  constructor
  · rintro (turns | ⟨turns, round, later⟩)
    · exact .ended (first.turns_iff.1 turns)
    · exact .waits (first.turns_iff.1 turns) round later
  · rintro (turns | ⟨turns, round, later⟩)
    · exact .ended (first.turns_iff.2 turns)
    · exact .waits (first.turns_iff.2 turns) round later

/-- Where the turns of two fibers cannot be told from each other, and they wait for the same points
    in time until then, the caller cannot tell them from each other. -/
theorem driveEnds_congr (wake : f.nextWake = f₁.nextWake)
    (due : ∀ time, f.dueAt time [id] = f₁.dueAt time [id])
    (polls : ∀ k, PollEnds settings observe id f k x k' → PollEnds settings observe id f₁ k x k')
    (drives : DriveEnds settings observe id f k x k') :
    DriveEnds settings observe id f₁ k x k' := by
  obtain ⟨rounds, drives⟩ := drives
  -- As long as the fiber is not woken the rounds are the same for both, since they wake at the same
  -- times; the first poll is covered by `polls`.
  induction rounds generalizing k with
  | zero =>
      obtain ⟨fuel, run⟩ := drives
      cases run
  | succ rounds ih =>
      rcases driveEndsIn_succ.1 drives with ⟨woken, turns | ⟨f₂, k₁, k₂, turns, round, rest⟩⟩ |
        ⟨away, k₂, round, rest⟩
      · exact driveEnds_iff.2 (.inl ⟨woken, polls _ (.ended turns)⟩)
      · exact driveEnds_iff.2 (.inl ⟨woken, polls _ (.waits turns round ⟨rounds, rest⟩)⟩)
      · exact driveEnds_iff.2 (.inr ⟨away, k₂, (round_congr wake due).1 round, ih rest⟩)

/-- What a fiber above frames comes to within so many rounds, told without them. -/
theorem driveEnds_of_driveEndsIn_above
    (drives : DriveEndsIn settings observe id rounds (f.above base) k y k') :
    ∃ x k₁, DriveEnds settings observe id f k x k₁ ∧
      PollEnds settings observe id (.ready ⟨.unwind x, f.home, base⟩) k₁ y k' := by
  -- Round by round, until the fiber ends above the frames: from there on they run what is left of
  -- that poll and of the run.
  induction rounds generalizing f k with
  | zero =>
      obtain ⟨fuel, run⟩ := drives
      cases run
  | succ rounds ih =>
      rcases driveEndsIn_succ.1 drives with ⟨woken, turns | ⟨f₁, k₁, k₂, turns, round, rest⟩⟩ |
        ⟨away, k₂, round, rest⟩
      · rcases (turns_above (by simp)).1 turns with ⟨x, k₁, alone, rest⟩ | ⟨_, ⟨⟩, -⟩
        exact ⟨x, k₁, driveEnds_iff.2 (.inl ⟨woken, .ended alone⟩), .ended rest⟩
      · rcases (turns_above (by simp)).1 turns with ⟨x, k₃, alone, later⟩ | ⟨f₂, ⟨⟩, home, alone⟩
        · exact ⟨x, k₃, driveEnds_iff.2 (.inl ⟨woken, .ended alone⟩), .waits later round ⟨_, rest⟩⟩
        · obtain ⟨x, k₃, first, later⟩ := ih rest
          rw [home] at later
          exact ⟨x, k₃, driveEnds_iff.2
            (.inl ⟨woken, .waits alone (round_above.1 round) first⟩), later⟩
      · obtain ⟨x, k₃, first, later⟩ := ih rest
        exact ⟨x, k₃, driveEnds_iff.2 (.inr ⟨away, k₂, round_above.1 round, first⟩), later⟩

/-- A fiber that has come to an outcome within so many rounds, and then the frames beneath it. -/
theorem driveEnds_above_of_driveEndsIn (drives : DriveEndsIn settings observe id rounds f k x k₁)
    (rest : PollEnds settings observe id (.ready ⟨.unwind x, f.home, base⟩) k₁ y k') :
    DriveEnds settings observe id (f.above base) k y k' := by
  -- The same rounds with the frames below; the poll that ends the fiber goes on with them.
  induction rounds generalizing f k with
  | zero =>
      obtain ⟨fuel, run⟩ := drives
      cases run
  | succ rounds ih =>
      rcases driveEndsIn_succ.1 drives with ⟨woken, turns | ⟨f₂, k₂, k₃, turns, round, later⟩⟩ |
        ⟨away, k₂, round, later⟩
      · refine driveEnds_iff.2 (.inl ⟨woken, ?_⟩)
        rcases rest with rest | ⟨rest, round, later⟩
        · exact .ended ((turns_above (by simp)).2 (.inl ⟨x, k₁, turns, rest⟩))
        · exact .waits ((turns_above (by simp)).2 (.inl ⟨x, k₁, turns, rest⟩)) round later
      · refine driveEnds_iff.2 (.inl ⟨woken, ?_⟩)
        have home := turns.home
        exact .waits ((turns_above (by simp)).2 (.inr ⟨f₂, rfl, home, turns⟩)) (round_above.2 round)
          (ih later (home ▸ rest))
      · exact driveEnds_iff.2 (.inr ⟨away, k₂, round_above.2 round, ih later rest⟩)

/-- What a fiber above frames comes to is what the frames come to from where the fiber has ended
    without them. -/
theorem driveEnds_above :
    DriveEnds settings observe id (f.above base) k y k' ↔
      ∃ x k₁, DriveEnds settings observe id f k x k₁ ∧
        PollEnds settings observe id (.ready ⟨.unwind x, f.home, base⟩) k₁ y k' := by
  constructor
  · rintro ⟨rounds, drives⟩
    exact driveEnds_of_driveEndsIn_above drives
  · rintro ⟨x, k₁, ⟨rounds, drives⟩, rest⟩
    exact driveEnds_above_of_driveEndsIn drives rest

end Rounds

end Fiber

end EffectKernel
