import EffectKernel.Proofs.Ending
import EffectKernel.Proofs.Plain
import EffectKernel.Proofs.SideBySide

/-!
# Turns of Plain Programs

A turn of a fiber that runs a plain program, told by the run on the spot of the same
machine. If the fiber ends, so does the run, in the same outcome and the same world; if it
has to wait, the run has come to a place where it waits out a delay; and if the steps of
the turn were too few, the run is long as well, so a run that ends shows how many are
enough.

Where effects run side by side, the run on the spot has come to the next of them. None of
them is ever made to wait, so the turn of each of them ends it, and what it adds to the run
is the part above the frame in which the run on the spot waits for that child. The
induction is on the number of steps that the turn may take, which a fiber shares with the
fibers inside it.

## Main definitions

* `Turn.Tells`: How a turn ends, told by the run on the spot.
* `JoinTurn.Tells`: How the turns of fibers side by side end.

## Theorems

* `turnEach_tells`: The turns of fibers side by side.
* `turn_joining_tells`: The turn of a fiber in which fibers run side by side.
* `turn_ready_tells`: The turn of a fiber that can go on.
* `turn_tells`: A turn of a plain program.
-/

namespace EffectKernel

variable {σ : Type}

open Machine

/-- How a turn ends, told by the run on the spot of the machine that has the turn. If there
    were not enough steps, so many steps of the run are taken for granted. -/
inductive Turn.Tells (h : Bool) (bound : Nat) (m : Machine σ) (w : World σ) :
    Turn σ → World σ → Prop where
  /-- The run ends as well. -/
  | ended {n x env w'} (run : Steps ⟨.sync, h⟩ n m w ⟨.unwind x, env, []⟩ w') :
      Tells h bound m w (.ended x) w'
  /-- The run comes to a delay and waits it out. -/
  | waiting {n m₁ w₁ span focus point wake v w'} (run : Steps ⟨.sync, h⟩ n m w m₁ w₁)
      (honored : h = true)
      (pause : m₁.step ⟨.async, h⟩ w₁ = (.ask (.pause span focus) point, w'))
      (spot : m₁.step ⟨.sync, h⟩ w₁ = (.next (point.resume focus), v)) (same : v.Agree w')
      (plain : (point.resume focus).Plain) :
      Tells h bound m w (.waiting (.asleep wake (point.resume focus))) w'
  /-- The run is long. -/
  | exhausted {n m' v w'} (run : Steps ⟨.sync, h⟩ n m w m' v) (long : bound ≤ 3 * n) :
      Tells h bound m w .exhausted w'

/-- A turn that begins later in the run. -/
theorem Turn.Tells.after {h : Bool} {bound bound' n : Nat} {m m₁ : Machine σ}
    {w w₁ w' : World σ} {r : Turn σ} (tells : Tells h bound m₁ w₁ r w')
    (run : Steps ⟨.sync, h⟩ n m w m₁ w₁) (hbound : bound' ≤ bound + 3 * n) :
    Tells h bound' m w r w' := by
  cases tells with
  | ended rest => exact .ended (run.trans rest)
  | waiting rest honored pause spot same plain =>
      exact .waiting (run.trans rest) honored pause spot same plain
  | exhausted rest long => exact .exhausted (run.trans rest) (by omega)

/-- How the turns of fibers side by side end, told by the run on the spot of the machine
    that stands where they do. -/
inductive JoinTurn.Tells (h : Bool) (bound : Nat) (env : Context) (stack : List (Frame σ))
    (m : Machine σ) (w : World σ) : JoinTurn σ → World σ → Prop where
  /-- The run comes to what has been decided. -/
  | ended {n x w'} (run : Steps ⟨.sync, h⟩ n m w ⟨.unwind x, env, stack⟩ w') :
      Tells h bound env stack m w (.ended x) w'
  /-- The run is long. -/
  | exhausted {n m' v w'} (run : Steps ⟨.sync, h⟩ n m w m' v) (long : bound ≤ 3 * n) :
      Tells h bound env stack m w .exhausted w'

theorem JoinTurn.Tells.after {h : Bool} {bound bound' n : Nat} {env : Context}
    {stack : List (Frame σ)} {m m₁ : Machine σ} {w w₁ w' : World σ} {r : JoinTurn σ}
    (tells : Tells h bound env stack m₁ w₁ r w') (run : Steps ⟨.sync, h⟩ n m w m₁ w₁)
    (hbound : bound' ≤ bound + 3 * n) : Tells h bound' env stack m w r w' := by
  cases tells with
  | ended rest => exact .ended (run.trans rest)
  | exhausted rest long => exact .exhausted (run.trans rest) (by omega)

/-- A run on the spot puts the services back that it started with. -/
theorem env_of_steps {settings : Settings} {n : Nat} {e : Effect σ} {env env' : Context}
    {w w' : World σ} {x : Outcome}
    (run : Steps settings n (start e env) w ⟨.unwind x, env', []⟩ w') : env' = env :=
  (@delivers_iff_evaluates σ settings .nobody (.effect e) (.of env) [] w w' x env').1
    run.delivers |>.1

namespace Fiber

/-- Turns of so many steps of fibers that can go on are told by the run on the spot. -/
def TurnsTell (σ : Type) (h : Bool) (fuel : Nat) : Prop :=
  ∀ {path} {m : Machine σ} {k r k'}, m.Plain → k.Numbered →
    turn ⟨.async, h⟩ fuel path (.ready m) k = (r, k') →
    r.Tells h fuel m k.world k'.world ∧ k.Follows k.woken k.fresh k'

/-- So are turns of fibers in which fibers are lined up. -/
def JoiningsTell (σ : Type) (h : Bool) (fuel : Nat) : Prop :=
  ∀ {path join point} {rest : List (Effect σ)} {id position before k r k'},
    (∀ e ∈ rest, e.Plain ∧ e.NeverPauses) → (∀ x, (point.resume (.unwind x)).Plain) →
    join.Counts position rest.length → Kernel.Queued before id rest.length k →
    turn ⟨.async, h⟩ fuel path (.joining join (lineUp point.env rest id position) point) k =
      (r, k') →
    r.Tells h (fuel - 2) (inside point.hosts (join.machine point.env point.stack rest)) k.world
        k'.world ∧
      Kernel.Follows before id k k'

/-- So are the turns of the fibers that are lined up. -/
def LinesTell (σ : Type) (h : Bool) (fuel : Nat) : Prop :=
  ∀ {path join env} {rest : List (Effect σ)} {stack id position before count k r k'},
    (∀ e ∈ rest, e.Plain ∧ e.NeverPauses) → join.Counts position rest.length →
    Kernel.Queued before id rest.length k →
    turnEach ⟨.async, h⟩ fuel path join (lineUp env rest id position) 0 0 count k = (r, k') →
    r.Tells h (fuel - 1) env stack (join.machine env stack rest) k.world k'.world ∧
      Kernel.Follows before id k k'

variable {h : Bool} {fuel : Nat}

/-- The turns of fibers side by side: each of them ends in its turn, and with the outcome
    the run on the spot has come to the next child or to what has been decided. -/
theorem turnEach_tells (one : TurnsTell σ h fuel) (each : LinesTell σ h fuel) :
    LinesTell σ h (fuel + 1) := by
  intro path join env rest stack id position before count k r k' plain counts queued hturn
  unfold turnEach at hturn
  cases rest with
  | nil =>
      rw [lineUp, Kernel.firstWoken?_nil] at hturn
      cases hturn
      exact ⟨.ended .none, queued.follows⟩
  | cons e rest =>
      rcases List.forall_mem_cons.1 plain with ⟨⟨he, still⟩, hrest⟩
      rw [queued.firstWoken?] at hturn
      have next := queued.unwake
      rcases hone : turn ⟨.async, h⟩ fuel (id :: path) (.ready (start e env)) (k.unwake id) with
        ⟨r₁, k₁⟩
      rcases one (plain_start he env) next.numbered hone with ⟨tells, follows⟩
      have later := next.keeps follows
      have followed : Kernel.Follows before id k k₁ :=
        later.follows.after (Nat.le_succ id) follows.tasks follows.fresh
      -- The run of the child, above the frame that waits for it.
      have lifted : ∀ {n m' w'}, Steps ⟨.sync, h⟩ n (start e env) k.world m' w' →
          Steps ⟨.sync, h⟩ n (join.machine env stack (e :: rest)) k.world
            (m'.above (join.frame rest :: stack)) w' := fun run =>
        run.above (join.frame rest :: stack)
      simp only [hone] at hturn
      cases tells with
      | waiting run honored pause =>
          -- None of the fibers is ever made to wait.
          subst honored
          exact absurd pause (still run)
      | exhausted run long =>
          cases hturn
          exact ⟨.exhausted (lifted run) (by omega), followed⟩
      | @ended n x env' w₁ run =>
          have henv := env_of_steps run
          subst henv
          simp only [withoutChild_lineUp, handlesEach_lineUp] at hturn
          rcases Join.step_machine counts ⟨.sync, h⟩ x env' stack k₁.world with
            ⟨y, habsorb, hstep⟩ | ⟨join', habsorb, counts', hstep⟩
          · rw [habsorb] at hturn
            cases hturn
            exact ⟨.ended ((lifted run).trans (.one hstep)), followed⟩
          · rw [habsorb] at hturn
            rcases each hrest counts' later hturn with ⟨tells, rest⟩
            exact ⟨tells.after ((lifted run).trans (.one hstep)) (by omega),
              rest.after (Nat.le_succ id) follows.tasks follows.fresh⟩

/-- The turn of a fiber in which fibers are lined up: their turns, and then its own. -/
theorem turn_joining_tells (one : TurnsTell σ h fuel) (each : LinesTell σ h fuel) :
    JoiningsTell σ h (fuel + 1) := by
  intro path join point rest id position before k r k' plain goesOn counts queued hturn
  unfold turn at hturn
  rcases heach : turnEach ⟨.async, h⟩ fuel path join (lineUp point.env rest id position) 0 0
    (lineUp point.env rest id position).length k with ⟨r₁, k₁⟩
  rcases each plain counts queued heach with ⟨tells, follows⟩
  simp only [heach] at hturn
  cases tells with
  | exhausted run long =>
      cases hturn
      exact ⟨.exhausted (run.inside point.hosts) (by omega), follows⟩
  | @ended n x w₁ run =>
      -- What is in the queue are the ones before them and what their turns have left there.
      have numbered : k₁.Numbered := by
        rcases follows with ⟨-, fresh, stale, hwoken, hstale⟩
        intro i hi
        rw [hwoken] at hi
        rcases List.mem_append.1 hi with hi | hi
        · have := queued.early i hi
          have := queued.given
          omega
        · exact (hstale i hi).2
      rcases one (goesOn x) numbered hturn with ⟨rest, more⟩
      have low : id ≤ k.fresh := Nat.le_trans (Nat.le_add_right _ _) queued.given
      exact ⟨rest.after (run.inside point.hosts) (by omega), follows.trans low more⟩

/-- A turn that lines up fibers goes on with theirs. -/
theorem turn_enlist_tells (joining : JoiningsTell σ h fuel) {path : Path} {join : Join}
    {point : Suspension σ} {children : List (Effect σ)} {m : Machine σ}
    {k k' : Kernel σ} {r : Turn σ} (each : ∀ e ∈ children, e.Plain ∧ e.NeverPauses)
    (goesOn : ∀ x, (point.resume (.unwind x)).Plain) (counts : join.Counts 0 children.length)
    (numbered : k.Numbered)
    (spot : m.step ⟨.sync, h⟩ k.world =
      (.next (inside point.hosts (join.machine point.env point.stack children)), k.world))
    (hturn : turn ⟨.async, h⟩ fuel path
      (.joining join (Kernel.enlist point.env children 0 k).1 point)
      (Kernel.enlist point.env children 0 k).2 = (r, k')) :
    r.Tells h (fuel + 1) m k.world k'.world ∧ k.Follows k.woken k.fresh k' := by
  -- All children are queued in order, so the joint turn takes them one after the other.
  have queued := @Kernel.queued_enlist σ k point.env children 0 numbered
  rw [Kernel.enlist_eq numbered] at hturn queued
  rcases joining each goesOn counts queued hturn with ⟨tells, follows⟩
  exact ⟨tells.after (.one spot) (by omega),
    follows.after (Nat.le_refl _) rfl (Nat.le_add_right _ _)⟩

/-- The turn of a fiber that can go on: step by step, or with fibers lined up in it. -/
theorem turn_ready_tells (one : TurnsTell σ h fuel) (joining : JoiningsTell σ h fuel) :
    TurnsTell σ h (fuel + 1) := by
  intro path m k r k' plain numbered hturn
  have resembles := step_fiber plain h k.world
  unfold turn at hturn
  generalize hp : m.step ⟨.async, h⟩ k.world = p at resembles hturn
  cases resembles with
  | same =>
      rcases step_plain plain h k.world with ⟨m₁, w₁, hstep, plain₁⟩ | ⟨x, env, rfl⟩
      · -- The turn goes on in the world that the step has left.
        simp only [hstep] at hturn
        rcases one plain₁ (k := { k with world := w₁ }) numbered hturn with ⟨tells, follows⟩
        exact ⟨tells.after (.one hstep) (by omega),
          (Kernel.Follows.moved k w₁).trans (Nat.le_refl _) follows⟩
      · cases hturn
        exact ⟨.ended .none, .moved k k.world⟩
  | @pause span focus point v w₁ honored long spot same =>
      rcases step_plain plain h k.world with ⟨m₁, w₂, hstep, plain₁⟩ | ⟨x, env, rfl⟩
      · rw [spot] at hstep
        cases hstep
        simp only [Kernel.grant] at hturn
        cases fuel with
        | zero =>
            cases hturn
            exact ⟨.exhausted (.one spot) (by omega), .moved k v⟩
        | succ fuel =>
            -- The time has not come yet, so the turn is over.
            unfold turn at hturn
            rw [if_neg (Nat.not_le_of_lt (Kernel.lt_wakeTime _ long))] at hturn
            cases hturn
            exact ⟨.waiting .none honored hp spot same plain₁, .moved k v⟩
      · cases spot
  | @gather children collect _ each goesOn spot =>
      rw [startAll_eq_machine] at spot
      have counts := Join.counts_gather collect children.length
      exact turn_enlist_tells joining each goesOn counts numbered spot hturn
  | @compete children _ each goesOn spot =>
      rw [startRace_eq_machine] at spot
      have counts := Join.counts_compete none 0 children.length
      exact turn_enlist_tells joining each goesOn counts numbered spot hturn

/-- A turn of a plain program is told by the run on the spot. -/
theorem turn_tells (h : Bool) (fuel : Nat) :
    TurnsTell σ h fuel ∧ JoiningsTell σ h fuel ∧ LinesTell σ h fuel := by
  induction fuel with
  | zero =>
      refine ⟨fun _ _ hturn => ?_, fun _ _ _ queued hturn => ?_, fun _ _ queued hturn => ?_⟩
      · cases hturn
        exact ⟨.exhausted .none (Nat.zero_le _), .moved _ _⟩
      · cases hturn
        exact ⟨.exhausted .none (Nat.zero_le _), queued.follows⟩
      · cases hturn
        exact ⟨.exhausted .none (Nat.zero_le _), queued.follows⟩
  | succ fuel ih =>
      rcases ih with ⟨one, joining, each⟩
      exact ⟨turn_ready_tells one joining, turn_joining_tells one each, turnEach_tells one each⟩

end Fiber

end EffectKernel
