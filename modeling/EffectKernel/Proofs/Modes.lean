import EffectKernel.Fiber.Drive
import EffectKernel.Proofs.Turns

/-!
# Ways to Run a Program

A program can be run on the spot or in a fiber of the caller's own, and either way delays
may be waited out or not. For a plain program all four come to the same: it ends in the
same outcome, having done the same to the state of the program and reported the same
events, and it ends in one of them exactly if it ends in the others. Only the time that
it takes may differ.

Each way is told by one run on the spot, in which no delay is waited out. A run that has
come to an end came to the end of that run, and a run that was cut off for want of steps
shows that it is long (`RunTells`). Since there is only one such run, two ways cannot end
differently; and since a run that ends is not long, no way is cut off if its steps are
many enough, so all of them end if one does.

In a fiber, the caller's fiber is the only one that has turns. If it waits out a delay,
nobody can run, so the clock goes to the end of the delay and the fiber is woken; the run on
the spot has waited there too, and goes on with the same machine.

## Main definitions

* `Effect.run?`: How an effect ends in one of the ways to run it.
* `Kernel.Idle`: Nobody else runs.
* `RunTells`: How a run ends, told by a run on the spot.

## Theorems

* `runBlocking_tells`: A run on the spot.
* `drive_tells`: A run in a fiber of the caller's own.
* `modes_agree`: The ways to run a plain program come to the same.
-/

namespace EffectKernel

variable {σ : Type}

open Machine

/-- How an effect ends in one of the ways to run it, and the world it leaves, if it takes no
    more steps and rounds than given: on the spot, or in a fiber of the caller's own that
    nobody observes. -/
def Effect.run? (settings : Settings) (fuel : Nat) (e : Effect σ) (env : Context)
    (k : Kernel σ) : Option (Outcome × World σ) :=
  match settings.mode with
  | .sync => runSync fuel settings.honorDelays e env k.world
  | .async =>
    (k.runExit (fun _ s => s) fuel settings e env).map fun result => (result.1, result.2.world)

/-- Nobody waits for a turn, and there are no tasks. -/
structure Kernel.Idle (k : Kernel σ) : Prop where
  /-- Nobody waits for a turn. -/
  woken : k.woken = []
  /-- There are no tasks. -/
  tasks : k.tasks = []

/-- How a run ends, told by a run on the spot, up to the time. If the steps were too few,
    the run on the spot is long. -/
inductive RunTells (h : Bool) (bound : Nat) (m : Machine σ) (w : World σ) :
    Option (Outcome × World σ) → Prop where
  /-- Both end. -/
  | ended {n x env v w'} (run : Steps ⟨.sync, h⟩ n m w ⟨.unwind x, env, []⟩ v)
      (same : v.Agree w') : RunTells h bound m w (some (x, w'))
  /-- The steps were too few. -/
  | cut {n m' v} (run : Steps ⟨.sync, h⟩ n m w m' v) (long : bound ≤ 3 * n + 1) :
      RunTells h bound m w none

namespace RunTells

variable {h : Bool} {bound bound' n : Nat} {m m₁ : Machine σ} {w w₁ v : World σ}
  {r : Option (Outcome × World σ)}

/-- A run that begins later. -/
theorem after (tells : RunTells h bound m₁ w₁ r) (run : Steps ⟨.sync, h⟩ n m w m₁ w₁)
    (hbound : bound' ≤ bound + 3 * n) : RunTells h bound' m w r := by
  cases tells with
  | ended rest same => exact .ended (run.trans rest) same
  | cut rest long => exact .cut (run.trans rest) (by omega)

/-- The time does not matter, and neither does whether delays are waited out. -/
theorem retimed (tells : RunTells h bound m w r) (hw : w.Agree v) (h' : Bool) :
    RunTells h' bound m v r := by
  cases tells with
  | ended run same =>
      rcases run.retimed hw h' with ⟨v', run', hv'⟩
      exact .ended run' (hv'.symm.trans same)
  | cut run long =>
      rcases run.retimed hw h' with ⟨v', run', -⟩
      exact .cut run' long

end RunTells

/-- A run of a plain machine on the spot is told by itself. -/
theorem runBlocking_tells {m : Machine σ} (plain : m.Plain) (h : Bool) (fuel : Nat)
    (w : World σ) : RunTells h fuel m w (m.runBlocking ⟨.sync, h⟩ fuel w) := by
  induction fuel generalizing m w with
  | zero => exact .cut .none (Nat.zero_le _)
  | succ fuel ih =>
      unfold runBlocking
      rcases step_plain plain h w with ⟨m₁, w₁, hstep, plain₁⟩ | ⟨x, env, rfl⟩
      · rw [hstep]
        exact (ih plain₁ w₁).after (.one hstep) (by omega)
      · exact .ended .none (.refl w)

/-- A fiber that goes on with a machine when it gets its turn. -/
inductive Fiber.GoesOn (now : Nat) (m : Machine σ) : Fiber σ → Prop where
  /-- It waits for nothing. -/
  | ready : GoesOn now m (.ready m)
  /-- It waits for a point in time that has come. -/
  | asleep {wake} (due : wake ≤ now) : GoesOn now m (.asleep wake m)

theorem Fiber.GoesOn.turn_tells {h : Bool} {fuel : Nat} {path : Path} {m : Machine σ}
    {fiber : Fiber σ} {k k' : Kernel σ} {r : Turn σ} (goes : GoesOn k.now m fiber)
    (plain : m.Plain) (numbered : k.Numbered)
    (hturn : fiber.turn ⟨.async, h⟩ fuel path k = (r, k')) :
    r.Tells h (fuel - 1) m k.world k'.world ∧ k.Follows k.woken k.fresh k' := by
  cases goes with
  | ready =>
      rcases (Fiber.turn_tells h fuel).1 plain numbered hturn with ⟨tells, follows⟩
      exact ⟨tells.after .none (by omega), follows⟩
  -- Its wake-up has come, so the turn is that of the machine it goes on with.
  | asleep due =>
      cases fuel with
      | zero =>
          cases hturn
          exact ⟨.exhausted .none (Nat.zero_le _), .moved k k.world⟩
      | succ fuel =>
          unfold Fiber.turn at hturn
          rw [if_pos due] at hturn
          exact (Fiber.turn_tells h fuel).1 plain numbered hturn

namespace Kernel

variable {k : Kernel σ}

theorem nextTask?_of_tasks (h : k.tasks = []) : k.nextTask? = none := by
  refine List.findSome?_eq_none_iff.2 fun id _ => ?_
  unfold task?
  rw [h]
  rfl

theorem runBatch_of_tasks (h : k.tasks = []) (fuel n : Nat) : k.runBatch fuel n = some k := by
  cases n with
  | zero => rfl
  | succ n =>
      unfold runBatch
      rw [nextTask?_of_tasks h]

/-- A round in which the caller's fiber comes to wait for a point in time, where nobody else
    can run: the clock goes there, and the fiber is woken. -/
theorem drive_asleep {k₁ : Kernel σ} {fuel rounds id wake : Nat} {await : Await σ}
    {settings : Settings} {m : Machine σ}
    (still : k.attend fuel await = (.still (.fiber settings id (.asleep wake m)), k₁))
    (tasks : k₁.tasks = []) (away : k₁.isWoken id = false) :
    k.drive (fun _ s => s) fuel (rounds + 1) await =
      drive (fun _ s => s) fuel rounds (.fiber settings id (.asleep wake m))
        { k₁ with world := { k₁.world with clock := wake }, woken := [id] } := by
  -- With no task and the fiber asleep there is nothing to do but to move the clock.
  have idle : k₁.isBusy (.fiber settings id (.asleep wake m)) = false := by
    unfold isBusy
    rw [nextTask?_of_tasks tasks]
    exact away
  have next : k₁.nextWake (.fiber settings id (.asleep wake m)) = some wake := by
    unfold nextWake
    rw [tasks]
    rfl
  have advanced : k₁.advance (.fiber settings id (.asleep wake m)) wake =
      { k₁ with world := { k₁.world with clock := wake }, woken := [id] } := by
    unfold advance
    simp only [tasks, Await.dueAt, Fiber.dueAt, if_pos (Nat.le_refl wake), List.flatMap_nil,
      List.append_nil]
    rfl
  rw [drive]
  simp only [still, runBatch_of_tasks tasks, idle, next]
  exact congrArg (drive (fun _ s => s) fuel rounds _) advanced

/-- What comes of waiting for a fiber, if it ended. -/
def ended (r : Option (Option Outcome × Kernel σ)) : Option (Outcome × World σ) :=
  r.bind fun result => result.1.map fun x => (x, result.2.world)

/-- A run of a plain machine in a fiber of the caller's own is told by the run on the
    spot. -/
theorem drive_tells (h : Bool) (fuel rounds : Nat) {m : Machine σ} {fiber : Fiber σ}
    {id : Nat} (goes : fiber.GoesOn k.now m) (plain : m.Plain) (woken : k.woken = [id])
    (tasks : k.tasks = []) (given : id < k.fresh) :
    RunTells h (min rounds fuel) m k.world
      (ended (k.drive (fun _ s => s) fuel rounds (.fiber ⟨.async, h⟩ id fiber))) := by
  induction rounds generalizing m fiber k with
  | zero => exact .cut .none (by omega)
  | succ rounds ih =>
      have here : k.isWoken id = true := by
        unfold isWoken
        rw [woken]
        simp
      have turned : (k.unwake id).woken = [] := by
        unfold unwake
        rw [woken]
        simp
      have numbered : (k.unwake id).Numbered := by
        intro i hi
        rw [turned] at hi
        cases hi
      rcases hturn : fiber.turn ⟨.async, h⟩ fuel [id] (k.unwake id) with ⟨r, k₁⟩
      rcases Fiber.GoesOn.turn_tells (k := k.unwake id) goes plain numbered hturn with
        ⟨tells, follows⟩
      cases tells with
      | ended run =>
          unfold drive attend
          simp only [here, if_true, hturn]
          exact .ended run (.refl _)
      | exhausted run long =>
          unfold drive attend
          simp only [here, if_true, hturn]
          exact .cut run (by omega)
      | @waiting n m₁ w₁ span focus point wake v _ run honored pause spot same plain₁ =>
          have still : k.attend fuel (.fiber ⟨.async, h⟩ id fiber) =
              (.still (.fiber ⟨.async, h⟩ id (.asleep wake (point.resume focus))), k₁) := by
            unfold attend
            simp only [here, if_true, hturn]
          -- What is left in the queue are fibers that are gone.
          have away : k₁.isWoken id = false := by
            rcases follows.woken with ⟨stale, hwoken, hstale⟩
            rw [turned, List.nil_append] at hwoken
            have hid : id ∉ stale := fun hmem =>
              Nat.not_le_of_lt given (hstale id hmem).1
            unfold isWoken
            rw [hwoken]
            simpa using hid
          have tasks₁ : k₁.tasks = [] := follows.tasks.trans tasks
          rw [drive_asleep still tasks₁ away]
          have later := ih (k := { k₁ with
              world := { k₁.world with clock := wake }, woken := [id] })
            (.asleep (Nat.le_refl wake)) plain₁ rfl tasks₁ (Nat.lt_of_lt_of_le given follows.fresh)
          -- The run on the spot waited there as well, up to another point in time.
          exact (later.retimed ⟨same.1.symm, same.2.symm⟩ h).after (run.trans (.one spot))
            (by omega)

end Kernel

/-- A plain effect, in whatever way it is run, is told by the run on the spot that waits out
    no delay. -/
theorem run?_tells {e : Effect σ} (plain : e.Plain) (env : Context) {k : Kernel σ}
    (idle : k.Idle) (settings : Settings) (fuel : Nat) :
    RunTells false fuel (start e env) k.world (e.run? settings fuel env k) := by
  have plain_start := plain_start plain env
  rcases settings with ⟨mode, h⟩
  cases mode with
  | sync => exact (runBlocking_tells plain_start h fuel k.world).retimed (.refl _) false
  | async =>
      -- In an idle kernel the new fiber is alone in the queue.
      have begun : k.draw.2.wakeOne k.fresh =
          { k with woken := [k.fresh], fresh := k.fresh + 1 } := by
        unfold Kernel.wakeOne Kernel.draw
        simp only [idle.woken]
        rfl
      have run : e.run? ⟨.async, h⟩ fuel env k =
          Kernel.ended ((k.draw.2.wakeOne k.fresh).drive (fun _ s => s) fuel fuel
            (.fiber ⟨.async, h⟩ k.fresh (.ready (start e env)))) := by
        simp only [Effect.run?, Kernel.runExit, Kernel.draw]
        rcases Kernel.drive (fun _ s => s) fuel fuel
          (.fiber ⟨.async, h⟩ k.fresh (.ready (start e env)))
          (Kernel.wakeOne { k with fresh := k.fresh + 1 } k.fresh) with _ | ⟨_ | x, k'⟩ <;> rfl
      have tells := Kernel.drive_tells (k := { k with woken := [k.fresh], fresh := k.fresh + 1 })
        h fuel fuel .ready plain_start rfl idle.tasks (Nat.lt_succ_self k.fresh)
      rw [run, begun]
      rw [Nat.min_self] at tells
      exact tells.retimed (.refl _) false

/-- A plain effect comes to the same in whatever way it is run, on the spot or in a fiber and
    with delays waited out or not, from any services and any world, where nobody else runs:
    if it ends in two of the ways, it ends in the same outcome, has done the same to the
    state of the program and reported the same events; and it ends in one of them exactly if
    it ends in the other. -/
theorem modes_agree {e : Effect σ} (plain : e.Plain) (env : Context) {k : Kernel σ}
    (idle : k.Idle) (settings settings' : Settings) :
    (∀ {fuel fuel' x x' w w'}, e.run? settings fuel env k = some (x, w) →
      e.run? settings' fuel' env k = some (x', w') → x' = x ∧ w'.Agree w) ∧
    ((∃ fuel, (e.run? settings fuel env k).isSome) ↔
      ∃ fuel, (e.run? settings' fuel env k).isSome) := by
  have tells := run?_tells plain env idle
  -- So many steps are enough that the run on the spot would have to go on after its end.
  have enough : ∀ {settings settings'} {fuel}, (e.run? settings fuel env k).isSome →
      ∃ fuel, (e.run? settings' fuel env k).isSome := by
    intro settings settings' fuel hsome
    rcases Option.isSome_iff_exists.1 hsome with ⟨r, hr⟩
    have hended := tells settings fuel
    rw [hr] at hended
    cases hended with
    | @ended n _ _ _ _ run =>
        refine ⟨3 * n + 5, ?_⟩
        have hother := tells settings' (3 * n + 5)
        generalize e.run? settings' (3 * n + 5) env k = r' at hother ⊢
        cases hother with
        | ended => rfl
        | cut other long =>
            have hle := run.le_of_final other
            omega
  refine ⟨?_, fun ⟨_, hsome⟩ => enough hsome, fun ⟨_, hsome⟩ => enough hsome⟩
  intro fuel fuel' x x' w w' hr hr'
  have hended := tells settings fuel
  have hended' := tells settings' fuel'
  rw [hr] at hended
  rw [hr'] at hended'
  cases hended with
  | ended run same =>
      cases hended' with
      | ended run' same' =>
          rcases run.final_unique run' with ⟨rfl, rfl⟩
          exact ⟨rfl, same'.symm.trans same⟩

namespace Sample

/-- An effect that counts how often it has been run. -/
def tick : Effect Nat :=
  .exit (Act.update fun n => (.success (Value.ofNat n), n + 1))

/-- Two counts side by side, after a while. -/
def lateTicks : Effect Nat :=
  .flatMap (.sleep (Duration.ofMillis 5)) fun _ => pure (.all [tick, tick] .shortCircuit true)

theorem plain_lateTicks : lateTicks.Plain := by
  have each : ∀ e ∈ [tick, tick], e.Plain ∧ e.NeverPauses := by
    intro e he
    simp only [List.mem_cons, List.not_mem_nil, or_false, or_self] at he
    subst he
    exact ⟨.exit, Effect.neverPauses_exit _⟩
  refine .flatMap .sleep fun v s e s' hrun => ?_
  cases hrun
  exact .allPar (fun e he => (each e he).1) fun e he => (each e he).2

end Sample

/-- Two counts after a while: on the spot without waiting, and in a fiber that waits. -/
theorem sample_modes_agree :
    Sample.lateTicks.Plain ∧ (Kernel.start 0).Idle ∧ ∃ w w',
      Sample.lateTicks.run? ⟨.sync, false⟩ 20 Context.empty (Kernel.start 0) =
        some (.success (Outcome.toList [.right (Value.ofNat 0), .right (Value.ofNat 1)]), w) ∧
      Sample.lateTicks.run? ⟨.async, true⟩ 20 Context.empty (Kernel.start 0) =
        some (.success (Outcome.toList [.right (Value.ofNat 0), .right (Value.ofNat 1)]), w') ∧
      w'.Agree w ∧ w.clock = 0 ∧ w'.clock = 5000000 := by
  -- On the spot the delays are not honored, and the clock stays at 0.
  have hspot : Sample.lateTicks.run? ⟨.sync, false⟩ 20 Context.empty (Kernel.start 0) =
      some (.success (Outcome.toList [.right (Value.ofNat 0), .right (Value.ofNat 1)]),
        ⟨2, 0, #[]⟩) := by
    rfl
  have hfiber : Sample.lateTicks.run? ⟨.async, true⟩ 20 Context.empty (Kernel.start 0) =
      some (.success (Outcome.toList [.right (Value.ofNat 0), .right (Value.ofNat 1)]),
        ⟨2, 5000000, #[]⟩) := by
    rfl
  have idle : (Kernel.start 0).Idle := ⟨rfl, rfl⟩
  have agree := modes_agree Sample.plain_lateTicks Context.empty idle ⟨.sync, false⟩ ⟨.async, true⟩
  exact ⟨Sample.plain_lateTicks, idle, _, _, hspot, hfiber, (agree.1 hspot hfiber).2, rfl, rfl⟩

end EffectKernel
