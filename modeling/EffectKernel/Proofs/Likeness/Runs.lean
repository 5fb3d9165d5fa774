import EffectKernel.Proofs.Likeness.Turns
import EffectKernel.Proofs.Modes

/-!
# Runs That Look Alike

What looks alike in every turn looks alike in a whole run. On the spot, a run is nothing but the
steps of one machine. In virtual time the caller waits for something while tasks have their turns
in the order of the queue; since kernels that look alike have woken the same fibers in the same
order, the same tasks have their turns in both, and the clock goes to the same points in time.

So if one of two programs that look alike comes to its end, then so does the other one, in
whatever kernel they are run and whoever else has something to do there, and they have come to the
same: the same outcome, the same state of the program and the same time, and if the events count,
the same events. The steps and rounds that this takes may differ. Since looking alike has no
direction, this is true both ways (`Likeness.Same`).

## Main definitions

* `Kernel.afterTurn`, `Kernel.erranded`: What comes of a task.
* `Likeness.Awaits`: What callers wait for, alike.
* `Likeness.Reflexive`: Everything looks like itself.
* `Machine.EndsOnSpot`, `Machine.EndsInFiber`, `Effect.EndsIn`: What runs come to.
* `Likeness.Same`: Two ways to end cannot be told from each other.

## Theorems

* `Likeness.UpheldOn.runBlocking`: Runs on the spot that look alike.
* `Likeness.Upheld.drive`: Callers that wait alike get the same.
* `Likeness.Upheld.run?`: Runs of effects that look alike.
* `Likeness.UpheldOn.same_onSpot`, `Likeness.Upheld.same_inFiber`, `Likeness.Upheld.same_run`: What
  looks alike cannot be told from each other.
-/

namespace EffectKernel

open Machine

variable {σ : Type}

/-- What callers wait for, alike. -/
inductive Likeness.Awaits (L : Likeness σ) : Await σ → Await σ → Prop where
  | fiber {settings id f f'} (alike : L.Fibers f f') :
      Awaits L (.fiber settings id f) (.fiber settings id f')
  | time {wake} : Awaits L (.time wake) (.time wake)
  | task {id} : Awaits L (.task id) (.task id)
  | quiet : Awaits L .quiet .quiet

/-- What the caller has got, alike. -/
inductive Likeness.Attends (L : Likeness σ) (await' : Await σ) (k' : Kernel σ) :
    Attended σ × Kernel σ → Prop where
  /-- The steps were too few to tell. -/
  | exhausted {k₁} : Attends L await' k' (.exhausted, k₁)
  | done {x k₁ k₁'} (least : Nat)
      (attend : ∀ fuel, least ≤ fuel → k'.attend fuel await' = (.done x, k₁'))
      (kernels : L.Kernels none k₁ k₁') : Attends L await' k' (.done x, k₁)
  | still {a a' k₁ k₁'} (least : Nat)
      (attend : ∀ fuel, least ≤ fuel → k'.attend fuel await' = (.still a', k₁'))
      (alike : L.Awaits a a') (kernels : L.Kernels none k₁ k₁') :
      Attends L await' k' (.still a, k₁)

namespace Machine

variable {settings : Settings} {n : Nat} {m m₁ : Machine σ} {w w₁ : World σ}

/-- The first steps of a run on the spot. -/
theorem runBlocking_steps (run : Steps settings n m w m₁ w₁) (fuel : Nat) :
    m.runBlocking settings (fuel + n) w = m₁.runBlocking settings fuel w₁ := by
  induction run with
  | none => rfl
  | more step _ ih =>
      rw [← Nat.add_assoc, runBlocking, step]
      exact ih

/-- A run on the spot that has too few steps. -/
theorem runBlocking_short (run : Steps settings n m w m₁ w₁) {fuel : Nat} (few : fuel ≤ n) :
    m.runBlocking settings fuel w = none := by
  induction run generalizing fuel with
  | none =>
      rw [Nat.le_zero.1 few]
      rfl
  | more step _ ih =>
      cases fuel with
      | zero => rfl
      | succ fuel =>
          rw [runBlocking, step]
          exact ih (Nat.le_of_succ_le_succ few)

end Machine

/-- A run in virtual time is one of a fiber of the caller's own. -/
theorem Kernel.runExit_eq (observe : Nat → σ → σ) (fuel : Nat) (settings : Settings)
    (e : Effect σ) (env : Context) (k : Kernel σ) : k.runExit observe fuel settings e env =
      match (k.draw.2.wakeOne k.fresh).drive observe fuel fuel
        (.fiber settings k.fresh (.ready (Machine.start e env))) with
      | some (some x, k) => some (x, k)
      | _ => none :=
  rfl

namespace Kernel

/-- The kernel in which a task has its turn. -/
def begun (k : Kernel σ) (id : TaskId) (started : Bool) : Kernel σ :=
  if started then k.unwake id else (k.unwake id).report .fiberStarted

/-- What comes of a task whose fiber has had a turn. -/
def afterTurn (id : TaskId) (settings : Settings) : Turn σ × Kernel σ → Option (Kernel σ)
  | (.exhausted, _) => none
  | (.ended x, k) => some (k.finishTask id x)
  | (.waiting f, k) => some (k.setTask ⟨id, .run true settings f, false⟩)

/-- What comes of an errand. -/
def erranded (k : Kernel σ) (id : TaskId) (due : Nat) (handle : Handle)
    (act : Act σ (List (Signal σ))) : Kernel σ :=
  if due ≤ k.now then
    match act.run k.world.store with
    | (.ok signals, store) => ((k.modifyStore fun _ => store).signalAll signals).dropTask id
    | (.error _, store) => ((k.modifyStore fun _ => store).release handle).dropTask id
  else k

theorem runTask_run (fuel : Nat) (k : Kernel σ) (id : TaskId) (started : Bool)
    (settings : Settings) (f : Fiber σ) :
    k.runTask fuel ⟨id, .run started settings f, false⟩ =
      afterTurn id settings (f.turn settings fuel [id] (k.begun id started)) := by
  unfold runTask begun
  dsimp only
  rw [if_neg Bool.false_ne_true]
  generalize f.turn settings fuel [id] _ = result
  rcases result with ⟨_ | _ | _, _⟩ <;> rfl

theorem runTask_errand (fuel : Nat) (k : Kernel σ) (id : TaskId) (due : Nat) (handle : Handle)
    (act : Act σ (List (Signal σ))) :
    k.runTask fuel ⟨id, .errand due handle act, false⟩ =
      some ((k.unwake id).erranded id due handle act) := by
  unfold runTask erranded
  dsimp only
  rw [if_neg Bool.false_ne_true]
  split
  · generalize act.run (k.unwake id).world.store = result
    rcases result with ⟨_ | _, _⟩ <;> rfl
  · rfl

end Kernel

namespace Likeness

variable {L : Likeness σ} {k k' k₁ : Kernel σ}

/-- Machines that look alike have runs on the spot that look alike. -/
theorem UpheldOn.runBlocking {settings : Settings} (upheld : L.UpheldOn settings) {fuel : Nat}
    {m m' : Machine σ} {w w' v : World σ} {x : Outcome} (alike : L.machines m m')
    (worlds : L.Worlds w w') (run : m.runBlocking settings fuel w = some (x, v)) :
    ∃ fuel' v', m'.runBlocking settings fuel' w' = some (x, v') ∧ L.Worlds v v' := by
  induction fuel using Nat.strong_induction_on generalizing m m' w w' with
  | _ fuel ih =>
      -- A run that has an outcome goes further than some of its steps.
      have further : ∀ {n m₁ w₁}, Steps settings n m w m₁ w₁ →
          ∃ rest, fuel = rest + 1 + n ∧ m₁.runBlocking settings (rest + 1) w₁ = some (x, v) := by
        intro n m₁ w₁ steps
        rcases Nat.lt_or_ge n fuel with more | few
        · rcases Nat.exists_eq_add_of_lt more with ⟨rest, rfl⟩
          have same : n + rest + 1 = rest + 1 + n := by omega
          rw [same, runBlocking_steps steps] at run
          exact ⟨rest, same, run⟩
        · rw [runBlocking_short steps few] at run
          cases run
      cases upheld alike worlds with
      | ended left right worlds =>
          rcases further left with ⟨rest, -, run⟩
          cases run
          exact ⟨_, _, runBlocking_steps right 1, worlds⟩
      | ahead left moves right moves' alike worlds =>
          rcases further left with ⟨rest, rfl, rest_run⟩
          rcases ih (rest + 1) (by omega) alike worlds rest_run with ⟨fuel', v', run', worlds'⟩
          exact ⟨_, v', (runBlocking_steps right fuel').trans run', worlds'⟩
      | asking left asks right asks' alike worlds =>
          rcases further left with ⟨rest, -, run⟩
          rw [Machine.runBlocking, asks] at run
          cases run
          refine ⟨_, _, (runBlocking_steps right 1).trans ?_, worlds⟩
          rw [Machine.runBlocking, asks']

/-! ### Tasks -/

namespace Kernels

/-- The task with a number, in both. -/
theorem task? (h : L.Kernels none k k') (id : TaskId) :
    (k.task? id = none ∧ k'.task? id = none) ∨
      ∃ task task', k.task? id = some task ∧ k'.task? id = some task' ∧ L.Tasks task task' := by
  unfold Kernel.task?
  have tasks := h.tasks
  generalize k.tasks = left at tasks ⊢
  generalize k'.tasks = right at tasks ⊢
  induction tasks with
  | nil => exact .inl ⟨rfl, rfl⟩
  | @cons task task' _ _ alike _ ih =>
      rw [List.find?_cons, List.find?_cons, alike.id]
      split
      · exact .inr ⟨task, task', rfl, rfl, alike⟩
      · exact ih

/-- The first task in the queue, in both. -/
theorem nextTask? (h : L.Kernels none k k') :
    (k.nextTask? = none ∧ k'.nextTask? = none) ∨
      ∃ task task', k.nextTask? = some task ∧ k'.nextTask? = some task' ∧ L.Tasks task task' := by
  unfold Kernel.nextTask?
  rw [h.woken]
  induction k'.woken with
  | nil => exact .inl ⟨rfl, rfl⟩
  | cons id rest ih =>
      rw [List.findSome?_cons, List.findSome?_cons]
      rcases h.task? id with ⟨left, right⟩ | ⟨task, task', left, right, alike⟩
      · rw [left, right]
        exact ih
      · rw [left, right]
        exact .inr ⟨task, task', rfl, rfl, alike⟩

theorem dropTask (h : L.Kernels none k k') (id : TaskId) :
    L.Kernels none (k.dropTask id) (k'.dropTask id) := by
  refine { h with tasks := ?_ }
  change List.Forall₂ L.Tasks (k.tasks.filter _) (k'.tasks.filter _)
  have tasks := h.tasks
  generalize k.tasks = left at tasks ⊢
  generalize k'.tasks = right at tasks ⊢
  induction tasks with
  | nil => exact .nil
  | cons alike _ ih =>
      rw [List.filter_cons, List.filter_cons, alike.id]
      split
      · exact .cons alike ih
      · exact ih

theorem setTask (h : L.Kernels none k k') {task task' : Task σ} (alike : L.Tasks task task') :
    L.Kernels none (k.setTask task) (k'.setTask task') := by
  refine { h with tasks := ?_ }
  change List.Forall₂ L.Tasks (k.tasks.map _) (k'.tasks.map _)
  rw [alike.id]
  have tasks := h.tasks
  generalize k.tasks = left at tasks ⊢
  generalize k'.tasks = right at tasks ⊢
  -- Tasks that look alike have the same number, so the same places are replaced.
  induction tasks with
  | nil => exact .nil
  | cons same _ ih =>
      rw [List.map_cons, List.map_cons, same.id]
      refine .cons ?_ ih
      split
      · exact alike
      · exact same

/-- In both, the callback of a fiber is called. -/
theorem deliver (h : L.Kernels none k k') (id : TaskId) (x : Outcome) :
    L.Kernels none (k.deliver id x) (k'.deliver id x) := by
  unfold Kernel.deliver Kernel.callback?
  rw [h.callbacks]
  split
  · refine Kernels.modifyStore ?_ _
    exact { h with
      callbacks := rfl
      calls := congrArg (· ++ [(id, x)]) h.calls }
  · exact h

end Kernels

theorem Works.nextWake {work work' : Work σ} (h : L.Works work work') :
    work.nextWake = work'.nextWake := by
  cases h with
  | run alike => exact alike.nextWake
  | errand => rfl

theorem Works.dueAt {work work' : Work σ} (h : L.Works work work') (now : Nat) (path : Path) :
    work.dueAt now path = work'.dueAt now path := by
  cases h with
  | run alike => exact alike.dueAt now path
  | errand => rfl

theorem Works.handles {work work' : Work σ} (h : L.Works work work') :
    work.handles = work'.handles := by
  cases h with
  | run alike => exact alike.handles
  | errand => rfl

theorem Awaits.nextWake {await await' : Await σ} (h : L.Awaits await await') :
    await.nextWake = await'.nextWake := by
  cases h with
  | fiber alike => exact alike.nextWake
  | time | task | quiet => rfl

theorem Awaits.dueAt {await await' : Await σ} (h : L.Awaits await await') (now : Nat) :
    await.dueAt now = await'.dueAt now := by
  cases h with
  | fiber alike => exact alike.dueAt now _
  | time | task | quiet => rfl

/-- An errand is done in kernels that look alike. -/
theorem Kernels.erranded (h : L.Kernels none k k') (id : TaskId) (due : Nat) (handle : Handle)
    {act act' : Act σ (List (Signal σ))}
    (alike : ∀ s, Gives (List.Forall₂ (Signal.Alike L.effects)) (fun _ _ => False) (act.run s)
      (act'.run s)) :
    L.Kernels none (k.erranded id due handle act) (k'.erranded id due handle act') := by
  have gives := alike k.world.store
  unfold Kernel.erranded
  rw [← h.now, ← h.worlds.store]
  split
  -- The stores are equal, so both errands run on the same one.
  · generalize act.run k.world.store = result at gives ⊢
    generalize act'.run k.world.store = result' at gives ⊢
    cases gives with
    | ok signals => exact ((h.modifyStore _).signalAll signals).dropTask id
    | error => exact ((h.modifyStore _).release handle).dropTask id
    | death death => exact death.elim
  · exact h

/-- Tasks that look alike have turns that look alike. -/
theorem Upheld.runTask (upheld : L.Upheld) {fuel : Nat} {task task' : Task σ}
    (alike : L.Tasks task task') (h : L.Kernels none k k')
    (run : k.runTask fuel task = some k₁) :
    ∃ k₁', k'.Runs task' k₁' ∧ L.Kernels none k₁ k₁' := by
  rcases task with ⟨id, work, cancelled⟩
  rcases task' with ⟨id', work', cancelled'⟩
  rcases alike with ⟨rfl, works, rfl⟩
  have turned := h.unwake id
  cases cancelled with
  | true =>
      cases run
      refine ⟨_, ⟨0, fun _ _ => rfl⟩, ?_⟩
      dsimp only
      rw [works.handles]
      exact (turned.leaveAll _).dropTask id
  | false =>
      cases works with
      | @run started settings f f' fibers =>
          have begun : L.Kernels none (k.begun id started) (k'.begun id started) := by
            cases started with
            | true => exact turned
            | false => exact turned.report _
          -- The other side's turn may need another amount of fuel, which is why only some least
          -- amount is promised.
          have answered := (turn_answered upheld fuel).1 settings [id] fibers begun
          rw [Kernel.runTask_run] at run
          generalize f.turn settings fuel [id] (k.begun id started) = result at answered run
          cases answered with
          | exhausted => cases run
          | ended turns kernels =>
              rcases turns with ⟨least, turns⟩
              cases run
              refine ⟨_, ⟨least, fun fuel' hfuel => ?_⟩,
                ((kernels.report _).deliver id _).dropTask id⟩
              rw [Kernel.runTask_run, turns fuel' hfuel]
              rfl
          | @waiting g g' k₁ k₁' turns same kernels =>
              rcases turns with ⟨least, turns⟩
              cases run
              have tasks : L.Tasks ⟨id, .run true settings g, false⟩
                ⟨id, .run true settings g', false⟩ := ⟨rfl, .run same, rfl⟩
              refine ⟨_, ⟨least, fun fuel' hfuel => ?_⟩, kernels.setTask tasks⟩
              rw [Kernel.runTask_run, turns fuel' hfuel]
              rfl
      | errand acts =>
          rw [Kernel.runTask_errand] at run
          cases run
          exact ⟨_, ⟨0, fun _ _ => Kernel.runTask_errand ..⟩, turned.erranded id _ _ acts⟩

/-- Batches of tasks that look alike. -/
theorem Upheld.runBatch (upheld : L.Upheld) {fuel n : Nat} (h : L.Kernels none k k')
    (run : k.runBatch fuel n = some k₁) :
    ∃ least k₁', (∀ fuel', least ≤ fuel' → k'.runBatch fuel' n = some k₁') ∧
      L.Kernels none k₁ k₁' := by
  induction n generalizing k k' with
  | zero =>
      cases run
      exact ⟨0, k', fun _ _ => rfl, h⟩
  | succ n ih =>
      rw [Kernel.runBatch] at run
      rcases h.nextTask? with ⟨left, right⟩ | ⟨task, task', left, right, alike⟩
      · rw [left] at run
        cases run
        exact ⟨0, k', fun _ _ => by rw [Kernel.runBatch, right], h⟩
      · rw [left] at run
        dsimp only at run
        cases first : k.runTask fuel task with
        | none =>
            rw [first] at run
            cases run
        | some k₂ =>
            rw [first] at run
            rcases upheld.runTask alike h first with ⟨k₂', ⟨least, runs⟩, kernels⟩
            rcases ih kernels run with ⟨least', k₁', rest, kernels'⟩
            -- Enough for this task and for the rest of the batch.
            refine ⟨max least least', k₁', fun fuel' hfuel => ?_, kernels'⟩
            simp only [Kernel.runBatch, right, runs fuel' (by omega), rest fuel' (by omega)]

/-! ### The caller -/

section Caller

variable {await await' : Await σ}

/-- Kernels that look alike have something to do at the same moments. -/
theorem Awaits.isBusy (alike : L.Awaits await await') (h : L.Kernels none k k') :
    k.isBusy await = k'.isBusy await' := by
  -- Kernels that look alike have tasks with the same numbers, so all that is awaited is found in
  -- both or in neither.
  have tasks : ∀ id, (k.task? id).isNone = (k'.task? id).isNone := by
    intro id
    rcases h.task? id with ⟨left, right⟩ | ⟨_, _, left, right, -⟩
    · rw [left, right]
    · rw [left, right]
      rfl
  have next : k.nextTask?.isSome = k'.nextTask?.isSome := by
    rcases h.nextTask? with ⟨left, right⟩ | ⟨_, _, left, right, -⟩
    · rw [left, right]
    · rw [left, right]
      rfl
  unfold Kernel.isBusy
  rw [next]
  cases alike with
  | fiber => exact congrArg _ (h.isWoken _)
  | time =>
      dsimp only
      rw [h.now]
  | task => exact congrArg _ (tasks _)
  | quiet => rfl

/-- Kernels that look alike have the same next wake-up. -/
theorem Awaits.next (alike : L.Awaits await await') (h : L.Kernels none k k') :
    k.nextWake await = k'.nextWake await' := by
  unfold Kernel.nextWake
  rw [alike.nextWake]
  generalize await'.nextWake = time
  have tasks := h.tasks
  generalize k.tasks = left at tasks ⊢
  generalize k'.tasks = right at tasks ⊢
  induction tasks generalizing time with
  | nil => rfl
  | cons first _ ih =>
      rw [List.foldl_cons, List.foldl_cons, first.work.nextWake]
      exact ih _

/-- The clock goes to the same point in time. -/
theorem Awaits.advance (alike : L.Awaits await await') (h : L.Kernels none k k') (time : Nat) :
    L.Kernels none (k.advance await time) (k'.advance await' time) := by
  -- What is due does not depend on what the tasks run.
  have due : (k.tasks.flatMap fun task => task.work.dueAt time [task.id]) =
      k'.tasks.flatMap fun task => task.work.dueAt time [task.id] := by
    have tasks := h.tasks
    generalize k.tasks = left at tasks ⊢
    generalize k'.tasks = right at tasks ⊢
    induction tasks with
    | nil => rfl
    | cons first _ ih => rw [List.flatMap_cons, List.flatMap_cons, first.work.dueAt, first.id, ih]
  have moved := (h.world (h.worlds.timed time)).requeue []
  unfold Kernel.advance
  dsimp only
  rw [due, alike.dueAt, Kernel.foldl_wake_enqueue, Kernel.foldl_wake_enqueue]
  exact moved.requeue _

/-- Callers that wait alike are looked at alike. -/
theorem Upheld.attend (upheld : L.Upheld) (alike : L.Awaits await await')
    (h : L.Kernels none k k') (fuel : Nat) : L.Attends await' k' (k.attend fuel await) := by
  unfold Kernel.attend
  -- Points in time, tasks and quiet are read off the kernel; only a fiber has a turn of its own.
  cases alike with
  | @time wake =>
      have same : (if wake ≤ k.now then Attended.done none else .still (.time wake)) =
          (if wake ≤ k'.now then Attended.done none else .still (.time wake) : Attended σ) := by
        rw [h.now]
      dsimp only
      rw [same]
      split
      · next due => exact .done 0 (fun _ _ => by simp only [Kernel.attend, if_pos due]) h
      · next early => exact .still 0 (fun _ _ => by simp only [Kernel.attend, if_neg early]) .time h
  | @task id =>
      dsimp only
      rcases h.task? id with ⟨left, right⟩ | ⟨_, _, left, right, -⟩
      · rw [left]
        exact .done 0 (fun _ _ => by simp [Kernel.attend, right]) h
      · rw [left]
        exact .still 0 (fun _ _ => by simp [Kernel.attend, right]) .task h
  | quiet =>
      dsimp only
      rcases h.nextTask? with ⟨left, right⟩ | ⟨_, _, left, right, -⟩
      · rw [left]
        exact .done 0 (fun _ _ => by simp [Kernel.attend, right]) h
      · rw [left]
        exact .still 0 (fun _ _ => by simp [Kernel.attend, right]) .quiet h
  | @fiber settings id f f' fibers =>
      dsimp only
      rw [h.isWoken id]
      split
      · next woken =>
          have answered := (turn_answered upheld fuel).1 settings [id]
            fibers (h.unwake id)
          generalize f.turn settings fuel [id] (k.unwake id) = result at answered ⊢
          cases answered with
          | exhausted => exact .exhausted
          | ended turns kernels =>
              rcases turns with ⟨least, turns⟩
              exact .done least (fun fuel' hfuel => by
                simp only [Kernel.attend, if_pos woken, turns fuel' hfuel]) kernels
          | waiting turns same kernels =>
              rcases turns with ⟨least, turns⟩
              exact .still least (fun fuel' hfuel => by
                simp only [Kernel.attend, if_pos woken, turns fuel' hfuel]) (.fiber same) kernels
      · next away =>
          exact .still 0 (fun _ _ => by simp only [Kernel.attend, if_neg away]) (.fiber fibers) h

/-- Callers that wait alike get the same, if steps and rounds are many enough. -/
theorem Upheld.drive (upheld : L.Upheld) (observe : Nat → σ → σ) {fuel rounds : Nat}
    {x : Option Outcome} (alike : L.Awaits await await') (h : L.Kernels none k k')
    (run : k.drive observe fuel rounds await = some (x, k₁)) :
    ∃ least k₁', (∀ fuel' rounds', least ≤ fuel' → least ≤ rounds' →
      k'.drive observe fuel' rounds' await' = some (x, k₁')) ∧ L.Kernels none k₁ k₁' := by
  induction rounds generalizing await await' k k' with
  | zero => cases run
  | succ rounds ih =>
      rw [Kernel.drive] at run
      have attends := upheld.attend alike h fuel
      generalize k.attend fuel await = attended at attends run
      -- One more round is needed than for what comes after this one.
      have round : ∀ least {k₁'}, (∀ fuel' rounds', least ≤ fuel' → least ≤ rounds' →
          k'.drive observe fuel' (rounds' + 1) await' = some (x, k₁')) →
          ∀ fuel' rounds', least + 1 ≤ fuel' → least + 1 ≤ rounds' →
            k'.drive observe fuel' rounds' await' = some (x, k₁') := by
        intro least k₁' enough fuel' rounds' hfuel hrounds
        rcases Nat.exists_eq_add_of_le' (Nat.le_trans (Nat.le_add_left 1 least) hrounds) with
          ⟨rounds', rfl⟩
        exact enough fuel' rounds' (by omega) (by omega)
      cases attends with
      | exhausted => cases run
      | done least attend kernels =>
          cases run
          refine ⟨_, _, round least fun fuel' rounds' hfuel _ => ?_, kernels⟩
          rw [Kernel.drive, attend fuel' hfuel]
      | @still a a' k₂ k₂' least attend same kernels =>
          dsimp only at run
          cases batch : k₂.runBatch fuel Kernel.batchSize with
          | none =>
              rw [batch] at run
              cases run
          | some k₃ =>
              rw [batch] at run
              dsimp only at run
              rcases upheld.runBatch kernels batch with ⟨least', k₃', batch', kernels'⟩
              rw [same.isBusy kernels', same.next kernels', kernels'.now] at run
              split at run
              · next busy =>
                  rcases ih same kernels' run with ⟨least'', k₁', rest, kernels''⟩
                  refine ⟨_, k₁', round (max (max least least') least'')
                    fun fuel' rounds' hfuel hrounds => ?_, kernels''⟩
                  simp only [Kernel.drive, attend fuel' (by omega), batch' fuel' (by omega),
                    if_pos busy, rest fuel' rounds' (by omega) (by omega)]
              · next idle =>
                  cases next : k₃'.nextWake a' with
                  | none =>
                      rw [next] at run
                      cases run
                  | some time =>
                      rw [next] at run
                      have moved := same.advance (kernels'.modifyStore (observe k₃'.now)) time
                      rcases ih same moved run with ⟨least'', k₁', rest, kernels''⟩
                      refine ⟨_, k₁', round (max (max least least') least'')
                        fun fuel' rounds' hfuel hrounds => ?_, kernels''⟩
                      simp only [Kernel.drive, attend fuel' (by omega), batch' fuel' (by omega),
                        if_neg idle, next, rest fuel' rounds' (by omega) (by omega)]

/-- Effects that look alike are run to the same end. -/
theorem Upheld.runExit (upheld : L.Upheld) (observe : Nat → σ → σ) {settings : Settings}
    {fuel : Nat} {e e' : Effect σ} {env : Context} {x : Outcome} (starts : L.Starts env env e e')
    (h : L.Kernels none k k') (run : k.runExit observe fuel settings e env = some (x, k₁)) :
    ∃ least k₁', (∀ fuel', least ≤ fuel' →
      k'.runExit observe fuel' settings e' env = some (x, k₁')) ∧ L.Kernels none k₁ k₁' := by
  rw [Kernel.runExit_eq] at run
  have woken := h.draw.2.wakeOne k.fresh
  -- A run draws a number for its fiber and drives it; both draw the same number.
  cases ran : (k.draw.2.wakeOne k.fresh).drive observe fuel fuel
      (.fiber settings k.fresh (.ready (Machine.start e env))) with
  | none =>
      rw [ran] at run
      cases run
  | some result =>
      rcases result with ⟨_ | y, k₂⟩
      · rw [ran] at run
        cases run
      · rcases upheld.drive observe (.fiber (.ready starts)) woken ran with
          ⟨least, k₁', run', kernels⟩
        rw [ran] at run
        cases run
        refine ⟨least, k₁', fun fuel' hfuel => ?_, kernels⟩
        rw [Kernel.runExit_eq, ← h.fresh, run' fuel' fuel' hfuel hfuel]

/-- An effect and one that looks alike come to the same in every way to run them. -/
theorem Upheld.run? (upheld : L.Upheld) {settings : Settings} {fuel : Nat} {e e' : Effect σ}
    {env : Context} {x : Outcome} {v : World σ} (starts : L.Starts env env e e')
    (h : L.Kernels none k k') (run : e.run? settings fuel env k = some (x, v)) :
    ∃ fuel' v', e'.run? settings fuel' env k' = some (x, v') ∧ L.Worlds v v' := by
  rcases settings with ⟨_ | _, honor⟩
  · exact (upheld.on _).runBlocking starts h.worlds run
  · unfold Effect.run? at run
    rcases Option.map_eq_some_iff.1 run with ⟨⟨y, k₁⟩, ran, heq⟩
    cases heq
    rcases upheld.runExit _ starts h ran with ⟨least, k₁', run', kernels⟩
    refine ⟨least, k₁'.world, ?_, kernels.worlds⟩
    simp only [Effect.run?, run' least (Nat.le_refl least), Option.map_some]

end Caller

/-- Where the events count, worlds that do not differ are the same. -/
theorem Worlds.eq {w w' : World σ} (h : L.Worlds w w') (exact : L.exact) : w = w' := by
  rcases w with ⟨store, clock, events⟩
  rcases w' with ⟨store', clock', events'⟩
  rcases h with ⟨rfl, rfl, same⟩
  cases same exact
  rfl

/-! ### Looking like oneself -/

/-- Everything looks like itself. -/
structure Reflexive (L : Likeness σ) : Prop where
  effects : ∀ e, L.effects e e
  machines : ∀ m, L.machines m m
  points : ∀ point, L.Points point point

end Likeness

mutual
theorem Signal.Alike.refl {Like : Effect σ → Effect σ → Prop} (refl : ∀ e, Like e e) :
    (signal : Signal σ) → Signal.Alike Like signal signal
  | .complete _ _ => .complete
  | .resume _ e => .resume (refl e)
  | .release _ => .release
  | .later _ _ act => .later fun s => Signal.alike_refl_act refl act s

theorem Signal.alike_refl_act {Like : Effect σ → Effect σ → Prop} (refl : ∀ e, Like e e) :
    (act : Act σ (List (Signal σ))) → ∀ s,
      Gives (List.Forall₂ (Signal.Alike Like)) (fun _ _ => False) (act.run s) (act.run s)
  | ⟨run⟩, s => Signal.alike_refl_gives refl (run s)

theorem Signal.alike_refl_gives {Like : Effect σ → Effect σ → Prop} (refl : ∀ e, Like e e) :
    (r : Except Panic (List (Signal σ)) × σ) →
      Gives (List.Forall₂ (Signal.Alike Like)) (fun _ _ => False) r r
  | (.ok signals, _) => .ok (Signal.alike_refl_all refl signals)
  | (.error _, _) => .error

theorem Signal.alike_refl_all {Like : Effect σ → Effect σ → Prop} (refl : ∀ e, Like e e) :
    (signals : List (Signal σ)) → List.Forall₂ (Signal.Alike Like) signals signals
  | [] => .nil
  | signal :: rest => .cons (Signal.Alike.refl refl signal) (Signal.alike_refl_all refl rest)
end

namespace Likeness

variable {L : Likeness σ}

mutual
theorem Fibers.refl (refl : L.Reflexive) : (f : Fiber σ) → L.Fibers f f
  | .ready m => .ready (refl.machines m)
  | .asleep _ m => .asleep (refl.machines m)
  | .yielded m => .yielded (refl.machines m)
  | .listening _ point => .listening (refl.points point)
  | .limited _ _ inner point => .limited (Fibers.refl refl inner) (refl.points point)
  | .joining _ children point => .joining (Children.refl refl children) (refl.points point)

theorem Children.refl (refl : L.Reflexive) :
    (children : List (FiberId × Nat × Fiber σ)) → L.Children children children
  | [] => .nil
  | (_, _, f) :: rest => .cons (Fibers.refl refl f) (Children.refl refl rest)
end

theorem Slots.refl (refl : L.Reflexive) (slot : Option (Slot σ)) : L.Slots slot slot := by
  rcases slot with _ | _ | ⟨_ | e⟩ | _ | _
  · exact .none
  · exact .waiting
  · exact .filled .outcome
  · exact .filled (.effect (refl.effects e))
  · exact .released
  · exact .abandoned

theorem Tasks.refl (refl : L.Reflexive) (task : Task σ) : L.Tasks task task := by
  rcases task with ⟨id, ⟨started, settings, f⟩ | ⟨due, handle, act⟩, cancelled⟩
  · exact ⟨rfl, .run (.refl refl f), rfl⟩
  · exact ⟨rfl, .errand (Signal.alike_refl_act refl.effects act), rfl⟩

/-- Every kernel looks like itself. -/
theorem Kernels.refl (refl : L.Reflexive) (k : Kernel σ) : L.Kernels none k k where
  worlds := .refl k.world
  woken := rfl
  slots handle := .of_ne (by simp) (.refl refl _)
  tasks := List.forall₂_same.2 fun task _ => .refl refl task
  callbacks := rfl
  calls := rfl
  fresh := rfl

theorem Reflexive.symm (refl : L.Reflexive) : L.symm.Reflexive where
  effects := refl.effects
  machines := refl.machines
  points point := (refl.points point).symm

/-! ### What runs come to -/

/-- Two ways to end cannot be told from each other: what the one comes to, the other one comes to,
    too. -/
structure Same (L : Likeness σ) (ends ends' : Outcome → World σ → Prop) : Prop where
  forth : ∀ {x v}, ends x v → ∃ v', ends' x v' ∧ L.Worlds v v'
  back : ∀ {x v'}, ends' x v' → ∃ v, ends x v ∧ L.symm.Worlds v' v

section Same

variable {ends ends' : Outcome → World σ → Prop}

/-- Where the events count, nothing differs. -/
theorem Same.iff (same : L.Same ends ends') (exact : L.exact) (x : Outcome) (v : World σ) :
    ends x v ↔ ends' x v := by
  refine ⟨fun h => ?_, fun h => ?_⟩
  · rcases same.forth h with ⟨v', h', worlds⟩
    rwa [worlds.eq exact]
  · rcases same.back h with ⟨v', h', worlds⟩
    rwa [worlds.eq exact]

/-- Where they do not, the state of the program and the time are the same. -/
theorem Same.iff_store (same : L.Same ends ends') (x : Outcome) (s : σ) (time : Nat) :
    (∃ v, ends x v ∧ v.store = s ∧ v.clock = time) ↔
      ∃ v, ends' x v ∧ v.store = s ∧ v.clock = time := by
  refine ⟨?_, ?_⟩
  · rintro ⟨v, h, rfl, rfl⟩
    rcases same.forth h with ⟨v', h', worlds⟩
    exact ⟨v', h', worlds.store.symm, worlds.clock.symm⟩
  · rintro ⟨v, h, rfl, rfl⟩
    rcases same.back h with ⟨v', h', worlds⟩
    exact ⟨v', h', worlds.store.symm, worlds.clock.symm⟩

end Same

end Likeness

/-- How a machine ends on the spot. -/
def Machine.EndsOnSpot (m : Machine σ) (settings : Settings) (w : World σ) (x : Outcome)
    (v : World σ) : Prop :=
  ∃ fuel, m.runBlocking settings fuel w = some (x, v)

/-- How a machine ends in a fiber that the caller waits for. -/
def Machine.EndsInFiber (m : Machine σ) (settings : Settings) (observe : Nat → σ → σ)
    (id : FiberId) (k : Kernel σ) (x : Outcome) (v : World σ) : Prop :=
  ∃ fuel rounds k', k.drive observe fuel rounds (.fiber settings id (.ready m)) =
    some (some x, k') ∧ k'.world = v

/-- How an effect ends in one of the ways to run it. -/
def Effect.EndsIn (e : Effect σ) (settings : Settings) (env : Context) (k : Kernel σ) (x : Outcome)
    (v : World σ) : Prop :=
  ∃ fuel, e.run? settings fuel env k = some (x, v)

namespace Likeness

variable {L : Likeness σ} {m m' : Machine σ}

/-- On the spot, machines that look alike cannot be told from each other. -/
theorem UpheldOn.same_onSpot {settings : Settings} (upheld : L.UpheldOn settings)
    (alike : L.machines m m') (w : World σ) :
    L.Same (m.EndsOnSpot settings w) (m'.EndsOnSpot settings w) where
  forth := fun ⟨_, run⟩ =>
    have ⟨fuel', v', run', worlds⟩ := upheld.runBlocking alike (.refl w) run
    ⟨v', ⟨fuel', run'⟩, worlds⟩
  back := fun ⟨_, run⟩ =>
    have ⟨fuel', v', run', worlds⟩ := upheld.symm.runBlocking (L := L.symm) alike (.refl w) run
    ⟨v', ⟨fuel', run'⟩, worlds⟩

/-- Neither can they in a fiber. -/
theorem Upheld.same_inFiber (upheld : L.Upheld) (refl : L.Reflexive) (alike : L.machines m m')
    (settings : Settings) (observe : Nat → σ → σ) (id : FiberId) (k : Kernel σ) :
    L.Same (m.EndsInFiber settings observe id k) (m'.EndsInFiber settings observe id k) where
  forth := by
    rintro x v ⟨fuel, rounds, k₁, run, rfl⟩
    rcases upheld.drive observe (.fiber (.ready alike)) (.refl refl k) run with
      ⟨least, k₁', run', kernels⟩
    exact ⟨_, ⟨least, least, k₁', run' least least (Nat.le_refl _) (Nat.le_refl _), rfl⟩,
      kernels.worlds⟩
  -- The likeness read the other way round is upheld as well.
  back := by
    rintro x v ⟨fuel, rounds, k₁, run, rfl⟩
    rcases upheld.symm.drive (L := L.symm) observe (.fiber (.ready alike)) (.refl refl.symm k)
      run with ⟨least, k₁', run', kernels⟩
    exact ⟨_, ⟨least, least, k₁', run' least least (Nat.le_refl _) (Nat.le_refl _), rfl⟩,
      kernels.worlds⟩

/-- Effects that look alike cannot be told from each other in any way to run them. -/
theorem Upheld.same_run (upheld : L.Upheld) (refl : L.Reflexive) {e e' : Effect σ} {env : Context}
    (starts : L.Starts env env e e') (settings : Settings) (k : Kernel σ) :
    L.Same (e.EndsIn settings env k) (e'.EndsIn settings env k) where
  forth := fun ⟨_, run⟩ =>
    have ⟨fuel', v', run', worlds⟩ := upheld.run? starts (.refl refl k) run
    ⟨v', ⟨fuel', run'⟩, worlds⟩
  back := fun ⟨_, run⟩ =>
    have ⟨fuel', v', run', worlds⟩ := upheld.symm.run? (L := L.symm) starts
      (.refl refl.symm k) run
    ⟨v', ⟨fuel', run'⟩, worlds⟩

end Likeness

end EffectKernel
