import EffectKernel.Proofs.Moves

/-!
# Histories

What can happen to fibers, one thing after the other and in any order. A turn of a task is a
function of the kernel, and so are the other things that can happen; but when they happen is
for those outside to say. A history leaves that open. Fibers take their steps, and between
any two steps somebody may use a handle or let it go, tell a task to stop, call the callback
of a fiber that is to stop, start another fiber, or let time go by.

A task is polled. A poll begins with a task that has not been told to stop, and the fiber takes
steps only in a poll. Polls of different tasks may overlap, and so a scene keeps the tasks whose
polls have begun and not ended. A task that is told to stop during its poll finishes the poll,
and one that is told to stop at any other time is not polled again.

A property of all histories holds in whatever order things happen. The turns that the kernel
gives are among them: a turn of a task is a history (`runTask_history`), and so is everything
that happens while a caller waits for something (`drive_history`).

## Main definitions

* `Scene`: The kernel, the fibers that callers run themselves, and the polls in progress.
* `Deed`, `Scene.Happens`: Something that happens in a scene.
* `Scene.History`: What happens one after the other.

## Theorems

* `Scene.Happens.sound`, `Scene.History.sound`: Numbers are given out before they are used.
* `Kernel.runTask_history`: A turn of a task is a history.
* `Kernel.drive_history`: While a caller waits, a history takes place.
-/

namespace EffectKernel

variable {σ : Type}

/-- A fiber that a caller runs itself. -/
structure Caller (σ : Type) where
  /-- Its number. -/
  id : FiberId
  /-- How it is run. -/
  settings : Settings
  /-- The fiber. -/
  fiber : Fiber σ

/-- The kernel, with the fibers that callers run themselves and the polls in progress. -/
structure Scene (σ : Type) where
  /-- What fibers share. -/
  kernel : Kernel σ
  /-- The fibers that are not run by tasks. -/
  callers : List (Caller σ)
  /-- The tasks whose polls have begun and not ended. -/
  polls : List TaskId

/-- Something that happens in a scene. -/
inductive Deed (σ : Type) where
  /-- A poll of a task begins. -/
  | polled (id : TaskId)
  /-- The fiber of a task that is being polled takes some steps. -/
  | moved (id : TaskId) (marks : List (Mark σ))
  /-- A poll of a task ends, and the fiber waits. -/
  | rested (id : TaskId)
  /-- A poll of a task ends with its fiber, which the callback hears of. -/
  | completed (id : TaskId) (x : Outcome)
  /-- A task that has been told to stop goes away, and everybody in it. -/
  | vanished (id : TaskId) (handles : List Handle)
  /-- The first part of a cancel: a task is told to stop. -/
  | aborted (id : TaskId)
  /-- The second part of a cancel: the callback of a fiber is told of it. -/
  | interrupted (id : TaskId)
  /-- The handle on a fiber is let go. -/
  | dropped (id : TaskId)
  /-- Somebody has waited for a task, and it is gone. -/
  | joined (id : TaskId)
  /-- Something else. -/
  | elsewhere (marks : List (Mark σ))

namespace Deed

/-- The marks that are left. -/
def marks : Deed σ → List (Mark σ)
  | .moved _ marks => marks
  | .vanished _ handles => handles.map .left
  | .elsewhere marks => marks
  | _ => []

end Deed

namespace Scene

/-- What can happen in a scene. -/
inductive Happens : Scene σ → Deed σ → Scene σ → Prop where
  /-- A poll of a task begins. The first one is reported. -/
  | polls {k : Kernel σ} {callers polls id started settings fiber}
      (task : k.task? id = some ⟨id, .run started settings fiber, false⟩) (idle : id ∉ polls) :
      Happens ⟨k, callers, polls⟩ (.polled id)
        ⟨if started then k else k.report .fiberStarted, callers, id :: polls⟩
  /-- The fiber of a task takes some steps, also if the task has been told to stop since the
      poll began. -/
  | moves {k : Kernel σ} {callers polls id started settings fiber cancelled marks fiber' k'}
      (task : k.task? id = some ⟨id, .run started settings fiber, cancelled⟩) (poll : id ∈ polls)
      (moves : Fiber.Moves settings [id] fiber k marks fiber' k') :
      Happens ⟨k, callers, polls⟩ (.moved id marks)
        ⟨k'.setTask ⟨id, .run true settings fiber', cancelled⟩, callers, polls⟩
  /-- A poll of a task ends, and the fiber waits. -/
  | rests {k : Kernel σ} {callers polls id settings fiber cancelled}
      (task : k.task? id = some ⟨id, .run true settings fiber, cancelled⟩) (poll : id ∈ polls) :
      Happens ⟨k, callers, polls⟩ (.rested id) ⟨k, callers, polls.filter (· != id)⟩
  /-- A poll of a task ends with its fiber. -/
  | completes {k : Kernel σ} {callers polls id settings x env cancelled}
      (task : k.task? id =
        some ⟨id, .run true settings (.ready ⟨.unwind x, env, []⟩), cancelled⟩)
      (poll : id ∈ polls) :
      Happens ⟨k, callers, polls⟩ (.completed id x)
        ⟨k.finishTask id x, callers, polls.filter (· != id)⟩
  /-- A task that has been told to stop and is not being polled goes away. -/
  | vanishes {k : Kernel σ} {callers polls id work}
      (task : k.task? id = some ⟨id, work, true⟩) (idle : id ∉ polls) :
      Happens ⟨k, callers, polls⟩ (.vanished id work.handles)
        ⟨(k.leaveAll work.handles).dropTask id, callers, polls⟩
  /-- An errand is done. -/
  | errand {k : Kernel σ} {callers polls id due handle act signals store}
      (task : k.task? id = some ⟨id, .errand due handle act, false⟩)
      (run : act.run k.world.store = (.ok signals, store)) :
      Happens ⟨k, callers, polls⟩ (.elsewhere (signals.flatMap Signal.marks))
        ⟨((k.modifyStore fun _ => store).signalAll signals).dropTask id, callers, polls⟩
  /-- An errand panics, and lets its handle go. -/
  | errandPanics {k : Kernel σ} {callers polls id due handle act p store}
      (task : k.task? id = some ⟨id, .errand due handle act, false⟩)
      (run : act.run k.world.store = (.error p, store)) :
      Happens ⟨k, callers, polls⟩ (.elsewhere [.released handle])
        ⟨((k.modifyStore fun _ => store).release handle).dropTask id, callers, polls⟩
  /-- A task is told to stop. -/
  | aborts {k : Kernel σ} {callers polls} (id : TaskId) :
      Happens ⟨k, callers, polls⟩ (.aborted id) ⟨k.abort id, callers, polls⟩
  /-- The callback of a fiber is told that the fiber is to stop. -/
  | interrupts {k : Kernel σ} {callers polls} (id : TaskId) :
      Happens ⟨k, callers, polls⟩ (.interrupted id) ⟨k.interrupt id, callers, polls⟩
  /-- The handle on a fiber is let go. -/
  | drops {s} (id : TaskId) : Happens s (.dropped id) s
  /-- Somebody has waited for a task. -/
  | joins {s : Scene σ} {id} (gone : (s.kernel.task? id).isNone) : Happens s (.joined id) s
  /-- A holder outside does something with a handle. -/
  | signals {k : Kernel σ} {callers polls} (signal : Signal σ) :
      Happens ⟨k, callers, polls⟩ (.elsewhere signal.marks) ⟨k.signal signal, callers, polls⟩
  /-- A fiber is started. -/
  | starts {k : Kernel σ} {callers polls} (inRuntime : Bool) (settings : Settings)
      (effect : Effect σ) (env : Context) (onExit : Outcome → σ → σ) :
      Happens ⟨k, callers, polls⟩ (.elsewhere [])
        ⟨(k.runAsync inRuntime settings effect env onExit).2, callers, polls⟩
  /-- A caller begins to run an effect. -/
  | calls {k : Kernel σ} {callers polls} (settings : Settings) (effect : Effect σ) (env : Context) :
      Happens ⟨k, callers, polls⟩ (.elsewhere [])
        ⟨k.draw.2.wakeOne k.fresh,
          callers ++ [⟨k.fresh, settings, .ready (Machine.start effect env)⟩], polls⟩
  /-- The fiber of a caller takes some steps. -/
  | callerMoves {k : Kernel σ} {before after polls id settings fiber marks fiber' k'}
      (moves : Fiber.Moves settings [id] fiber k marks fiber' k') :
      Happens ⟨k, before ++ ⟨id, settings, fiber⟩ :: after, polls⟩ (.elsewhere marks)
        ⟨k', before ++ ⟨id, settings, fiber'⟩ :: after, polls⟩
  /-- The fiber of a caller has ended. -/
  | callerEnds {k : Kernel σ} {before after polls id settings x env} :
      Happens ⟨k, before ++ ⟨id, settings, .ready ⟨.unwind x, env, []⟩⟩ :: after, polls⟩
        (.elsewhere []) ⟨k, before ++ after, polls⟩
  /-- A caller gives up. -/
  | callerLeaves {k : Kernel σ} {before after polls id settings fiber} :
      Happens ⟨k, before ++ ⟨id, settings, fiber⟩ :: after, polls⟩
        (.elsewhere (fiber.handles.map .left))
        ⟨k.leaveAll fiber.handles, before ++ after, polls⟩
  /-- Somebody outside changes the state of the program. -/
  | touches {k : Kernel σ} {callers polls} (f : σ → σ) :
      Happens ⟨k, callers, polls⟩ (.elsewhere []) ⟨k.modifyStore f, callers, polls⟩
  /-- Time goes by. -/
  | elapses {k : Kernel σ} {callers polls} (clock : Nat) :
      Happens ⟨k, callers, polls⟩ (.elsewhere [])
        ⟨{ k with world := { k.world with clock := clock } }, callers, polls⟩
  /-- The queue changes. -/
  | queues {k : Kernel σ} {callers polls} (woken : List FiberId) :
      Happens ⟨k, callers, polls⟩ (.elsewhere []) ⟨{ k with woken := woken }, callers, polls⟩

/-- What happens one after the other. -/
inductive History (s : Scene σ) : List (Deed σ) → Scene σ → Prop where
  /-- Nothing yet. -/
  | none : History s [] s
  /-- Something more. -/
  | more {deeds s₁ deed s'} (before : History s deeds s₁) (last : s₁.Happens deed s') :
      History s (deeds ++ [deed]) s'

namespace History

variable {s s₁ s' : Scene σ} {deeds deeds' : List (Deed σ)} {deed : Deed σ}

theorem one (happens : s.Happens deed s') : History s [deed] s' :=
  more none happens

/-- One history behind another. -/
theorem trans (first : History s deeds s₁) (rest : History s₁ deeds' s') :
    History s (deeds ++ deeds') s' := by
  induction rest with
  | none => rwa [List.append_nil]
  | more _ last ih =>
      rw [← List.append_assoc]
      exact more ih last

end History

/-- One scene comes to be out of another. -/
def Leads (s s' : Scene σ) : Prop :=
  ∃ deeds, s.History deeds s'

namespace Leads

variable {s s₁ s' : Scene σ} {deed : Deed σ}

/-- A scene leads to itself, with no deed in between. -/
theorem refl (s : Scene σ) : s.Leads s :=
  ⟨[], .none⟩

theorem one (happens : s.Happens deed s') : s.Leads s' :=
  ⟨[deed], .one happens⟩

theorem trans (first : s.Leads s₁) (rest : s₁.Leads s') : s.Leads s' := by
  rcases first with ⟨deeds, first⟩
  rcases rest with ⟨deeds', rest⟩
  exact ⟨deeds ++ deeds', first.trans rest⟩

end Leads

end Scene

/-- The fiber that a caller waits for. -/
def Await.callers : Await σ → List (Caller σ)
  | .fiber settings id f => [⟨id, settings, f⟩]
  | _ => []

namespace Kernel

/-- When a task goes away it does not matter what it was. -/
theorem dropTask_setTask (k : Kernel σ) (task : Task σ) :
    (k.setTask task).dropTask task.id = k.dropTask task.id := by
  unfold setTask dropTask
  congr 1
  induction k.tasks with
  | nil => rfl
  | cons t rest ih =>
      by_cases ht : t.id = task.id
      · simp only [List.map_cons, ht, beq_self_eq_true, if_true, List.filter_cons,
          bne_self_eq_false, Bool.false_eq_true, if_false, ih]
      · simp only [List.map_cons, beq_eq_false_iff_ne.2 ht, Bool.false_eq_true, if_false,
          List.filter_cons, bne_iff_ne.2 ht, if_true, ih]

/-- When the fiber of a task has ended it does not matter what the task was. -/
theorem finishTask_setTask (k : Kernel σ) (task : Task σ) (x : Outcome) :
    (k.setTask task).finishTask task.id x = k.finishTask task.id x := by
  -- Callbacks are kept apart from tasks.
  have delivered : ((k.setTask task).report (.fiberCompleted x.isSuccess)).deliver task.id x =
      ((k.report (.fiberCompleted x.isSuccess)).deliver task.id x).setTask task := by
    unfold deliver
    have same : ((k.setTask task).report (.fiberCompleted x.isSuccess)).callback? task.id =
        (k.report (.fiberCompleted x.isSuccess)).callback? task.id := rfl
    rw [same]
    cases (k.report (.fiberCompleted x.isSuccess)).callback? task.id <;> rfl
  rw [finishTask, delivered, dropTask_setTask, finishTask]

/-- Calling a callback changes the state of the program, and who is still to be called. -/
theorem deliver_eq (k : Kernel σ) (id : TaskId) (x : Outcome) :
    ∃ store callbacks calls, k.deliver id x =
      { k with
        world := { k.world with store := store }, callbacks := callbacks, calls := calls } := by
  unfold deliver
  split
  · exact ⟨_, _, _, rfl⟩
  · exact ⟨_, _, _, rfl⟩

/-- The task that is found under a number has this number. -/
theorem id_of_task? {k : Kernel σ} {id : TaskId} {task : Task σ} (h : k.task? id = some task) :
    task.id = id := by
  simpa using List.find?_some h

/-- A task that is there can be replaced. -/
theorem task?_setTask {k : Kernel σ} {task task' : Task σ} (there : k.task? task.id = some task')
    (other : TaskId) :
    (k.setTask task).task? other = if other = task.id then some task else k.task? other := by
  -- Replacing a task keeps its number, so looking up by number finds the same places.
  have ids : ∀ t : Task σ, (if t.id == task.id then task else t).id = t.id := by
    intro t
    split
    · next heq => exact (beq_iff_eq.1 heq).symm
    · rfl
  have found : (k.setTask task).task? other =
      (k.task? other).map fun t => if t.id == task.id then task else t := by
    unfold task? setTask
    rw [List.find?_map]
    congr 2
    funext t
    exact congrArg (· == other) (ids t)
  rw [found]
  by_cases h : other = task.id
  · subst h
    simp [there, id_of_task? there]
  · rw [if_neg h]
    rcases ht : k.task? other with _ | t
    · rfl
    · have hid := id_of_task? ht
      simp [hid, h]

/-- A turn of a task is a history. If the task runs a fiber and has not been told to stop, it
    is one poll. -/
theorem runTask_history {k k' : Kernel σ} {task : Task σ} {fuel : Nat}
    (there : k.task? task.id = some task) (h : k.runTask fuel task = some k')
    (callers : List (Caller σ)) : (⟨k, callers, []⟩ : Scene σ).Leads ⟨k', callers, []⟩ := by
  rcases task with ⟨id, work, cancelled⟩
  have begun : (⟨k, callers, []⟩ : Scene σ).Leads ⟨k.unwake id, callers, []⟩ := .one (.queues _)
  have there' : (k.unwake id).task? id = some ⟨id, work, cancelled⟩ := there
  refine begun.trans ?_
  unfold runTask at h
  generalize k.unwake id = k₁ at *
  cases cancelled with
  | true =>
      cases h
      exact .one (.vanishes there' List.not_mem_nil)
  | false =>
      simp only [Bool.false_eq_true, if_false] at h
      cases work with
      | errand due handle act =>
          by_cases hdue : due ≤ k₁.now
          · simp only [hdue, if_true] at h
            rcases hrun : act.run k₁.world.store with ⟨p | signals, store⟩
            · simp only [hrun] at h
              cases h
              exact .one (.errandPanics there' hrun)
            · simp only [hrun] at h
              cases h
              exact .one (.errand there' hrun)
          · simp only [hdue, if_false] at h
            cases h
            exact .refl _
      | run started settings fiber =>
          have polled : (⟨k₁, callers, []⟩ : Scene σ).Happens (.polled id) _ :=
            .polls there' List.not_mem_nil
          have inside := (Fiber.turn_moves settings fuel).1 [id] fiber
            (if started then k₁ else k₁.report .fiberStarted)
          have there₂ : (if started then k₁ else k₁.report .fiberStarted).task? id =
              some ⟨id, .run started settings fiber, false⟩ := by
            split <;> exact there'
          have rested : [id].filter (· != id) = [] := by simp
          simp only at h
          rcases hturn : fiber.turn settings fuel [id]
            (if started then k₁ else k₁.report .fiberStarted) with ⟨x | fiber' | _, k₂⟩
          · rw [hturn] at h inside
            rcases inside with ⟨marks, env, moves⟩
            cases h
            -- The task is still there, now with a fiber that has ended.
            let ended : Task σ := ⟨id, .run true settings (.ready ⟨.unwind x, env, []⟩), false⟩
            have there₃ : (k₂.setTask ended).task? id = some ended :=
              (task?_setTask (moves.grows.task? there₂) id).trans (if_pos rfl)
            have last : (⟨k₂.setTask ended, callers, [id]⟩ : Scene σ).Happens (.completed id x) _ :=
              .completes there₃ List.mem_cons_self
            rw [rested, finishTask_setTask k₂ ended x] at last
            exact ((Scene.Leads.one polled).trans
              (.one (.moves there₂ List.mem_cons_self moves))).trans (.one last)
          · rw [hturn] at h inside
            rcases inside with ⟨marks, moves⟩
            cases h
            let waits : Task σ := ⟨id, .run true settings fiber', false⟩
            have there₃ : (k₂.setTask waits).task? id = some waits :=
              (task?_setTask (moves.grows.task? there₂) id).trans (if_pos rfl)
            have last : (⟨k₂.setTask waits, callers, [id]⟩ : Scene σ).Happens (.rested id) _ :=
              .rests there₃ List.mem_cons_self
            rw [rested] at last
            exact ((Scene.Leads.one polled).trans
              (.one (.moves there₂ List.mem_cons_self moves))).trans (.one last)
          · rw [hturn] at h
            cases h

/-- The turns of a batch of tasks are a history. -/
theorem runBatch_history {k k' : Kernel σ} {fuel n : Nat} (h : k.runBatch fuel n = some k')
    (callers : List (Caller σ)) : (⟨k, callers, []⟩ : Scene σ).Leads ⟨k', callers, []⟩ := by
  -- One task after the other, each with the history of its own turn.
  induction n generalizing k with
  | zero =>
      cases h
      exact .refl _
  | succ n ih =>
      unfold runBatch at h
      rcases hnext : k.nextTask? with _ | task
      · simp only [hnext] at h
        cases h
        exact .refl _
      · simp only [hnext] at h
        rcases List.exists_of_findSome?_eq_some hnext with ⟨id, -, hid⟩
        rcases hrun : k.runTask fuel task with _ | k₁
        · simp only [hrun] at h
          cases h
        · simp only [hrun] at h
          have there : k.task? task.id = some task := by rwa [id_of_task? hid]
          exact (runTask_history there hrun callers).trans (ih h)

/-- What happens when the caller is looked at, among other callers. -/
def AttendLeads (others : List (Caller σ)) (k : Kernel σ) (await : Await σ) :
    Attended σ × Kernel σ → Prop
  | (.done _, k') => (⟨k, await.callers ++ others, []⟩ : Scene σ).Leads ⟨k', others, []⟩
  | (.still await', k') =>
    (⟨k, await.callers ++ others, []⟩ : Scene σ).Leads ⟨k', await'.callers ++ others, []⟩
  | (.exhausted, _) => True

/-- A caller that runs no fiber looks and does nothing. -/
theorem attendLeads_idle {others : List (Caller σ)} {k : Kernel σ} {await : Await σ}
    (idle : await.callers = []) (p : Prop) [Decidable p] :
    AttendLeads others k await (if p then .done none else .still await, k) := by
  by_cases hp : p
  · rw [if_pos hp, AttendLeads, idle]
    exact .refl _
  · rw [if_neg hp]
    exact .refl _

/-- A look at the caller is a history. -/
theorem attend_history (others : List (Caller σ)) (fuel : Nat) (await : Await σ)
    (k : Kernel σ) : AttendLeads others k await (k.attend fuel await) := by
  cases await with
  | time wake => exact attendLeads_idle rfl _
  | task id => exact attendLeads_idle rfl _
  | quiet => exact attendLeads_idle rfl _
  | fiber settings id fiber =>
      unfold attend
      by_cases woken : k.isWoken id
      · have inside := (Fiber.turn_moves settings fuel).1 [id] fiber (k.unwake id)
        -- The turn takes the caller off the queue, moves its fiber, and ends it where there is an
        -- outcome.
        have begun : (⟨k, ⟨id, settings, fiber⟩ :: others, []⟩ : Scene σ).Leads
            ⟨k.unwake id, ⟨id, settings, fiber⟩ :: others, []⟩ := .one (.queues _)
        simp only [woken, if_true]
        rcases hturn : fiber.turn settings fuel [id] (k.unwake id) with ⟨x | fiber' | _, k₁⟩
        · rw [hturn] at inside
          rcases inside with ⟨marks, env, moves⟩
          have moved : (⟨k.unwake id, [] ++ ⟨id, settings, fiber⟩ :: others, []⟩ :
              Scene σ).Happens _ _ := .callerMoves moves
          have ended : (⟨k₁, [] ++ ⟨id, settings, .ready ⟨.unwind x, env, []⟩⟩ :: others, []⟩ :
              Scene σ).Happens _ ⟨k₁, [] ++ others, []⟩ := .callerEnds
          exact (begun.trans (.one moved)).trans (.one ended)
        · rw [hturn] at inside
          rcases inside with ⟨marks, moves⟩
          have moved : (⟨k.unwake id, [] ++ ⟨id, settings, fiber⟩ :: others, []⟩ :
              Scene σ).Happens _ _ := .callerMoves moves
          exact begun.trans (.one moved)
        · trivial
      · simp only [woken, Bool.false_eq_true, if_false]
        exact .refl _

/-- When the clock goes on, time goes by and the queue changes. -/
theorem advance_history (k : Kernel σ) (await : Await σ) (time : Nat)
    (callers : List (Caller σ)) :
    (⟨k, callers, []⟩ : Scene σ).Leads ⟨k.advance await time, callers, []⟩ := by
  -- Waking changes the queue only, so all that time brings is the clock and another queue.
  have woken : ∀ (paths : List Path) (k : Kernel σ),
      ∃ woken, paths.foldl wake k = { k with woken := woken } := by
    intro paths
    induction paths with
    | nil => exact fun k => ⟨k.woken, rfl⟩
    | cons path rest ih =>
        intro k
        rcases k.wake_eq path with ⟨woken, heq⟩
        rcases ih (k.wake path) with ⟨woken', heq'⟩
        exact ⟨woken', by rw [List.foldl_cons, heq', heq]⟩
  unfold advance
  rcases woken (await.dueAt time ++ k.tasks.flatMap fun task => task.work.dueAt time [task.id])
    { k with world := { k.world with clock := time }, woken := [] } with ⟨woken, heq⟩
  dsimp only
  rw [heq]
  exact (Scene.Leads.one (.elapses time)).trans (.one (.queues woken))

/-- While the caller waits, a history takes place: the turns of its fiber and of tasks, the
    passing of time, and what the observer does. No poll is in progress before or after it. -/
theorem drive_history {observe : Nat → σ → σ} {fuel rounds : Nat} {await : Await σ}
    {k k' : Kernel σ} {x : Option Outcome}
    (h : k.drive observe fuel rounds await = some (x, k')) (others : List (Caller σ)) :
    (⟨k, await.callers ++ others, []⟩ : Scene σ).Leads ⟨k', others, []⟩ := by
  -- Each round is a look at what is awaited, a batch of tasks and, if nothing is left to do, the
  -- clock moved on.
  induction rounds generalizing k await with
  | zero => cases h
  | succ rounds ih =>
      unfold drive at h
      have look := attend_history others fuel await k
      rcases hattend : k.attend fuel await with ⟨y | await' | _, k₁⟩
      · rw [hattend] at h look
        cases h
        exact look
      · rw [hattend] at h look
        dsimp only at h
        rcases hbatch : k₁.runBatch fuel batchSize with _ | k₂
        · simp only [hbatch] at h
          cases h
        · simp only [hbatch] at h
          have turns := look.trans (runBatch_history hbatch (await'.callers ++ others))
          by_cases busy : k₂.isBusy await' = true
          · simp only [busy, if_true] at h
            exact turns.trans (ih h)
          · simp only [busy, Bool.false_eq_true, if_false] at h
            rcases hnext : k₂.nextWake await' with _ | time
            · simp only [hnext] at h
              cases h
            · simp only [hnext] at h
              exact ((turns.trans (.one (.touches (observe k₂.now)))).trans
                (advance_history _ await' time _)).trans (ih h)
      · rw [hattend] at h
        cases h

end Kernel

end EffectKernel
