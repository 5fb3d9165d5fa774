import EffectKernel.Proofs.History

/-!
# Callbacks

Whoever starts a fiber gives a callback, and may cancel the fiber at any time and as often as
they like. There are two who may call the callback, the task when the fiber has ended and the
canceller, and neither knows of the other. Both of them take the callback from where it is
kept, so only the first of them finds it.

The theorem is about every history of the fiber: polls of the task, the steps in them, its end,
the two parts of any number of cancels, in any order and mixed with one another, the handle
being let go, and whatever else happens meanwhile. What the callback has been called with is the
verdict of the first deed that gives one (`Deed.verdict`). The invariant ties together the
callback that is kept and the calls so far (`Fate`).

A cancel that is issued while the task is not being polled stops it for good: there is no poll
afterwards, so the fiber takes no step (`Scene.Stopped`). A cancel during the task's own poll
lets the poll come to its end, and stops the task then.

## Main definitions

* `Deed.verdict`: What a deed tells the callback of a fiber.
* `Deed.IsPollOf`: What happens in a poll of a task.
* `Scene.Sound`: What is kept has numbers that have been given out.
* `Kernel.Spares`: What is kept about a fiber stays as it is.
* `Fate`: The callback and the calls of a fiber, by what has happened.
* `Scene.Stopped`: A task that is to stop, and is not being polled.
* `Scene.CallsOnce`, `Scene.CallsAtOnce`: What is known of the callback of a fiber.

## Theorems

* `Scene.History.sound`: A sound scene stays sound.
* `Scene.Happens.fate`, `Scene.History.fate`: Deeds and histories keep to the invariant.
* `Scene.Happens.stopped`, `Scene.History.stopped`: A stopped task is not polled again.
* `callback_called_once`: The callback of a fiber is called once, by whoever comes first.
-/

namespace EffectKernel

variable {σ : Type}

namespace Deed

/-- What the callback of a fiber is told, if a deed tells it anything. -/
def verdict (id : TaskId) : Deed σ → Option Outcome
  | .completed i x => if i = id then some x else none
  | .interrupted i => if i = id then some (.die .interrupted) else none
  | _ => none

/-- Something that happens in a poll of a task, its beginning and its end included. -/
def IsPollOf (id : TaskId) : Deed σ → Prop
  | .polled i => i = id
  | .moved i _ => i = id
  | .rested i => i = id
  | .completed i _ => i = id
  | _ => False

end Deed

/-- The verdict of the first deed that gives one. -/
def firstVerdict (id : TaskId) (deeds : List (Deed σ)) : Option Outcome :=
  deeds.findSome? (Deed.verdict id)

namespace Kernel

/-- What is kept in the kernel has numbers that have been given out. -/
structure Sound (k : Kernel σ) : Prop where
  /-- Tasks have them. -/
  tasks : ∀ task ∈ k.tasks, task.id < k.fresh
  /-- So have callbacks. -/
  callbacks : ∀ entry ∈ k.callbacks, entry.1 < k.fresh
  /-- So have calls. -/
  calls : ∀ call ∈ k.calls, call.1 < k.fresh

/-- The task with a number, if there is one, has been told to stop. -/
def Stopping (id : TaskId) (k : Kernel σ) : Prop :=
  ∀ task, k.task? id = some task → task.cancelled = true

/-- What is kept about a fiber stays as it is. -/
structure Spares (id : TaskId) (k k' : Kernel σ) : Prop where
  /-- Numbers may be given out. -/
  fresh : k.fresh ≤ k'.fresh
  /-- The callback is kept. -/
  callback : k'.callback? id = k.callback? id
  /-- It is told nothing. -/
  told : k'.told id = k.told id
  /-- A task that has been told to stop still is to stop. -/
  stopping : k.Stopping id → k'.Stopping id

variable {k k₁ k' : Kernel σ} {id other : TaskId} {task task' : Task σ}

theorem Spares.refl (id : TaskId) (k : Kernel σ) : k.Spares id k :=
  ⟨Nat.le_refl _, rfl, rfl, fun h => h⟩

/-- What two deeds after another leave alone. -/
theorem Spares.trans (first : k.Spares id k₁) (second : k₁.Spares id k') : k.Spares id k' :=
  ⟨Nat.le_trans first.fresh second.fresh, second.callback.trans first.callback,
    second.told.trans first.told, fun h => second.stopping (first.stopping h)⟩

/-- Changes of the world, the queue and the slots are not about a fiber. -/
theorem Spares.of_eq (callbacks : k'.callbacks = k.callbacks) (calls : k'.calls = k.calls)
    (fresh : k.fresh ≤ k'.fresh) (task : k.Stopping id → k'.Stopping id) : k.Spares id k' := by
  refine ⟨fresh, ?_, ?_, task⟩
  · rw [Kernel.callback?, callbacks, Kernel.callback?]
  · rw [Kernel.told, calls, Kernel.told]

/-- New errands have new numbers. -/
theorem Grows.spares (grows : k.Grows k') (given : id < k.fresh) : k.Spares id k' := by
  rcases grows.tasks with ⟨more, htasks, -, hmore⟩
  refine .of_eq grows.callbacks grows.calls grows.fresh fun stopping task htask => ?_
  have away : more.find? (·.id == id) = none := by
    refine List.find?_eq_none.2 fun task htask => ?_
    have hlow := (hmore task htask).1
    simpa using Nat.ne_of_gt (Nat.lt_of_lt_of_le given hlow)
  rw [Kernel.task?, htasks, List.find?_append, away, Option.or_none] at htask
  exact stopping task htask

/-- Some task changes, but not whether it is to stop. -/
theorem spares_setTask (id : TaskId) (there : k.task? task.id = some task')
    (same : task.cancelled = task'.cancelled) : k.Spares id (k.setTask task) := by
  refine .of_eq rfl rfl (Nat.le_refl _) fun stopping t ht => ?_
  rw [task?_setTask there] at ht
  by_cases h : id = task.id
  · subst h
    rw [if_pos rfl] at ht
    cases ht
    exact same.trans (stopping task' there)
  · rw [if_neg h] at ht
    exact stopping t ht

/-- Some task goes away. -/
theorem spares_dropTask (id : TaskId) (k : Kernel σ) (other : TaskId) :
    k.Spares id (k.dropTask other) := by
  refine .of_eq rfl rfl (Nat.le_refl _) fun stopping t ht => ?_
  rw [task?_dropTask] at ht
  split at ht
  · cases ht
  · exact stopping t ht

/-- The callback of a fiber after a call. -/
theorem callback?_deliver (k : Kernel σ) (other : TaskId) (x : Outcome) (id : TaskId) :
    (k.deliver other x).callback? id = if id = other then none else k.callback? id := by
  unfold deliver
  split
  · next callback hcallback =>
      -- A callback is called once: it is taken out of the list when its outcome is delivered.
      show (List.find? _ (k.callbacks.filter (·.1 != other))).map _ = _
      by_cases h : id = other
      · subst h
        simp
      · rw [if_neg h, callback?, List.find?_filter]
        congr 2
        funext entry
        by_cases he : entry.1 = id
        · simp [he, h]
        · simp [he]
  · next hnone =>
      by_cases h : id = other
      · subst h
        rw [if_pos rfl, hnone]
      · rw [if_neg h]

/-- What the callback of a fiber has been told after a call. -/
theorem told_deliver (k : Kernel σ) (other : TaskId) (x : Outcome) (id : TaskId) :
    (k.deliver other x).told id =
      if id = other ∧ (k.callback? id).isSome then k.told id ++ [x] else k.told id := by
  unfold deliver
  split
  · next callback hcallback =>
      show ((k.calls ++ [(other, x)]).filter _).map _ = _
      -- The call is appended to the record, where only that fiber's calls are filtered out.
      rw [List.filter_append, List.map_append]
      by_cases h : id = other
      · subst h
        simp [told, hcallback]
      · have hne : (other == id) = false := by simpa using Ne.symm h
        simp [told, h, hne]
  · next hnone =>
      by_cases h : id = other
      · subst h
        simp [hnone]
      · simp [h]

/-- What a call does to the state of the program. -/
theorem store_deliver (k : Kernel σ) (id : TaskId) (x : Outcome) :
    (k.deliver id x).world.store =
      match k.callback? id with
      | some callback => callback x k.world.store
      | none => k.world.store := by
  rcases h : k.callback? id with _ | callback
  · simp only [deliver, h]
  · simp only [deliver, h]
    rfl

/-- To deliver an outcome changes no task, and gives out no number. -/
theorem tasks_deliver (k : Kernel σ) (id : TaskId) (x : Outcome) :
    (k.deliver id x).tasks = k.tasks ∧ (k.deliver id x).fresh = k.fresh := by
  rcases k.deliver_eq id x with ⟨store, callbacks, calls, heq⟩
  rw [heq]
  exact ⟨rfl, rfl⟩

/-- Callbacks are kept apart from tasks. -/
theorem stopping_deliver (k : Kernel σ) (other : TaskId) (x : Outcome)
    (stopping : k.Stopping id) : (k.deliver other x).Stopping id := by
  intro task htask
  rw [task?, (k.tasks_deliver other x).1] at htask
  exact stopping task htask

/-- The callback of another fiber is called. -/
theorem spares_deliver (k : Kernel σ) (x : Outcome) (apart : id ≠ other) :
    k.Spares id (k.deliver other x) := by
  refine ⟨Nat.le_of_eq (k.tasks_deliver other x).2.symm, ?_, ?_, k.stopping_deliver other x⟩
  · rw [callback?_deliver, if_neg apart]
  · rw [told_deliver, if_neg fun h => apart h.1]

/-- The fiber of another task has ended. -/
theorem spares_finishTask (given : id < k.fresh) (x : Outcome) (apart : id ≠ other) :
    k.Spares id (k.finishTask other x) :=
  (((k.grows_report _).spares given).trans (spares_deliver _ x apart)).trans
    (spares_dropTask id _ other)

/-- Another fiber is started. -/
theorem spares_runAsync (given : id < k.fresh) (inRuntime : Bool) (settings : Settings)
    (effect : Effect σ) (env : Context) (onExit : Outcome → σ → σ) :
    k.Spares id (k.runAsync inRuntime settings effect env onExit).2 := by
  -- The callback that is added has a number of its own.
  have apart : id ≠ k.fresh := Nat.ne_of_lt given
  have hne : (k.fresh == id) = false := by simpa using Ne.symm apart
  have added : ∀ {k₁ : Kernel σ}, k.Spares id k₁ →
      k.Spares id { k₁ with callbacks := (k.fresh, onExit) :: k₁.callbacks } := by
    rintro k₁ ⟨fresh, callback, told, stopping⟩
    refine ⟨fresh, ?_, told, stopping⟩
    rw [← callback]
    simp [Kernel.callback?, hne]
  cases inRuntime with
  | true =>
      have begins : (Work.run false settings (.ready (.start effect env)) : Work σ).Begins :=
        trivial
      exact added ((k.grows_addTask begins).spares given)
  | false => exact (added (k.grows_draw.spares given)).trans (spares_deliver _ _ apart)

/-- What a task is after some task has been told to stop. -/
theorem task?_abort (k : Kernel σ) (other id : TaskId) :
    (k.abort other).task? id =
      if id = other then (k.task? id).map fun task => { task with cancelled := true }
      else k.task? id := by
  unfold abort
  rcases there : k.task? other with _ | task
  · by_cases h : id = other
    · subst h
      simp [there]
    · simp [h]
  · have hid := id_of_task? there
    subst hid
    -- Waking the fiber touches the queue only, so the task found is the one just marked.
    rcases (k.setTask { task with cancelled := true }).wakeOne_eq task.id with ⟨woken, heq⟩
    simp only [heq]
    have set := @task?_setTask σ k { task with cancelled := true } task there id
    refine set.trans ?_
    by_cases h : id = task.id
    · simp [h, there]
    · simp [h]

/-- Telling a task to stop changes nothing but tasks and the queue. -/
theorem abort_eq (k : Kernel σ) (id : TaskId) :
    ∃ tasks woken, k.abort id = { k with tasks := tasks, woken := woken } := by
  unfold abort
  rcases k.task? id with _ | task
  · exact ⟨k.tasks, k.woken, rfl⟩
  · rcases (k.setTask { task with cancelled := true }).wakeOne_eq id with ⟨woken, heq⟩
    exact ⟨_, woken, heq⟩

/-- Some task is told to stop. -/
theorem spares_abort (id : TaskId) (k : Kernel σ) (other : TaskId) :
    k.Spares id (k.abort other) := by
  have task := k.task?_abort other id
  rcases k.abort_eq other with ⟨tasks, woken, heq⟩
  rw [heq] at task ⊢
  refine .of_eq rfl rfl (Nat.le_refl _) fun stopping t ht => ?_
  rw [task] at ht
  split at ht
  · rcases Option.map_eq_some_iff.1 ht with ⟨t', -, rfl⟩
    rfl
  · exact stopping t ht

/-- A task that has just been told to stop is to stop. -/
theorem stopping_abort (k : Kernel σ) (id : TaskId) : (k.abort id).Stopping id := by
  intro task htask
  rw [task?_abort, if_pos rfl] at htask
  rcases Option.map_eq_some_iff.1 htask with ⟨_, -, rfl⟩
  rfl

section Sound

/-- What a step of a fiber does to the kernel keeps its numbers in order. -/
theorem Grows.sound (grows : k.Grows k') (sound : k.Sound) : k'.Sound := by
  rcases grows.tasks with ⟨more, htasks, -, hmore⟩
  refine ⟨fun task htask => ?_, fun entry hentry => ?_, fun call hcall => ?_⟩
  · rw [htasks] at htask
    rcases List.mem_append.1 htask with old | new
    · exact Nat.lt_of_lt_of_le (sound.tasks task old) grows.fresh
    · exact (hmore task new).2.1
  · rw [grows.callbacks] at hentry
    exact Nat.lt_of_lt_of_le (sound.callbacks entry hentry) grows.fresh
  · rw [grows.calls] at hcall
    exact Nat.lt_of_lt_of_le (sound.calls call hcall) grows.fresh

theorem Sound.dropTask (sound : k.Sound) (id : TaskId) : (k.dropTask id).Sound :=
  ⟨fun task htask => sound.tasks task (List.mem_filter.1 htask).1, sound.callbacks, sound.calls⟩

/-- A task may be exchanged for another one with its number. -/
theorem Sound.setTask (sound : k.Sound) (there : k.task? task.id = some task') :
    (k.setTask task).Sound := by
  refine ⟨fun t ht => ?_, sound.callbacks, sound.calls⟩
  rcases List.mem_map.1 ht with ⟨old, hold, rfl⟩
  split
  · exact id_of_task? there ▸ sound.tasks task' (List.mem_of_find?_eq_some there)
  · exact sound.tasks old hold

/-- Only a callback that is kept is called. -/
theorem Sound.deliver (sound : k.Sound) (id : TaskId) (x : Outcome) : (k.deliver id x).Sound := by
  unfold Kernel.deliver
  split
  · next callback found =>
      rcases Option.map_eq_some_iff.1 found with ⟨entry, hentry, -⟩
      have mem := List.mem_of_find?_eq_some hentry
      have key : entry.1 = id := by simpa using List.find?_some hentry
      refine ⟨sound.tasks, fun e he => sound.callbacks e (List.mem_filter.1 he).1,
        fun call hcall => ?_⟩
      rcases List.mem_append.1 hcall with old | new
      · exact sound.calls call old
      · rw [List.mem_singleton.1 new, ← key]
        exact sound.callbacks entry mem
  · exact sound

/-- A task may be told to stop. -/
theorem Sound.abort (sound : k.Sound) (id : TaskId) : (k.abort id).Sound := by
  unfold Kernel.abort
  split
  · next task there =>
      have there' : k.task? task.id = some task := by rwa [id_of_task? there]
      exact (Kernel.grows_wakeOne _ id).sound
        (@Sound.setTask σ k { task with cancelled := true } task sound there')
  · exact sound

/-- A fiber of its own may be started, with a callback under a number that nobody has had. -/
theorem Sound.runAsync (sound : k.Sound) (inRuntime : Bool) (settings : Settings)
    (effect : Effect σ) (env : Context) (onExit : Outcome → σ → σ) :
    (k.runAsync inRuntime settings effect env onExit).2.Sound := by
  -- Adding the callback keeps the kernel sound as soon as the number of the fiber has been given
  -- out.
  have added : ∀ {k₁ : Kernel σ}, k₁.Sound → k.fresh < k₁.fresh →
      ({ k₁ with callbacks := (k.fresh, onExit) :: k₁.callbacks } : Kernel σ).Sound := by
    rintro k₁ ⟨tasks, callbacks, calls⟩ given
    refine ⟨tasks, fun entry hentry => ?_, calls⟩
    rcases List.mem_cons.1 hentry with rfl | old
    · exact given
    · exact callbacks entry old
  cases inRuntime with
  | true =>
      have begins : (Work.run false settings (.ready (.start effect env)) : Work σ).Begins :=
        trivial
      let work : Work σ := .run false settings (.ready (.start effect env))
      have given : k.fresh < (k.addTask work).2.fresh := by
        rcases ({ k.draw.2 with tasks := k.tasks ++ [⟨k.fresh, work, false⟩] } :
          Kernel σ).wakeOne_eq k.fresh with ⟨woken, heq⟩
        exact Nat.lt_of_lt_of_eq (Nat.lt_succ_self k.fresh)
          (congrArg Kernel.fresh heq).symm
      exact added ((k.grows_addTask begins).sound sound) given
  | false =>
      -- Outside a runtime the callback is called before the handle is returned, with no task added.
      exact (added (k.grows_draw.sound sound) (Nat.lt_succ_self _)).deliver k.fresh _

end Sound

end Kernel

namespace Scene

/-- What is kept in a scene has numbers that have been given out. -/
structure Sound (s : Scene σ) : Prop where
  /-- The kernel keeps nothing else. -/
  kernel : s.kernel.Sound
  /-- Only such tasks are polled. -/
  polls : ∀ id ∈ s.polls, id < s.kernel.fresh

/-- A task is to stop, and is not being polled. -/
structure Stopped (id : TaskId) (s : Scene σ) : Prop where
  /-- Nobody else gets its number. -/
  given : id < s.kernel.fresh
  /-- No poll of it is in progress. -/
  idle : id ∉ s.polls
  /-- If it is still there, it has been told. -/
  stopping : s.kernel.Stopping id

variable {id : TaskId} {s s' : Scene σ} {deed : Deed σ} {deeds : List (Deed σ)} {x : Outcome}

/-- What a deed leaves alone that tells the callback of a fiber nothing. -/
theorem Happens.spares (happens : s.Happens deed s') (given : id < s.kernel.fresh)
    (silent : deed.verdict id = none) : s.kernel.Spares id s'.kernel := by
  -- One case for each kind of event. The two that deliver an outcome deliver it to another fiber,
  -- since this deed is silent about this one.
  cases happens with
  | @polls k _ _ i started _ _ _ =>
      show k.Spares id (if started then k else k.report .fiberStarted)
      split
      · exact .refl id k
      · exact (k.grows_report _).spares given
  | moves task _ moves =>
      exact (moves.grows.spares given).trans
        (Kernel.spares_setTask id (moves.grows.task? task) rfl)
  | rests => exact .refl id _
  | @completes k _ _ i _ x =>
      have apart : id ≠ i := fun h => by
        rw [Deed.verdict, if_pos h.symm] at silent
        cases silent
      exact Kernel.spares_finishTask given x apart
  | vanishes =>
      exact ((Kernel.grows_leaveAll _ _).spares given).trans (Kernel.spares_dropTask id _ _)
  | @errand k _ _ _ _ _ _ signals store =>
      have touched : k.Spares id (k.modifyStore fun _ => store) :=
        (k.grows_world _).spares given
      exact (touched.trans ((Kernel.grows_signalAll _ signals).spares given)).trans
        (Kernel.spares_dropTask id _ _)
  | @errandPanics k _ _ _ _ handle _ _ store =>
      have touched : k.Spares id (k.modifyStore fun _ => store) :=
        (k.grows_world _).spares given
      exact (touched.trans ((Kernel.grows_release _ handle).spares given)).trans
        (Kernel.spares_dropTask id _ _)
  | aborts i => exact Kernel.spares_abort id _ i
  | @interrupts k _ _ i =>
      have apart : id ≠ i := fun h => by
        rw [Deed.verdict, if_pos h.symm] at silent
        cases silent
      exact k.spares_deliver _ apart
  | drops => exact .refl id _
  | joins => exact .refl id _
  | signals signal => exact (Kernel.grows_signal _ signal).spares given
  | starts inRuntime settings effect env onExit =>
      exact Kernel.spares_runAsync given inRuntime settings effect env onExit
  | calls => exact ((Kernel.grows_draw _).trans (Kernel.grows_wakeOne _ _)).spares given
  | callerMoves moves => exact moves.grows.spares given
  | callerEnds => exact .refl id _
  | callerLeaves => exact (Kernel.grows_leaveAll _ _).spares given
  | touches => exact (Kernel.grows_world _ _).spares given
  | elapses => exact (Kernel.grows_world _ _).spares given
  | queues => exact .of_eq rfl rfl (Nat.le_refl _) fun h => h

/-- What a deed does that has a verdict for the callback of a fiber: what is kept and the state
    of the program are as after a call. -/
theorem Happens.delivers (happens : s.Happens deed s') (verdict : deed.verdict id = some x) :
    s'.kernel.fresh = s.kernel.fresh ∧
      s'.kernel.callback? id = (s.kernel.deliver id x).callback? id ∧
      s'.kernel.told id = (s.kernel.deliver id x).told id ∧
      (s.kernel.Stopping id → s'.kernel.Stopping id) ∧
      s'.kernel.world.store =
        match s.kernel.callback? id with
        | some callback => callback x s.kernel.world.store
        | none => s.kernel.world.store := by
  -- Only an end and an interruption carry a verdict, and both do it by one delivery.
  cases happens with
  | @completes k _ _ i _ y =>
      rcases Option.ite_none_right_eq_some.1 verdict with ⟨rfl, ⟨⟩⟩
      let reported := k.report (.fiberCompleted x.isSuccess)
      refine ⟨(reported.tasks_deliver i x).2, ?_, ?_, fun stopping => ?_,
        reported.store_deliver i x⟩
      · exact (reported.callback?_deliver i x i).trans (k.callback?_deliver i x i).symm
      · exact (reported.told_deliver i x i).trans (k.told_deliver i x i).symm
      · have kept : reported.Stopping i := stopping
        exact (Kernel.spares_dropTask i _ i).stopping (reported.stopping_deliver i x kept)
  | @interrupts k _ _ i =>
      rcases Option.ite_none_right_eq_some.1 verdict with ⟨rfl, ⟨⟩⟩
      exact ⟨(k.tasks_deliver i _).2, rfl, rfl, k.stopping_deliver i _, k.store_deliver i _⟩
  | _ => cases verdict

/-- Numbers that have been given out stay so. -/
theorem Happens.fresh (happens : s.Happens deed s') (given : id < s.kernel.fresh) :
    id < s'.kernel.fresh := by
  rcases verdict : deed.verdict id with _ | x
  · exact Nat.lt_of_lt_of_le given (happens.spares given verdict).fresh
  · exact (happens.delivers verdict).1 ▸ given

/-- A task that is to stop stays so. -/
theorem Happens.stopping (happens : s.Happens deed s') (given : id < s.kernel.fresh)
    (stopping : s.kernel.Stopping id) : s'.kernel.Stopping id := by
  rcases verdict : deed.verdict id with _ | x
  · exact (happens.spares given verdict).stopping stopping
  · exact (happens.delivers verdict).2.2.2.1 stopping

/-- A poll that is in progress was so before, or has just begun. -/
theorem Happens.polls_of_mem (happens : s.Happens deed s') (poll : id ∈ s'.polls) :
    id ∈ s.polls ∨ deed = .polled id := by
  cases happens with
  | polls =>
      rcases List.mem_cons.1 poll with rfl | old
      · exact .inr rfl
      · exact .inl old
  | rests => exact .inl (List.mem_filter.1 poll).1
  | completes => exact .inl (List.mem_filter.1 poll).1
  | _ => exact .inl poll

/-- Outside its polls a task can only begin one, and only if it is not to stop. -/
theorem Happens.polled_of_isPollOf (happens : s.Happens deed s') (idle : id ∉ s.polls)
    (poll : deed.IsPollOf id) : deed = .polled id ∧ ¬s.kernel.Stopping id := by
  -- While the fiber is in no poll, moving, resting and completing are excluded, and a poll only
  -- begins where it has not been stopped.
  cases happens with
  | polls task =>
      cases poll
      refine ⟨rfl, fun stopping => ?_⟩
      cases stopping _ task
  | moves _ inPoll =>
      cases poll
      exact absurd inPoll idle
  | rests _ inPoll =>
      cases poll
      exact absurd inPoll idle
  | completes _ inPoll =>
      cases poll
      exact absurd inPoll idle
  | _ => cases poll

/-- A stopped task stays stopped, and what happens is no poll of it. -/
theorem Happens.stopped (happens : s.Happens deed s') (stopped : s.Stopped id) :
    s'.Stopped id ∧ ¬deed.IsPollOf id := by
  have none : ¬deed.IsPollOf id := fun poll =>
    (happens.polled_of_isPollOf stopped.idle poll).2 stopped.stopping
  refine ⟨⟨happens.fresh stopped.given, fun poll => ?_,
    happens.stopping stopped.given stopped.stopping⟩, none⟩
  rcases happens.polls_of_mem poll with old | rfl
  · exact stopped.idle old
  · exact none rfl

/-- A stopped task is not polled again. -/
theorem History.stopped (history : s.History deeds s') (stopped : s.Stopped id) :
    s'.Stopped id ∧ ∀ deed ∈ deeds, ¬deed.IsPollOf id := by
  induction history with
  | none => exact ⟨stopped, fun _ h => by cases h⟩
  | more _ last ih =>
      rcases last.stopped ih.1 with ⟨after, none⟩
      refine ⟨after, fun deed mem => ?_⟩
      rcases List.mem_append.1 mem with before | now
      · exact ih.2 deed before
      · rw [List.mem_singleton.1 now]
        exact none

/-- A task that has been told to stop in a history is to stop. -/
theorem History.stopping (history : s.History deeds s') (given : id < s.kernel.fresh)
    (aborted : .aborted id ∈ deeds) : id < s'.kernel.fresh ∧ s'.kernel.Stopping id := by
  -- Numbers are never taken back, so the fiber's stays a number given out.
  have fresh : ∀ {deeds s'}, s.History deeds s' → id < s'.kernel.fresh := by
    intro deeds s' history
    induction history with
    | none => exact given
    | more _ last ih => exact last.fresh ih
  refine ⟨fresh history, ?_⟩
  induction history with
  | none => cases aborted
  | more before last ih =>
      -- The abort came earlier, and nothing undoes it, or it is the last event.
      rcases List.mem_append.1 aborted with early | now
      · exact last.stopping (fresh before) (ih early)
      · cases List.mem_singleton.1 now
        cases last
        exact Kernel.stopping_abort _ id

/-- A fiber that has not been polled has done nothing. -/
theorem History.unpolled (history : s.History deeds s') (idle : id ∉ s.polls)
    (unpolled : .polled id ∉ deeds) : id ∉ s'.polls ∧ ∀ deed ∈ deeds, ¬deed.IsPollOf id := by
  induction history with
  | none => exact ⟨idle, fun _ h => by cases h⟩
  | @more deeds s₁ deed s' _ last ih =>
      have never : deed ≠ .polled id := fun h =>
        unpolled (List.mem_append_right _ (List.mem_singleton.2 h.symm))
      rcases ih fun h => unpolled (List.mem_append_left _ h) with ⟨idle, none⟩
      refine ⟨fun poll => ?_, fun d mem poll => ?_⟩
      · exact (last.polls_of_mem poll).elim idle never
      · rcases List.mem_append.1 mem with before | now
        · exact none d before poll
        · cases List.mem_singleton.1 now
          exact never (last.polled_of_isPollOf idle poll).1

/-- A deed keeps a scene sound. -/
theorem Happens.sound (happens : s.Happens deed s') (sound : s.Sound) : s'.Sound := by
  have kernel := sound.kernel
  refine ⟨?_, fun id poll => ?_⟩
  · cases happens with
    | @polls k _ _ _ started =>
        show (if started then k else k.report .fiberStarted).Sound
        split
        · exact kernel
        · exact (k.grows_report _).sound kernel
    | moves task _ moves => exact (moves.grows.sound kernel).setTask (moves.grows.task? task)
    | rests => exact kernel
    | completes => exact (((Kernel.grows_report _ _).sound kernel).deliver _ _).dropTask _
    | vanishes => exact ((Kernel.grows_leaveAll _ _).sound kernel).dropTask _
    | errand =>
        exact (((Kernel.grows_world _ _).trans (Kernel.grows_signalAll _ _)).sound
          kernel).dropTask _
    | errandPanics =>
        exact (((Kernel.grows_world _ _).trans (Kernel.grows_release _ _)).sound kernel).dropTask _
    | aborts i => exact kernel.abort i
    | interrupts i => exact kernel.deliver i _
    | drops => exact kernel
    | joins => exact kernel
    | signals signal => exact (Kernel.grows_signal _ signal).sound kernel
    | starts => exact kernel.runAsync _ _ _ _ _
    | calls => exact ((Kernel.grows_draw _).trans (Kernel.grows_wakeOne _ _)).sound kernel
    | callerMoves moves => exact moves.grows.sound kernel
    | callerEnds => exact kernel
    | callerLeaves => exact (Kernel.grows_leaveAll _ _).sound kernel
    | touches => exact (Kernel.grows_world _ _).sound kernel
    | elapses => exact (Kernel.grows_world _ _).sound kernel
    | queues => exact ⟨kernel.tasks, kernel.callbacks, kernel.calls⟩
  -- A fiber in a poll was in one before, or its poll begins here and its task is there.
  · rcases happens.polls_of_mem poll with old | rfl
    · exact happens.fresh (sound.polls id old)
    · cases happens with
      | @polls k _ _ _ started _ _ task =>
          have given : id < k.fresh := by
            rw [← Kernel.id_of_task? task]
            exact kernel.tasks _ (List.mem_of_find?_eq_some task)
          show id < (if started then k else k.report .fiberStarted).fresh
          split <;> exact given

/-- A sound scene stays sound. -/
theorem History.sound (history : s.History deeds s') (sound : s.Sound) : s'.Sound := by
  induction history with
  | none => exact sound
  | more _ last ih => exact last.sound ih

/-- Nothing is kept at the beginning of time. -/
theorem sound_start (store : σ) : (⟨Kernel.start store, [], []⟩ : Scene σ).Sound :=
  ⟨⟨fun _ h => (by cases h), fun _ h => (by cases h), fun _ h => (by cases h)⟩,
    fun _ h => by cases h⟩

end Scene

/-- The callback and the calls of a fiber, by what has happened. -/
structure Fate (id : TaskId) (onExit : Outcome → σ → σ) (deeds : List (Deed σ))
    (k : Kernel σ) : Prop where
  /-- Nobody else gets its number. -/
  given : id < k.fresh
  /-- The callback is kept as long as it has not been told anything. -/
  callback : k.callback? id = if (firstVerdict id deeds).isSome then none else some onExit
  /-- It has been told the first verdict, if there is one. -/
  told : k.told id = (firstVerdict id deeds).toList

variable {id : TaskId} {onExit : Outcome → σ → σ} {deeds : List (Deed σ)} {deed : Deed σ}
  {k k' : Kernel σ} {callers : List (Caller σ)} {polls : List TaskId} {s s' : Scene σ}

/-- One more deed, where no verdict has been given. -/
theorem firstVerdict_more (id : TaskId) (deeds : List (Deed σ)) (deed : Deed σ) :
    firstVerdict id (deeds ++ [deed]) = (firstVerdict id deeds).or (deed.verdict id) := by
  unfold firstVerdict
  rw [List.findSome?_append]
  rcases h : deed.verdict id with _ | x <;> simp [h]

/-- Something happens that calls the callback, if it is still kept. -/
theorem Fate.delivered {x : Outcome} (fate : Fate id onExit deeds k)
    (verdict : deed.verdict id = some x) (fresh : k'.fresh = k.fresh)
    (callback : k'.callback? id = (k.deliver id x).callback? id)
    (told : k'.told id = (k.deliver id x).told id) : Fate id onExit (deeds ++ [deed]) k' := by
  have more := firstVerdict_more id deeds deed
  rw [verdict] at more
  refine ⟨fresh ▸ fate.given, ?_, ?_⟩
  · rw [callback, Kernel.callback?_deliver, if_pos rfl, more]
    cases firstVerdict id deeds <;> rfl
  · rw [told, Kernel.told_deliver, fate.told, fate.callback, more]
    cases firstVerdict id deeds <;> simp

/-- One deed keeps what is known about a fiber in step with what has happened. -/
theorem Scene.Happens.fate (happens : s.Happens deed s') (fate : Fate id onExit deeds s.kernel) :
    Fate id onExit (deeds ++ [deed]) s'.kernel := by
  rcases verdict : deed.verdict id with _ | x
  · have spares := happens.spares fate.given verdict
    have same : firstVerdict id (deeds ++ [deed]) = firstVerdict id deeds := by
      rw [firstVerdict_more, verdict, Option.or_none]
    refine ⟨happens.fresh fate.given, ?_, ?_⟩
    · rw [spares.callback, same, fate.callback]
    · rw [spares.told, same, fate.told]
  · rcases happens.delivers verdict with ⟨fresh, callback, told, -⟩
    exact fate.delivered verdict fresh callback told

/-- A history keeps what is known about a fiber in step with what has happened. -/
theorem Scene.History.fate {before : List (Deed σ)} (history : s.History deeds s')
    (fate : Fate id onExit before s.kernel) : Fate id onExit (before ++ deeds) s'.kernel := by
  induction history with
  | none => rwa [List.append_nil]
  | more _ last ih =>
      rw [← List.append_assoc]
      exact last.fate ih

/-- Letting handles go leaves the world as it is. -/
theorem Kernel.world_leaveAll (k : Kernel σ) (handles : List Handle) :
    (k.leaveAll handles).world = k.world := by
  unfold Kernel.leaveAll
  induction handles generalizing k with
  | nil => rfl
  | cons handle rest ih =>
      refine (ih _).trans ?_
      unfold Kernel.leave
      split <;> rfl

/-- Nothing has been kept under a number that has not been given out. -/
theorem Kernel.Sound.told_fresh (sound : k.Sound) : k.told k.fresh = [] := by
  have away : k.calls.filter (·.1 == k.fresh) = [] :=
    List.filter_eq_nil_iff.2 fun call hcall => by simpa using Nat.ne_of_lt (sound.calls call hcall)
  rw [Kernel.told, away, List.map_nil]

/-- What is known about a fiber that has just been started. -/
theorem Kernel.Sound.fate_inside (sound : k.Sound) (settings : Settings) (effect : Effect σ)
    (env : Context) (onExit : Outcome → σ → σ) :
    Fate k.fresh onExit [] (k.runAsync true settings effect env onExit).2 := by
  let task : Task σ := ⟨k.fresh, .run false settings (.ready (.start effect env)), false⟩
  rcases ({ k with tasks := k.tasks ++ [task], fresh := k.fresh + 1 } : Kernel σ).wakeOne_eq
    k.fresh with ⟨woken, heq⟩
  have started : (k.runAsync true settings effect env onExit).2 =
      { k with
        tasks := k.tasks ++ [task], fresh := k.fresh + 1, woken := woken
        callbacks := (k.fresh, onExit) :: k.callbacks } :=
    congrArg (fun k' : Kernel σ => { k' with callbacks := (k.fresh, onExit) :: k'.callbacks }) heq
  rw [started]
  refine ⟨Nat.lt_succ_self _, ?_, sound.told_fresh⟩
  simp [Kernel.callback?, firstVerdict]

/-- What is known about a fiber where nothing could run it: its callback has been called, as
    if it had ended. -/
theorem Kernel.Sound.fate_outside (sound : k.Sound) (settings : Settings) (effect : Effect σ)
    (env : Context) (onExit : Outcome → σ → σ) :
    Fate k.fresh onExit [.completed k.fresh (.die .outsideRuntime)]
      (k.runAsync false settings effect env onExit).2 := by
  let kept : Kernel σ := { k.draw.2 with callbacks := (k.fresh, onExit) :: k.callbacks }
  have callback : kept.callback? k.fresh = some onExit := by simp [Kernel.callback?, kept]
  have begun : Fate k.fresh onExit [] kept := ⟨Nat.lt_succ_self _, callback, sound.told_fresh⟩
  exact begun.delivered (x := .die .outsideRuntime) (if_pos rfl) (kept.tasks_deliver _ _).2 rfl rfl

/-- What is known of the callback of a fiber, in every history from a scene in which the fiber
    has just been started. -/
structure Scene.CallsOnce (s₀ : Scene σ) (handle : FiberHandle) (onExit : Outcome → σ → σ) :
    Prop where
  /-- The callback has been called exactly with the first verdict: with the outcome if the fiber
      ended before it was interrupted, and with an interruption otherwise. -/
  told : ∀ {deeds s}, s₀.History deeds s →
    s.kernel.told handle.number = (firstVerdict handle.number deeds).toList
  /-- So it has been called once as soon as there is a verdict. -/
  once : ∀ {deeds s deed x}, s₀.History deeds s → deed ∈ deeds →
    deed.verdict handle.number = some x → (s.kernel.told handle.number).length = 1
  /-- The first verdict does to the state of the program what the callback does, and a later one
      does nothing. -/
  called : ∀ {deeds s deed s' x}, s₀.History deeds s → s.Happens deed s' →
    deed.verdict handle.number = some x →
    s'.kernel.world.store =
      if s.kernel.told handle.number = [] then onExit x s.kernel.world.store
      else s.kernel.world.store
  /-- A cancel is to tell the task to stop and then to interrupt, so that it has a verdict. -/
  cancels : ∀ {deeds k callers polls}, s₀.History deeds ⟨k, callers, polls⟩ →
    s₀.History (deeds ++ [.aborted handle.number, .interrupted handle.number])
      ⟨k.cancel handle, callers, polls⟩
  /-- A fiber that has not been polled has taken no step. -/
  unpolled : ∀ {deeds s}, s₀.History deeds s → .polled handle.number ∉ deeds →
    handle.number ∉ s.polls ∧ ∀ deed ∈ deeds, ¬deed.IsPollOf handle.number
  /-- If no poll of it is in progress when or after the task is told to stop, there is none at
      any time later, and so the fiber takes no step. -/
  stopped : ∀ {before s₁ after s}, s₀.History before s₁ → .aborted handle.number ∈ before →
    handle.number ∉ s₁.polls → s₁.History after s →
    handle.number ∉ s.polls ∧ ∀ deed ∈ after, ¬deed.IsPollOf handle.number
  /-- When the task goes away the world stays as it is. -/
  vanishes : ∀ {s s' : Scene σ} {handles}, s.Happens (.vanished handle.number handles) s' →
    s'.kernel.world = s.kernel.world
  /-- The turns that the kernel gives to tasks go on with the history. -/
  turns : ∀ {deeds k callers fuel task k'}, s₀.History deeds ⟨k, callers, []⟩ →
    k.task? task.id = some task → k.runTask fuel task = some k' →
    ∃ more, s₀.History (deeds ++ more) ⟨k', callers, []⟩
  /-- So does all that happens while a caller waits for something. -/
  driven : ∀ {deeds k others await observe fuel rounds x k'},
    s₀.History deeds ⟨k, await.callers ++ others, []⟩ →
    k.drive observe fuel rounds await = some (x, k') →
    ∃ more, s₀.History (deeds ++ more) ⟨k', others, []⟩

/-- What is known of the callback of a fiber where nothing can run fibers, in every history from
    a scene in which the fiber was to be started. -/
structure Scene.CallsAtOnce (s s₀ : Scene σ) (handle : FiberHandle) (onExit : Outcome → σ → σ) :
    Prop where
  /-- No task is started. -/
  tasks : s₀.kernel.tasks = s.kernel.tasks
  /-- The callback has been called. -/
  called : s₀.kernel.world =
    { s.kernel.world with store := onExit (.die .outsideRuntime) s.kernel.world.store }
  /-- That is the only call there ever is. -/
  told : ∀ {deeds s₁}, s₀.History deeds s₁ →
    s₁.kernel.told handle.number = [.die .outsideRuntime]
  /-- The fiber is over, and a cancel does nothing. -/
  cancels : ∀ k : Kernel σ, k.isFinished handle = true ∧ k.cancel handle = k

/-- The callback of a fiber is called once, by whoever comes first, in every history of the
    fiber, whatever else is going on when it is started. Where there is something that can run
    it, the callback has been called exactly with the first verdict, and a cancel from outside
    the polls of the fiber lets it take no further step. Where there is nothing that can run it,
    the callback is called at once, no task is started, and a cancel does nothing. -/
theorem callback_called_once {s : Scene σ} (sound : s.Sound) (settings : Settings)
    (effect : Effect σ) (env : Context) (onExit : Outcome → σ → σ) :
    (∀ {handle k₀}, s.kernel.runAsync true settings effect env onExit = (handle, k₀) →
      Scene.CallsOnce ⟨k₀, s.callers, s.polls⟩ handle onExit) ∧
    ∀ {handle k₀}, s.kernel.runAsync false settings effect env onExit = (handle, k₀) →
      Scene.CallsAtOnce s ⟨k₀, s.callers, s.polls⟩ handle onExit := by
  refine ⟨fun {handle k₀} started => ?_, fun {handle k₀} refused => ?_⟩
  · cases started
    have begun := sound.kernel.fate_inside settings effect env onExit
    -- The number is new, so no poll of it is under way and no callback of it is kept yet.
    have idle : s.kernel.fresh ∉ s.polls := fun poll =>
      Nat.lt_irrefl _ (sound.polls _ poll)
    have told : ∀ {deeds s₁}, (⟨_, s.callers, s.polls⟩ : Scene σ).History deeds s₁ →
        s₁.kernel.told s.kernel.fresh = (firstVerdict s.kernel.fresh deeds).toList :=
      fun history => (history.fate begun).told
    refine
      { told := told
        once := fun history mem verdict => ?_
        called := fun history happens verdict => ?_
        cancels := fun history => ?_
        unpolled := fun history => history.unpolled idle
        stopped := fun {before s₁ after s₂} history aborted idle rest => ?_
        vanishes := fun happens => ?_
        turns := fun history there run => ?_
        driven := fun history run => ?_ }
    · have some : (firstVerdict s.kernel.fresh _).isSome :=
        List.findSome?_isSome_iff.2 ⟨_, mem, by rw [verdict]; rfl⟩
      rcases Option.isSome_iff_exists.1 some with ⟨x, first⟩
      rw [told history, first]
      rfl
    -- The callback is kept until it has been called, which `told` records.
    · have fate := history.fate begun
      rw [List.nil_append] at fate
      rw [(happens.delivers verdict).2.2.2.2, fate.callback, fate.told]
      cases firstVerdict s.kernel.fresh _ <;> rfl
    · have parts := (history.more (.aborts s.kernel.fresh)).more (.interrupts s.kernel.fresh)
      rwa [List.append_assoc] at parts
    · rcases history.stopping begun.given aborted with ⟨given, stopping⟩
      rcases rest.stopped ⟨given, idle, stopping⟩ with ⟨still, none⟩
      exact ⟨still.idle, none⟩
    · cases happens
      exact Kernel.world_leaveAll _ _
    · rcases Kernel.runTask_history there run _ with ⟨more, turn⟩
      exact ⟨more, history.trans turn⟩
    · rcases Kernel.drive_history run _ with ⟨more, run⟩
      exact ⟨more, history.trans run⟩
  · cases refused
    have begun := sound.kernel.fate_outside settings effect env onExit
    -- Nothing is started: the outcome is delivered before the handle is returned.
    let kept : Kernel σ :=
      { s.kernel.draw.2 with callbacks := (s.kernel.fresh, onExit) :: s.kernel.callbacks }
    have callback : kept.callback? s.kernel.fresh = some onExit := by
      simp [Kernel.callback?, kept]
    refine ⟨(kept.tasks_deliver s.kernel.fresh _).1, ?_, fun {deeds s₁} history => ?_,
      fun _ => ⟨rfl, rfl⟩⟩
    · show (kept.deliver s.kernel.fresh _).world = _
      rw [Kernel.deliver, callback]
      rfl
    · -- It is as if the fiber had ended at once, which is the first verdict.
      have first : firstVerdict s.kernel.fresh
          ([.completed s.kernel.fresh (.die .outsideRuntime)] ++ deeds) =
            some (.die .outsideRuntime) :=
        List.findSome?_cons_of_isSome (by simp [Deed.verdict]) |>.trans (by simp [Deed.verdict])
      exact (history.fate begun).told.trans (congrArg Option.toList first)

namespace Sample

/-- Counts. -/
def count : Effect Nat :=
  .exit (Act.update fun n => (.success .null, n + 1))

/-- Counts a call a hundredfold. -/
def hundred (_ : Outcome) (n : Nat) : Nat :=
  n + 100

/-- A fiber is cancelled twice after a poll in which it has not ended, and its handle is let go
    in between. -/
def cancelledTwice : List (Deed Nat) :=
  [.polled 1, .moved 1 [], .rested 1, .aborted 1, .interrupted 1, .dropped 1, .aborted 1,
    .interrupted 1]

end Sample

/-- The callback of a fiber that is cancelled twice after a poll hears of the interruption once,
    and whatever happens afterwards the fiber is not polled again. -/
theorem cancelled_twice_called_once :
    (⟨Kernel.start 0, [], []⟩ : Scene Nat).Sound ∧ ∃ s : Scene Nat,
      (⟨((Kernel.start 0).runAsync true ⟨.async, true⟩ Sample.count Context.empty
          Sample.hundred).2, [], []⟩ : Scene Nat).History Sample.cancelledTwice s ∧
      s.kernel.told 1 = [.die .interrupted] ∧ s.kernel.world.store = 101 ∧
      ∀ {deeds s'}, s.History deeds s' →
        s'.kernel.told 1 = [.die .interrupted] ∧ ∀ deed ∈ deeds, ¬deed.IsPollOf 1 := by
  let k₀ := ((Kernel.start 0).runAsync true ⟨.async, true⟩ Sample.count Context.empty
    Sample.hundred).2
  -- Polled once and moved within the poll, then cancelled, dropped and cancelled again.
  have history : (⟨k₀, [], []⟩ : Scene Nat).History Sample.cancelledTwice _ :=
    Scene.History.none
      |>.more (.polls (show k₀.task? 1 = _ from rfl) List.not_mem_nil)
      |>.more (.moves (show Kernel.task? _ 1 = _ from rfl) List.mem_cons_self (.one (.step rfl)))
      |>.more (.rests (show Kernel.task? _ 1 = _ from rfl) List.mem_cons_self)
      |>.more (.aborts 1) |>.more (.interrupts 1) |>.more (.drops 1)
      |>.more (.aborts 1) |>.more (.interrupts 1)
  have calls := (callback_called_once (Scene.sound_start 0) ⟨.async, true⟩ Sample.count
    Context.empty Sample.hundred).1 rfl
  refine ⟨Scene.sound_start 0, _, history, calls.told history, rfl, fun {deeds s'} rest => ⟨?_, ?_⟩⟩
  · exact calls.told (history.trans rest)
  · refine (calls.stopped history ?_ (by decide) rest).2
    exact List.mem_cons_of_mem _ (.tail _ (.tail _ (.head _)))

end EffectKernel
