import EffectKernel.Proofs.Moves
import EffectKernel.Proofs.SideBySide

/-!
# Rely and Guarantee of Fibers

A fiber is never alone in the kernel. Other fibers have their turns between its own, time goes
by, numbers are given out, and errands are done. To say how a fiber goes, whoever else there
may be, is to say what it relies on the others to leave alone, and what it guarantees them.

A fiber's place (`FiberPlace`) is how it is run, its number, the fibers around it, and a contract
about the state of the program. To the fiber belong the numbers that have been given out to it,
and with them the slots and the errands. Between its turns (`FiberPlace.Meanwhile`) the others
leave alone what belongs to it, and change the state of the program only as its contract allows
them. Time may go by when nothing of the fiber waits for a turn, but never past a point in time
at which something of it has to be woken. In its turns it keeps to its guarantee
(`FiberPlace.Behaves`): whatever it does, in a turn of its own or when one of its errands is done,
leaves alone what belongs to others, and changes the state of the program only as the contract
allows it.

A fiber attains an aim (`FiberPlace.Attains`) if it gets there in a limited number of turns of its
own, whatever happens meanwhile, and keeps to its guarantee on the way. The aim may be to end with
some outcome at some point in time (`Timing`), or to go on as some machine.

## Main definitions

* `Fiber.Turns`, `Fiber.Continues`: How a turn goes, if it is given enough steps.
* `StoreContract`, `FiberPlace`: A fiber, and what it and the others may do to the state of the
  program.
* `FiberPlace.Meanwhile`: What happens between the turns of a fiber.
* `FiberPlace.Behaves`: What a fiber does in its turns.
* `Aim`, `FiberPlace.Attains`: Where a fiber gets to, whatever happens meanwhile.
* `Timing`: When a fiber ends, and how.
* `FiberPlace.Valid`: The numbers of a fiber and of those around it have been given out.
* `Effect.Takes`: How an effect goes as a fiber of its own, wherever that is.
* `Effect.ComesTo`: What an effect comes to, wherever it is run.

## Theorems

* `FiberPlace.Meanwhile.trans`: What happens meanwhile, one thing after the other.
* `FiberPlace.Behaves.trans`: What a fiber does in its turns, one after the other.
* `FiberPlace.Attains.meanwhile`: A fiber still attains its aim after what happens meanwhile.
-/

namespace EffectKernel

variable {σ : Type}

/-- Puts a number at the end of a queue, unless it is in it. -/
def enqueue (queue : List Nat) (id : Nat) : List Nat :=
  if id ∈ queue then queue else queue ++ [id]

/-- Puts numbers at the end of a queue, one after the other. -/
def enqueueAll (queue ids : List Nat) : List Nat :=
  ids.foldl enqueue queue

section Queue

variable {queue ids : List Nat} {id i : Nat}

theorem mem_enqueue : i ∈ enqueue queue id ↔ i ∈ queue ∨ i = id := by
  unfold enqueue
  split
  · next h => exact ⟨.inl, fun h' => h'.elim (fun h' => h') fun heq => heq ▸ h⟩
  · rw [List.mem_append, List.mem_singleton]

theorem mem_enqueueAll : i ∈ enqueueAll queue ids ↔ i ∈ queue ∨ i ∈ ids := by
  induction ids generalizing queue with
  | nil => simp [enqueueAll]
  | cons id rest ih =>
      rw [enqueueAll, List.foldl_cons, ← enqueueAll, ih, mem_enqueue, List.mem_cons, or_assoc]

theorem enqueueAll_append (queue ids ids' : List Nat) :
    enqueueAll queue (ids ++ ids') = enqueueAll (enqueueAll queue ids) ids' :=
  List.foldl_append

/-- The part of a queue that somebody is interested in. -/
theorem filter_enqueue (p : Nat → Bool) (queue : List Nat) (id : Nat) :
    (enqueue queue id).filter p = if p id then enqueue (queue.filter p) id else queue.filter p := by
  unfold enqueue
  by_cases hp : p id = true
  · by_cases hid : id ∈ queue
    · simp [hp, hid]
    · simp [hp, hid, List.filter_append]
  · by_cases hid : id ∈ queue
    · simp [hp, hid]
    · simp [hp, hid, List.filter_append]

/-- Filtering a queue commutes with putting numbers into it. -/
theorem filter_enqueueAll (p : Nat → Bool) (queue ids : List Nat) :
    (enqueueAll queue ids).filter p = enqueueAll (queue.filter p) (ids.filter p) := by
  induction ids generalizing queue with
  | nil => rfl
  | cons id rest ih =>
      rw [enqueueAll, List.foldl_cons, ← enqueueAll, ih, filter_enqueue]
      by_cases hp : p id = true
      · rw [if_pos hp, List.filter_cons_of_pos hp]
        rfl
      · rw [if_neg hp, List.filter_cons_of_neg hp]

end Queue

namespace Kernel

theorem wakeOne_enqueue (k : Kernel σ) (id : FiberId) :
    k.wakeOne id = { k with woken := enqueue k.woken id } := by
  unfold wakeOne enqueue
  split <;> rfl

theorem wake_enqueue (k : Kernel σ) (path : Path) :
    k.wake path = { k with woken := enqueueAll k.woken path } := by
  unfold wake enqueueAll
  induction path generalizing k with
  | nil => rfl
  | cons id rest ih =>
      rw [List.foldl_cons, List.foldl_cons, ih, wakeOne_enqueue]

theorem foldl_wake_enqueue (k : Kernel σ) (paths : List Path) :
    paths.foldl wake k = { k with woken := enqueueAll k.woken paths.flatten } := by
  induction paths generalizing k with
  | nil => rfl
  | cons path rest ih =>
      rw [List.foldl_cons, ih, wake_enqueue, List.flatten_cons, enqueueAll_append]

/-- Leaving a handle changes the slots and nothing else. -/
theorem leave_eq (k : Kernel σ) (handle : Handle) :
    ∃ slots, k.leave handle = { k with slots := slots } := by
  unfold leave
  split <;> exact ⟨_, rfl⟩

/-- Whoever goes away changes only what is behind the handles. -/
theorem leaveAll_eq (k : Kernel σ) (handles : List Handle) :
    ∃ slots, k.leaveAll handles = { k with slots := slots } := by
  unfold leaveAll
  induction handles generalizing k with
  | nil => exact ⟨_, rfl⟩
  | cons handle rest ih =>
      rcases k.leave_eq handle with ⟨slots, heq⟩
      rcases ih (k.leave handle) with ⟨slots', heq'⟩
      exact ⟨slots', by rw [List.foldl_cons, heq', heq]⟩

/-- The slot of a handle that is not left stays as it is. -/
theorem slot?_leaveAll (k : Kernel σ) {handles : List Handle} {h : Handle} (other : h ∉ handles) :
    (k.leaveAll handles).slot? h = k.slot? h := by
  unfold leaveAll
  induction handles generalizing k with
  | nil => rfl
  | cons handle rest ih =>
      rw [List.foldl_cons, ih (k.leave handle) fun hmem => other (List.mem_cons_of_mem _ hmem)]
      exact k.slot?_leave fun heq => other (heq ▸ List.mem_cons_self)

/-- The tasks that belong to somebody. -/
def tasksOf (k : Kernel σ) (mine : Nat → Bool) : List (Task σ) :=
  k.tasks.filter fun task => mine task.id

/-- No task, and nobody in the queue, has a number that is still to be given out. -/
structure Accounted (k : Kernel σ) : Prop where
  /-- Nobody in the queue. -/
  woken : k.Numbered
  /-- No task. -/
  tasks : ∀ task ∈ k.tasks, task.id < k.fresh

/-- A task has its turn. -/
def Runs (k : Kernel σ) (task : Task σ) (k' : Kernel σ) : Prop :=
  ∃ least, ∀ fuel, least ≤ fuel → k.runTask fuel task = some k'

end Kernel

/-- A task that does something later. -/
def Work.IsErrand : Work σ → Prop
  | .run _ _ _ => False
  | .errand _ _ _ => True

theorem flatten_flatMap {α β : Type} (items : List α) (f : α → List (List β)) :
    (items.flatMap f).flatten = items.flatMap fun a => (f a).flatten := by
  simp only [List.flatten_eq_flatMap, List.flatMap_assoc]

/-- An errand is nobody's but its own. -/
theorem Task.dueAt_errand {task : Task σ} (errand : task.work.IsErrand) (time : Nat) :
    (task.work.dueAt time [task.id]).flatten = [] ∨
      (task.work.dueAt time [task.id]).flatten = [task.id] := by
  cases hwork : task.work with
  | run started settings fiber =>
      rw [hwork] at errand
      exact errand.elim
  | errand due handle act =>
      simp only [Work.dueAt]
      split
      · exact .inr rfl
      · exact .inl rfl

section Earlier

variable {a b : Option Nat} {s t : Nat}

theorem earlier_eq_some (h : earlier a b = some t) : a = some t ∨ b = some t := by
  rcases a with _ | a <;> rcases b with _ | b
  · cases h
  · exact .inr h
  · exact .inl h
  · cases h
    rcases Nat.le_total a b with hle | hle
    · exact .inl (by rw [Nat.min_eq_left hle])
    · exact .inr (by rw [Nat.min_eq_right hle])

/-- The nearer of two wake-ups is no later than either of them. -/
theorem earlier_le (h : a = some s ∨ b = some s) : ∃ t, earlier a b = some t ∧ t ≤ s := by
  rcases a with _ | a <;> rcases b with _ | b <;> rcases h with h | h <;> cases h
  · exact ⟨_, rfl, Nat.le_refl _⟩
  · exact ⟨_, rfl, Nat.le_refl _⟩
  · exact ⟨_, rfl, Nat.min_le_left _ _⟩
  · exact ⟨_, rfl, Nat.min_le_right _ _⟩

end Earlier

/-- What holds with one step more than enough holds with enough steps. -/
theorem exists_enough_of_succ {P : Nat → Prop} (least : Nat)
    (holds : ∀ fuel, least ≤ fuel → P (fuel + 1)) : ∃ least, ∀ fuel, least ≤ fuel → P fuel := by
  refine ⟨least + 1, fun fuel hfuel => ?_⟩
  obtain ⟨fuel, rfl⟩ := Nat.exists_eq_add_of_le' (Nat.le_trans (Nat.le_add_left 1 least) hfuel)
  exact holds fuel (Nat.le_of_succ_le_succ hfuel)

namespace Fiber

/-- A turn of a fiber, if it is given enough steps. -/
def Turns (settings : Settings) (path : Path) (fiber : Fiber σ) (k : Kernel σ) (r : Turn σ)
    (k' : Kernel σ) : Prop :=
  ∃ least, ∀ fuel, least ≤ fuel → turn settings fuel path fiber k = (r, k')

/-- In a turn, a fiber goes on as another one, if it is given enough steps. -/
def Continues (settings : Settings) (path : Path) (fiber : Fiber σ) (k : Kernel σ)
    (fiber' : Fiber σ) (k' : Kernel σ) : Prop :=
  ∃ least steps, ∀ fuel, least ≤ fuel →
    turn settings (fuel + steps) path fiber k = turn settings fuel path fiber' k'

section Turns

variable {settings : Settings} {path : Path} {fiber fiber₁ fiber' : Fiber σ} {k k₁ k' : Kernel σ}
  {r : Turn σ}

/-- One step in a turn. -/
theorem Continues.one (step : ∀ fuel, turn settings (fuel + 1) path fiber k =
    turn settings fuel path fiber' k') : Continues settings path fiber k fiber' k' :=
  ⟨0, 1, fun fuel _ => step fuel⟩

theorem Continues.trans (first : Continues settings path fiber k fiber₁ k₁)
    (rest : Continues settings path fiber₁ k₁ fiber' k') :
    Continues settings path fiber k fiber' k' := by
  rcases first with ⟨least, steps, first⟩
  rcases rest with ⟨least', steps', rest⟩
  refine ⟨max least least', steps' + steps, fun fuel hfuel => ?_⟩
  rw [← Nat.add_assoc, first _ (by omega), rest _ (by omega)]

/-- A turn that goes on as another fiber. -/
theorem Continues.turns (first : Continues settings path fiber k fiber₁ k₁)
    (rest : Turns settings path fiber₁ k₁ r k') : Turns settings path fiber k r k' := by
  rcases first with ⟨least, steps, first⟩
  rcases rest with ⟨least', rest⟩
  refine ⟨max least least' + steps, fun fuel hfuel => ?_⟩
  have := first (fuel - steps) (by omega)
  rw [Nat.sub_add_cancel (by omega)] at this
  rw [this, rest _ (by omega)]

/-- A turn that is over at once. -/
theorem Turns.one (step : ∀ fuel, turn settings (fuel + 1) path fiber k = (r, k')) :
    Turns settings path fiber k r k' :=
  exists_enough_of_succ 0 fun fuel _ => step fuel

/-- The machine takes a step. -/
theorem continues_next {m m' : Machine σ} {w : World σ}
    (step : m.step settings k.world = (.next m', w)) :
    Continues settings path (.ready m) k (.ready m') { k with world := w } :=
  .one fun fuel => by rw [turn, step]

/-- The machine has come to the end. -/
theorem turns_done (x : Outcome) (env : Context) :
    Turns settings path (.ready ⟨.unwind x, env, []⟩) k (.ended x) k :=
  .one fun fuel => by rw [turn]; rfl

end Turns

mutual
/-- The numbers that a fiber is about: those of the fibers in it, and the handles. -/
def numbers : Fiber σ → List Nat
  | .ready _ => []
  | .asleep _ _ => []
  | .yielded _ => []
  | .listening handle _ => [handle]
  | .limited _ _ inner _ => inner.numbers
  | .joining _ children _ => numbersEach children

/-- The numbers that fibers side by side are about. -/
def numbersEach : List (FiberId × Nat × Fiber σ) → List Nat
  | [] => []
  | (id, _, child) :: rest => id :: (child.numbers ++ numbersEach rest)
end

mutual
/-- The handles a fiber waits on are among its numbers. -/
theorem handles_subset_numbers : (fiber : Fiber σ) → fiber.handles ⊆ fiber.numbers
  | .ready _ => List.Subset.refl _
  | .asleep _ _ => List.Subset.refl _
  | .yielded _ => List.Subset.refl _
  | .listening _ _ => List.Subset.refl _
  | .limited _ _ inner _ => by
      unfold handles numbers
      exact handles_subset_numbers inner
  | .joining _ children _ => by
      unfold handles numbers
      exact handlesEach_subset_numbers children

theorem handlesEach_subset_numbers :
    (children : List (FiberId × Nat × Fiber σ)) → handlesEach children ⊆ numbersEach children
  | [] => List.Subset.refl _
  | (id, _, child) :: rest => by
      unfold handlesEach numbersEach
      refine List.append_subset.2 ⟨fun h hh => ?_, fun h hh => ?_⟩
      · exact List.mem_cons_of_mem _ (List.mem_append_left _ (handles_subset_numbers child hh))
      · exact List.mem_cons_of_mem _
          (List.mem_append_right _ (handlesEach_subset_numbers rest hh))
end

mutual
/-- Who is woken when the time of a fiber has come is around the fiber or in it. -/
theorem mem_dueAt {now : Nat} {path : Path} {id : Nat} :
    (fiber : Fiber σ) → id ∈ (fiber.dueAt now path).flatten → id ∈ path ∨ id ∈ fiber.numbers
  | .ready _, h => by cases h
  | .asleep wake m, h => by
      unfold dueAt at h
      split at h
      · exact .inl (by simpa using h)
      · cases h
  | .yielded _, h => by cases h
  | .listening _ _, h => by cases h
  | .limited _ deadline inner _, h => by
      unfold dueAt at h
      rw [List.flatten_append, List.mem_append] at h
      rcases h with h | h
      · exact mem_dueAt inner h
      · split at h
        · exact .inl (by simpa using h)
        · cases h
  | .joining _ children _, h => by
      unfold dueAt at h
      exact mem_dueAtEach children h

/-- Whoever is due in one of the children is on the path to them or one of their numbers. -/
theorem mem_dueAtEach {now : Nat} {path : Path} {id : Nat} :
    (children : List (FiberId × Nat × Fiber σ)) →
      id ∈ (dueAtEach now path children).flatten → id ∈ path ∨ id ∈ numbersEach children
  | [], h => by cases h
  | (i, _, child) :: rest, h => by
      unfold dueAtEach at h
      unfold numbersEach
      rw [List.flatten_append, List.mem_append] at h
      rcases h with h | h
      · rcases mem_dueAt child h with h | h
        -- The path of a child is its own number in front of the whole's path.
        · rcases List.mem_cons.1 h with rfl | h
          · exact .inr List.mem_cons_self
          · exact .inl h
        · exact .inr (List.mem_cons_of_mem _ (List.mem_append_left _ h))
      · rcases mem_dueAtEach rest h with h | h
        · exact .inl h
        · exact .inr (List.mem_cons_of_mem _ (List.mem_append_right _ h))
end

mutual
/-- Whoever is woken when the time of a fiber has come, those around it are woken too. -/
theorem subset_of_mem_dueAt {now : Nat} {path due : Path} :
    (fiber : Fiber σ) → due ∈ fiber.dueAt now path → path ⊆ due
  | .ready _, h => by cases h
  | .asleep wake m, h => by
      unfold dueAt at h
      split at h
      · rw [List.mem_singleton.1 h]
        exact List.Subset.refl _
      · cases h
  | .yielded _, h => by cases h
  | .listening _ _, h => by cases h
  | .limited _ deadline inner _, h => by
      unfold dueAt at h
      -- What is due inside has the whole path, and the deadline's path is this one.
      rcases List.mem_append.1 h with h | h
      · exact subset_of_mem_dueAt inner h
      · split at h
        · rw [List.mem_singleton.1 h]
          exact List.Subset.refl _
        · cases h
  | .joining _ children _, h => by
      unfold dueAt at h
      exact subset_of_mem_dueAtEach children h

/-- A path that is due in one of the children goes through the whole. -/
theorem subset_of_mem_dueAtEach {now : Nat} {path due : Path} :
    (children : List (FiberId × Nat × Fiber σ)) → due ∈ dueAtEach now path children → path ⊆ due
  | [], h => by cases h
  | (i, _, child) :: rest, h => by
      unfold dueAtEach at h
      rcases List.mem_append.1 h with h | h
      · exact List.Subset.trans (List.subset_cons_self _ _) (subset_of_mem_dueAt child h)
      · exact subset_of_mem_dueAtEach rest h
end

end Fiber

/-- What a fiber and the others may do to the state of the program. -/
structure StoreContract (σ : Type) where
  /-- What the others may do to it, which the fiber relies on. -/
  rely : σ → σ → Prop
  /-- What the fiber does to it, which it guarantees the others. -/
  guarantee : σ → σ → Prop
  /-- The others may do nothing. -/
  rely_refl : ∀ a, rely a a
  /-- They may do one thing after the other. -/
  rely_trans : ∀ {a b c}, rely a b → rely b c → rely a c
  /-- It may be left as it is. -/
  guarantee_refl : ∀ a, guarantee a a
  /-- One thing may be done after the other. -/
  guarantee_trans : ∀ {a b c}, guarantee a b → guarantee b c → guarantee a c

/-- The place of a fiber among others. -/
structure FiberPlace (σ : Type) where
  /-- How it is run. -/
  settings : Settings
  /-- Its number. -/
  id : FiberId
  /-- The fibers around it. -/
  around : Path
  /-- What it and the others may do to the state of the program. -/
  contract : StoreContract σ

namespace FiberPlace

variable (p : FiberPlace σ) {mine mine₁ mine' : Nat → Bool} {fiber : Option (Fiber σ)}
  {k k₁ k' : Kernel σ}

/-- The path of the fiber. -/
def path : Path :=
  p.id :: p.around

/-- The numbers that have to do with the fiber: its own and those that belong to it. -/
def owns (mine : Nat → Bool) (h : Nat) : Bool :=
  h == p.id || mine h

/-- Who has to be woken at a point in time, in order. -/
def dues (mine : Nat → Bool) (fiber : Option (Fiber σ)) (k : Kernel σ) (time : Nat) : List Nat :=
  (fiber.toList.flatMap fun f => f.dueAt time p.path).flatten ++
    ((k.tasksOf mine).flatMap fun task => task.work.dueAt time [task.id]).flatten

/-- Something of a fiber has to be woken at a point in time. -/
def Wakes (mine : Nat → Bool) (fiber : Option (Fiber σ)) (k : Kernel σ) (time : Nat) : Prop :=
  (∃ f, fiber = some f ∧ f.nextWake = some time) ∨
    ∃ task ∈ k.tasksOf mine, task.work.nextWake = some time

/-- Nothing of the fiber waits for a turn. -/
def Quiet (mine : Nat → Bool) (fiber : Option (Fiber σ)) (k : Kernel σ) : Prop :=
  (fiber.isSome → p.id ∉ k.woken) ∧ ∀ task ∈ k.tasksOf mine, task.id ∉ k.woken

/-- What happens between the turns of a fiber. -/
structure Meanwhile (mine : Nat → Bool) (fiber : Option (Fiber σ)) (k k' : Kernel σ) : Prop where
  /-- Numbers may be given out. -/
  fresh : k.fresh ≤ k'.fresh
  /-- No others are used. -/
  accounted : k.Accounted → k'.Accounted
  /-- The state of the program changes only as the contract allows the others. -/
  store : p.contract.rely k.world.store k'.world.store
  /-- Its slots are left alone. -/
  slots : ∀ h, mine h = true → k'.slot? h = k.slot? h
  /-- So are its errands. -/
  tasks : k'.tasksOf mine = k.tasksOf mine
  /-- Time stands still, and its place in the queue is kept. Or time goes by, which it does only
      when nothing of the fiber waits for a turn; and then those of the fiber whose time has
      come are woken. -/
  time : (k'.now = k.now ∧ k'.woken.filter (p.owns mine) = k.woken.filter (p.owns mine)) ∨
    (k.now < k'.now ∧ p.Quiet mine fiber k ∧ (∀ time, Wakes mine fiber k time → k'.now ≤ time) ∧
      k'.woken.filter (p.owns mine) =
        (enqueueAll [] (p.dues mine fiber k k'.now)).filter (p.owns mine))

/-- What a fiber does in a turn of its own. -/
structure Behaves (mine mine' : Nat → Bool) (k k' : Kernel σ) : Prop where
  /-- Numbers may be given out. -/
  fresh : k.fresh ≤ k'.fresh
  /-- No others are used. -/
  accounted : (∀ id ∈ p.path, id < k.fresh) → k.Accounted → k'.Accounted
  /-- Time stands still. -/
  clock : k'.now = k.now
  /-- What the fiber does to the state of the program. -/
  store : p.contract.guarantee k.world.store k'.world.store
  /-- What belongs to it still does. -/
  grows : ∀ h, mine h = true → mine' h = true
  /-- What else belongs to it has been given out just now. -/
  new : ∀ h, mine' h = true → mine h = false → k.fresh ≤ h ∧ h < k'.fresh
  /-- The slots of others are left alone. -/
  slots : ∀ h, mine' h = false → k'.slot? h = k.slot? h
  /-- So are the tasks of others. -/
  tasks : k'.tasks.filter (fun task => !mine' task.id) = k.tasks.filter fun task => !mine' task.id
  /-- So are the places of others in the queue. -/
  woken : k'.woken.filter (fun h => !(p.owns mine' h) && !p.around.contains h) =
    k.woken.filter fun h => !(p.owns mine' h) && !p.around.contains h
  /-- Who is around the fiber stays in the queue. -/
  around : ∀ id ∈ p.around, id ∈ k.woken → id ∈ k'.woken
  /-- If the fiber or somebody around it is put in the queue, everybody around it is. -/
  carries : ∀ id ∈ p.path, id ∈ k'.woken → id ∉ k.woken → ∀ i ∈ p.around, i ∈ k'.woken

variable {p}

theorem Meanwhile.refl (mine : Nat → Bool) (fiber : Option (Fiber σ)) (k : Kernel σ) :
    p.Meanwhile mine fiber k k :=
  ⟨Nat.le_refl _, fun h => h, p.contract.rely_refl _, fun _ _ => rfl, rfl, .inl ⟨rfl, rfl⟩⟩

theorem owns_id (mine : Nat → Bool) : p.owns mine p.id = true := by
  simp [owns]

theorem owns_of_mine {h : Nat} (hmine : mine h = true) : p.owns mine h = true := by
  simp [owns, hmine]

theorem mine_of_mem_tasksOf {task : Task σ} (h : task ∈ k.tasksOf mine) : mine task.id = true :=
  (List.mem_filter.1 h).2

/-- In the part of the queue that a fiber has to do with, its own numbers are found. -/
theorem mem_woken_congr {h : Nat}
    (same : k'.woken.filter (p.owns mine) = k.woken.filter (p.owns mine))
    (own : p.owns mine h = true) : h ∈ k'.woken ↔ h ∈ k.woken := by
  have : h ∈ k'.woken.filter (p.owns mine) ↔ h ∈ k.woken.filter (p.owns mine) := by rw [same]
  simpa [List.mem_filter, own] using this

/-- Whether nothing waits for a turn is decided by its errands and by its part of the queue. -/
theorem Quiet.congr (tasks : k'.tasksOf mine = k.tasksOf mine)
    (same : k'.woken.filter (p.owns mine) = k.woken.filter (p.owns mine)) :
    p.Quiet mine fiber k' ↔ p.Quiet mine fiber k := by
  unfold Quiet
  rw [tasks, mem_woken_congr same (owns_id mine)]
  refine and_congr_right fun _ => forall₂_congr fun task htask => not_congr ?_
  exact mem_woken_congr same (owns_of_mine (mine_of_mem_tasksOf htask))

theorem Wakes.congr (tasks : k'.tasksOf mine = k.tasksOf mine) (time : Nat) :
    Wakes mine fiber k' time ↔ Wakes mine fiber k time := by
  unfold Wakes
  rw [tasks]

/-- What is due of it depends on its errands only. -/
theorem dues_congr (tasks : k'.tasksOf mine = k.tasksOf mine) (time : Nat) :
    p.dues mine fiber k' time = p.dues mine fiber k time := by
  unfold dues
  rw [tasks]

/-- What happens meanwhile, one thing after the other. -/
theorem Meanwhile.trans (first : p.Meanwhile mine fiber k k₁)
    (rest : p.Meanwhile mine fiber k₁ k') : p.Meanwhile mine fiber k k' := by
  refine ⟨Nat.le_trans first.fresh rest.fresh, fun h => rest.accounted (first.accounted h),
    p.contract.rely_trans first.store rest.store,
    fun h hmine => (rest.slots h hmine).trans (first.slots h hmine),
    rest.tasks.trans first.tasks, ?_⟩
  -- Time goes by in neither stretch, in one of them, or in both; nothing is woken before the last
  -- of them.
  rcases rest.time with ⟨still, same⟩ | ⟨later, quiet, within, woken⟩
  · rcases first.time with ⟨still₁, same₁⟩ | ⟨later₁, quiet₁, within₁, woken₁⟩
    · exact .inl ⟨still.trans still₁, same.trans same₁⟩
    · refine .inr ⟨still ▸ later₁, quiet₁, fun time h => still ▸ within₁ time h, ?_⟩
      rw [same, woken₁, still]
  · rw [dues_congr first.tasks] at woken
    have within' : ∀ time, Wakes mine fiber k time → k'.now ≤ time := fun time h =>
      within time ((Wakes.congr first.tasks time).2 h)
    rcases first.time with ⟨still₁, same₁⟩ | ⟨later₁, quiet₁, -, -⟩
    · exact .inr ⟨still₁ ▸ later, (Quiet.congr first.tasks same₁).1 quiet, within', woken⟩
    · exact .inr ⟨Nat.lt_trans later₁ later, quiet₁, within', woken⟩

theorem Behaves.refl (mine : Nat → Bool) (k : Kernel σ) : p.Behaves mine mine k k := by
  refine ⟨Nat.le_refl _, fun _ h => h, rfl, p.contract.guarantee_refl _, fun _ h => h,
    fun h hmine hnot => ?_,
    fun _ _ => rfl, rfl, rfl, fun _ _ h => h, fun _ _ h hnot => absurd h hnot⟩
  rw [hmine] at hnot
  cases hnot

/-- What is left of some items when more of them are taken away. -/
theorem filter_of_filter {α : Type} {xs ys : List α} {q r : α → Bool}
    (same : xs.filter q = ys.filter q) (less : ∀ x, r x = true → q x = true) :
    xs.filter r = ys.filter r := by
  have both : ∀ zs : List α, (zs.filter q).filter r = zs.filter r := by
    intro zs
    rw [List.filter_filter]
    refine List.filter_congr fun x _ => ?_
    cases hr : r x with
    | false => rfl
    | true => exact Bool.and_eq_true_iff.2 ⟨rfl, less x hr⟩
  rw [← both xs, ← both ys, same]

/-- What does not belong to a fiber did not before. -/
theorem Behaves.not_mine (behaves : p.Behaves mine mine' k k') {h : Nat}
    (hnot : mine' h = false) : mine h = false := by
  cases hmine : mine h with
  | false => rfl
  | true => rw [behaves.grows h hmine] at hnot; cases hnot

/-- What is not its own after a turn was not its own before. -/
theorem Behaves.not_owns (behaves : p.Behaves mine mine' k k') {h : Nat}
    (hnot : (!p.owns mine' h) = true) : (!p.owns mine h) = true := by
  simp only [owns, Bool.not_or, Bool.and_eq_true, Bool.not_eq_true'] at hnot ⊢
  exact ⟨hnot.1, behaves.not_mine hnot.2⟩

/-- What a fiber does, one thing after the other. -/
theorem Behaves.trans (first : p.Behaves mine mine₁ k k₁) (rest : p.Behaves mine₁ mine' k₁ k') :
    p.Behaves mine mine' k k' := by
  refine ⟨Nat.le_trans first.fresh rest.fresh,
    fun place h => rest.accounted (fun id hid => Nat.lt_of_lt_of_le (place id hid) first.fresh)
      (first.accounted place h),
    rest.clock.trans first.clock,
    p.contract.guarantee_trans first.store rest.store,
      fun h hmine => rest.grows h (first.grows h hmine),
    fun h hmine hnot => ?_, fun h hnot => ?_, ?_, ?_,
    fun id hid hwoken => rest.around id hid (first.around id hid hwoken),
    fun id hid hwoken hnot i hi => ?_⟩
  -- What is new was added in the first stretch or in the second one.
  · cases h₁ : mine₁ h with
    | true =>
        have new := first.new h h₁ hnot
        exact ⟨new.1, Nat.lt_of_lt_of_le new.2 rest.fresh⟩
    | false =>
        have new := rest.new h hmine h₁
        exact ⟨Nat.le_trans first.fresh new.1, new.2⟩
  · exact (rest.slots h hnot).trans (first.slots h (rest.not_mine hnot))
  · refine rest.tasks.trans (filter_of_filter first.tasks fun task htask => ?_)
    rw [rest.not_mine (by simpa using htask)]
    rfl
  · refine rest.woken.trans (filter_of_filter first.woken fun h hnot => ?_)
    rcases Bool.and_eq_true_iff.1 hnot with ⟨howns, haround⟩
    exact Bool.and_eq_true_iff.2 ⟨rest.not_owns howns, haround⟩
  · by_cases h₁ : id ∈ k₁.woken
    · exact rest.around i hi (first.carries id hid h₁ hnot i hi)
    · exact rest.carries id hid hwoken h₁ i hi

/-- One of its own leaves the queue. -/
theorem behaves_unwake {id : Nat} (own : p.owns mine id = true) (apart : id ∉ p.around)
    (k : Kernel σ) : p.Behaves mine mine k (k.unwake id) := by
  -- Only its own number is taken off the queue.
  have mem : ∀ i, i ∈ (k.unwake id).woken ↔ i ∈ k.woken ∧ i ≠ id := fun i => by
    simp [Kernel.unwake]
  refine { Behaves.refl mine k with accounted := ?_, woken := ?_, around := ?_, carries := ?_ }
  · exact fun _ h => ⟨fun i hi => h.woken i ((mem i).1 hi).1, h.tasks⟩
  · show (k.woken.filter (· != id)).filter _ = _
    rw [List.filter_filter]
    refine List.filter_congr fun h _ => ?_
    by_cases heq : h = id
    · subst heq
      simp [own]
    · simp [heq]
  · exact fun i hi hwoken => (mem i).2 ⟨hwoken, fun heq => apart (heq ▸ hi)⟩
  · exact fun i _ hwoken hnot => absurd ((mem i).1 hwoken).1 hnot

/-- The fiber puts itself, and who is around it, in the queue. -/
theorem behaves_wake (mine : Nat → Bool) (k : Kernel σ) :
    p.Behaves mine mine k (k.wake p.path) := by
  rw [Kernel.wake_enqueue]
  refine { Behaves.refl mine k with accounted := ?_, woken := ?_, around := ?_, carries := ?_ }
  · exact fun place h => ⟨fun i hi => (mem_enqueueAll.1 hi).elim (h.woken i) (place i), h.tasks⟩
  · show (enqueueAll k.woken p.path).filter _ = _
    rw [filter_enqueueAll]
    -- Its path has its own number and those of the ones around it, and nobody else's.
    have none : p.path.filter (fun h => !(p.owns mine h) && !p.around.contains h) = [] := by
      refine List.filter_eq_nil_iff.2 fun h hh => ?_
      rcases List.mem_cons.1 hh with rfl | hh
      · simp [owns_id]
      · simp [hh]
    rw [none]
    rfl
  · exact fun i _ hwoken => mem_enqueueAll.2 (.inl hwoken)
  · exact fun _ _ _ _ i hi => mem_enqueueAll.2 (.inr (List.mem_cons_of_mem _ hi))

/-- Whoever waits for a handle of the fiber goes away. -/
theorem behaves_leaveAll {handles : List Handle} (own : ∀ h ∈ handles, mine h = true)
    (k : Kernel σ) : p.Behaves mine mine k (k.leaveAll handles) := by
  have slots : ∀ h, mine h = false → (k.leaveAll handles).slot? h = k.slot? h := fun h hnot =>
    k.slot?_leaveAll fun hmem => by
      rw [own h hmem] at hnot
      cases hnot
  rcases k.leaveAll_eq handles with ⟨slots', heq⟩
  rw [heq] at slots ⊢
  exact { Behaves.refl mine k with accounted := fun _ h => ⟨h.woken, h.tasks⟩, slots := slots }

/-- The fiber does something to the world. -/
theorem behaves_world {w : World σ} (clock : w.clock = k.now)
    (store : p.contract.guarantee k.world.store w.store) (mine : Nat → Bool) :
    p.Behaves mine mine k { k with world := w } :=
  { Behaves.refl mine k with
    accounted := fun _ h => ⟨h.woken, h.tasks⟩, clock := clock, store := store }

end FiberPlace

/-- Where a fiber is to get to. -/
structure Aim (σ : Type) where
  /-- Until when it is looked at. -/
  horizon : Nat
  /-- When it is to be there, if ever. -/
  due : Option Nat
  /-- Whether it is to be there in its first turn. -/
  prompt : Bool
  /-- It gets there in a turn of its own, and after that there is something to be said about what
      still belongs to the fiber. -/
  reached : FiberPlace σ → ((Nat → Bool) → Option (Fiber σ) → Kernel σ → Prop) → (Nat → Bool) →
    Fiber σ → Kernel σ → Prop

namespace FiberPlace

/-- A fiber is about nothing but the numbers that belong to it, and its tasks are errands. -/
def Tidy (mine : Nat → Bool) (fiber : Option (Fiber σ)) (k : Kernel σ) : Prop :=
  (∀ f, fiber = some f → ∀ h ∈ f.numbers, mine h = true) ∧
    ∀ task ∈ k.tasksOf mine, task.work.IsErrand

/-- If nothing of a fiber waits for a turn, then nothing of it should have been woken already. -/
def Ahead (p : FiberPlace σ) (mine : Nat → Bool) (fiber : Option (Fiber σ)) (k : Kernel σ) : Prop :=
  p.Quiet mine fiber k → ∀ time, Wakes mine fiber k time → k.now < time

/-- A fiber is not late for its aim. If nothing of it waits for a turn, then something of it will
    be woken in time. -/
def OnTime (p : FiberPlace σ) (aim : Aim σ) (mine : Nat → Bool) (fiber : Fiber σ) (k : Kernel σ) :
    Prop :=
  ∀ time, aim.due = some time → k.now ≤ time ∧
    (p.Quiet mine (some fiber) k → time ≤ aim.horizon →
      ∃ wake, Wakes mine (some fiber) k wake ∧ wake ≤ time)

/-- In a turn of its own a fiber gets to its aim, or it waits and there is something to be said
    about it afterwards. -/
def AttainsInTurn (p : FiberPlace σ) (aim : Aim σ)
    (next : (Nat → Bool) → Option (Fiber σ) → Kernel σ → Prop) (mine : Nat → Bool)
    (fiber : Fiber σ) (k : Kernel σ) : Prop :=
  (aim.prompt = false ∧ ∃ fiber' mine' k', fiber.Turns p.settings p.path k (.waiting fiber') k' ∧
    p.Behaves mine mine' k k' ∧ next mine' (some fiber') k') ∨ aim.reached p next mine fiber k

/-- A fiber gets to its aim in less than so many turns of its own, whatever happens meanwhile. The
    turns of its errands are its own as well. -/
def Attains (p : FiberPlace σ) (aim : Aim σ) :
    Nat → (Nat → Bool) → Option (Fiber σ) → Kernel σ → Prop
  | 0, _, _, _ => False
  | n + 1, mine, fiber, k =>
    Tidy mine fiber k ∧ ∀ k', p.Meanwhile mine fiber k k' → k'.now ≤ aim.horizon →
      p.Ahead mine fiber k' ∧ (∀ f, fiber = some f → p.OnTime aim mine f k' ∧
        (p.id ∈ k'.woken → p.AttainsInTurn aim (p.Attains aim n) mine f (k'.unwake p.id))) ∧
      ∀ task ∈ k'.tasksOf mine, task.id ∈ k'.woken → ∃ mine' k'', k'.Runs task k'' ∧
        p.Behaves mine mine' k' k'' ∧ p.Attains aim n mine' fiber k''

variable {p : FiberPlace σ} {aim : Aim σ} {n : Nat} {mine : Nat → Bool} {fiber : Option (Fiber σ)}
  {k k' : Kernel σ}

/-- On its way to an aim a fiber is about its own numbers only, and its tasks are errands. -/
theorem Attains.tidy (attains : p.Attains aim n mine fiber k) : Tidy mine fiber k := by
  cases n with
  | zero => exact attains.elim
  | succ n => exact attains.1

/-- On its way to an aim, with nothing waiting for a turn, all its wake-ups are still to come. -/
theorem Attains.ahead (attains : p.Attains aim n mine fiber k) (within : k.now ≤ aim.horizon) :
    p.Ahead mine fiber k := by
  cases n with
  | zero => exact attains.elim
  | succ n => exact (attains.2 k (.refl mine _ k) within).1

/-- A fiber that attains its aim is not late for it. -/
theorem Attains.onTime {f : Fiber σ} (attains : p.Attains aim n mine (some f) k)
    (within : k.now ≤ aim.horizon) : p.OnTime aim mine f k := by
  cases n with
  | zero => exact attains.elim
  | succ n => exact ((attains.2 k (.refl mine _ k) within).2.1 f rfl).1

/-- A fiber that attains its aim has its turn, and needs fewer turns from there. -/
theorem Attains.turn {f : Fiber σ} (attains : p.Attains aim n mine (some f) k)
    (within : k.now ≤ aim.horizon) (woken : p.id ∈ k.woken) :
    ∃ m < n, p.AttainsInTurn aim (p.Attains aim m) mine f (k.unwake p.id) := by
  cases n with
  | zero => exact attains.elim
  | succ n =>
      exact ⟨n, Nat.lt_succ_self n, ((attains.2 k (.refl mine _ k) within).2.1 f rfl).2 woken⟩

/-- One of the errands of a fiber that attains its aim has its turn. -/
theorem Attains.errand (attains : p.Attains aim n mine fiber k) (within : k.now ≤ aim.horizon)
    {task : Task σ} (mem : task ∈ k.tasksOf mine) (woken : task.id ∈ k.woken) :
    ∃ m < n, ∃ mine' k', k.Runs task k' ∧ p.Behaves mine mine' k k' ∧
      p.Attains aim m mine' fiber k' := by
  cases n with
  | zero => exact attains.elim
  | succ n =>
      exact ⟨n, Nat.lt_succ_self n, (attains.2 k (.refl mine _ k) within).2.2 task mem woken⟩

/-- A fiber still attains its aim after what happens meanwhile. -/
theorem Attains.meanwhile (attains : p.Attains aim n mine fiber k)
    (meanwhile : p.Meanwhile mine fiber k k') : p.Attains aim n mine fiber k' := by
  cases n with
  | zero => exact attains.elim
  | succ n =>
      rcases attains with ⟨⟨numbers, errands⟩, attains⟩
      refine ⟨⟨numbers, ?_⟩, fun k'' after within => attains k'' (meanwhile.trans after) within⟩
      rw [meanwhile.tasks]
      exact errands

end FiberPlace

/-- How an effect goes. -/
structure Timing where
  /-- When it ends and how, if it ever does. -/
  ends : Option (Nat × Outcome)
  /-- Whether it ends without ever waiting. -/
  prompt : Bool

/-- A fiber that takes a course up to some point in time ends when and how it should. What
    it has set going does not stop with it, but still leaves others alone. -/
def Timing.aim (timing : Timing) (horizon : Nat) : Aim σ where
  horizon := horizon
  due := timing.ends.map (·.1)
  prompt := timing.prompt
  reached p next mine fiber k :=
    ∃ x mine' k', fiber.Turns p.settings p.path k (.ended x) k' ∧ p.Behaves mine mine' k k' ∧
      timing.ends = some (k'.now, x) ∧ next mine' none k'

/-- A fiber that comes to an outcome at a point in time, if ever, goes on from there with the
    machine that waits, in one and the same turn. What is left of it besides are errands. -/
def Aim.onward (result : Option (Nat × Outcome)) (point : Suspension σ) (horizon : Nat) :
    Aim σ where
  horizon := horizon
  due := result.map (·.1)
  prompt := false
  reached p _ mine fiber k :=
    ∃ x mine' k', result = some (k'.now, x) ∧ p.Behaves mine mine' k k' ∧
      (∀ task ∈ k'.tasksOf mine', task.work.IsErrand) ∧
      fiber.Continues p.settings p.path k (.ready (point.resume (.unwind x))) k'

/-- In a turn a fiber first goes on as another one. -/
theorem FiberPlace.AttainsInTurn.of_continues {p : FiberPlace σ} {result : Option (Nat × Outcome)}
    {point : Suspension σ} {horizon : Nat}
    {next : (Nat → Bool) → Option (Fiber σ) → Kernel σ → Prop} {mine mine' : Nat → Bool}
    {f f' : Fiber σ} {k k' : Kernel σ} (first : f.Continues p.settings p.path k f' k')
    (behaves : p.Behaves mine mine' k k')
    (rest : p.AttainsInTurn (.onward result point horizon) next mine' f' k') :
    p.AttainsInTurn (.onward result point horizon) next mine f k := by
  rcases rest with ⟨prompt, f₂, mine₂, k₂, turns, behaves', found⟩ |
    ⟨x, mine₂, k₂, now, behaves', errands, continues⟩
  · exact .inl ⟨prompt, f₂, mine₂, k₂, first.turns turns, behaves.trans behaves', found⟩
  · exact .inr ⟨x, mine₂, k₂, now, behaves.trans behaves', errands, first.trans continues⟩

/-- A fiber has its place, and all numbers in use have been given out. -/
structure FiberPlace.Valid (p : FiberPlace σ) (k : Kernel σ) : Prop where
  /-- It is not around itself. -/
  apart : p.id ∉ p.around
  /-- Its number and those around it have been given out. -/
  path : ∀ id ∈ p.path, id < k.fresh
  /-- So have the numbers of the tasks, and of those who wait for a turn. -/
  accounted : k.Accounted

/-- An effect goes as a timing says, begun with these services and this state of the program at a
    point in time, and looked at up to another one: as a fiber with whatever number and wherever it
    is, and whatever others do meanwhile. It has less than so many turns. -/
def Effect.TakesIn (turns : Nat) (effect : Effect σ) (settings : Settings)
    (contract : StoreContract σ)
    (env : Context) (store : σ) (now horizon : Nat) (timing : Timing) : Prop :=
  ∀ id around (k : Kernel σ), FiberPlace.Valid ⟨settings, id, around, contract⟩ k → id ∈ k.woken →
    k.world.store = store → k.now = now →
    FiberPlace.Attains ⟨settings, id, around, contract⟩ (timing.aim horizon) turns (fun _ => false)
      (some (.ready (.start effect env))) k

/-- An effect goes as a timing says, in a limited number of turns. -/
def Effect.Takes (effect : Effect σ) (settings : Settings) (contract : StoreContract σ)
    (env : Context)
    (store : σ) (now horizon : Nat) (timing : Timing) : Prop :=
  ∃ turns, effect.TakesIn turns settings contract env store now horizon timing

/-- An effect comes to an outcome at a point in time, if ever, run with these services and this
    state of the program from some point in time on, and looked at up to another one: wherever it is
    run, whatever frames and machines are around it and whatever others do meanwhile. From there the
    fiber goes on with the same services. -/
def Effect.ComesTo (effect : Effect σ) (settings : Settings) (contract : StoreContract σ)
    (env : Context)
    (store : σ) (now horizon : Nat) (result : Option (Nat × Outcome)) : Prop :=
  ∃ turns, ∀ id around point (k : Kernel σ), FiberPlace.Valid ⟨settings, id, around, contract⟩ k →
    point.env = env → k.world.store = store → k.now = now →
    FiberPlace.AttainsInTurn ⟨settings, id, around, contract⟩ (.onward result point horizon)
      (FiberPlace.Attains ⟨settings, id, around, contract⟩ (.onward result point horizon) turns)
      (fun _ => false) (.ready (point.resume (.eval effect))) k

end EffectKernel
