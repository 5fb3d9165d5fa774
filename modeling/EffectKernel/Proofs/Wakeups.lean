import EffectKernel.Proofs.FiberFrames
import EffectKernel.Proofs.History
import EffectKernel.Proofs.Punctuality

/-!
# No Lost Wake-Ups

A fiber that the caller waits for misses nothing. When it comes to wait, either it has put itself in
the queue, or nothing that it waits for has happened (`turn_idle`). From then on the tasks have
their turns, which leave it alone or wake it, and when the clock moves those whose time has come are
woken. So a look at the fiber without its having been woken would be in vain: it would still wait
for the same things, and nothing else would have changed (`Idle.turns`).

The same row of turns also says that time does not go backwards. Nobody ever waits for a time that
has gone by, and the clock never goes further than to the next point in time at which somebody has
to be woken.

## Main definitions

* `Kernel.Alike`: The same kernel, but for the order in which slots are kept.
* `Fiber.TurnsIdle`, `Fiber.EachIdle`: Who comes to wait has missed nothing, after so many steps.
* `Fiber.Separate`: A fiber has its place, among tasks that have theirs.
* `Fiber.UpToDate`: A fiber waits among tasks that have their places, and has missed nothing.
* `Kernel.Orderly`: A kernel in which a new fiber has its place.

## Theorems

* `Fiber.turn_idle`: A fiber that has come to wait has put itself in the queue, or is idle.
* `Fiber.Idle.turns`: A look at a fiber that is idle is in vain.
* `Fiber.UpToDate.round`: A fiber that waits misses nothing, and time does not go backwards.
-/

namespace EffectKernel

variable {σ : Type}

/-- The same kernel, but for the order in which slots are kept. -/
def Kernel.Alike (k k' : Kernel σ) : Prop :=
  (∃ slots, k' = { k with slots := slots }) ∧ ∀ h, k'.slot? h = k.slot? h

namespace Fiber

section Idle

variable {settings : Settings} {path : Path} {f f' : Fiber σ} {k k' : Kernel σ}

/-- None of the fibers side by side has been woken. -/
theorem firstWoken?_eq_none {children : List (FiberId × Nat × Fiber σ)} :
    k.firstWoken? children = none ↔ ∀ child ∈ children, child.1 ∉ k.woken := by
  rw [Kernel.firstWoken?, List.findSome?_eq_none_iff]
  constructor
  · intro none child mem woken
    have := List.find?_eq_none.1 (none child.1 woken) child mem
    simp at this
  · intro asleep i woken
    refine List.find?_eq_none.2 fun child mem => ?_
    simp only [beq_iff_eq]
    rintro rfl
    exact asleep child mem woken

/-- A fiber that has come to wait after a turn of so many steps has put itself in the queue, with
    everybody around it, or nothing that it waits for has happened. -/
def TurnsIdle (σ : Type) (settings : Settings) (fuel : Nat) : Prop :=
  ∀ {path : Path} {f : Fiber σ} {k : Kernel σ} {f' : Fiber σ} {k' : Kernel σ},
    turn settings fuel path f k = (.waiting f', k') →
    (∀ i ∈ path, i ∈ k'.woken) ∨ f'.Idle path k'

/-- Fibers side by side that have come to wait after turns of so many steps have put those around
    them in the queue, or none of them has been woken. -/
def EachIdle (σ : Type) (settings : Settings) (fuel : Nat) : Prop :=
  ∀ {path : Path} {join : Join} {children : List (FiberId × Nat × Fiber σ)}
    {waiting gaveWay count : Nat} {k : Kernel σ} {join' : Join}
    {children' : List (FiberId × Nat × Fiber σ)} {k' : Kernel σ},
    turnEach settings fuel path join children waiting gaveWay count k =
      (.waiting join' children', k') →
    (∀ i ∈ path, i ∈ k'.woken) ∨ children' ≠ [] ∧ ∀ child ∈ children', child.1 ∉ k'.woken

theorem mem_woken_wake {i : FiberId} (mem : i ∈ path) (k : Kernel σ) : i ∈ (k.wake path).woken := by
  rw [Kernel.wake_enqueue]
  exact mem_enqueueAll.2 (.inr mem)

/-- One more step of a turn. -/
theorem TurnsIdle.succ {fuel : Nat} (one : TurnsIdle σ settings fuel)
    (each : EachIdle σ settings fuel) : TurnsIdle σ settings (fuel + 1) := by
  intro path f k f' k' turned
  -- A fiber that goes on waiting either has woken itself by giving way or waits for something that
  -- has not come.
  cases f with
  | ready m =>
      rw [turn] at turned
      rcases taken : m.step settings k.world with ⟨m' | x | ⟨request, env, stack⟩, w⟩
      all_goals simp only [taken] at turned
      · exact one turned
      · cases turned
      · cases request with
        | giveWay focus =>
            cases turned
            exact .inl fun i mem => mem_woken_wake mem _
        | _ => exact one turned
  | asleep wake m =>
      rw [turn] at turned
      split at turned
      next come => exact one turned
      next early =>
        cases turned
        exact .inr (Nat.lt_of_not_le early)
  | yielded m =>
      rw [turn] at turned
      exact one turned
  | listening handle point =>
      rw [turn] at turned
      rcases found : k.collect? handle with _ | ⟨focus, k₁⟩
      all_goals simp only [found] at turned
      · cases turned
        exact .inr ((k.slot?_setSlot handle _ handle).trans (if_pos rfl))
      · exact one turned
  | limited limit deadline inner point =>
      rw [turn] at turned
      rcases inside : turn settings fuel path inner k with ⟨x | inner₁ | _, k₁⟩
      all_goals simp only [inside] at turned
      · exact one turned
      · split at turned
        next due => exact one turned
        next early =>
          cases turned
          exact (one inside).imp_right fun idle => ⟨idle, Nat.lt_of_not_le early⟩
      · cases turned
  | joining join children point =>
      rw [turn] at turned
      rcases inside : turnEach settings fuel path join children 0 0 children.length k with
        ⟨x | ⟨join₁, children₁⟩ | _, k₁⟩
      all_goals simp only [inside] at turned
      · exact one turned
      · cases turned
        exact each inside
      · cases turned

/-- One more step of the turns of fibers side by side. -/
theorem EachIdle.succ {fuel : Nat} (each : EachIdle σ settings fuel) :
    EachIdle σ settings (fuel + 1) := by
  intro path join children waiting gaveWay count k join' children' k' turned
  rw [turnEach] at turned
  rcases next : k.firstWoken? children with _ | ⟨i, position, child⟩
  all_goals simp only [next] at turned
  · split at turned
    · cases turned
    -- No child is in the queue, so the round ends with all of them idle.
    · next some =>
        cases turned
        exact .inr ⟨by simpa using some, firstWoken?_eq_none.1 next⟩
  · rcases inside : turn settings fuel (i :: path) child (k.unwake i) with
      ⟨x | child₁ | _, k₁⟩
    all_goals simp only [inside] at turned
    · rcases absorbed : join.absorb position x with y | join₁
      all_goals simp only [absorbed] at turned
      · cases turned
      · exact each turned
    · generalize (if k₁.isWoken i = true then gaveWay + 1 else gaveWay) = gave at turned
      split at turned
      · cases turned
        exact .inl fun i mem => mem_woken_wake mem _
      · exact each turned
    · cases turned

/-- The induction is on the number of steps, which a fiber shares with the fibers inside it. -/
theorem turns_idle (settings : Settings) (fuel : Nat) :
    TurnsIdle σ settings fuel ∧ EachIdle σ settings fuel := by
  induction fuel with
  | zero => exact ⟨fun turned => (by cases turned), fun turned => (by cases turned)⟩
  | succ fuel ih => exact ⟨TurnsIdle.succ ih.1 ih.2, EachIdle.succ ih.2⟩

/-- A fiber that has come to wait has put itself in the queue, with everybody around it, or nothing
    that it waits for has happened. -/
theorem turn_idle (turns : Turns settings path f k (.waiting f') k') :
    (∀ i ∈ path, i ∈ k'.woken) ∨ f'.Idle path k' := by
  obtain ⟨least, turns⟩ := turns
  exact (turns_idle settings least).1 (turns least (Nat.le_refl _))

/-- A fiber that is idle is idle when it is looked at. -/
theorem idle_unwake (n : FiberId) (idle : f.Idle path k) : f.Idle path (k.unwake n) :=
  idle_congr (show (k.unwake n).now = k.now from rfl) f idle (fun _ _ h => h)
    fun _ _ h => (List.mem_filter.1 h).1

/-- A look at a fiber that is idle is in vain. -/
theorem Idle.turns (settings : Settings) : (f : Fiber σ) → f.Idle path k →
    ∃ k', Turns settings path f k (.waiting f) k' ∧ k.Alike k'
  | .ready _, idle => by cases idle
  | .asleep wake m, idle => by
      rw [Idle] at idle
      refine ⟨k, .one fun fuel => ?_, ⟨_, rfl⟩, fun _ => rfl⟩
      rw [turn, if_neg (Nat.not_le_of_lt idle)]
  | .yielded _, idle => by cases idle
  | .listening handle point, idle => by
      rw [Idle] at idle
      -- Looking at the handle once more leaves the same slot.
      refine ⟨k.setSlot handle (.waiting path), .one fun fuel => ?_, ⟨_, rfl⟩, fun h => ?_⟩
      · rw [turn, Kernel.collect?, idle]
      · rw [Kernel.slot?_setSlot]
        split
        · next same => rw [same, idle]
        · rfl
  | .limited _ _ inner _, idle => by
      rw [Idle] at idle
      rcases Idle.turns settings inner idle.1 with ⟨k', turns, ⟨slots, rfl⟩, same⟩
      exact ⟨_, turns.limited (Nat.not_le_of_lt idle.2), ⟨slots, rfl⟩, same⟩
  | .joining _ children _, idle => by
      rw [Idle] at idle
      exact ⟨k, .joining (.quiet (firstWoken?_eq_none.2 idle.2) idle.1), ⟨_, rfl⟩, fun _ => rfl⟩

end Idle

end Fiber

namespace Work

/-- The numbers that a task is about. -/
def numbers : Work σ → List Nat
  | .run _ _ fiber => fiber.numbers
  | .errand _ _ _ => []

/-- A task is not run on the spot. -/
def IsAsync : Work σ → Prop
  | .run _ settings _ => settings.mode = .async
  | .errand _ _ _ => True

theorem handles_subset_numbers (work : Work σ) : work.handles ⊆ work.numbers := by
  cases work with
  | run started settings fiber => exact Fiber.handles_subset_numbers fiber
  | errand due handle act => exact List.Subset.refl _

end Work

namespace Fiber

/-- A task has nothing to do with a fiber, is not run on the spot, and does not wait for a time that
    has gone by. -/
structure Stranger (id : FiberId) (f : Fiber σ) (k : Kernel σ) (task : Task σ) : Prop where
  /-- Its number is not one of the fiber's. -/
  foreign : f.Foreign id k task.id
  /-- Nor are the numbers that it is about. -/
  numbers : ∀ n ∈ task.work.numbers, f.Foreign id k n
  /-- It is not run on the spot. -/
  async : task.work.IsAsync
  /-- It does not wait for a time that has gone by. -/
  punctual : Punctual k.now task.work.nextWake

/-- A fiber has its place, and tasks have theirs. Nothing waits for a time that has gone by. -/
structure Separate (id : FiberId) (f : Fiber σ) (k : Kernel σ) : Prop extends f.Placed id k where
  /-- The tasks have nothing to do with the fiber. -/
  tasks : ∀ task ∈ k.tasks, f.Stranger id k task
  /-- Nothing in the fiber waits for a time that has gone by. -/
  punctual : Punctual k.now f.nextWake

/-- A fiber waits among tasks that have their places, and has missed nothing. -/
structure UpToDate (id : FiberId) (f : Fiber σ) (k : Kernel σ) : Prop extends f.Separate id k where
  /-- It has been woken, or nothing has happened. -/
  woken_or_idle : id ∈ k.woken ∨ f.Idle [id] k

section Separate

variable {settings : Settings} {id : FiberId} {f f' : Fiber σ} {k k₁ k' : Kernel σ}
  {task : Task σ}

theorem Stranger.mono (stranger : f.Stranger id k task) (fresh : k.fresh ≤ k'.fresh)
    (now : k'.now = k.now) : f.Stranger id k' task :=
  ⟨stranger.foreign.mono fresh, fun n mem => (stranger.numbers n mem).mono fresh, stranger.async,
    now ▸ stranger.punctual⟩

/-- A task with a new number has nothing to do with a fiber that has been there before. -/
theorem Placed.stranger (placed : f.Placed id k) (new : task.New k k') (now : k'.now = k.now) :
    f.Stranger id k' task := by
  obtain ⟨due, handle, act, errand, later⟩ := new.errand
  refine ⟨placed.foreign new.low new.high, fun n mem => ?_, ?_, ?_⟩
  · rw [errand] at mem
    cases mem
  · rw [errand]
    trivial
  · rw [errand, now]
    exact punctual_some later

/-- A fiber still has its place after its own steps. -/
theorem Separate.changes (separate : f.Separate id k) (changes : f.Changes [id] k f' k') :
    f'.Separate id k' := by
  -- What the others are about was given out before.
  have foreign : ∀ {n}, f.Foreign id k n → f'.Foreign id k' n := fun {n} others =>
    ⟨Nat.lt_of_lt_of_le others.given changes.fresh, fun owns => by
      rcases owns with same | mem
      · exact others.ne same
      · rcases changes.numbers n mem with old | new
        · exact others.not_mem old
        · exact Nat.not_lt_of_le new.1 others.given⟩
  refine ⟨⟨fun n owns => ?_, fun h q waits c mem => ?_⟩, fun task mem => ?_,
    changes.punctual separate.punctual⟩
  · rcases owns with rfl | mem
    · exact Nat.lt_of_lt_of_le (separate.given n (.inl rfl)) changes.fresh
    · rcases changes.numbers n mem with old | new
      · exact Nat.lt_of_lt_of_le (separate.given n (.inr old)) changes.fresh
      · exact new.2.1
  · rcases changes.waiters h q waits with before | rfl | ⟨around, known⟩
    · have given := separate.waiters h q before c mem
      refine ⟨Nat.lt_of_lt_of_le given.1 changes.fresh, fun own => ?_⟩
      rcases changes.numbers c own with old | new
      · exact given.2 old
      · exact absurd given.1 (Nat.not_lt_of_le new.1)
    · cases mem
    · refine ⟨?_, fun _ => around (List.mem_singleton_self id)⟩
      rcases known c mem with own | own | new
      · exact Nat.lt_of_lt_of_le (separate.given c (.inl (List.mem_singleton.1 own))) changes.fresh
      · exact Nat.lt_of_lt_of_le (separate.given c (.inr own)) changes.fresh
      · exact new.2
  · rcases changes.tasks task mem with old | new
    · have stranger := separate.tasks task old
      exact ⟨foreign stranger.foreign, fun n mem => foreign (stranger.numbers n mem),
        stranger.async, changes.now ▸ stranger.punctual⟩
    · have stranger := separate.stranger new changes.now
      refine ⟨⟨new.high, fun owns => ?_⟩, fun n mem => ?_, stranger.async, stranger.punctual⟩
      · rcases owns with same | own
        · exact stranger.foreign.ne same
        · rcases changes.numbers _ own with old | ⟨-, -, others⟩
          · exact stranger.foreign.not_mem old
          · rcases others task mem with before | other
            · exact Nat.not_lt_of_le new.low (separate.tasks task before).foreign.given
            · exact other rfl
      · obtain ⟨due, handle, act, errand, -⟩ := new.errand
        rw [errand] at mem
        cases mem

/-- A fiber that comes to wait in its turn misses nothing, and time stands still. -/
theorem Separate.turn (separate : f.Separate id k) (async : settings.mode = .async)
    (turns : Turns settings [id] f k (.waiting f') k') : f'.UpToDate id k' ∧ k'.now = k.now := by
  have idle := turn_idle turns
  obtain ⟨least, turns⟩ := turns
  have changes := turn_changes async (turns least (Nat.le_refl _))
  exact ⟨⟨separate.changes changes,
    idle.imp_left fun woken => woken id (List.mem_singleton_self id)⟩,
    changes.now⟩

/-- The queue may change as a fiber has its turn. -/
theorem Separate.queue (separate : f.Separate id k) (woken : List FiberId) :
    f.Separate id { k with woken := woken } :=
  ⟨⟨separate.given, separate.waiters⟩,
    fun task mem => (separate.tasks task mem).mono (Nat.le_refl _) rfl,
    separate.punctual⟩

/-- A fiber that can run has its place, whatever it is to run. -/
theorem Separate.ready {m : Machine σ} (separate : (Fiber.ready m).Separate id k) (m' : Machine σ) :
    (Fiber.ready m').Separate id k :=
  ⟨⟨separate.given, separate.waiters⟩, fun task mem => by
    have stranger := separate.tasks task mem
    exact ⟨⟨stranger.foreign.given, stranger.foreign.apart⟩,
      fun n mem => ⟨(stranger.numbers n mem).given, (stranger.numbers n mem).apart⟩,
      stranger.async, stranger.punctual⟩, separate.punctual⟩

/-- A fiber that is up to date has missed nothing. -/
theorem UpToDate.watched (upToDate : f.UpToDate id k) : f.Watched id k :=
  ⟨upToDate.toPlaced, upToDate.woken_or_idle⟩

/-- A fiber still misses nothing after what others do. -/
theorem UpToDate.spared (upToDate : f.UpToDate id k) (spared : f.Spared id k k')
    (tasks : ∀ task ∈ k'.tasks, f.Stranger id k' task) : f.UpToDate id k' :=
  have watched := spared.watched upToDate.watched
  ⟨⟨watched.toPlaced, tasks, spared.now ▸ upToDate.punctual⟩, watched.woken_or_idle⟩

/-- The others still have nothing to do with a fiber after what one of them has done. -/
theorem UpToDate.strangers (upToDate : f.UpToDate id k) (now : k'.now = k.now)
    (fresh : k.fresh ≤ k'.fresh)
    (tasks : ∀ task ∈ k'.tasks, task ∈ k.tasks ∨ task.New k k') :
    ∀ task ∈ k'.tasks, f.Stranger id k' task := by
  intro task mem
  rcases tasks task mem with old | new
  · exact (upToDate.tasks task old).mono fresh now
  · exact upToDate.stranger new now

/-! ### Tasks -/

/-- What others have done is no more than can be done in a turn. -/
theorem UpToDate.adds (upToDate : f.UpToDate id k) (spared : f.Spared id k k') (adds : k.Adds k') :
    f.UpToDate id k' :=
  upToDate.spared spared (upToDate.strangers adds.now adds.fresh adds.tasks)

theorem UpToDate.dropTask (upToDate : f.UpToDate id k) (other : TaskId) :
    f.UpToDate id (k.dropTask other) :=
  upToDate.spared (spared_tasks _) fun task mem =>
    (upToDate.tasks task (List.mem_filter.1 mem).1).mono (Nat.le_refl _) rfl

theorem UpToDate.report (upToDate : f.UpToDate id k) (event : Event) :
    f.UpToDate id (k.report event) :=
  upToDate.adds (spared_report event) (k.adds_report event)

theorem UpToDate.modifyStore (upToDate : f.UpToDate id k) (change : σ → σ) :
    f.UpToDate id (k.modifyStore change) :=
  upToDate.adds (spared_world rfl) (Kernel.adds_world rfl)

theorem UpToDate.unwake (upToDate : f.UpToDate id k) {other : FiberId} (ne : other ≠ id) :
    f.UpToDate id (k.unwake other) :=
  upToDate.adds (spared_unwake ne) (k.adds_queue _)

theorem UpToDate.deliver (upToDate : f.UpToDate id k) (other : TaskId) (x : Outcome) :
    f.UpToDate id (k.deliver other x) ∧ (k.deliver other x).now = k.now := by
  rcases k.deliver_eq other x with ⟨store, callbacks, calls, same⟩
  rw [same]
  refine ⟨upToDate.adds (spared_of_slots (Nat.le_refl _) rfl (fun _ => rfl) (fun h => h)
    (.inr fun _ _ h => h)) ⟨rfl, Nat.le_refl _, fun _ h => .inl h, fun _ _ h => .inl h⟩, rfl⟩

/-- The fiber of a task has its turn. -/
theorem UpToDate.turn (upToDate : f.UpToDate id k) {started : Bool} {g : Fiber σ} {fuel : Nat}
    {r : Turn σ}
    (stranger : f.Stranger id k task) (work : task.work = .run started settings g)
    (turned : Fiber.turn settings fuel [task.id] g k = (r, k')) (complete : r ≠ .exhausted) :
    f.UpToDate id k' ∧ k'.now = k.now ∧ f.Stranger id k' task ∧
      ∀ g', r = .waiting g' → f.Stranger id k' { task with work := .run true settings g' } := by
  obtain ⟨foreign, numbered, async, punctual⟩ := stranger
  rw [work] at numbered async punctual
  -- The stranger's turn spares the fiber, and what the stranger has become is a stranger still.
  have kept := (turns_spare async fuel).1 turned upToDate.watched
    (fun n mem => List.mem_singleton.1 mem ▸ foreign) numbered
  have changed : ∃ g', g.Changes [task.id] k g' k' ∧ ∀ g'', r = .waiting g'' → g'' = g' := by
    cases r with
    | ended x =>
        obtain ⟨m, changes⟩ := turn_changes_ended async turned
        exact ⟨_, changes, fun _ same => by cases same⟩
    | waiting g' => exact ⟨g', turn_changes async turned, fun _ same => by cases same; rfl⟩
    | exhausted => exact absurd rfl complete
  obtain ⟨g', changes, only⟩ := changed
  refine ⟨upToDate.spared kept.1 (upToDate.strangers changes.now changes.fresh changes.tasks),
    changes.now, ?_, fun g'' same => ?_⟩
  · refine ⟨foreign.mono changes.fresh, fun n mem => ?_, ?_, ?_⟩
    · rw [work] at mem
      exact (numbered n mem).mono changes.fresh
    · rw [work]
      exact async
    · rw [work, changes.now]
      exact punctual
  · obtain rfl := only g'' same
    exact ⟨foreign.mono changes.fresh, kept.2 g'' same, async, changes.punctual punctual⟩

/-- A task has its turn. -/
theorem UpToDate.runTask (upToDate : f.UpToDate id k) {fuel : Nat} (there : task ∈ k.tasks)
    (run : k.runTask fuel task = some k') : f.UpToDate id k' ∧ k'.now = k.now := by
  have before := upToDate.tasks task there
  have unwoken := upToDate.unwake before.foreign.ne
  have stranger : f.Stranger id (k.unwake task.id) task := before.mono (Nat.le_refl _) rfl
  unfold Kernel.runTask at run
  dsimp only at run
  split at run
  · cases run
    -- A cancelled task leaves its handles, none of which is the fiber's.
    have left := unwoken.adds (spared_leaveAll fun h mem => (stranger.numbers h
      (task.work.handles_subset_numbers mem)).not_mem) (Kernel.adds_leaveAll _ task.work.handles)
    exact ⟨left.dropTask _, (Kernel.adds_leaveAll _ _).now⟩
  · split at run
    · next started settings g work =>
        -- The first turn of a task reports that it starts, which concerns nobody.
        have begun : f.UpToDate id (if started then k.unwake task.id
            else (k.unwake task.id).report .fiberStarted) ∧
            f.Stranger id (if started then k.unwake task.id
              else (k.unwake task.id).report .fiberStarted) task := by
          split
          · exact ⟨unwoken, stranger⟩
          · exact ⟨unwoken.report _, stranger.mono (Nat.le_refl _) rfl⟩
        have now : (if started then k.unwake task.id
            else (k.unwake task.id).report .fiberStarted).now = k.now := by
          split <;> rfl
        generalize (if started then k.unwake task.id
          else (k.unwake task.id).report .fiberStarted) = k₀ at begun now run
        rcases turned : Fiber.turn settings fuel [task.id] g k₀ with ⟨x | g' | _, k₁⟩
        all_goals simp only [turned] at run
        · cases run
          have after := begun.1.turn begun.2 work turned (by simp)
          have told := (after.1.report (.fiberCompleted x.isSuccess)).deliver task.id x
          exact ⟨told.1.dropTask _, told.2.trans (after.2.1.trans now)⟩
        · cases run
          have after := begun.1.turn begun.2 work turned (by simp)
          refine ⟨after.1.spared (spared_tasks _) fun t mem => ?_, after.2.1.trans now⟩
          rcases List.mem_map.1 mem with ⟨old, before, rfl⟩
          split
          · exact (after.2.2.2 g' rfl).mono (Nat.le_refl _) rfl
          · exact (after.1.tasks old before).mono (Nat.le_refl _) rfl
        · cases run
    · next due handle act work =>
        split at run
        · rcases ran : act.run (k.unwake task.id).world.store with ⟨p | signals, store⟩
          all_goals
            simp only [ran] at run
            have changed := unwoken.modifyStore fun _ => store
          · cases run
            exact ⟨(changed.adds (spared_release changed.watched)
              (Kernel.adds_release _ handle)).dropTask _, (Kernel.adds_release _ _).now⟩
          · cases run
            exact ⟨(changed.adds (spared_signalAll changed.watched signals)
              (Kernel.adds_signalAll _ signals)).dropTask _, (Kernel.adds_signalAll _ _).now⟩
        · cases run
          exact ⟨unwoken, rfl⟩

/-- Tasks have their turns until none waits for one or a batch is full. -/
theorem UpToDate.runBatch (upToDate : f.UpToDate id k) {fuel n : Nat}
    (batch : k.runBatch fuel n = some k') :
    f.UpToDate id k' ∧ k'.now = k.now := by
  induction n generalizing k with
  | zero =>
      cases batch
      exact ⟨upToDate, rfl⟩
  | succ n ih =>
      rw [Kernel.runBatch] at batch
      rcases next : k.nextTask? with _ | task
      all_goals simp only [next] at batch
      · cases batch
        exact ⟨upToDate, rfl⟩
      · rcases ran : k.runTask fuel task with _ | k₁
        all_goals simp only [ran] at batch
        · cases batch
        -- The task that runs is one of the kernel's, so it is a stranger to the fiber.
        · obtain ⟨i, -, found⟩ := List.exists_of_findSome?_eq_some next
          have first := upToDate.runTask (List.mem_of_find?_eq_some found) ran
          have rest := ih first.1 batch
          exact ⟨rest.1, rest.2.trans first.2⟩

/-! ### Rounds -/

/-- A fiber is still idle later, if nothing in it is due until then. -/
theorem idle_later {path : Path} {time : Nat} (k k' : Kernel σ) (now : k'.now = time)
    (slots : ∀ h, k'.slot? h = k.slot? h) : (f : Fiber σ) → f.Idle path k →
    f.dueAt time path = [] → (∀ c ∈ f.numbers, c ∉ k'.woken) → f.Idle path k'
  | .ready _, idle, _, _ => idle
  | .asleep wake _, _, due, _ => by
      rw [Idle, now]
      rw [dueAt] at due
      by_contra late
      rw [if_pos (Nat.le_of_not_lt late)] at due
      cases due
  | .yielded _, idle, _, _ => idle
  | .listening h _, idle, _, _ => by
      rw [Idle] at idle ⊢
      exact (slots h).trans idle
  | .limited _ deadline inner _, idle, due, away => by
      rw [Idle] at idle ⊢
      rw [dueAt, List.append_eq_nil_iff] at due
      rw [numbers] at away
      refine ⟨idle_later k k' now slots inner idle.1 due.1 away, ?_⟩
      rw [now]
      by_contra late
      rw [if_pos (Nat.le_of_not_lt late)] at due
      cases due.2
  | .joining _ children _, idle, _, away => by
      rw [Idle] at idle ⊢
      rw [numbers] at away
      exact ⟨idle.1, fun child mem => away _ (mem_numbersEach.2 ⟨child, mem, .inl rfl⟩)⟩

/-- In a kernel with nothing to do the fiber does not wait for a turn. -/
theorem not_mem_of_isBusy (idle : k.isBusy (.fiber settings id f) = false) : id ∉ k.woken := by
  rw [Kernel.isBusy, Bool.or_eq_false_iff] at idle
  intro woken
  simp [Kernel.isWoken, woken] at idle

/-- Where the clock goes, and who is in the queue then. -/
theorem advance_eq (k : Kernel σ) (settings : Settings) (id : FiberId) (f : Fiber σ) (time : Nat) :
    k.advance (.fiber settings id f) time =
      { k with
        world := { k.world with clock := time }
        woken := enqueueAll [] ((f.dueAt time [id] ++
          k.tasks.flatMap fun task => task.work.dueAt time [task.id]).flatten) } := by
  unfold Kernel.advance
  rw [Kernel.foldl_wake_enqueue]
  rfl

/-- Neither a fiber nor anybody in it is woken because the time of a stranger has come. -/
theorem Stranger.not_owns {time c : Nat} (stranger : f.Stranger id k task)
    (due : c ∈ (task.work.dueAt time [task.id]).flatten) : ¬f.Owns id c := by
  have own := stranger.foreign
  have numbered := stranger.numbers
  rcases task with ⟨i, _ | _, _⟩
  · rcases mem_dueAt _ due with mem | mem
    · exact List.mem_singleton.1 mem ▸ own.apart
    · exact (numbered c mem).apart
  · rw [Work.dueAt] at due
    split at due
    · rw [List.flatten_singleton, List.mem_singleton] at due
      exact due ▸ own.apart
    · cases due

/-- If nothing in a fiber is due, then neither the fiber nor anybody in it is woken when the clock
    goes to a point in time. -/
theorem Separate.not_mem_advance (separate : f.Separate id k) {time c : Nat}
    (due : f.dueAt time [id] = [])
    (own : f.Owns id c) : c ∉ (k.advance (.fiber settings id f) time).woken := by
  rw [advance_eq]
  intro woken
  have mem := (mem_enqueueAll.1 woken).resolve_left List.not_mem_nil
  rw [due, List.nil_append, flatten_flatMap, List.mem_flatMap] at mem
  obtain ⟨task, there, mem⟩ := mem
  exact (separate.tasks task there).not_owns mem own

/-- The clock would not go farther than to a time for which the fiber waits, or a task. -/
theorem nextWake_le {time : Nat}
    (waits : f.nextWake = some time ∨ ∃ task ∈ k.tasks, task.work.nextWake = some time) :
    ∃ least, k.nextWake (.fiber settings id f) = some least ∧ least ≤ time :=
  foldl_earlier_le waits

/-- A fiber that waits misses nothing when the clock goes to a point in time, if that is not later
    than the next one at which somebody has to be woken. -/
theorem UpToDate.advance (upToDate : f.UpToDate id k) (away : id ∉ k.woken) {time : Nat}
    (next : ∀ t, k.nextWake (.fiber settings id f) = some t → time ≤ t) :
    f.UpToDate id (k.advance (.fiber settings id f) time) := by
  -- The time moved to is no later than any wake-up, so nobody's has been passed over.
  have within : ∀ t, (f.nextWake = some t ∨ ∃ task ∈ k.tasks, task.work.nextWake = some t) →
      time ≤ t := fun t h => by
    obtain ⟨least, found, le⟩ := nextWake_le h
    exact Nat.le_trans (next least found) le
  have moved := advance_eq k settings id f time
  refine ⟨?_, ?_⟩
  · rw [moved]
    refine ⟨⟨upToDate.given, upToDate.waiters⟩, fun task mem => ?_, fun t h => within t (.inl h)⟩
    have stranger := upToDate.tasks task mem
    exact ⟨⟨stranger.foreign.given, stranger.foreign.apart⟩,
      fun n mem => ⟨(stranger.numbers n mem).given, (stranger.numbers n mem).apart⟩,
      stranger.async, fun t h => within t (.inr ⟨task, mem, h⟩)⟩
  · by_cases due : f.dueAt time [id] = []
    · exact .inr (idle_later k _ (by rw [moved]; rfl) (fun h => by rw [moved]; rfl) f
        (upToDate.woken_or_idle.resolve_left away) due
        fun c own => upToDate.not_mem_advance due (.inr own))
    · obtain ⟨path, mem⟩ := List.exists_mem_of_ne_nil _ due
      rw [moved]
      exact .inl (mem_enqueueAll.2 (.inr (List.mem_flatten.2 ⟨path, List.mem_append_left _ mem,
        subset_of_mem_dueAt f mem (List.mem_singleton_self id)⟩)))

/-- Nobody waits for a time that has gone by. -/
theorem UpToDate.le_nextWake (upToDate : f.UpToDate id k) {time : Nat}
    (next : k.nextWake (.fiber settings id f) = some time) : k.now ≤ time := by
  rcases foldl_earlier_eq_some next with own | ⟨task, there, other⟩
  · exact upToDate.punctual time own
  · exact (upToDate.tasks task there).punctual time other

/-- A fiber that waits misses nothing in a round, and time does not go backwards. -/
theorem UpToDate.round {observe : Nat → σ → σ} (upToDate : f.UpToDate id k)
    (round : k.Round observe (.fiber settings id f) k') : f.UpToDate id k' ∧ k.now ≤ k'.now := by
  cases round with
  | busy batch busy =>
      have after := upToDate.runBatch batch
      exact ⟨after.1, Nat.le_of_eq after.2.symm⟩
  | @idle _ k₁ time batch idle next =>
      have after := upToDate.runBatch batch
      have least := after.1.le_nextWake next
      have away := not_mem_of_isBusy idle
      refine ⟨(after.1.modifyStore _).advance away fun t found => ?_, ?_⟩
      · exact Nat.le_of_eq (Option.some.inj (next.symm.trans found))
      · rw [advance_eq]
        exact after.2 ▸ least

end Separate

end Fiber

/-! ### Kernels in which a fiber has its place -/

namespace Kernel

/-- All numbers that are in use have been given out, no task is run on the spot, and none waits for
    a time that has gone by. -/
structure Orderly (k : Kernel σ) : Prop where
  /-- The numbers of the tasks, and those that they are about. -/
  given : ∀ task ∈ k.tasks, task.id < k.fresh ∧ ∀ n ∈ task.work.numbers, n < k.fresh
  /-- The numbers of those who wait for handles. -/
  waiters : ∀ h q, k.slot? h = some (.waiting q) → ∀ c ∈ q, c < k.fresh
  /-- No task is run on the spot. -/
  async : ∀ task ∈ k.tasks, task.work.IsAsync
  /-- No task waits for a time that has gone by. -/
  punctual : ∀ task ∈ k.tasks, Punctual k.now task.work.nextWake

variable {k : Kernel σ}

theorem orderly_start (store : σ) : (Kernel.start store).Orderly :=
  ⟨fun _ mem => (by cases mem), fun _ _ waits => (by cases waits), fun _ mem => (by cases mem),
    fun _ mem => (by cases mem)⟩

/-- A fiber with a new number has its place. -/
theorem Orderly.separate (orderly : k.Orderly) (m : Machine σ) :
    (Fiber.ready m).Separate k.draw.1 k.draw.2 := by
  have none : ∀ n, n ∉ (Fiber.ready m).numbers := fun n => List.not_mem_nil
  have foreign : ∀ n, n < k.fresh → (Fiber.ready m).Foreign k.draw.1 k.draw.2 n := fun n given =>
    ⟨Nat.lt_succ_of_lt given, fun owns => owns.elim (Nat.ne_of_lt given) (none n)⟩
  refine ⟨⟨fun n owns => ?_, fun h q waits c mem => ?_⟩, fun task mem => ?_, punctual_none _⟩
  · exact owns.elim (fun same => same ▸ Nat.lt_succ_self k.fresh) fun mem => absurd mem (none n)
  · exact ⟨Nat.lt_succ_of_lt (orderly.waiters h q waits c mem), fun own => absurd own (none c)⟩
  · have given := orderly.given task mem
    exact ⟨foreign _ given.1, fun n about => foreign n (given.2 n about), orderly.async task mem,
      orderly.punctual task mem⟩

/-- Where a fiber has its place, other fibers may come. -/
theorem orderly_of_separate {id : FiberId} {f : Fiber σ} (separate : f.Separate id k) : k.Orderly :=
  ⟨fun task mem => ⟨(separate.tasks task mem).foreign.given,
      fun n about => ((separate.tasks task mem).numbers n about).given⟩,
    fun h q waits c mem => (separate.waiters h q waits c mem).1,
    fun task mem => (separate.tasks task mem).async,
      fun task mem => (separate.tasks task mem).punctual⟩

/-- A fiber of its own may be started. -/
theorem Orderly.runAsync (orderly : k.Orderly) {settings : Settings}
    (async : settings.mode = .async) (inRuntime : Bool) (e : Effect σ) (env : Context)
    (onExit : Outcome → σ → σ) :
    (k.runAsync inRuntime settings e env onExit).2.Orderly := by
  -- Numbers given out before stay given out when one more is drawn.
  have given : ∀ task ∈ k.tasks, task.id < k.fresh + 1 ∧ ∀ n ∈ task.work.numbers, n < k.fresh + 1 :=
    fun task mem => (orderly.given task mem).imp Nat.lt_succ_of_lt fun about n own =>
      Nat.lt_succ_of_lt (about n own)
  have waiters : ∀ h q, k.slot? h = some (.waiting q) → ∀ c ∈ q, c < k.fresh + 1 :=
    fun h q waits c mem => Nat.lt_succ_of_lt (orderly.waiters h q waits c mem)
  cases inRuntime with
  | false =>
      let added : Kernel σ :=
        { k with fresh := k.fresh + 1, callbacks := (k.fresh, onExit) :: k.callbacks }
      obtain ⟨store, callbacks, calls, same⟩ := added.deliver_eq k.fresh (.die .outsideRuntime)
      have result : (k.runAsync false settings e env onExit).2 =
        added.deliver k.fresh (.die .outsideRuntime) := rfl
      rw [result, same]
      exact ⟨given, waiters, orderly.async, orderly.punctual⟩
  | true =>
      let task : Task σ := ⟨k.fresh, .run false settings (.ready (.start e env)), false⟩
      let added : Kernel σ := { k with fresh := k.fresh + 1, tasks := k.tasks ++ [task] }
      obtain ⟨woken, same⟩ := added.wakeOne_eq k.fresh
      have result : (k.runAsync true settings e env onExit).2 = { added.wakeOne k.fresh with
        callbacks := (k.fresh, onExit) :: (added.wakeOne k.fresh).callbacks } := rfl
      have only : ∀ {p : Task σ → Prop}, (∀ t ∈ k.tasks, p t) → p task →
          ∀ t ∈ k.tasks ++ [task], p t := fun old new t mem =>
        (List.mem_append.1 mem).elim (old t) fun last => List.mem_singleton.1 last ▸ new
      rw [result, same]
      exact ⟨only given ⟨Nat.lt_succ_self _, fun n about => (by cases about)⟩, waiters,
        only orderly.async async, only orderly.punctual (punctual_none _)⟩

end Kernel

end EffectKernel
