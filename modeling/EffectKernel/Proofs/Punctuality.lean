import EffectKernel.Proofs.Interference

/-!
# Punctuality

What the steps of a fiber change, in whatever order they are taken. The numbers that it comes to be
about are new, and no task has one of them. What it adds to the tasks are errands with new numbers.
Those of it who come to wait for handles are behind their handles with the whole path outwards.
And nothing in it comes to wait for a point in time that has gone by: time stands still in a turn,
and a delay, a limit or an errand that begins in it is due now at the earliest.

## Main definitions

* `Punctual`: Nothing in a fiber waits for a time that has gone by.
* `Kernel.Adds`: What can be done to a kernel in a turn.
* `Fiber.Changes`: What steps of a fiber change.

## Theorems

* `Fiber.Move.changes`, `Fiber.Moves.changes`: What steps of a fiber change.
* `Fiber.turn_changes`: What a turn changes.
-/

namespace EffectKernel

variable {σ : Type}

/-- Nothing waits for a time that has gone by, if this is the next time at which something has to be
    woken. -/
def Punctual (now : Nat) (wake : Option Nat) : Prop :=
  ∀ time, wake = some time → now ≤ time

/-- A task with a new number: an errand that is due now or later. -/
structure Task.New (k k' : Kernel σ) (task : Task σ) : Prop where
  /-- The number has been given out meanwhile. -/
  low : k.fresh ≤ task.id
  /-- And not later. -/
  high : task.id < k'.fresh
  /-- It does something with a handle, now or later. -/
  errand : ∃ due handle act, task.work = .errand due handle act ∧ k.now ≤ due

namespace Kernel

/-- What can be done to a kernel in a turn, apart from somebody coming to wait. -/
structure Adds (k k' : Kernel σ) : Prop where
  /-- Time stands still. -/
  now : k'.now = k.now
  /-- Numbers may be given out. -/
  fresh : k.fresh ≤ k'.fresh
  /-- There may be new errands. -/
  tasks : ∀ task ∈ k'.tasks, task ∈ k.tasks ∨ task.New k k'
  /-- Who is behind a handle was there before. -/
  waiters : ∀ h q, k'.slot? h = some (.waiting q) → k.slot? h = some (.waiting q) ∨ q = []

section Adds

variable {k k₁ k' : Kernel σ}

theorem Adds.refl (k : Kernel σ) : k.Adds k :=
  ⟨rfl, Nat.le_refl _, fun _ h => .inl h, fun _ _ h => .inl h⟩

theorem Adds.trans (first : k.Adds k₁) (rest : k₁.Adds k') : k.Adds k' := by
  refine ⟨rest.now.trans first.now, Nat.le_trans first.fresh rest.fresh, fun task mem => ?_,
    fun h q waits => (rest.waiters h q waits).elim (first.waiters h q) .inr⟩
  rcases rest.tasks task mem with mem | new
  · exact (first.tasks task mem).imp_right fun new =>
      ⟨new.low, Nat.lt_of_lt_of_le new.high rest.fresh, new.errand⟩
  · exact .inr ⟨Nat.le_trans first.fresh new.low, new.high, first.now ▸ new.errand⟩

theorem adds_world {w : World σ} (clock : w.clock = k.world.clock) : k.Adds { k with world := w } :=
  ⟨clock, Nat.le_refl _, fun _ h => .inl h, fun _ _ h => .inl h⟩

theorem adds_report (k : Kernel σ) (event : Event) : k.Adds (k.report event) :=
  adds_world rfl

theorem adds_queue (k : Kernel σ) (woken : List FiberId) : k.Adds { k with woken := woken } :=
  ⟨rfl, Nat.le_refl _, fun _ h => .inl h, fun _ _ h => .inl h⟩

theorem adds_wake (k : Kernel σ) (path : Path) : k.Adds (k.wake path) := by
  rw [wake_enqueue]
  exact k.adds_queue _

theorem adds_wakeOne (k : Kernel σ) (id : FiberId) : k.Adds (k.wakeOne id) := by
  rw [wakeOne_enqueue]
  exact k.adds_queue _

theorem adds_draw (k : Kernel σ) : k.Adds k.draw.2 :=
  ⟨rfl, Nat.le_succ _, fun _ h => .inl h, fun _ _ h => .inl h⟩

theorem adds_setSlot (k : Kernel σ) (h : Handle) {slot : Slot σ}
    (nobody : ∀ q, slot = .waiting q → q = []) : k.Adds (k.setSlot h slot) := by
  refine ⟨rfl, Nat.le_refl _, fun _ h => .inl h, fun i q found => ?_⟩
  rw [slot?_setSlot] at found
  split at found
  · exact .inr (nobody q (Option.some.inj found))
  · exact .inl found

theorem adds_closeSlot (k : Kernel σ) (h : Handle) : k.Adds (k.closeSlot h) := by
  refine ⟨rfl, Nat.le_refl _, fun _ h => .inl h, fun i q found => ?_⟩
  rw [slot?_closeSlot] at found
  split at found
  · cases found
  · exact .inl found

theorem adds_use (k : Kernel σ) (h : Handle) (r : Resumption σ) : k.Adds (k.use h r) := by
  unfold use
  split
  · exact (k.adds_setSlot h fun _ same => by cases same).trans (adds_wake _ _)
  · exact (k.adds_closeSlot h).trans (adds_report _ _)
  · exact .refl k

theorem adds_release (k : Kernel σ) (h : Handle) : k.Adds (k.release h) := by
  unfold release
  split
  · exact (k.adds_setSlot h fun _ same => by cases same).trans (adds_wake _ _)
  · exact k.adds_closeSlot h
  · exact .refl k

theorem adds_leave (k : Kernel σ) (h : Handle) : k.Adds (k.leave h) := by
  unfold leave
  split
  · exact k.adds_setSlot h fun _ same => by cases same
  · exact k.adds_closeSlot h

theorem adds_leaveAll (k : Kernel σ) (handles : List Handle) : k.Adds (k.leaveAll handles) := by
  unfold leaveAll
  induction handles generalizing k with
  | nil => exact .refl k
  | cons h rest ih => exact (k.adds_leave h).trans (ih _)

/-- There is a new errand. -/
theorem adds_errand (k : Kernel σ) (millis : Nat) (h : Handle) (act : Act σ (List (Signal σ))) :
    k.Adds (k.addTask (.errand (wakeTime k.now (Duration.ofMillis millis)) h act)).2 := by
  let task : Task σ := ⟨k.fresh, .errand (wakeTime k.now (Duration.ofMillis millis)) h act, false⟩
  have added : k.Adds { k.draw.2 with tasks := k.tasks ++ [task] } := by
    refine ⟨rfl, Nat.le_succ _, fun other mem => ?_, fun _ _ h => .inl h⟩
    refine (List.mem_append.1 mem).imp_right fun new => ?_
    rw [List.mem_singleton.1 new]
    exact ⟨Nat.le_refl _, Nat.lt_succ_self _, _, _, _, rfl, le_wakeTime _ _⟩
  exact added.trans (adds_wakeOne _ _)

theorem adds_signal (k : Kernel σ) (signal : Signal σ) : k.Adds (k.signal signal) := by
  cases signal with
  | complete handle x => exact k.adds_use handle _
  | resume handle e => exact k.adds_use handle _
  | release handle => exact k.adds_release handle
  | later millis handle act => exact k.adds_errand millis handle act

theorem adds_signalAll (k : Kernel σ) (signals : List (Signal σ)) :
    k.Adds (k.signalAll signals) := by
  unfold signalAll
  induction signals generalizing k with
  | nil => exact .refl k
  | cons signal rest ih => exact (k.adds_signal signal).trans (ih _)

theorem adds_enlist (env : Context) (effects : List (Effect σ)) (position : Nat)
    (k : Kernel σ) : k.Adds (enlist env effects position k).2 := by
  induction effects generalizing position k with
  | nil => exact .refl k
  | cons e rest ih => exact (k.adds_draw.trans (adds_wakeOne _ _)).trans (ih _ _)

theorem adds_collect? {h : Handle} {focus : Focus σ} (found : k.collect? h = some (focus, k')) :
    k.Adds k' := by
  unfold collect? at found
  split at found
  · cases found
    exact k.adds_closeSlot h
  · cases found
    exact (k.adds_closeSlot h).trans (adds_report _ _)
  · cases found

/-- Granting a request may add errands, numbers and slots nobody waits behind. No clock moves. -/
theorem adds_grant (k : Kernel σ) (path : Path) (request : Request σ) (point : Suspension σ) :
    k.Adds (k.grant path request point).2 := by
  cases request with
  | pause span focus => exact .refl k
  | giveWay focus => exact k.adds_wake path
  | listen register =>
      -- The new slot waits for nobody else, and `register` moves no clock.
      have opened : k.Adds k.openSlot.2 := k.adds_draw.trans (adds_setSlot _ _ fun q same => by
        cases same
        rfl)
      have clock := k.openSlot.2.world.guarded_clock (register k.openSlot.1)
      simp only [grant]
      revert clock
      rcases k.openSlot.2.world.guarded (register k.openSlot.1) with
        ⟨d | ⟨signals, _ | p⟩, w⟩
      all_goals
        intro clock
        have called : k.Adds { k.openSlot.2 with world := w } := opened.trans (adds_world clock)
      · exact called.trans (adds_leave _ _)
      · exact called.trans (adds_signalAll _ _)
      · exact ((called.trans (adds_signalAll _ signals)).trans
          (adds_report _ (.panicCaptured (.ofPanic p)))).trans (adds_leave _ _)
  | within source limit => exact .refl k
  | gather children collect => exact adds_enlist point.env children 0 k
  | compete children => exact adds_enlist point.env children 0 k

end Adds

end Kernel

/-! ### Points in time -/

theorem punctual_none (now : Nat) : Punctual now none :=
  fun _ h => by cases h

theorem punctual_some {now time : Nat} (late : now ≤ time) : Punctual now (some time) :=
  fun _ same => by
    cases same
    exact late

/-- The nearer of two wake-ups is not past when neither is. -/
theorem punctual_earlier {now : Nat} {a b : Option Nat} :
    Punctual now (earlier a b) ↔ Punctual now a ∧ Punctual now b := by
  constructor
  · intro both
    refine ⟨fun time ha => ?_, fun time hb => ?_⟩
    · rcases earlier_le (b := b) (.inl ha) with ⟨least, found, le⟩
      exact Nat.le_trans (both least found) le
    · rcases earlier_le (a := a) (.inr hb) with ⟨least, found, le⟩
      exact Nat.le_trans (both least found) le
  · rintro ⟨ha, hb⟩ time found
    exact (earlier_eq_some found).elim (ha time) (hb time)

namespace Fiber

/-- No child has a wake-up that is past when their next one is not. -/
theorem punctual_nextWakeEach {now : Nat} {children : List (FiberId × Nat × Fiber σ)} :
    Punctual now (nextWakeEach children) ↔
      ∀ child ∈ children, Punctual now child.2.2.nextWake := by
  induction children with
  | nil =>
      rw [nextWakeEach]
      exact ⟨fun _ child mem => (by cases mem), fun _ => punctual_none now⟩
  | cons first rest ih =>
      rcases first with ⟨i, position, g⟩
      rw [nextWakeEach, punctual_earlier, ih, List.forall_mem_cons]

mutual
/-- Nobody is due if everybody waits for later times. -/
theorem dueAt_eq_nil {now : Nat} {path : Path} :
    (f : Fiber σ) → Punctual (now + 1) f.nextWake → f.dueAt now path = []
  | .ready _, _ => rfl
  | .asleep wake _, later => by
      rw [dueAt, if_neg (Nat.not_le_of_lt (later wake rfl))]
  | .yielded _, _ => rfl
  | .listening _ _, _ => rfl
  | .limited _ deadline inner _, later => by
      rw [nextWake, punctual_earlier] at later
      rw [dueAt, dueAt_eq_nil inner later.1, if_neg (Nat.not_le_of_lt (later.2 deadline rfl))]
      rfl
  | .joining _ children _, later => by
      rw [nextWake] at later
      rw [dueAt, dueAtEach_eq_nil children later]

theorem dueAtEach_eq_nil {now : Nat} {path : Path} :
    (children : List (FiberId × Nat × Fiber σ)) → Punctual (now + 1) (nextWakeEach children) →
      dueAtEach now path children = []
  | [], _ => rfl
  | (i, _, child) :: rest, later => by
      rw [nextWakeEach, punctual_earlier] at later
      rw [dueAtEach, dueAt_eq_nil child later.1, dueAtEach_eq_nil rest later.2]
      rfl
end

/-! ### Steps -/

/-- What steps of a fiber change. -/
structure Changes (path : Path) (f : Fiber σ) (k : Kernel σ) (f' : Fiber σ) (k' : Kernel σ) :
    Prop where
  /-- Time stands still. -/
  now : k'.now = k.now
  /-- Numbers may be given out. -/
  fresh : k.fresh ≤ k'.fresh
  /-- There may be new errands. -/
  tasks : ∀ task ∈ k'.tasks, task ∈ k.tasks ∨ task.New k k'
  /-- What the fiber comes to be about is new, and none of the new errands. -/
  numbers : ∀ n ∈ f'.numbers, n ∈ f.numbers ∨
    (k.fresh ≤ n ∧ n < k'.fresh ∧ ∀ task ∈ k'.tasks, task ∈ k.tasks ∨ task.id ≠ n)
  /-- Those in the fiber who come to wait for handles do so with their whole path. -/
  waiters : ∀ h q, k'.slot? h = some (.waiting q) → k.slot? h = some (.waiting q) ∨ q = [] ∨
    (path ⊆ q ∧ ∀ c ∈ q, c ∈ path ∨ c ∈ f.numbers ∨ (k.fresh ≤ c ∧ c < k'.fresh))
  /-- Nothing comes to wait for a time that has gone by. -/
  punctual : Punctual k.now f.nextWake → Punctual k'.now f'.nextWake

section Changes

variable {settings : Settings} {path : Path} {f f₁ f' : Fiber σ} {k k₁ k' : Kernel σ}
  {marks : List (Mark σ)}

theorem Changes.refl (path : Path) (f : Fiber σ) (k : Kernel σ) : f.Changes path k f k :=
  ⟨rfl, Nat.le_refl _, fun _ h => .inl h, fun _ h => .inl h, fun _ _ h => .inl h, fun h => h⟩

/-- One change after the other is a change. -/
theorem Changes.trans (first : f.Changes path k f₁ k₁) (rest : f₁.Changes path k₁ f' k') :
    f.Changes path k f' k' := by
  have low := first.fresh
  have high := rest.fresh
  refine ⟨rest.now.trans first.now, Nat.le_trans low high, fun task mem => ?_, fun n mem => ?_,
    fun h q waits => ?_, fun punctual => rest.punctual (first.punctual punctual)⟩
  · rcases rest.tasks task mem with mem | new
    · exact (first.tasks task mem).imp_right fun new =>
        ⟨new.low, Nat.lt_of_lt_of_le new.high high, new.errand⟩
    · exact .inr ⟨Nat.le_trans low new.low, new.high, first.now ▸ new.errand⟩
  · rcases rest.numbers n mem with mem | ⟨above, below, others⟩
    · -- Errands that are added later have greater numbers.
      refine (first.numbers n mem).imp_right fun ⟨above, below, others⟩ =>
        ⟨above, Nat.lt_of_lt_of_le below high, fun task mem => ?_⟩
      rcases rest.tasks task mem with mem | new
      · exact others task mem
      · exact .inr (Nat.ne_of_gt (Nat.lt_of_lt_of_le below new.low))
    · refine .inr ⟨Nat.le_trans low above, below, fun task mem => ?_⟩
      rcases others task mem with mem | other
      · exact (first.tasks task mem).imp_right fun new =>
          Nat.ne_of_lt (Nat.lt_of_lt_of_le new.high above)
      · exact .inr other
  · rcases rest.waiters h q waits with waits | none | ⟨around, known⟩
    · rcases first.waiters h q waits with waits | none | ⟨around, known⟩
      · exact .inl waits
      · exact .inr (.inl none)
      · exact .inr (.inr ⟨around, fun c mem => (known c mem).imp_right fun known =>
          known.imp_right fun new => ⟨new.1, Nat.lt_of_lt_of_le new.2 high⟩⟩)
    · exact .inr (.inl none)
    · refine .inr (.inr ⟨around, fun c mem => ?_⟩)
      rcases known c mem with mem | mem | new
      · exact .inl mem
      · exact .inr ((first.numbers c mem).imp_right fun new =>
          ⟨new.1, Nat.lt_of_lt_of_le new.2.1 high⟩)
      · exact .inr (.inr ⟨Nat.le_trans low new.1, new.2⟩)

/-- What is done to the kernel, where the fiber comes to be about nothing new. -/
theorem Changes.of_adds (adds : k.Adds k') (numbers : ∀ n ∈ f'.numbers, n ∈ f.numbers)
    (punctual : Punctual k.now f.nextWake → Punctual k.now f'.nextWake) :
    f.Changes path k f' k' :=
  ⟨adds.now, adds.fresh, adds.tasks, fun n mem => .inl (numbers n mem),
    fun h q waits => (adds.waiters h q waits).imp_right .inl,
    fun before => adds.now ▸ punctual before⟩

/-- Fibers side by side are numbered, and no task has one of the numbers. -/
theorem enlist_numbers (env : Context) (effects : List (Effect σ)) (position : Nat)
    (k : Kernel σ) :
    (∀ n ∈ numbersEach (Kernel.enlist env effects position k).1,
      k.fresh ≤ n ∧ n < (Kernel.enlist env effects position k).2.fresh) ∧
    (Kernel.enlist env effects position k).2.tasks = k.tasks ∧
    nextWakeEach (Kernel.enlist env effects position k).1 = none := by
  induction effects generalizing position k with
  | nil => exact ⟨fun n mem => (by cases mem), rfl, rfl⟩
  | cons e rest ih =>
      rcases ih (position + 1) (k.draw.2.wakeOne k.fresh) with ⟨numbered, tasks, wake⟩
      -- Enlisting a child draws one number and queues it; nothing else changes.
      have first : k.draw.2.wakeOne k.fresh =
          { k with woken := enqueue k.woken k.fresh, fresh := k.fresh + 1 } := by
        rw [Kernel.wakeOne_enqueue]
        rfl
      have later := (Kernel.adds_enlist env rest (position + 1) (k.draw.2.wakeOne k.fresh)).fresh
      have tasks₁ : (k.draw.2.wakeOne k.fresh).tasks = k.tasks := by rw [first]
      have fresh₁ : (k.draw.2.wakeOne k.fresh).fresh = k.fresh + 1 := by rw [first]
      rw [fresh₁] at numbered later
      refine ⟨fun n mem => ?_, tasks.trans tasks₁, ?_⟩
      · rw [Kernel.enlist, numbersEach, numbers, List.nil_append] at mem
        rcases List.mem_cons.1 mem with rfl | mem
        · exact ⟨Nat.le_refl _, later⟩
        · exact ⟨Nat.le_of_succ_le (numbered n mem).1, (numbered n mem).2⟩
      · rw [Kernel.enlist, nextWakeEach, nextWake]
        exact wake

/-- What a machine asks for is granted. -/
theorem changes_grant (k : Kernel σ) (path : Path) (m : Machine σ) (request : Request σ)
    (point : Suspension σ) :
    (Fiber.ready m).Changes path k (k.grant path request point).1
      (k.grant path request point).2 := by
  have adds := k.adds_grant path request point
  have enlisted : ∀ (join : Join) (children : List (Effect σ)), (Fiber.ready m).Changes path k
      (.joining join (Kernel.enlist point.env children 0 k).1 point)
      (Kernel.enlist point.env children 0 k).2 := by
    intro join children
    rcases enlist_numbers point.env children 0 k with ⟨numbered, tasks, wake⟩
    have adds := Kernel.adds_enlist point.env children 0 k
    refine ⟨adds.now, adds.fresh, adds.tasks, fun n mem => .inr ?_,
      fun h q waits => (adds.waiters h q waits).imp_right .inl, fun _ => ?_⟩
    · rw [numbers] at mem
      exact ⟨(numbered n mem).1, (numbered n mem).2, fun task mem => .inl (tasks ▸ mem)⟩
    · rw [nextWake, wake]
      exact punctual_none _
  cases request with
  | pause span focus =>
      exact .of_adds adds (fun n mem => mem) fun _ => punctual_some (Kernel.le_wakeTime _ _)
  | giveWay focus => exact .of_adds adds (fun n mem => mem) fun _ => punctual_none _
  | within source limit =>
      exact .of_adds adds (fun n mem => mem) fun _ => punctual_some (Kernel.le_wakeTime _ _)
  | gather children collect => exact enlisted _ children
  | compete children => exact enlisted _ children
  | listen register =>
      revert adds
      simp only [Kernel.grant]
      rcases k.openSlot.2.world.guarded (register k.openSlot.1) with ⟨d | ⟨signals, _ | p⟩, w⟩
      · exact fun adds => .of_adds adds (fun n mem => mem) fun _ => punctual_none _
      · intro adds
        have more := Kernel.adds_signalAll { k.openSlot.2 with world := w } signals
        refine ⟨adds.now, adds.fresh, adds.tasks, fun n mem => .inr ?_,
          fun h q waits => (adds.waiters h q waits).imp_right .inl, fun _ => punctual_none _⟩
        -- The errands that come of the signals have later numbers than the handle.
        rw [numbers, List.mem_singleton] at mem
        subst mem
        exact ⟨Nat.le_refl _, more.fresh, fun task mem => (more.tasks task mem).imp_right
          fun new => Nat.ne_of_gt new.low⟩
      · exact fun adds => .of_adds adds (fun n mem => mem) fun _ => punctual_none _

/-- A step of a fiber. -/
theorem Move.changes (async : settings.mode = .async)
    (move : Move settings path f k marks f' k') : f.Changes path k f' k' := by
  -- A step touches the world, a request is granted, and a move of a part is a change of the whole.
  induction move with
  | @step path m m' k w step =>
      have clock := step_clock async m k.world
      rw [step] at clock
      exact .of_adds (Kernel.adds_world clock) (fun n mem => mem) fun h => h
  | @ask path m request point k w step =>
      have clock := step_clock async m k.world
      rw [step] at clock
      exact .trans (.of_adds (Kernel.adds_world clock) (fun n mem => mem) fun h => h)
        (changes_grant _ path m request point)
  | rise => exact .of_adds (.refl _) (fun n mem => by cases mem) fun _ => punctual_none _
  | goOn => exact .of_adds (.refl _) (fun n mem => by cases mem) fun _ => punctual_none _
  | collect found =>
      exact .of_adds (Kernel.adds_collect? found) (fun n mem => by cases mem)
        fun _ => punctual_none _
  | @look path handle point k waits =>
      refine ⟨rfl, Nat.le_refl _, fun _ h => .inl h, fun _ h => .inl h, fun h q found => ?_,
        fun h => h⟩
      rw [Kernel.slot?_setSlot] at found
      split at found
      · cases found
        exact .inr (.inr ⟨List.Subset.refl _, fun c mem => .inl mem⟩)
      · exact .inl found
  | within _ ih =>
      rcases ih with ⟨now, fresh, tasks, numbers, waiters, punctual⟩
      refine ⟨now, fresh, tasks, numbers, waiters, fun before => ?_⟩
      rw [nextWake, punctual_earlier] at before ⊢
      exact ⟨punctual before.1, now ▸ before.2⟩
  | inTime => exact .of_adds (.refl _) (fun n mem => by cases mem) fun _ => punctual_none _
  | expire =>
      exact .of_adds ((Kernel.adds_leaveAll _ _).trans (Kernel.adds_report _ _))
        (fun n mem => by cases mem) fun _ => punctual_none _
  | @child path join children id position child child' point k k' marks mem _ ih =>
      rcases ih with ⟨now, fresh, tasks, numbers', waiters, punctual⟩
      have own := mem_numbersEach_of_find? mem
      refine ⟨now, fresh, tasks, fun n mem => ?_, fun h q waits => ?_, fun before => ?_⟩
      · rw [numbers] at mem ⊢
        rcases mem_numbersEach_withChild mem with old | new
        · exact .inl old
        · exact (numbers' n new).imp_left (own.2 n)
      · rw [numbers]
        rcases waiters h q waits with waits | none | ⟨around, known⟩
        · exact .inl waits
        · exact .inr (.inl none)
        · refine .inr (.inr ⟨fun c mem => around (List.mem_cons_of_mem _ mem), fun c mem => ?_⟩)
          rcases known c mem with mem | mem | new
          · exact (List.mem_cons.1 mem).elim (fun same => .inr (.inl (same ▸ own.1))) .inl
          · exact .inr (.inl (own.2 c mem))
          · exact .inr (.inr new)
      · rw [nextWake, punctual_nextWakeEach] at before ⊢
        intro other there
        rcases List.mem_map.1 there with ⟨old, before', rfl⟩
        split
        · exact punctual (before _ (List.mem_of_find?_eq_some mem))
        · exact now ▸ before old before'
  | absorb =>
      refine .of_adds (.refl _) (fun n mem => ?_) fun before => ?_
      · rw [numbers] at mem ⊢
        exact mem_numbersEach_withoutChild mem
      · rw [nextWake, punctual_nextWakeEach] at before ⊢
        exact fun child mem => before child (List.mem_filter.1 mem).1
  | decide =>
      exact .of_adds (Kernel.adds_leaveAll _ _) (fun n mem => by cases mem) fun _ => punctual_none _
  | gathered => exact .of_adds (.refl _) (fun n mem => by cases mem) fun _ => punctual_none _
  | queue => exact .of_adds (Kernel.adds_queue _ _) (fun n mem => mem) fun h => h

/-- Steps of a fiber one after the other. -/
theorem Moves.changes (async : settings.mode = .async)
    (moves : Moves settings path f k marks f' k') : f.Changes path k f' k' := by
  induction moves with
  | none => exact .refl path _ _
  | more move _ ih => exact (move.changes async).trans ih

/-- A turn in which the fiber waits. -/
theorem turn_changes (async : settings.mode = .async) {fuel : Nat}
    (turned : turn settings fuel path f k = (.waiting f', k')) : f.Changes path k f' k' := by
  have moves := (turn_moves settings fuel).1 path f k
  rw [turned] at moves
  rcases moves with ⟨marks, moves⟩
  exact moves.changes async

/-- A turn in which it ends. -/
theorem turn_changes_ended (async : settings.mode = .async) {fuel : Nat} {x : Outcome}
    (turned : turn settings fuel path f k = (.ended x, k')) :
    ∃ m, f.Changes path k (.ready m) k' := by
  have moves := (turn_moves settings fuel).1 path f k
  rw [turned] at moves
  rcases moves with ⟨marks, env, moves⟩
  exact ⟨_, moves.changes async⟩

end Changes

end Fiber

end EffectKernel
