import EffectKernel.Proofs.RelyGuarantee

/-!
# What Other Fibers Do to a Waiting One

What the turn of a fiber does to another fiber, which waits meanwhile. Time stands still in a turn,
if it is not a turn on the spot. The other one keeps its place in the queue, and it misses nothing:
if something has happened that it waits for, it has been put in the queue. What can happen to it is
that somebody has used its handle, or let it go, and then the handle says who has to be woken. And
if a fiber inside it is woken then so is it, because who is woken is on a path, and the paths behind
handles go outwards.

For this the numbers have to be kept apart. The other fiber is told from the rest by its numbers:
its own, and those of the handles and the fibers in it. Whoever has the turn has other ones, and
those that are given out in the turn are new.

## Main definitions

* `Fiber.Owns`, `Fiber.Foreign`: Whose numbers are whose.
* `Fiber.Idle`: A fiber waits, and nothing that it waits for has happened.
* `Fiber.Placed`: A fiber has its place among others.
* `Fiber.Watched`: A fiber that waits has missed nothing.
* `Fiber.Spared`: What others do to a fiber that waits.

## Theorems

* `step_clock`: Time stands still in a step.
* `Fiber.Spared.watched`: A fiber still misses nothing after what others do.
* `Fiber.turns_spare`: What others do in their turns.
-/

namespace EffectKernel

open Machine

variable {σ : Type}

/-! ### The clock -/

section Clock

variable {settings : Settings} {env : Context} {stack : List (Frame σ)}

/-- An action takes no time, whether it panics or not. -/
theorem World.guarded_clock {α : Type} (w : World σ) (act : Act σ α) :
    (w.guarded act).2.clock = w.clock := by
  unfold World.guarded
  rcases act.run w.store with ⟨_ | _, _⟩ <;> rfl

theorem applied_clock (r : Except Defect (Effect σ) × World σ) :
    (applied env stack r).2.clock = r.2.clock := by
  rcases r with ⟨_ | _, _⟩ <;> rfl

theorem paused_clock (async : settings.mode = .async) (span : Duration) (focus : Focus σ)
    (w : World σ) : (paused settings span focus env stack w).2.clock = w.clock := by
  unfold paused
  rw [async]
  split <;> rfl

/-- Looking at an effect takes no time, since a fiber does not wait where it stands but asks to be
    woken. -/
theorem evalStep_clock (async : settings.mode = .async) (e : Effect σ) (w : World σ) :
    (evalStep settings e env stack w).2.clock = w.clock := by
  -- In a fiber a pause is asked for, so no kind of effect moves the clock by itself.
  cases e with
  | exit thunk =>
      have clock := w.guarded_clock thunk
      rw [evalStep]
      revert clock
      rcases w.guarded thunk with ⟨_ | _, _⟩ <;> exact fun clock => clock
  | suspend make => exact (applied_clock _).trans (w.guarded_clock make)
  | service key =>
      rw [evalStep]
      split <;> rfl
  | sleep span => exact paused_clock async span _ w
  | all children collect parallel =>
      simp only [evalStep]
      split <;> rfl
  | _ => first | rfl | rw [evalStep, async]

theorem resumeStep_clock (r : Act σ (Routine σ)) (w : World σ) :
    (resumeStep r env stack w).2.clock = w.clock := by
  have clock := w.guarded_clock r
  unfold resumeStep
  revert clock
  rcases w.guarded r with ⟨_ | routine, w₁⟩
  · exact fun clock => clock
  · cases routine with
    | sleep millis next =>
        dsimp only
        split <;> exact fun clock => clock
    | _ => exact fun clock => clock

theorem recurStep_clock (async : settings.mode = .async) (r : Recurrence σ) (x : Outcome)
    (w : World σ) : (recurStep settings r x env stack w).2.clock = w.clock := by
  -- Deciding whether to go on may call the filter, and the delay is asked for like any other pause.
  have clock : (wantsAgain r x w).2.clock = w.clock := by
    unfold wantsAgain
    split
    · split
      · exact w.guarded_clock _
      · rfl
    · rfl
    · rfl
  unfold recurStep
  revert clock
  rcases wantsAgain r x w with ⟨_ | _ | _, w₁⟩
  · exact fun clock => clock
  · exact fun clock => clock
  · dsimp only
    split
    · exact fun clock => clock
    · exact fun clock => (paused_clock async _ _ _).trans clock

/-- Nor does handing an outcome to a frame. -/
theorem unwindStep_clock (async : settings.mode = .async) (frame : Frame σ) (x : Outcome)
    (w : World σ) : (unwindStep settings frame x env stack w).2.clock = w.clock := by
  unfold unwindStep
  split
  case h_6 => exact recurStep_clock async _ _ w
  all_goals first | rfl | exact (applied_clock _).trans (w.guarded_clock _)

/-- Time stands still in a step, if it is not one on the spot. -/
theorem step_clock (async : settings.mode = .async) (m : Machine σ) (w : World σ) :
    (m.step settings w).2.clock = w.clock := by
  rcases m with ⟨focus, env, stack⟩
  induction focus generalizing env stack with
  | eval e => exact evalStep_clock async e w
  | resume r => exact resumeStep_clock r w
  | within body inner env₁ stack₁ ih => exact ih env₁ stack₁
  | unwind x =>
      cases stack with
      | nil => rfl
      | cons frame stack => exact unwindStep_clock async frame x w

end Clock

namespace Fiber

/-! ### Numbers of fibers side by side -/

section Numbers

variable {id : FiberId} {g : Fiber σ} {n : Nat} {children : List (FiberId × Nat × Fiber σ)}

/-- The numbers that fibers side by side are about are their own and those that each of them is
    about. -/
theorem mem_numbersEach :
    n ∈ numbersEach children ↔ ∃ child ∈ children, n = child.1 ∨ n ∈ child.2.2.numbers := by
  induction children with
  | nil => simp [numbersEach]
  | cons first rest ih =>
      rcases first with ⟨i, position, f⟩
      rw [numbersEach, List.mem_cons, List.mem_append, ih]
      simp only [List.mem_cons, exists_eq_or_imp, or_assoc]

theorem mem_numbersEach_withoutChild (mem : n ∈ numbersEach (withoutChild id children)) :
    n ∈ numbersEach children := by
  rw [mem_numbersEach] at mem ⊢
  exact mem.imp fun child h => ⟨(List.mem_filter.1 h.1).1, h.2⟩

theorem mem_numbersEach_withChild (mem : n ∈ numbersEach (withChild id g children)) :
    n ∈ numbersEach children ∨ n ∈ g.numbers := by
  rw [mem_numbersEach] at mem ⊢
  rcases mem with ⟨child, there, own⟩
  rcases List.mem_map.1 there with ⟨old, before, rfl⟩
  split at own
  · next same =>
      refine own.imp_left fun own => ⟨old, before, .inl ?_⟩
      rw [own]
      exact (beq_iff_eq.1 same).symm
  · exact .inl ⟨old, before, own⟩

/-- The numbers of one of the fibers are among those of all. -/
theorem mem_numbersEach_of_find? {position : Nat}
    (found : children.find? (·.1 == id) = some (id, position, g)) :
    id ∈ numbersEach children ∧ ∀ n ∈ g.numbers, n ∈ numbersEach children := by
  have mem := List.mem_of_find?_eq_some found
  exact ⟨mem_numbersEach.2 ⟨_, mem, .inl rfl⟩, fun n own => mem_numbersEach.2 ⟨_, mem, .inr own⟩⟩

end Numbers

/-! ### A fiber that waits -/

/-- A number is that of a fiber, or the fiber is about it. -/
def Owns (id : FiberId) (f : Fiber σ) (n : Nat) : Prop :=
  n = id ∨ n ∈ f.numbers

/-- A number has been given out to somebody else. -/
structure Foreign (id : FiberId) (f : Fiber σ) (k : Kernel σ) (n : Nat) : Prop where
  /-- It has been given out. -/
  given : n < k.fresh
  /-- It has nothing to do with the fiber. -/
  apart : ¬f.Owns id n

/-- The fiber at a path waits, and nothing that it waits for has happened. Of the fibers in it, none
    has been woken. -/
def Idle (path : Path) (k : Kernel σ) : Fiber σ → Prop
  | .ready _ => False
  | .asleep wake _ => k.now < wake
  | .yielded _ => False
  | .listening handle _ => k.slot? handle = some (.waiting path)
  | .limited _ deadline inner _ => inner.Idle path k ∧ k.now < deadline
  | .joining _ children _ => children ≠ [] ∧ ∀ child ∈ children, child.1 ∉ k.woken

/-- A fiber has its place among others. -/
structure Placed (id : FiberId) (f : Fiber σ) (k : Kernel σ) : Prop where
  /-- Its numbers have been given out. -/
  given : ∀ n, f.Owns id n → n < k.fresh
  /-- So have those of all who wait for handles; and where somebody in the fiber does, the fiber is
      on the path. -/
  waiters : ∀ h q, k.slot? h = some (.waiting q) →
    ∀ c ∈ q, c < k.fresh ∧ (c ∈ f.numbers → id ∈ q)

/-- A fiber that waits has missed nothing: if something has happened that it waits for, it has been
    woken. -/
structure Watched (id : FiberId) (f : Fiber σ) (k : Kernel σ) : Prop extends f.Placed id k where
  /-- It has been woken, or nothing has happened. -/
  woken_or_idle : id ∈ k.woken ∨ f.Idle [id] k

/-- What others do to a fiber that waits. -/
structure Spared (id : FiberId) (f : Fiber σ) (k k' : Kernel σ) : Prop where
  /-- Numbers may be given out. -/
  fresh : k.fresh ≤ k'.fresh
  /-- Time stands still. -/
  now : k'.now = k.now
  /-- Those who have come to wait for handles are others. -/
  waiters : ∀ h q, k'.slot? h = some (.waiting q) →
    k.slot? h = some (.waiting q) ∨ ∀ c ∈ q, f.Foreign id k' c
  /-- The fiber stays in the queue. -/
  woken : id ∈ k.woken → id ∈ k'.woken
  /-- It has been woken, or it is left alone. -/
  alone : id ∈ k'.woken ∨
    (∀ h ∈ f.numbers, k.slot? h = some (.waiting [id]) → k'.slot? h = some (.waiting [id])) ∧
      ∀ c ∈ f.numbers, c ∈ k'.woken → c ∈ k.woken

section Spared

variable {id : FiberId} {f : Fiber σ} {k k₁ k' : Kernel σ} {n : Nat}

/-- What is foreign to a fiber stays so when more numbers are given out. -/
theorem Foreign.mono (foreign : f.Foreign id k n) (fresh : k.fresh ≤ k'.fresh) :
    f.Foreign id k' n :=
  ⟨Nat.lt_of_lt_of_le foreign.given fresh, foreign.apart⟩

theorem Foreign.not_mem (foreign : f.Foreign id k n) : n ∉ f.numbers :=
  fun mem => foreign.apart (.inr mem)

theorem Foreign.ne (foreign : f.Foreign id k n) : n ≠ id :=
  fun same => foreign.apart (.inl same)

/-- What is given out later goes to others. -/
theorem Placed.foreign (watched : f.Placed id k) (low : k.fresh ≤ n) (high : n < k'.fresh) :
    f.Foreign id k' n :=
  ⟨high, fun owns => Nat.not_lt_of_le low (watched.given n owns)⟩

/-- A fiber is still idle if it has been left alone. -/
theorem idle_congr {path : Path} (now : k'.now = k.now) : (f : Fiber σ) → f.Idle path k →
    (∀ h ∈ f.numbers, k.slot? h = some (.waiting path) → k'.slot? h = some (.waiting path)) →
    (∀ c ∈ f.numbers, c ∈ k'.woken → c ∈ k.woken) → f.Idle path k'
  | .ready _, idle, _, _ => idle
  | .asleep _ _, idle, _, _ => by
      rw [Idle] at idle ⊢
      rwa [now]
  | .yielded _, idle, _, _ => idle
  | .listening _ _, idle, slots, _ => by
      rw [Idle] at idle ⊢
      exact slots _ (by rw [numbers]; exact List.mem_singleton_self _) idle
  | .limited _ _ inner _, idle, slots, woken => by
      rw [Idle] at idle ⊢
      rw [numbers] at slots woken
      rw [now]
      exact ⟨idle_congr now inner idle.1 slots woken, idle.2⟩
  | .joining _ children _, idle, _, woken => by
      rw [Idle] at idle ⊢
      rw [numbers] at woken
      exact ⟨idle.1, fun child mem later =>
        idle.2 child mem (woken _ (mem_numbersEach.2 ⟨child, mem, .inl rfl⟩) later)⟩

theorem Spared.refl (id : FiberId) (f : Fiber σ) (k : Kernel σ) : f.Spared id k k :=
  ⟨Nat.le_refl _, rfl, fun _ _ h => .inl h, fun h => h, .inr ⟨fun _ _ h => h, fun _ _ h => h⟩⟩

/-- What others do after another. -/
theorem Spared.trans (first : f.Spared id k k₁) (rest : f.Spared id k₁ k') : f.Spared id k k' := by
  refine ⟨Nat.le_trans first.fresh rest.fresh, rest.now.trans first.now, fun h q waits => ?_,
    fun woken => rest.woken (first.woken woken), ?_⟩
  · rcases rest.waiters h q waits with before | foreign
    · exact (first.waiters h q before).imp_right fun foreign c mem =>
        (foreign c mem).mono rest.fresh
    · exact .inr foreign
  · rcases first.alone with woken | ⟨slots, woken⟩
    · exact .inl (rest.woken woken)
    · exact rest.alone.imp_right fun alone =>
        ⟨fun h mem waits => alone.1 h mem (slots h mem waits),
          fun c mem later => woken c mem (alone.2 c mem later)⟩

/-- A fiber still misses nothing after what others do. -/
theorem Spared.watched (spared : f.Spared id k k') (watched : f.Watched id k) :
    f.Watched id k' := by
  refine ⟨⟨fun n owns => Nat.lt_of_lt_of_le (watched.given n owns) spared.fresh,
    fun h q waits c mem => ?_⟩, ?_⟩
  · rcases spared.waiters h q waits with before | foreign
    · have given := watched.waiters h q before c mem
      exact ⟨Nat.lt_of_lt_of_le given.1 spared.fresh, given.2⟩
    · have foreign := foreign c mem
      exact ⟨foreign.given, fun own => absurd own foreign.not_mem⟩
  · rcases spared.alone with woken | ⟨slots, others⟩
    · exact .inl woken
    · exact watched.woken_or_idle.imp spared.woken fun idle =>
        idle_congr spared.now f idle slots others

/-! ### What can be done to the kernel -/

/-- Where handles are left alone. -/
theorem spared_of_slots (fresh : k.fresh ≤ k'.fresh) (now : k'.now = k.now)
    (slots : ∀ h, k'.slot? h = k.slot? h) (woken : id ∈ k.woken → id ∈ k'.woken)
    (others : id ∈ k'.woken ∨ ∀ c ∈ f.numbers, c ∈ k'.woken → c ∈ k.woken) :
    f.Spared id k k' :=
  ⟨fresh, now, fun h _ waits => .inl (slots h ▸ waits), woken,
    others.imp_right fun others => ⟨fun h _ waits => (slots h).trans waits, others⟩⟩

theorem spared_world {w : World σ} (clock : w.clock = k.world.clock) :
    f.Spared id k { k with world := w } :=
  spared_of_slots (Nat.le_refl _) clock (fun _ => rfl) (fun h => h) (.inr fun _ _ h => h)

theorem spared_report (event : Event) : f.Spared id k (k.report event) :=
  spared_world rfl

theorem spared_tasks (tasks : List (Task σ)) : f.Spared id k { k with tasks := tasks } :=
  spared_of_slots (Nat.le_refl _) rfl (fun _ => rfl) (fun h => h) (.inr fun _ _ h => h)

theorem spared_draw : f.Spared id k k.draw.2 :=
  spared_of_slots (Nat.le_succ _) rfl (fun _ => rfl) (fun h => h) (.inr fun _ _ h => h)

theorem spared_unwake (other : n ≠ id) : f.Spared id k (k.unwake n) :=
  spared_of_slots (Nat.le_refl _) rfl (fun _ => rfl)
    (fun woken => List.mem_filter.2 ⟨woken, by simpa using Ne.symm other⟩)
    (.inr fun _ _ woken => (List.mem_filter.1 woken).1)

/-- Where one in the fiber is woken, so is the fiber. -/
theorem spared_wake {q : Path} (carries : ∀ c ∈ q, c ∈ f.numbers → id ∈ q) :
    f.Spared id k (k.wake q) := by
  have slots := fun h => k.slot?_wake q h
  rw [Kernel.wake_enqueue] at slots ⊢
  refine spared_of_slots (Nat.le_refl _) rfl slots (fun woken => mem_enqueueAll.2 (.inl woken)) ?_
  by_cases mem : id ∈ q
  · exact .inl (mem_enqueueAll.2 (.inr mem))
  · exact .inr fun c own woken =>
      (mem_enqueueAll.1 woken).resolve_right fun there => mem (carries c there own)

/-- Somebody else is woken. -/
theorem spared_wakeOne (other : n ∉ f.numbers) : f.Spared id k (k.wakeOne n) := by
  have spared : f.Spared id k (k.wake [n]) := spared_wake fun c mem own => by
    rw [List.mem_singleton.1 mem] at own
    exact absurd own other
  exact spared

/-- Something else is behind a handle that the fiber does not wait for. -/
theorem spared_setSlot {h : Handle} {slot : Slot σ}
    (other : h ∈ f.numbers → k.slot? h ≠ some (.waiting [id]))
    (waits : ∀ q, slot = .waiting q → ∀ c ∈ q, f.Foreign id k c) :
    f.Spared id k (k.setSlot h slot) := by
  refine ⟨Nat.le_refl _, rfl, fun i q found => ?_, fun woken => woken,
    .inr ⟨fun i own found => ?_, fun _ _ woken => woken⟩⟩
  · rw [Kernel.slot?_setSlot] at found
    split at found
    · exact .inr fun c mem => (waits q (Option.some.inj found) c mem).mono (Nat.le_refl _)
    · exact .inl found
  · rw [Kernel.slot?_setSlot, if_neg (by rintro rfl; exact other own found)]
    exact found

/-- A slot is closed that the fiber does not wait for. -/
theorem spared_closeSlot {h : Handle}
    (other : h ∈ f.numbers → k.slot? h ≠ some (.waiting [id])) :
    f.Spared id k (k.closeSlot h) := by
  refine ⟨Nat.le_refl _, rfl, fun i _ found => ?_, fun woken => woken,
    .inr ⟨fun i own found => ?_, fun _ _ woken => woken⟩⟩
  · rw [Kernel.slot?_closeSlot] at found
    split at found
    · cases found
    · exact .inl found
  · rw [Kernel.slot?_closeSlot, if_neg (by rintro rfl; exact other own found)]
    exact found

/-- Something has been done with a handle that somebody waits for, and everybody on the path is
    woken. If it was for the fiber itself, so is the fiber. -/
theorem spared_notify {h : Handle} {q : Path} {slot : Slot σ} (watched : f.Watched id k)
    (waits : k.slot? h = some (.waiting q)) (done : ∀ q, slot ≠ .waiting q) :
    f.Spared id k ((k.setSlot h slot).wake q) := by
  have slots : ∀ i, ((k.setSlot h slot).wake q).slot? i =
      if i = h then some slot else k.slot? i :=
    fun i => (Kernel.slot?_wake _ q i).trans (k.slot?_setSlot h slot i)
  rw [Kernel.wake_enqueue] at slots ⊢
  refine ⟨Nat.le_refl _, rfl, fun i p found => ?_, fun woken => mem_enqueueAll.2 (.inl woken), ?_⟩
  · rw [slots] at found
    split at found
    · exact absurd (Option.some.inj found) (done p)
    · exact .inl found
  -- The handle's waiter is the fiber itself, which is woken by this, or somebody else, whose path
  -- shares nothing with it.
  · by_cases mem : id ∈ q
    · exact .inl (mem_enqueueAll.2 (.inr mem))
    · refine .inr ⟨fun i own found => ?_, fun c own woken => ?_⟩
      · have other : i ≠ h := by
          rintro rfl
          rw [waits] at found
          cases found
          exact mem (List.mem_singleton_self id)
        rw [slots, if_neg other]
        exact found
      · exact (mem_enqueueAll.1 woken).resolve_right fun there =>
          mem ((watched.waiters h q waits c there).2 own)

/-- A handle is used. If the fiber waits for it, it is woken. -/
theorem spared_use {h : Handle} {r : Resumption σ} (watched : f.Watched id k) :
    f.Spared id k (k.use h r) := by
  unfold Kernel.use
  split
  · next q waits => exact spared_notify watched waits fun _ => by simp
  · next gone => exact (spared_closeSlot fun _ => by simp [gone]).trans (spared_report _)
  · exact .refl id f k

/-- So it is when the handle is let go. -/
theorem spared_release {h : Handle} (watched : f.Watched id k) :
    f.Spared id k (k.release h) := by
  unfold Kernel.release
  split
  · next q waits => exact spared_notify watched waits fun _ => by simp
  · next gone => exact spared_closeSlot fun _ => by simp [gone]
  · exact .refl id f k

/-- Somebody else leaves a handle. -/
theorem spared_leave {h : Handle} (other : h ∉ f.numbers) : f.Spared id k (k.leave h) := by
  unfold Kernel.leave
  split
  · exact spared_setSlot (fun own => absurd own other) fun q same => by cases same
  · exact spared_closeSlot fun own => absurd own other

theorem spared_leaveAll {handles : List Handle} (others : ∀ h ∈ handles, h ∉ f.numbers) :
    f.Spared id k (k.leaveAll handles) := by
  unfold Kernel.leaveAll
  induction handles generalizing k with
  | nil => exact .refl id f k
  | cons h rest ih =>
      exact (spared_leave (others h List.mem_cons_self)).trans
        (ih fun i mem => others i (List.mem_cons_of_mem _ mem))

/-- There is a new task. -/
theorem spared_addTask (watched : f.Watched id k) (work : Work σ) :
    f.Spared id k (k.addTask work).2 := by
  have drawn : f.Spared id k { k.draw.2 with tasks := k.tasks ++ [⟨k.fresh, work, false⟩] } :=
    spared_draw.trans (spared_tasks _)
  exact drawn.trans (spared_wakeOne fun own => Nat.lt_irrefl _ (watched.given _ (.inr own)))

theorem spared_signal (watched : f.Watched id k) (signal : Signal σ) :
    f.Spared id k (k.signal signal) := by
  cases signal with
  | complete handle x => exact spared_use watched
  | resume handle e => exact spared_use watched
  | release handle => exact spared_release watched
  | later millis handle act => exact spared_addTask watched _

/-- Signals one after the other. -/
theorem spared_signalAll (watched : f.Watched id k) (signals : List (Signal σ)) :
    f.Spared id k (k.signalAll signals) := by
  unfold Kernel.signalAll
  induction signals generalizing k with
  | nil => exact .refl id f k
  | cons signal rest ih =>
      have first := spared_signal watched signal
      exact first.trans (ih (first.watched watched))

theorem spared_openSlot (watched : f.Watched id k) : f.Spared id k k.openSlot.2 := by
  have other : k.fresh ∉ f.numbers := fun own => Nat.lt_irrefl _ (watched.given _ (.inr own))
  exact spared_draw.trans (spared_setSlot (fun own => absurd own other) fun q same c mem => by
    cases same
    cases mem)

/-- Somebody else takes up what a handle was used with. -/
theorem spared_collect? {h : Handle} {focus : Focus σ} (other : h ∉ f.numbers)
    (found : k.collect? h = some (focus, k')) : f.Spared id k k' := by
  have closed : f.Spared id k (k.closeSlot h) := spared_closeSlot fun own => absurd own other
  unfold Kernel.collect? at found
  split at found
  · cases found
    exact closed
  · cases found
    exact closed.trans (spared_report _)
  · cases found

/-- Fibers are numbered, and the numbers are new. -/
theorem spared_enlist (watched : f.Watched id k) (env : Context) (effects : List (Effect σ))
    (position : Nat) :
    f.Spared id k (Kernel.enlist env effects position k).2 ∧
      ∀ n ∈ numbersEach (Kernel.enlist env effects position k).1,
        f.Foreign id (Kernel.enlist env effects position k).2 n := by
  induction effects generalizing position k with
  | nil => exact ⟨.refl id f k, fun n mem => by cases mem⟩
  | cons e rest ih =>
      -- A number given out now is none of the fiber's.
      have other : k.fresh ∉ f.numbers := fun own => Nat.lt_irrefl _ (watched.given _ (.inr own))
      have first : f.Spared id k (k.draw.2.wakeOne k.fresh) :=
        spared_draw.trans (spared_wakeOne other)
      have given : k.fresh < (k.draw.2.wakeOne k.fresh).fresh := by
        rw [Kernel.draw, Kernel.wakeOne_enqueue]
        exact Nat.lt_succ_self _
      rcases ih (first.watched watched) (position + 1) with ⟨spared, foreign⟩
      refine ⟨first.trans spared, fun n mem => ?_⟩
      rw [Kernel.enlist, numbersEach, numbers, List.nil_append] at mem
      rcases List.mem_cons.1 mem with rfl | mem
      · exact (watched.foreign (Nat.le_refl _) given).mono spared.fresh
      · exact foreign n mem

/-- What others ask for is granted. -/
theorem spared_grant (watched : f.Watched id k) {path : Path}
    (foreign : ∀ n ∈ path, f.Foreign id k n)
    (request : Request σ) (point : Suspension σ) :
    f.Spared id k (k.grant path request point).2 ∧
      ∀ n ∈ (k.grant path request point).1.numbers,
        f.Foreign id (k.grant path request point).2 n := by
  have none : ∀ n ∈ ([] : List Nat), ∀ k : Kernel σ, f.Foreign id k n := fun n mem => by cases mem
  cases request with
  | pause span focus => exact ⟨.refl id f k, fun n mem => none n mem _⟩
  | giveWay focus =>
      exact ⟨spared_wake fun c mem own => absurd own (foreign c mem).not_mem,
        fun n mem => none n mem _⟩
  | within source limit => exact ⟨.refl id f k, fun n mem => none n mem _⟩
  | gather children collect => exact spared_enlist watched point.env children 0
  | compete children => exact spared_enlist watched point.env children 0
  | listen register =>
      have other : k.fresh ∉ f.numbers := fun own => Nat.lt_irrefl _ (watched.given _ (.inr own))
      -- The handle opened is new; the signals of `register` are the one thing here that may reach
      -- the fiber.
      have opened := spared_openSlot watched
      have clock := k.openSlot.2.world.guarded_clock (register k.openSlot.1)
      simp only [Kernel.grant]
      revert clock
      rcases k.openSlot.2.world.guarded (register k.openSlot.1) with
        ⟨d | ⟨signals, _ | p⟩, w⟩
      all_goals
        intro clock
        have called : f.Spared id k { k.openSlot.2 with world := w } :=
          opened.trans (spared_world clock)
      · exact ⟨called.trans (spared_leave other), fun n mem => none n mem _⟩
      · have spared := spared_signalAll (called.watched watched) signals
        refine ⟨called.trans spared, fun n mem => ?_⟩
        rw [numbers, List.mem_singleton] at mem
        subst mem
        have foreign : f.Foreign id k.openSlot.2 k.fresh :=
          watched.foreign (Nat.le_refl _) (Nat.lt_succ_self _)
        exact foreign.mono spared.fresh
      · exact ⟨(called.trans (spared_signalAll (called.watched watched) signals)).trans
          ((spared_report _).trans (spared_leave other)), fun n mem => none n mem _⟩

end Spared

/-! ### Turns -/

section Turns

variable {settings : Settings} {id : FiberId} {f : Fiber σ}

/-- Turns of so many steps do to a fiber that waits only what others do, if its numbers are not
    those of the fiber that has the turn, and afterwards they are not either. -/
def TurnsSpare (settings : Settings) (id : FiberId) (f : Fiber σ) (fuel : Nat) : Prop :=
  ∀ {path} {g : Fiber σ} {k r k'}, turn settings fuel path g k = (r, k') → f.Watched id k →
    (∀ n ∈ path, f.Foreign id k n) → (∀ n ∈ g.numbers, f.Foreign id k n) →
    f.Spared id k k' ∧ ∀ g', r = .waiting g' → ∀ n ∈ g'.numbers, f.Foreign id k' n

/-- So do the turns of fibers side by side. -/
def EachSpare (settings : Settings) (id : FiberId) (f : Fiber σ) (fuel : Nat) : Prop :=
  ∀ {path join} {children : List (FiberId × Nat × Fiber σ)} {waiting gaveWay count k r k'},
    turnEach settings fuel path join children waiting gaveWay count k = (r, k') →
    f.Watched id k → (∀ n ∈ path, f.Foreign id k n) →
    (∀ n ∈ numbersEach children, f.Foreign id k n) →
    f.Spared id k k' ∧ ∀ join' children', r = .waiting join' children' →
      ∀ n ∈ numbersEach children', f.Foreign id k' n

/-- A turn goes on after something that others do. -/
theorem TurnsSpare.after {fuel : Nat} (one : TurnsSpare settings id f fuel) {path : Path}
    {g : Fiber σ} {k k₁ k' : Kernel σ} {r : Turn σ} (first : f.Spared id k k₁)
    (turned : turn settings fuel path g k₁ = (r, k')) (watched : f.Watched id k)
    (foreign : ∀ n ∈ path, f.Foreign id k n) (numbers : ∀ n ∈ g.numbers, f.Foreign id k₁ n) :
    f.Spared id k k' ∧ ∀ g', r = .waiting g' → ∀ n ∈ g'.numbers, f.Foreign id k' n := by
  have rest := one turned (first.watched watched)
    (fun n mem => (foreign n mem).mono first.fresh) numbers
  exact ⟨first.trans rest.1, rest.2⟩

/-- A machine that has the turn takes a step, or gets what it asks for. -/
theorem TurnsSpare.ready {fuel : Nat} (one : TurnsSpare settings id f fuel)
    (async : settings.mode = .async) {path : Path} {m : Machine σ} {k k' : Kernel σ} {r : Turn σ}
    (turned : turn settings (fuel + 1) path (.ready m) k = (r, k')) (watched : f.Watched id k)
    (foreign : ∀ n ∈ path, f.Foreign id k n) :
    f.Spared id k k' ∧ ∀ g', r = .waiting g' → ∀ n ∈ g'.numbers, f.Foreign id k' n := by
  rw [turn] at turned
  have clock := step_clock async m k.world
  revert clock
  -- The step itself touches the world only; then the fiber goes on, ends, or is granted what it
  -- asks for.
  rcases taken : m.step settings k.world with ⟨m' | x | ⟨request, point⟩, w⟩
  all_goals
    intro clock
    have first : f.Spared id k { k with world := w } := spared_world clock
    simp only [taken] at turned
  · exact one.after first turned watched foreign fun n mem => by cases mem
  · cases turned
    exact ⟨first, fun g' same => by cases same⟩
  · have granted := spared_grant (first.watched watched)
      (fun n mem => (foreign n mem).mono first.fresh) request point
    cases request with
    | giveWay focus =>
        cases turned
        refine ⟨first.trans granted.1, fun g' same => ?_⟩
        cases same
        exact granted.2
    | _ => exact one.after (first.trans granted.1) turned watched foreign granted.2

/-- Fibers side by side have their turns one after the other. -/
theorem EachSpare.succ {fuel : Nat} (one : TurnsSpare settings id f fuel)
    (each : EachSpare settings id f fuel) : EachSpare settings id f (fuel + 1) := by
  intro path join children waiting gaveWay count k r k' turned watched foreign numbered
  rw [turnEach] at turned
  rcases next : k.firstWoken? children with _ | ⟨i, position, child⟩
  · simp only [next] at turned
    split at turned
    · cases turned
      exact ⟨.refl id f k, fun _ _ same => by cases same⟩
    · cases turned
      exact ⟨.refl id f k, fun _ _ same => by cases same; exact numbered⟩
  · simp only [next] at turned
    -- The child that has its turn and all its numbers are among the numbers of the children, which
    -- are foreign.
    have own := mem_numbersEach_of_find? (find?_of_firstWoken? next)
    have begun : f.Spared id k (k.unwake i) := spared_unwake (numbered i own.1).ne
    rcases inside : turn settings fuel (i :: path) child (k.unwake i) with ⟨x | child₁ | _, k₁⟩
    all_goals
      simp only [inside] at turned
      have first := one.after begun inside watched
        (fun n mem => (List.mem_cons.1 mem).elim (fun same => same ▸ numbered i own.1) (foreign n))
        (fun n mem => (numbered n (own.2 n mem)).mono begun.fresh)
      have path' : ∀ n ∈ path, f.Foreign id k₁ n := fun n mem => (foreign n mem).mono first.1.fresh
    · have others : ∀ n ∈ numbersEach (withoutChild i children), f.Foreign id k₁ n :=
        fun n mem => (numbered n (mem_numbersEach_withoutChild mem)).mono first.1.fresh
      rcases absorbed : join.absorb position x with y | join₁
      all_goals simp only [absorbed] at turned
      · cases turned
        exact ⟨first.1.trans (spared_leaveAll fun h mem =>
          (others h (handlesEach_subset_numbers _ mem)).not_mem), fun _ _ same => by cases same⟩
      · have rest := each turned (first.1.watched watched) path' others
        exact ⟨first.1.trans rest.1, rest.2⟩
    · have all : ∀ n ∈ numbersEach (withChild i child₁ children), f.Foreign id k₁ n :=
        fun n mem => (mem_numbersEach_withChild mem).elim
          (fun old => (numbered n old).mono first.1.fresh) (first.2 _ rfl n)
      generalize (if k₁.isWoken i = true then gaveWay + 1 else gaveWay) = gave at turned
      split at turned
      · cases turned
        have woken : f.Spared id k₁ (k₁.wake path) := spared_wake fun c mem own =>
          absurd own (foreign c mem).not_mem
        exact ⟨first.1.trans woken, fun _ _ same n mem => by
          cases same
          exact (all n mem).mono woken.fresh⟩
      · have rest := each turned (first.1.watched watched) path' all
        exact ⟨first.1.trans rest.1, rest.2⟩
    · cases turned
      exact ⟨first.1, fun _ _ same => by cases same⟩

/-- Somebody who holds a handle gets the answer, or is listed as the one who waits for it. -/
theorem TurnsSpare.listening {fuel : Nat} (one : TurnsSpare settings id f fuel) {path : Path}
    {handle : Handle} {point : Suspension σ} {k k' : Kernel σ} {r : Turn σ}
    (turned : turn settings (fuel + 1) path (.listening handle point) k = (r, k'))
    (watched : f.Watched id k) (foreign : ∀ n ∈ path, f.Foreign id k n)
    (other : f.Foreign id k handle) :
    f.Spared id k k' ∧ ∀ g', r = .waiting g' → ∀ n ∈ g'.numbers, f.Foreign id k' n := by
  rw [turn] at turned
  rcases found : k.collect? handle with _ | ⟨focus, k₁⟩
  · simp only [found] at turned
    cases turned
    -- Looking at the handle leaves its own path there as the waiter, which is foreign.
    have looked : f.Spared id k (k.setSlot handle (.waiting path)) :=
      spared_setSlot (fun own => absurd own other.not_mem) fun q same => by
        cases same
        exact foreign
    refine ⟨looked, fun g' same n mem => ?_⟩
    cases same
    cases List.mem_singleton.1 mem
    exact other.mono looked.fresh
  · simp only [found] at turned
    exact one.after (spared_collect? other.not_mem found) turned watched foreign fun n mem => by
      cases mem

/-- A fiber with a time limit has its turn, or what it holds is let go of when the time is up. -/
theorem TurnsSpare.limited {fuel : Nat} (one : TurnsSpare settings id f fuel) {path : Path}
    {limit : Duration} {deadline : Nat} {inner : Fiber σ} {point : Suspension σ}
    {k k' : Kernel σ} {r : Turn σ}
    (turned : turn settings (fuel + 1) path (.limited limit deadline inner point) k = (r, k'))
    (watched : f.Watched id k) (foreign : ∀ n ∈ path, f.Foreign id k n)
    (numbered : ∀ n ∈ inner.numbers, f.Foreign id k n) :
    f.Spared id k k' ∧ ∀ g', r = .waiting g' → ∀ n ∈ g'.numbers, f.Foreign id k' n := by
  have none : ∀ {m : Machine σ} (k : Kernel σ), ∀ n ∈ (Fiber.ready m).numbers,
      f.Foreign id k n := fun k n mem => by cases mem
  rw [turn] at turned
  rcases inside : turn settings fuel path inner k with ⟨x | inner₁ | _, k₁⟩
  all_goals
    simp only [inside] at turned
    have first := one inside watched foreign numbered
  · exact one.after first.1 turned watched foreign (none _)
  · split at turned
    -- Past the deadline the inner fiber leaves its handles, all of them foreign.
    · have left : f.Spared id k₁ ((k₁.leaveAll inner₁.handles).report (.timedOut limit)) :=
        (spared_leaveAll fun h mem => (first.2 _ rfl h
          (handles_subset_numbers inner₁ mem)).not_mem).trans (spared_report _)
      exact one.after (first.1.trans left) turned watched foreign (none _)
    · cases turned
      refine ⟨first.1, fun g' same => ?_⟩
      cases same
      rw [numbers]
      exact first.2 _ rfl
  · cases turned
    exact ⟨first.1, fun g' same => by cases same⟩

/-- Fibers side by side have their turns, and the one that waits for them goes on when they have
    ended. -/
theorem TurnsSpare.joining {fuel : Nat} (one : TurnsSpare settings id f fuel)
    (each : EachSpare settings id f fuel) {path : Path} {join : Join}
    {children : List (FiberId × Nat × Fiber σ)} {point : Suspension σ}
    {k k' : Kernel σ} {r : Turn σ}
    (turned : turn settings (fuel + 1) path (.joining join children point) k = (r, k'))
    (watched : f.Watched id k) (foreign : ∀ n ∈ path, f.Foreign id k n)
    (numbered : ∀ n ∈ numbersEach children, f.Foreign id k n) :
    f.Spared id k k' ∧ ∀ g', r = .waiting g' → ∀ n ∈ g'.numbers, f.Foreign id k' n := by
  rw [turn] at turned
  -- The children's turns are covered by `EachSpare`; what is left is the join itself.
  rcases inside : turnEach settings fuel path join children 0 0 children.length k with
    ⟨x | ⟨join₁, children₁⟩ | _, k₁⟩
  all_goals
    simp only [inside] at turned
    have first := each inside watched foreign numbered
  · exact one.after first.1 turned watched foreign fun n mem => by cases mem
  · cases turned
    refine ⟨first.1, fun g' same => ?_⟩
    cases same
    rw [numbers]
    exact first.2 _ _ rfl
  · cases turned
    exact ⟨first.1, fun g' same => by cases same⟩

/-- The induction is on the number of steps that a turn may take, which a fiber shares with the
    fibers inside it. -/
theorem turns_spare (async : settings.mode = .async) (fuel : Nat) :
    TurnsSpare settings id f fuel ∧ EachSpare settings id f fuel := by
  -- A fiber and its children call each other, so both statements are proved at once, by the fuel.
  induction fuel with
  | zero =>
      refine ⟨fun turned _ _ _ => ?_, fun turned _ _ _ => ?_⟩
      · cases turned
        exact ⟨.refl id f _, fun g' same => by cases same⟩
      · cases turned
        exact ⟨.refl id f _, fun _ _ same => by cases same⟩
  | succ fuel ih =>
      rcases ih with ⟨one, each⟩
      refine ⟨fun {path g k r k'} turned watched foreign numbered => ?_, EachSpare.succ one each⟩
      cases g with
      | ready m => exact one.ready async turned watched foreign
      | asleep wake m =>
          rw [turn] at turned
          split at turned
          next come => exact one turned watched foreign fun n mem => by cases mem
          next early =>
            cases turned
            exact ⟨.refl id f k, fun g' same => by cases same; exact numbered⟩
      | yielded m =>
          rw [turn] at turned
          exact one turned watched foreign fun n mem => by cases mem
      | listening handle point =>
          rw [numbers] at numbered
          exact one.listening turned watched foreign
            (numbered handle (List.mem_singleton_self _))
      | limited limit deadline inner point =>
          rw [numbers] at numbered
          exact one.limited turned watched foreign numbered
      | joining join children point =>
          rw [numbers] at numbered
          exact one.joining each turned watched foreign numbered

end Turns

end Fiber

end EffectKernel
