import EffectKernel.Proofs.RelyGuarantee

/-!
# The Caller's Fiber

Somebody runs a fiber to its end where nobody else runs. There is nothing then but the fiber and
what belongs to it. The fiber and its errands have their turns as they come up, and when none of
them waits for a turn the clock goes to the next point in time at which one of them has to be
woken. Whoever observes that may do to the state of the program what the fiber's contract allows.

So a fiber that attains its aim wherever it is gets there when it is alone: each round is a turn
of its own at least, or brings one about by moving the clock.

## Main definitions

* `FiberPlace.Alone`: There is nothing but a fiber.
* `FiberPlace.later`: The clock has gone to a point in time.
* `Kernel.rest`: What is left of a round when the fiber has been looked at.
* `FiberPlace.Ends`: The aim of a fiber is to end.

## Theorems

* `FiberPlace.Alone.advance`: The clock goes to the next point in time.
* `FiberPlace.arrives`: A fiber that is alone gets to its end.
* `Effect.ComesTo.runExit`: What an effect comes to when it is run alone.
-/

namespace EffectKernel

variable {σ : Type}

namespace Fiber

mutual
/-- When the point in time has come at which a fiber has to be woken, somebody is. -/
theorem dueAt_ne_nil {now time : Nat} {path : Path} (come : time ≤ now) :
    (fiber : Fiber σ) → fiber.nextWake = some time → fiber.dueAt now path ≠ []
  | .ready _, h => by cases h
  | .asleep wake m, h => by
      cases h
      unfold dueAt
      rw [if_pos come]
      exact List.cons_ne_nil _ _
  | .yielded _, h => by cases h
  | .listening _ _, h => by cases h
  | .limited _ deadline inner _, h => by
      unfold nextWake at h
      unfold dueAt
      -- The nearer of two wake-ups is one of the two: the child's, which is due in it, or the
      -- deadline itself.
      rcases earlier_eq_some h with h | h
      · exact List.append_ne_nil_of_left_ne_nil (dueAt_ne_nil come inner h) _
      · cases h
        rw [if_pos come]
        exact List.append_ne_nil_of_right_ne_nil _ (List.cons_ne_nil _ _)
  | .joining _ children _, h => by
      unfold nextWake at h
      unfold dueAt
      exact dueAtEach_ne_nil come children h

/-- The same for fibers side by side. -/
theorem dueAtEach_ne_nil {now time : Nat} {path : Path} (come : time ≤ now) :
    (children : List (FiberId × Nat × Fiber σ)) → nextWakeEach children = some time →
      dueAtEach now path children ≠ []
  | [], h => by cases h
  | (i, _, child) :: rest, h => by
      unfold nextWakeEach at h
      unfold dueAtEach
      rcases earlier_eq_some h with h | h
      · exact List.append_ne_nil_of_left_ne_nil (dueAt_ne_nil come child h) _
      · exact List.append_ne_nil_of_right_ne_nil _ (dueAtEach_ne_nil come rest h)
end

end Fiber

/-- The earliest of some points in time is one of them. -/
theorem foldl_earlier_eq_some {α : Type} {wake : α → Option Nat} {items : List α}
    {first : Option Nat} {time : Nat}
    (h : items.foldl (fun next a => earlier next (wake a)) first = some time) :
    first = some time ∨ ∃ a ∈ items, wake a = some time := by
  induction items generalizing first with
  | nil => exact .inl h
  | cons a rest ih =>
      rcases ih h with h | ⟨b, hb, h⟩
      · rcases earlier_eq_some h with h | h
        · exact .inl h
        · exact .inr ⟨a, List.mem_cons_self, h⟩
      · exact .inr ⟨b, List.mem_cons_of_mem _ hb, h⟩

/-- The earliest of some points in time is no later than any of them. -/
theorem foldl_earlier_le {α : Type} {wake : α → Option Nat} {items : List α}
    {first : Option Nat} {time : Nat}
    (h : first = some time ∨ ∃ a ∈ items, wake a = some time) :
    ∃ least, items.foldl (fun next a => earlier next (wake a)) first = some least ∧
      least ≤ time := by
  induction items generalizing first time with
  | nil =>
      rcases h with h | ⟨a, ha, -⟩
      · exact ⟨time, h, Nat.le_refl _⟩
      · cases ha
  | cons a rest ih =>
      rw [List.foldl_cons]
      -- Whatever wakes first is in front of the rest now: what was there already, or the head.
      have now : (first = some time ∨ wake a = some time) ∨ ∃ b ∈ rest, wake b = some time := by
        rcases h with h | ⟨b, hb, h⟩
        · exact .inl (.inl h)
        · rcases List.mem_cons.1 hb with rfl | hb
          · exact .inl (.inr h)
          · exact .inr ⟨b, hb, h⟩
      rcases now with now | later
      · rcases earlier_le now with ⟨s, hs, hle⟩
        rcases ih (.inl hs) with ⟨least, hleast, hle'⟩
        exact ⟨least, hleast, Nat.le_trans hle' hle⟩
      · exact ih (.inr later)

/-- There is nothing but a fiber and what belongs to it. -/
structure FiberPlace.Alone (p : FiberPlace σ) (mine : Nat → Bool) (k : Kernel σ) : Prop where
  /-- The fiber has its place. -/
  valid : p.Valid k
  /-- There is nobody around it. -/
  around : p.around = []
  /-- All tasks belong to it. -/
  tasks : ∀ task ∈ k.tasks, mine task.id = true
  /-- What belongs to it has been given out. -/
  given : ∀ h, mine h = true → h < k.fresh

/-- The clock has gone to a point in time, those of a fiber whose time has come have been woken, and
    the state of the program may have changed. -/
def FiberPlace.later (p : FiberPlace σ) (mine : Nat → Bool) (f : Fiber σ) (k : Kernel σ) (store : σ)
    (time : Nat) : Kernel σ :=
  { k with
    world := { k.world with store := store, clock := time }
    woken := enqueueAll [] (p.dues mine (some f) k time) }

/-- The aim of a fiber is to end with an outcome at a point in time, and to leave nothing but
    errands. -/
def FiberPlace.Ends (p : FiberPlace σ) (aim : Aim σ) (time : Nat) (x : Outcome) : Prop :=
  ∀ {m mine f k}, aim.reached p (p.Attains aim m) mine f k →
    ∃ mine' k', f.Turns p.settings p.path k (.ended x) k' ∧ p.Behaves mine mine' k k' ∧
      k'.now = time ∧ ∀ task ∈ k'.tasksOf mine', task.work.IsErrand

namespace FiberPlace.Alone

variable {p : FiberPlace σ} {mine mine' : Nat → Bool} {k k' : Kernel σ} {f : Fiber σ}

/-- There is nobody around a fiber that is alone. -/
theorem path (alone : p.Alone mine k) : p.path = [p.id] := by
  rw [FiberPlace.path, alone.around]

/-- All tasks belong to a fiber that is alone. -/
theorem tasksOf (alone : p.Alone mine k) : k.tasksOf mine = k.tasks :=
  List.filter_eq_self.2 alone.tasks

/-- There is nothing but a fiber after what it does. -/
theorem behaves (alone : p.Alone mine k) (behaves : p.Behaves mine mine' k k') :
    p.Alone mine' k' := by
  -- Numbers only become more, so what was given out before stays given out.
  refine ⟨⟨alone.valid.apart, fun id hid => Nat.lt_of_lt_of_le (alone.valid.path id hid)
    behaves.fresh, behaves.accounted alone.valid.path alone.valid.accounted⟩, alone.around,
    fun task htask => ?_, fun h hmine => ?_⟩
  · cases hmine : mine' task.id with
    | true => rfl
    | false =>
        -- A task that is not of the fiber was there before its turn, and then it had to be of the
        -- fiber.
        have : task ∈ k'.tasks.filter fun task => !mine' task.id :=
          List.mem_filter.2 ⟨htask, by rw [hmine]; rfl⟩
        rw [behaves.tasks] at this
        have old := behaves.grows _ (alone.tasks task (List.mem_filter.1 this).1)
        rw [hmine] at old
        cases old
  · cases hbefore : mine h with
    | true => exact Nat.lt_of_lt_of_le (alone.given h hbefore) behaves.fresh
    | false => exact (behaves.new h hmine hbefore).2

/-- A fiber that is alone has its turn alone. -/
theorem unwake (alone : p.Alone mine k) : p.Alone mine (k.unwake p.id) :=
  alone.behaves (FiberPlace.behaves_unwake (FiberPlace.owns_id _) alone.valid.apart k)

/-- The next task is one of its errands. -/
theorem mem_of_nextTask? {task : Task σ} (alone : p.Alone mine k)
    (next : k.nextTask? = some task) : task ∈ k.tasksOf mine ∧ task.id ∈ k.woken := by
  rcases List.exists_of_findSome?_eq_some next with ⟨i, hi, hfound⟩
  have hid : task.id = i := by simpa using List.find?_some hfound
  subst hid
  rw [alone.tasksOf]
  exact ⟨List.mem_of_find?_eq_some hfound, hi⟩

/-- Nothing waits for a turn when nobody can run. -/
theorem quiet_of_not_busy (alone : p.Alone mine k)
    (idle : k.isBusy (.fiber p.settings p.id f) = false) : p.Quiet mine (some f) k := by
  unfold Kernel.isBusy at idle
  rcases Bool.or_eq_false_iff.1 idle with ⟨tasks, away⟩
  refine ⟨fun _ hwoken => ?_, fun task htask hwoken => ?_⟩
  · simp [Kernel.isWoken, hwoken] at away
  · rw [alone.tasksOf] at htask
    rw [Option.isSome_eq_false_iff, Option.isNone_iff_eq_none] at tasks
    have none := List.findSome?_eq_none_iff.1 tasks task.id hwoken
    have := List.find?_eq_none.1 none task htask
    simp at this

/-- The clock goes to a point in time. -/
theorem advance_eq (alone : p.Alone mine k) (observe : Nat → σ → σ) (f : Fiber σ) (time : Nat) :
    (k.modifyStore (observe k.now)).advance (.fiber p.settings p.id f) time =
      p.later mine f k (observe k.now k.world.store) time := by
  unfold Kernel.advance FiberPlace.later FiberPlace.dues
  rw [Kernel.foldl_wake_enqueue, alone.tasksOf, alone.path]
  simp [Kernel.modifyStore, Await.dueAt]

/-- The next point in time is the first at which something of the fiber has to be woken. -/
theorem wakes_of_nextWake {time : Nat} (alone : p.Alone mine k)
    (next : k.nextWake (.fiber p.settings p.id f) = some time) :
    FiberPlace.Wakes mine (some f) k time ∧ ∀ t, FiberPlace.Wakes mine (some f) k t → time ≤ t := by
  constructor
  · rcases foldl_earlier_eq_some next with h | ⟨task, htask, h⟩
    · exact .inl ⟨f, rfl, h⟩
    · exact .inr ⟨task, by rw [alone.tasksOf]; exact htask, h⟩
  -- The next wake-up is the least of all, so it is no later than the one at `t`.
  · intro t ht
    have least : ∃ least, k.nextWake (.fiber p.settings p.id f) = some least ∧ least ≤ t := by
      rcases ht with ⟨_, ⟨⟩, h⟩ | ⟨task, htask, h⟩
      · exact foldl_earlier_le (.inl h)
      · exact foldl_earlier_le (.inr ⟨task, (List.mem_filter.1 htask).1, h⟩)
    rcases least with ⟨least, hleast, hle⟩
    rw [next] at hleast
    cases hleast
    exact hle

/-- Who has to be woken has a number that has been given out. -/
theorem given_of_mem_dues {time i : Nat} (alone : p.Alone mine k)
    (tidy : FiberPlace.Tidy mine (some f) k) (hi : i ∈ p.dues mine (some f) k time) :
    i < k.fresh := by
  -- What is due is due in the fiber itself or in one of its errands.
  rcases List.mem_append.1 hi with hi | hi
  · rw [Option.toList_some, List.flatMap_singleton] at hi
    rcases Fiber.mem_dueAt f hi with hi | hi
    · exact alone.valid.path i hi
    · exact alone.given i (tidy.1 f rfl i hi)
  · rw [flatten_flatMap, List.mem_flatMap] at hi
    rcases hi with ⟨task, htask, hi⟩
    rcases Task.dueAt_errand (tidy.2 task htask) time with h | h
    · rw [h] at hi
      cases hi
    · rw [h, List.mem_singleton] at hi
      rw [hi]
      exact alone.given _ (List.mem_filter.1 htask).2

/-- When something of the fiber has to be woken, the fiber itself or an errand is. -/
theorem exists_mem_dues {time : Nat} (tidy : FiberPlace.Tidy mine (some f) k)
    (wakes : FiberPlace.Wakes mine (some f) k time) : p.id ∈ p.dues mine (some f) k time ∨
      ∃ task ∈ k.tasks, task.id ∈ p.dues mine (some f) k time := by
  rcases wakes with ⟨_, ⟨⟩, h⟩ | ⟨task, htask, h⟩
  · have due : f.dueAt time p.path ≠ [] := Fiber.dueAt_ne_nil (Nat.le_refl time) f h
    rcases List.exists_mem_of_ne_nil _ due with ⟨path, hpath⟩
    refine .inl (List.mem_append_left _ (List.mem_flatten.2 ⟨path, ?_, ?_⟩))
    · rw [Option.toList_some, List.flatMap_singleton]
      exact hpath
    · exact Fiber.subset_of_mem_dueAt f hpath List.mem_cons_self
  · refine .inr ⟨task, (List.mem_filter.1 htask).1, List.mem_append_right _ ?_⟩
    rw [flatten_flatMap, List.mem_flatMap]
    -- A task of the fiber is an errand, and one that wakes somebody is due with its own number.
    have errand := tidy.2 task htask
    refine ⟨task, htask, ?_⟩
    cases hwork : task.work with
    | run started settings fiber =>
        rw [hwork] at errand
        exact errand.elim
    | errand due handle act =>
        rw [hwork] at h
        cases h
        simp [Work.dueAt]

/-- The clock goes to the next point in time at which something of the fiber has to be woken, and
    something of it is. -/
theorem advance {store : σ} {time : Nat} (alone : p.Alone mine k)
    (tidy : FiberPlace.Tidy mine (some f) k) (quiet : p.Quiet mine (some f) k)
    (ahead : p.Ahead mine (some f) k) (rely : p.contract.rely k.world.store store)
    (next : k.nextWake (.fiber p.settings p.id f) = some time) :
    p.Meanwhile mine (some f) k (p.later mine f k store time) ∧
      (p.id ∈ (p.later mine f k store time).woken ∨
        ∃ task ∈ k.tasks, task.id ∈ (p.later mine f k store time).woken) ∧
      p.Alone mine (p.later mine f k store time) := by
  rcases alone.wakes_of_nextWake next with ⟨wakes, within⟩
  -- Only fibers with a wake-up are woken, and their numbers have been given out.
  have accounted : k.Accounted → (p.later mine f k store time).Accounted := fun h =>
    ⟨fun i hi => alone.given_of_mem_dues tidy ((mem_enqueueAll.1 hi).resolve_left List.not_mem_nil),
      h.tasks⟩
  refine ⟨⟨Nat.le_refl _, accounted, rely, fun _ _ => rfl, rfl,
    .inr ⟨ahead quiet time wakes, quiet, within, rfl⟩⟩, ?_,
    ⟨⟨alone.valid.apart, alone.valid.path, accounted alone.valid.accounted⟩, alone.around,
      alone.tasks,
      alone.given⟩⟩
  exact (exists_mem_dues tidy wakes).imp (fun h => mem_enqueueAll.2 (.inr h))
    fun ⟨task, htask, h⟩ => ⟨task, htask, mem_enqueueAll.2 (.inr h)⟩

end FiberPlace.Alone

namespace Kernel

/-- A fiber is numbered and put in the queue. -/
theorem draw_wakeOne (k : Kernel σ) : k.draw.2.wakeOne k.fresh =
    { k with woken := enqueue k.woken k.fresh, fresh := k.fresh + 1 } := by
  rw [wakeOne_enqueue]
  rfl

/-- A fiber with a new number that is woken stands in the queue. -/
theorem mem_woken_draw_wakeOne (k : Kernel σ) : k.fresh ∈ (k.draw.2.wakeOne k.fresh).woken := by
  rw [k.draw_wakeOne]
  exact mem_enqueue.2 (.inr rfl)

theorem world_draw_wakeOne (k : Kernel σ) : (k.draw.2.wakeOne k.fresh).world = k.world := by
  rw [k.draw_wakeOne]

/-- What is left of a round when the caller and a batch of tasks have been looked at. -/
def rest (observe : Nat → σ → σ) (fuel rounds : Nat) (await : Await σ) (k : Kernel σ) :
    Option (Option Outcome × Kernel σ) :=
  if k.isBusy await then k.drive observe fuel rounds await
  else
    match k.nextWake await with
    | none => none
    | some time =>
      ((k.modifyStore (observe k.now)).advance await time).drive observe fuel rounds await

/-- The caller has what it waits for in the end, if that is given enough steps and rounds, and
    nothing else has been done to the state of the program up to then than is allowed. -/
def Returns (guarantee : σ → σ → Prop) (store : σ)
    (attempt : Nat → Nat → Option (Option Outcome × Kernel σ)) (x : Outcome) (time : Nat) : Prop :=
  ∃ k', k'.now = time ∧ guarantee store k'.world.store ∧ (∀ task ∈ k'.tasks, task.work.IsErrand) ∧
    ∃ least, ∀ fuel rounds, least ≤ fuel → least ≤ rounds → attempt fuel rounds = some (some x, k')

variable {guarantee : σ → σ → Prop} {store store' : σ} {observe : Nat → σ → σ}
  {await await' : Await σ}
  {k k₁ : Kernel σ} {x : Outcome} {time n : Nat}
  {attempt : Nat → Nat → Option (Option Outcome × Kernel σ)}

/-- Something has been done to the state of the program before. -/
theorem Returns.since (later : Returns guarantee store' attempt x time)
    (trans : ∀ {a b c}, guarantee a b → guarantee b c → guarantee a c)
    (did : guarantee store store') :
    Returns guarantee store attempt x time := by
  rcases later with ⟨k', now, store, found⟩
  exact ⟨k', now, trans did store, found⟩

/-- One round is for looking at the caller, and the others are for what comes then. -/
theorem Returns.round (later : Returns guarantee store
    (fun fuel rounds => attempt fuel (rounds + 1)) x time) :
    Returns guarantee store attempt x time := by
  rcases later with ⟨k', now, did, errands, least, later⟩
  refine ⟨k', now, did, errands, least + 1, fun fuel rounds hfuel hrounds => ?_⟩
  rcases Nat.exists_eq_add_of_le' (Nat.le_trans (Nat.le_add_left 1 _) hrounds) with ⟨rounds, rfl⟩
  exact later fuel rounds (Nat.le_of_succ_le hfuel) (Nat.le_of_succ_le_succ hrounds)

/-- The caller still waits after it has been looked at, and then tasks have their turns. -/
theorem Returns.attend
    (attend : ∃ least, ∀ fuel, least ≤ fuel → k.attend fuel await = (.still await', k₁))
    (later : Returns guarantee store (fun fuel rounds => (k₁.runBatch fuel batchSize).bind
      (rest observe fuel rounds await')) x time) :
    Returns guarantee store (fun fuel rounds => k.drive observe fuel rounds await) x time := by
  rcases attend with ⟨least, attend⟩
  rcases later with ⟨k', now, did, errands, least', later⟩
  refine .round ⟨k', now, did, errands, max least least', fun fuel rounds hfuel hrounds => ?_⟩
  show k.drive observe fuel (rounds + 1) await = _
  rw [drive, attend fuel (by omega)]
  have := later fuel rounds (by omega) (by omega)
  -- The rest of the round runs a batch before anything else, so that it returns at all needs the
  -- batch to return.
  cases hbatch : k₁.runBatch fuel batchSize with
  | none =>
      simp only [hbatch] at this
      cases this
  | some k₂ =>
      simp only [hbatch] at this ⊢
      exact this

/-- A task has its turn. -/
theorem Returns.task {task : Task σ} (next : k.nextTask? = some task) (runs : k.Runs task k₁)
    (later : Returns guarantee store (fun fuel rounds => (k₁.runBatch fuel n).bind
      (rest observe fuel rounds await)) x time) :
    Returns guarantee store (fun fuel rounds => (k.runBatch fuel (n + 1)).bind
      (rest observe fuel rounds await)) x time := by
  rcases runs with ⟨least, runs⟩
  rcases later with ⟨k', now, did, errands, least', later⟩
  refine ⟨k', now, did, errands, max least least', fun fuel rounds hfuel hrounds => ?_⟩
  have := later fuel rounds (by omega) (by omega)
  show (k.runBatch fuel (n + 1)).bind _ = _
  unfold runBatch
  simp only [next, runs fuel (by omega)]
  exact this

end Kernel

namespace FiberPlace

variable {p : FiberPlace σ} {aim : Aim σ} {n time : Nat} {mine : Nat → Bool} {f : Fiber σ}
  {k : Kernel σ} {x : Outcome} {observe : Nat → σ → σ}

/-- A fiber that attains its aim in less than so many turns, and is alone, gets to its end from
    there. -/
def Arrives (p : FiberPlace σ) (aim : Aim σ) (observe : Nat → σ → σ) (n time : Nat) (x : Outcome) :
    Prop :=
  ∀ m < n, ∀ {j mine f k}, p.Attains aim m mine (some f) k → p.Alone mine k → k.now ≤ aim.horizon →
    Kernel.Returns p.contract.guarantee k.world.store (fun fuel rounds => (k.runBatch fuel j).bind
      (Kernel.rest observe fuel rounds (.fiber p.settings p.id f))) x time

/-- A fiber that is alone has its turn. -/
theorem AttainsInTurn.drive {m : Nat}
    (turn : p.AttainsInTurn aim (p.Attains aim m) mine f (k.unwake p.id))
    (less : m < n) (ends : p.Ends aim time x) (arrives : p.Arrives aim observe n time x)
    (alone : p.Alone mine k) (within : k.now ≤ aim.horizon) (own : p.id ∈ k.woken) :
    Kernel.Returns p.contract.guarantee k.world.store
      (fun fuel rounds => k.drive observe fuel rounds (.fiber p.settings p.id f)) x time := by
  have woken : k.isWoken p.id = true := by simpa [Kernel.isWoken] using own
  rcases turn with ⟨-, f', mine', k₁, ⟨least, turns⟩, behaves, attains'⟩ | reached
  · have later := arrives m less attains' (j := Kernel.batchSize) (alone.unwake.behaves behaves)
      (by rw [behaves.clock]; exact within)
    -- The round gives the fiber its turn, since it has been woken, and it is not done with it.
    have attend : ∃ least, ∀ fuel, least ≤ fuel →
        k.attend fuel (.fiber p.settings p.id f) = (.still (.fiber p.settings p.id f'), k₁) := by
      refine ⟨least, fun fuel hfuel => ?_⟩
      have := turns fuel hfuel
      rw [alone.path] at this
      simp only [Kernel.attend, woken, if_true, this]
    exact .attend attend (later.since p.contract.guarantee_trans behaves.store)
  -- The turn ends the fiber, and with it the run.
  · rcases ends reached with ⟨mine', k', ⟨least, turns⟩, behaves, now, errands⟩
    have alone' := alone.unwake.behaves behaves
    rw [alone'.tasksOf] at errands
    refine .round ⟨k', now, behaves.store, errands, least, fun fuel rounds hfuel _ => ?_⟩
    have := turns fuel hfuel
    rw [alone.path] at this
    show k.drive observe fuel (rounds + 1) _ = _
    rw [Kernel.drive]
    simp only [Kernel.attend, woken, if_true, this]

namespace Attains

/-- Something of a fiber that is alone waits for a turn, and whatever that is, the fiber gets to its
    end. -/
theorem drive (attains : p.Attains aim n mine (some f) k) (ends : p.Ends aim time x)
    (arrives : p.Arrives aim observe n time x) (alone : p.Alone mine k)
    (within : k.now ≤ aim.horizon)
    (busy : p.id ∈ k.woken ∨ ∃ task ∈ k.tasks, task.id ∈ k.woken) :
    Kernel.Returns p.contract.guarantee k.world.store
      (fun fuel rounds => k.drive observe fuel rounds (.fiber p.settings p.id f)) x time := by
  by_cases own : p.id ∈ k.woken
  · rcases attains.turn within own with ⟨m, less, turn⟩
    exact turn.drive less ends arrives alone within own
  · -- The fiber itself does not wait for a turn, so an errand does.
    rcases busy.resolve_left own with ⟨task, htask, hwoken⟩
    have woken : k.isWoken p.id = false := by simpa [Kernel.isWoken] using own
    have attend : ∀ fuel,
        k.attend fuel (.fiber p.settings p.id f) = (.still (.fiber p.settings p.id f), k) :=
      fun fuel => by
        simp only [Kernel.attend, woken]
        rfl
    refine .attend ⟨0, fun fuel _ => attend fuel⟩ ?_
    cases hnext : k.nextTask? with
    | none =>
        have none := List.findSome?_eq_none_iff.1 hnext task.id hwoken
        have := List.find?_eq_none.1 none task htask
        simp at this
    | some first =>
        rcases alone.mem_of_nextTask? hnext with ⟨mem, hi⟩
        rcases attains.errand within mem hi with ⟨m, less, mine', k', runs, behaves, attains'⟩
        have later := arrives m less attains' (j := 60) (alone.behaves behaves)
          (by rw [behaves.clock]; exact within)
        exact .task (n := 60) hnext runs (later.since p.contract.guarantee_trans behaves.store)

/-- A fiber that is alone gets to its end. If nobody can run, the clock goes to the next point in
    time at which something of the fiber has to be woken, and then somebody can. -/
theorem rest (attains : p.Attains aim n mine (some f) k) (ends : p.Ends aim time x)
    (due : aim.due = some time) (soon : time ≤ aim.horizon)
    (observes : ∀ now s, p.contract.rely s (observe now s) ∧ p.contract.guarantee s (observe now s))
    (arrives : p.Arrives aim observe n time x) (alone : p.Alone mine k)
    (within : k.now ≤ aim.horizon) :
    Kernel.Returns p.contract.guarantee k.world.store
      (fun fuel rounds => Kernel.rest observe fuel rounds (.fiber p.settings p.id f) k) x time := by
  cases busy : k.isBusy (.fiber p.settings p.id f) with
  | true =>
      simp only [Kernel.rest, busy, if_true]
      refine attains.drive ends arrives alone within ?_
      -- Busy: an errand or the fiber itself waits for a turn, so another round begins at once.
      rcases Bool.or_eq_true_iff.1 busy with h | h
      · rcases Option.isSome_iff_exists.1 h with ⟨first, hnext⟩
        rcases alone.mem_of_nextTask? hnext with ⟨mem, woken⟩
        exact .inr ⟨first, (List.mem_filter.1 mem).1, woken⟩
      · exact .inl (by simpa [Kernel.isWoken] using h)
  | false =>
      -- Nothing waits, so the clock moves on to the next wake-up, which is no later than the end.
      have quiet := alone.quiet_of_not_busy busy
      rcases (attains.onTime within time due).2 quiet soon with ⟨wake, hwake, hle⟩
      have least : ∃ least, k.nextWake (.fiber p.settings p.id f) = some least ∧ least ≤ wake := by
        rcases hwake with ⟨_, ⟨⟩, h⟩ | ⟨task, htask, h⟩
        · exact foldl_earlier_le (.inl h)
        · exact foldl_earlier_le (.inr ⟨task, (List.mem_filter.1 htask).1, h⟩)
      rcases least with ⟨least, next, hle'⟩
      rcases alone.advance attains.tidy quiet (attains.ahead within) (observes k.now _).1 next
        with
        ⟨meanwhile, woken, alone'⟩
      have came := (attains.meanwhile meanwhile).drive ends arrives alone'
        (Nat.le_trans hle' (Nat.le_trans hle soon)) woken
      simp only [Kernel.rest, busy, next, alone.advance_eq]
      exact came.since p.contract.guarantee_trans (observes k.now _).2

end Attains

/-- A fiber that is alone gets to its end. The induction is on how many turns it has. -/
theorem arrives (ends : p.Ends aim time x) (due : aim.due = some time)
    (soon : time ≤ aim.horizon)
    (observes : ∀ now s, p.contract.rely s (observe now s) ∧
      p.contract.guarantee s (observe now s)) :
    p.Arrives aim observe n time x := by
  -- Every turn makes the measure of what is left less, and between two turns at most a batch of
  -- errands runs.
  induction n using Nat.strongRecOn with
  | ind n ih =>
      intro m less j mine f k attains alone within
      have arrives := ih m less
      cases hnext : k.nextTask? with
      | some first =>
          cases j with
          -- The batch is used up; what is still waiting is left to the next round.
          | zero => exact attains.rest ends due soon observes arrives alone within
          | succ j =>
              rcases alone.mem_of_nextTask? hnext with ⟨mem, woken⟩
              rcases attains.errand within mem woken with
                ⟨m', less', mine', k', runs, behaves, attains'⟩
              have later := arrives m' less' attains' (j := j) (alone.behaves behaves)
                (by rw [behaves.clock]; exact within)
              exact .task hnext runs (later.since p.contract.guarantee_trans behaves.store)
      | none =>
          have batch : ∀ fuel, k.runBatch fuel j = some k := fun fuel => by
            cases j with
            | zero => rfl
            | succ j => simp only [Kernel.runBatch, hnext]
          simp only [batch]
          exact attains.rest ends due soon observes arrives alone within

/-- A fiber is begun where there is nothing. -/
theorem alone_start {k : Kernel σ} (numbered : k.Numbered) (tasks : k.tasks = [])
    (settings : Settings) (contract : StoreContract σ) :
    FiberPlace.Alone ⟨settings, k.fresh, [], contract⟩ (fun _ => false)
      (k.draw.2.wakeOne k.fresh) := by
  rw [k.draw_wakeOne]
  refine ⟨⟨List.not_mem_nil, fun id hid => ?_, fun id hid => ?_, fun task htask => ?_⟩, rfl,
    fun task htask => ?_, nofun⟩
  · rw [List.mem_singleton.1 hid]
    exact Nat.lt_succ_self _
  · rcases mem_enqueue.1 hid with hid | rfl
    · exact Nat.lt_succ_of_lt (numbered id hid)
    · exact Nat.lt_succ_self _
  · rw [tasks] at htask
    cases htask
  · rw [tasks] at htask
    cases htask

end FiberPlace

namespace Kernel

variable {observe : Nat → σ → σ} {settings : Settings} {guarantee : σ → σ → Prop}
  {effect : Effect σ}
  {env : Context} {k : Kernel σ} {time : Nat} {x : Outcome}

/-- An effect that is run in a fiber of the caller's own ends with an outcome at a point in time, if
    it is given enough steps and rounds. Up to then nothing else has been done to the state of the
    program than is allowed, and nothing but errands is left that could do anything later. -/
def Exits (observe : Nat → σ → σ) (settings : Settings) (guarantee : σ → σ → Prop)
    (effect : Effect σ)
    (env : Context) (k : Kernel σ) (time : Nat) (x : Outcome) : Prop :=
  ∃ k', k'.now = time ∧ guarantee k.world.store k'.world.store ∧
    (∀ task ∈ k'.tasks, task.work.IsErrand) ∧
    ∃ least, ∀ fuel, least ≤ fuel → k.runExit observe fuel settings effect env = some (x, k')

/-- The caller is given its number and put in the queue before it is looked at. -/
theorem Returns.exits
    (comes : Returns guarantee k.world.store
      (fun fuel rounds => (k.draw.2.wakeOne k.fresh).drive observe
      fuel rounds (.fiber settings k.fresh (.ready (.start effect env)))) x time) :
    k.Exits observe settings guarantee effect env time x := by
  rcases comes with ⟨k', now, did, errands, least, comes⟩
  refine ⟨k', now, did, errands, least, fun fuel hfuel => ?_⟩
  have := comes fuel fuel hfuel hfuel
  simp only [runExit, draw] at this ⊢
  rw [this]

end Kernel

namespace Effect

variable {settings : Settings} {contract : StoreContract σ} {env : Context} {now horizon time : Nat}
  {effect : Effect σ} {x : Outcome} {k : Kernel σ} {observe : Nat → σ → σ}

/-- An effect that goes as a timing says wherever it is, goes so when it is run alone. -/
theorem Takes.runExit {timing : Timing}
    (takes : effect.Takes settings contract env k.world.store k.now horizon timing)
    (ends : timing.ends = some (time, x)) (within : k.now ≤ horizon) (soon : time ≤ horizon)
    (observes : ∀ now s, contract.rely s (observe now s) ∧ contract.guarantee s (observe now s))
    (numbered : k.Numbered) (tasks : k.tasks = []) :
    k.Exits observe settings contract.guarantee effect env time x := by
  let p : FiberPlace σ := ⟨settings, k.fresh, [], contract⟩
  have ends' : p.Ends (timing.aim horizon) time x := by
    rintro m mine f k ⟨x', mine', k', turns, behaves, hends, rest⟩
    rw [ends] at hends
    cases hends
    exact ⟨mine', k', turns, behaves, rfl, fun task htask => rest.tidy.2 task htask⟩
  have alone := FiberPlace.alone_start numbered tasks settings contract
  rcases takes with ⟨n, takes⟩
  have due : (timing.aim horizon : Aim σ).due = some time := by simp [Timing.aim, ends]
  have woken := k.mem_woken_draw_wakeOne
  have same := k.world_draw_wakeOne
  -- The first turn is due at once, at the clock and with the store the run begins with.
  have attains := takes k.fresh [] (k.draw.2.wakeOne k.fresh) alone.valid woken (by rw [same])
    (congrArg World.clock same)
  have came := attains.drive ends' (FiberPlace.arrives ends' due soon observes) alone
    (Nat.le_trans (Nat.le_of_eq (congrArg World.clock same)) within) (.inl woken)
  rw [same] at came
  exact came.exits

/-- What an effect comes to wherever it is, it comes to when it is run alone. -/
theorem ComesTo.runExit
    (comes : effect.ComesTo settings contract env k.world.store k.now horizon (some (time, x)))
    (within : k.now ≤ horizon) (soon : time ≤ horizon)
    (observes : ∀ now s, contract.rely s (observe now s) ∧ contract.guarantee s (observe now s))
    (numbered : k.Numbered) (tasks : k.tasks = []) :
    k.Exits observe settings contract.guarantee effect env time x := by
  let p : FiberPlace σ := ⟨settings, k.fresh, [], contract⟩
  have ends : p.Ends (.onward (some (time, x)) ⟨[], env, []⟩ horizon) time x := by
    rintro m mine f k ⟨x', mine', k', result, behaves, errands, continues⟩
    cases result
    exact ⟨mine', k', continues.turns (Fiber.turns_done _ _), behaves, rfl, errands⟩
  have alone := FiberPlace.alone_start numbered tasks settings contract
  rcases comes with ⟨n, comes⟩
  have woken := k.mem_woken_draw_wakeOne
  have same := k.world_draw_wakeOne
  -- `ComesTo` speaks of the turn that begins the effect, which is the first one here.
  have turn := comes k.fresh [] ⟨[], env, []⟩ ((k.draw.2.wakeOne k.fresh).unwake k.fresh)
    alone.unwake.valid rfl (congrArg World.store same) (congrArg World.clock same)
  have came := turn.drive (Nat.lt_succ_self n) ends
    (FiberPlace.arrives ends rfl soon observes) alone
    (Nat.le_trans (Nat.le_of_eq (congrArg World.clock same)) within) woken
  rw [same] at came
  exact came.exits

end Effect

end EffectKernel
