import EffectKernel.Proofs.CompletionOrder
import Mathlib.Algebra.GroupWithZero.Nat

/-!
# Child Fibers

Fibers that run side by side inside another fiber, each of them with a place of its own. To the
fiber around them, the whole, belongs all that belongs to them, and their numbers besides.

What happens between the turns of the whole happens between the turns of each of them, and what
one of them does in its turn happens between the turns of the others. So each of them goes as it
would go anywhere, as long as they leave each other alone. What the whole does is what they do.

A child that has not begun waits for its turn in the queue, and those who have not begun stand
there in order. About some of the children nothing may be known; they never begin.

## Main definitions

* `Child`, `FiberGroup`: Fibers side by side, and those that have ended.
* `FiberGroup.running`: The fibers that have not ended.
* `FiberGroup.after`: A group after something has happened to one of its members.
* `GroupSpec`: How the members go, and that they leave each other alone.
* `GroupSpec.Underway`: All members are on their way.
* `GroupSpec.WholeWoken`: A member in the queue has the whole in the queue with it.

## Theorems

* `GroupSpec.Underway.after`: One of them does something.
* `GroupSpec.Underway.meanwhile`: Others do something, or time goes by.
-/

namespace EffectKernel

variable {σ : Type}

/-- Only one item of a list has anything to give. -/
theorem flatMap_eq_of_mem {α β : Type} {items : List α} {a : α} {f : α → List β}
    (nodup : items.Nodup) (mem : a ∈ items) (none : ∀ b ∈ items, b ≠ a → f b = []) :
    items.flatMap f = f a := by
  induction items with
  | nil => cases mem
  | cons b rest ih =>
      rcases List.nodup_cons.1 nodup with ⟨hb, nodup⟩
      rw [List.flatMap_cons]
      -- The element is the head, and all others give nothing, or it is further back and the head
      -- does.
      rcases List.mem_cons.1 mem with rfl | mem
      · have : rest.flatMap f = [] := List.flatMap_eq_nil_iff.2 fun c hc =>
          none c (List.mem_cons_of_mem _ hc) fun h => hb (h ▸ hc)
        rw [this, List.append_nil]
      · rw [none b List.mem_cons_self fun h => hb (h ▸ mem),
          ih nodup mem fun c hc => none c (List.mem_cons_of_mem _ hc)]
        rfl

/-- What some of the items give. -/
theorem flatMap_filter {α β : Type} (items : List α) (p : α → Bool) (f : α → List β) :
    (items.filter p).flatMap f = items.flatMap fun a => if p a = true then f a else [] := by
  induction items with
  | nil => rfl
  | cons a rest ih =>
      by_cases hp : p a = true
      · rw [List.filter_cons_of_pos hp, List.flatMap_cons, List.flatMap_cons, if_pos hp, ih]
      · rw [List.filter_cons_of_neg hp, List.flatMap_cons, if_neg hp, ih]
        rfl

/-- A fiber side by side with others, and what belongs to it. -/
structure Child (σ : Type) where
  /-- Its number. -/
  id : FiberId
  /-- Its position. -/
  position : Nat
  /-- The fiber itself, until it has ended. -/
  fiber : Option (Fiber σ)
  /-- The numbers that belong to it. -/
  mine : Nat → Bool
  /-- It has less than so many turns still to come. -/
  turns : Nat
  /-- Whether it has had a turn. -/
  begun : Bool

namespace Child

/-- The numbers that have to do with a child. -/
def owns (c : Child σ) (h : Nat) : Bool :=
  h == c.id || c.mine h

/-- A child after something may have happened to it. -/
def after (id : FiberId) (fiber : Option (Fiber σ)) (mine : Nat → Bool) (turns : Nat)
    (c : Child σ) : Child σ :=
  if c.id = id then { c with fiber := fiber, mine := mine, turns := turns, begun := true } else c

theorem owns_id (c : Child σ) : c.owns c.id = true := by
  simp [owns]

theorem owns_of_mine {c : Child σ} {h : Nat} (hmine : c.mine h = true) : c.owns h = true := by
  simp [owns, hmine]

end Child

/-- Fibers side by side, in order, and those that have ended. -/
abbrev FiberGroup (σ : Type) : Type :=
  List (Child σ)

namespace FiberGroup

/-- The fibers that are left, with their numbers and positions. -/
def running (group : FiberGroup σ) : List (FiberId × Nat × Fiber σ) :=
  group.filterMap fun c => c.fiber.map fun f => (c.id, c.position, f)

/-- The positions of the fibers that are left. -/
def left (group : FiberGroup σ) : List Nat :=
  group.running.map (·.2.1)

/-- All numbers that have to do with a group. -/
def mine (group : FiberGroup σ) (h : Nat) : Bool :=
  group.any fun c => c.owns h

/-- The children that have not had a turn. -/
def waiting (group : FiberGroup σ) : FiberGroup σ :=
  group.filter fun c => !c.begun

/-- A child with this number has not had a turn. -/
def awaits (group : FiberGroup σ) (h : Nat) : Bool :=
  group.waiting.any fun c => c.id == h

/-- All turns that are still to come. -/
def turns (group : FiberGroup σ) : Nat :=
  (group.map fun c => c.turns).sum

/-- A group after something has happened to one of its members. -/
def after (group : FiberGroup σ) (id : FiberId) (fiber : Option (Fiber σ)) (mine : Nat → Bool)
    (turns : Nat) : FiberGroup σ :=
  group.map (Child.after id fiber mine turns)

variable {group : FiberGroup σ} {c d : Child σ} {id : FiberId} {fiber : Option (Fiber σ)}
  {mine : Nat → Bool} {turns : Nat} {h : Nat}

/-- What belongs to a group has to do with one of its members. -/
theorem mine_iff : group.mine h = true ↔ ∃ c ∈ group, c.owns h = true :=
  List.any_eq_true

theorem running_cons_none {rest : FiberGroup σ} (hf : c.fiber = none) :
    running (c :: rest) = running rest := by
  simp [running, hf]

theorem running_cons_some {rest : FiberGroup σ} {f : Fiber σ} (hf : c.fiber = some f) :
    running (c :: rest) = (c.id, c.position, f) :: running rest := by
  simp [running, hf]

/-- The fibers that are left are those of the members that have not ended. -/
theorem mem_running {child : FiberId × Nat × Fiber σ} :
    child ∈ group.running ↔ ∃ c ∈ group, ∃ f, c.fiber = some f ∧ child = (c.id, c.position, f) := by
  unfold running
  rw [List.mem_filterMap]
  refine exists_congr fun c => and_congr_right fun _ => ?_
  cases c.fiber with
  | none => simp
  | some f => simp [eq_comm]

theorem mem_left {i : Nat} :
    i ∈ group.left ↔ ∃ c ∈ group, c.fiber.isSome = true ∧ c.position = i := by
  unfold left
  rw [List.mem_map]
  constructor
  · rintro ⟨child, hchild, rfl⟩
    rcases mem_running.1 hchild with ⟨c, hc, f, hf, rfl⟩
    exact ⟨c, hc, by rw [hf]; rfl, rfl⟩
  · rintro ⟨c, hc, hf, rfl⟩
    rcases Option.isSome_iff_exists.1 hf with ⟨f, hf⟩
    exact ⟨_, mem_running.2 ⟨c, hc, f, hf, rfl⟩, rfl⟩

/-- The numbers that fibers side by side are about. -/
theorem mem_numbersEach :
    h ∈ Fiber.numbersEach group.running ↔
      ∃ c ∈ group, ∃ f, c.fiber = some f ∧ (h = c.id ∨ h ∈ f.numbers) := by
  induction group with
  | nil => simp [running, Fiber.numbersEach]
  | cons c rest ih =>
      cases hf : c.fiber with
      | none =>
          rw [running_cons_none hf, ih]
          simp [hf]
      | some f =>
          rw [running_cons_some hf, Fiber.numbersEach, List.mem_cons, List.mem_append, ih]
          simp [hf, or_assoc]

/-- Those whose time has come among fibers side by side. -/
theorem dueAtEach_running (time : Nat) (path : Path) :
    Fiber.dueAtEach time path group.running =
      group.flatMap fun c => c.fiber.toList.flatMap fun f => f.dueAt time (c.id :: path) := by
  induction group with
  | nil => rfl
  | cons c rest ih =>
      cases hf : c.fiber with
      | none =>
          rw [running_cons_none hf, ih]
          simp [hf]
      | some f =>
          rw [running_cons_some hf, Fiber.dueAtEach, ih]
          simp [hf]

/-- A group wakes no later than each of its members. -/
theorem nextWakeEach_le {f : Fiber σ} {time : Nat} (hc : c ∈ group) (hf : c.fiber = some f)
    (wakes : f.nextWake = some time) :
    ∃ first, Fiber.nextWakeEach group.running = some first ∧ first ≤ time := by
  induction group with
  | nil => cases hc
  | cons d rest ih =>
      rcases List.mem_cons.1 hc with rfl | hc
      · rw [running_cons_some hf, Fiber.nextWakeEach]
        exact earlier_le (.inl wakes)
      · cases hd : d.fiber with
        | none =>
            -- A child that has ended is not among the running ones.
            rw [running_cons_none hd]
            exact ih hc
        | some g =>
            rw [running_cons_some hd, Fiber.nextWakeEach]
            rcases ih hc with ⟨first, hfirst, hle⟩
            rcases earlier_le (a := g.nextWake) (.inr hfirst) with ⟨sooner, hsooner, hle'⟩
            exact ⟨sooner, hsooner, Nat.le_trans hle' hle⟩

/-- A group wakes with one of its members. -/
theorem exists_nextWake {time : Nat} (wakes : Fiber.nextWakeEach group.running = some time) :
    ∃ c ∈ group, ∃ f, c.fiber = some f ∧ f.nextWake = some time := by
  induction group with
  | nil => cases wakes
  | cons d rest ih =>
      have later : Fiber.nextWakeEach (running rest) = some time →
          ∃ c ∈ d :: rest, ∃ f, c.fiber = some f ∧ f.nextWake = some time := fun h => by
        rcases ih h with ⟨c, hc, found⟩
        exact ⟨c, List.mem_cons_of_mem _ hc, found⟩
      cases hd : d.fiber with
      | none =>
          rw [running_cons_none hd] at wakes
          exact later wakes
      | some g =>
          rw [running_cons_some hd, Fiber.nextWakeEach] at wakes
          -- The nearer of two is the head's wake-up or one further back.
          rcases earlier_eq_some wakes with h | h
          · exact ⟨d, List.mem_cons_self, g, hd, h⟩
          · exact later h

/-- Something has happened to a fiber that goes on. -/
theorem running_after_some (group : FiberGroup σ) (id : FiberId) (f : Fiber σ) (mine : Nat → Bool)
    (turns : Nat) (living : ∀ c ∈ group, c.id = id → c.fiber.isSome = true) :
    (group.after id (some f) mine turns).running = withChild id f group.running := by
  unfold running after withChild
  rw [List.filterMap_map, List.map_filterMap]
  refine List.filterMap_congr fun c hc => ?_
  by_cases heq : c.id = id
  · rcases Option.isSome_iff_exists.1 (living c hc heq) with ⟨g, hg⟩
    simp [Child.after, heq, hg]
  · cases hf : c.fiber <;> simp [Child.after, heq, hf]

/-- A fiber has ended. -/
theorem running_after_none (group : FiberGroup σ) (id : FiberId) (mine : Nat → Bool) (turns : Nat) :
    (group.after id none mine turns).running = withoutChild id group.running := by
  unfold running after withoutChild
  rw [List.filterMap_map, List.filter_filterMap]
  refine List.filterMap_congr fun c hc => ?_
  by_cases heq : c.id = id
  · cases hf : c.fiber <;> simp [Child.after, heq, Option.filter]
  · cases hf : c.fiber <;> simp [Child.after, heq, hf, Option.filter]

/-- What happens to a member changes no position. -/
theorem positions_after (group : FiberGroup σ) :
    (group.after id fiber mine turns).map (·.position) = group.map (·.position) := by
  unfold after
  rw [List.map_map]
  refine List.map_congr_left fun c _ => ?_
  by_cases heq : c.id = id <;> simp [Child.after, heq]

/-- One member has begun, the others wait as before. -/
theorem waiting_after (group : FiberGroup σ) :
    (group.after id fiber mine turns).waiting = group.waiting.filter (·.id != id) := by
  unfold waiting after
  rw [List.filter_map, List.filter_filter]
  have kept : ∀ c ∈ group.filter ((fun c => !c.begun) ∘ Child.after id fiber mine turns),
      Child.after id fiber mine turns c = c := by
    intro c hc
    have := (List.mem_filter.1 hc).2
    by_cases heq : c.id = id
    · simp [Child.after, heq] at this
    · simp [Child.after, heq]
  rw [List.map_congr_left kept, List.map_id']
  refine List.filter_congr fun c _ => ?_
  by_cases heq : c.id = id <;> simp [Child.after, heq]

/-- A group awaits the members that have not begun. -/
theorem awaits_iff : group.awaits h = true ↔ ∃ c ∈ group, c.begun = false ∧ c.id = h := by
  simp only [awaits, waiting, List.any_eq_true, List.mem_filter, Bool.not_eq_true', beq_iff_eq,
    and_assoc]

/-- A member to which something has happened has begun. -/
theorem awaits_after (group : FiberGroup σ) (h : Nat) :
    (group.after id fiber mine turns).awaits h = (group.awaits h && h != id) := by
  unfold awaits
  rw [waiting_after, Bool.eq_iff_iff]
  simp only [List.any_eq_true, List.mem_filter, Bool.and_eq_true, beq_iff_eq, bne_iff_ne]
  constructor
  · rintro ⟨d, ⟨hd, hne⟩, rfl⟩
    exact ⟨⟨d, hd, rfl⟩, hne⟩
  · rintro ⟨⟨d, hd, rfl⟩, hne⟩
    exact ⟨d, ⟨hd, hne⟩, rfl⟩

end FiberGroup

/-- Fibers side by side inside another one, and how they go. -/
structure GroupSpec (σ : Type) where
  /-- The whole. -/
  whole : FiberPlace σ
  /-- What the fiber at a position and the others may do to the state of the program. -/
  contract : Nat → StoreContract σ
  /-- When it ends, and how. -/
  timings : Nat → Timing
  /-- Until when they are looked at. -/
  horizon : Nat
  /-- Where there are fibers about which anything is known. -/
  known : Nat → Prop
  /-- They rely on no more than the whole does. -/
  rely : ∀ {i}, known i → ∀ {a b}, whole.contract.rely a b → (contract i).rely a b
  /-- They guarantee no less than the whole does. -/
  guarantee : ∀ {i}, known i → ∀ {a b}, (contract i).guarantee a b → whole.contract.guarantee a b
  /-- They leave each other alone. -/
  apart : ∀ {i j}, known i → known j → i ≠ j → ∀ {a b}, (contract i).guarantee a b →
    (contract j).rely a b
  /-- Those that end at the same point in time never wait. -/
  distinct : ∀ left, Join.Distinct timings left
  /-- The others do not count. -/
  unknown : ∀ {i}, ¬known i → (timings i).ends = none

namespace GroupSpec

variable (C : GroupSpec σ)

/-- One of the fibers side by side among the others. -/
def child (c : Child σ) : FiberPlace σ :=
  ⟨C.whole.settings, c.id, C.whole.path, C.contract c.position⟩

/-- What one of the fibers side by side is to attain. -/
def aim (c : Child σ) : Aim σ :=
  (C.timings c.position).aim C.horizon

/-- All members of a group are on their way. -/
structure Underway (group : FiberGroup σ) (k : Kernel σ) : Prop where
  /-- The whole has its place. -/
  valid : C.whole.Valid k
  /-- The members are in order. -/
  sorted : (group.map (·.position)).Pairwise (· < ·)
  /-- They have nothing in common. -/
  apart : ∀ c ∈ group, ∀ d ∈ group, c.position ≠ d.position →
    ∀ h, c.owns h = true → d.owns h = false
  /-- What they have has been given out since the whole began. -/
  given : ∀ c ∈ group, ∀ h, c.owns h = true → h < k.fresh ∧ h ∉ C.whole.path
  /-- Their own numbers do not belong to them. -/
  own : ∀ c ∈ group, c.mine c.id = false
  /-- No task has the number of one of them. -/
  strangers : ∀ c ∈ group, ∀ task ∈ k.tasks, task.id ≠ c.id
  /-- Each of them attains its aim. -/
  attains : ∀ c ∈ group, C.known c.position →
    (C.child c).Attains (C.aim c) c.turns c.mine c.fiber k
  /-- Only those about which anything is known have begun. -/
  begun : ∀ c ∈ group, c.begun = true → C.known c.position
  /-- The others are as they were made. -/
  fresh : ∀ c ∈ group, c.begun = false →
    (c.mine = fun _ => false) ∧ ∃ m, c.fiber = some (.ready m)
  /-- Whoever has begun and goes on, waits. -/
  prompt : ∀ c ∈ group, c.begun = true → c.fiber.isSome = true →
    (C.timings c.position).prompt = false
  /-- Those that have not begun stand in the queue in order. -/
  order : k.woken.filter group.awaits = group.waiting.map (·.id)

/-- If one of the fibers that are left is in the queue, then so is the whole. -/
def WholeWoken (group : FiberGroup σ) (k : Kernel σ) : Prop :=
  ∀ c ∈ group, c.fiber.isSome = true → c.id ∈ k.woken → C.whole.id ∈ k.woken

variable {C} {group : FiberGroup σ} {k k' : Kernel σ} {c d : Child σ} {fiber : Option (Fiber σ)}
  {mine : Nat → Bool} {turns : Nat} {join : Join} {point : Suspension σ}

/-- What belongs to a member belongs to the whole. -/
theorem mine_of_owns {h : Nat} (hc : c ∈ group) (howns : c.owns h = true) :
    group.mine h = true :=
  FiberGroup.mine_iff.2 ⟨c, hc, howns⟩

/-- Whoever has not begun has to do with its own number. -/
theorem mine_of_awaits {h : Nat} (hh : group.awaits h = true) : group.mine h = true := by
  rcases FiberGroup.awaits_iff.1 hh with ⟨c, hc, -, rfl⟩
  exact mine_of_owns hc c.owns_id

/-- The tasks of a member are tasks of the whole. -/
theorem mem_tasksOf {task : Task σ} (hc : c ∈ group) (htask : task ∈ k.tasksOf c.mine) :
    task ∈ k.tasksOf group.mine := by
  rcases List.mem_filter.1 htask with ⟨hmem, hmine⟩
  exact List.mem_filter.2 ⟨hmem, mine_of_owns hc (Child.owns_of_mine hmine)⟩

/-- The whole wakes no later than each of its members. -/
theorem wakes_of_mem (hc : c ∈ group) {time : Nat}
    (wakes : FiberPlace.Wakes c.mine c.fiber k time) :
    ∃ first, FiberPlace.Wakes group.mine (some (.joining join group.running point)) k first ∧
      first ≤ time := by
  rcases wakes with ⟨f, hf, hwake⟩ | ⟨task, htask, hwake⟩
  · rcases FiberGroup.nextWakeEach_le hc hf hwake with ⟨first, hfirst, hle⟩
    exact ⟨first, .inl ⟨_, rfl, by rw [Fiber.nextWake, hfirst]⟩, hle⟩
  · exact ⟨time, .inr ⟨task, mem_tasksOf hc htask, hwake⟩, Nat.le_refl _⟩

/-- If nothing of the whole waits for a turn, then nothing of its members does. -/
theorem WholeWoken.quiet (wholeWoken : C.WholeWoken group k) (hc : c ∈ group)
    (quiet : C.whole.Quiet group.mine (some (.joining join group.running point)) k) :
    (C.child c).Quiet c.mine c.fiber k :=
  ⟨fun hsome hwoken => quiet.1 rfl (wholeWoken c hc hsome hwoken),
    fun task htask => quiet.2 task (mem_tasksOf hc htask)⟩

namespace Underway

/-- A member is known by its position. -/
theorem eq_of_position (t : C.Underway group k) (hc : c ∈ group) (hd : d ∈ group)
    (same : c.position = d.position) : c = d :=
  List.inj_on_of_nodup_map (t.sorted.imp Nat.ne_of_lt) hc hd same

/-- A member is known by its number, since its number belongs to no other one. -/
theorem eq_of_id (t : C.Underway group k) (hc : c ∈ group) (hd : d ∈ group)
    (same : c.id = d.id) : c = d := by
  by_contra hne
  have := t.apart c hc d hd (fun h => hne (t.eq_of_position hc hd h)) c.id c.owns_id
  rw [same, d.owns_id] at this
  cases this

theorem ne_position (t : C.Underway group k) (hc : c ∈ group) (hd : d ∈ group)
    (hne : c.id ≠ d.id) : c.position ≠ d.position :=
  fun h => hne (congrArg Child.id (t.eq_of_position hc hd h))

theorem nodup (t : C.Underway group k) : group.Nodup :=
  List.Nodup.of_map _ (t.sorted.imp Nat.ne_of_lt)

/-- The members of a group after something has happened to one of them. -/
theorem mem_after (t : C.Underway group k) (hc : c ∈ group) :
    d ∈ group.after c.id fiber mine turns ↔
      d = { c with fiber := fiber, mine := mine, turns := turns, begun := true } ∨
        (d ∈ group ∧ d.id ≠ c.id) := by
  unfold FiberGroup.after
  rw [List.mem_map]
  constructor
  · rintro ⟨e, he, rfl⟩
    -- Numbers tell children apart, so only the child itself is changed.
    by_cases heq : e.id = c.id
    · cases t.eq_of_id he hc heq
      exact .inl (by simp [Child.after])
    · exact .inr (by simp [Child.after, heq, he])
  · rintro (rfl | ⟨hd, hne⟩)
    · exact ⟨c, hc, by simp [Child.after]⟩
    · exact ⟨d, hd, by simp [Child.after, hne]⟩

/-- The number of the whole does not belong to its members. -/
theorem not_owns_path (t : C.Underway group k) (hc : c ∈ group) {h : Nat}
    (hpath : h ∈ C.whole.path) : c.owns h = false := by
  cases howns : c.owns h with
  | false => rfl
  | true => exact absurd hpath (t.given c hc h howns).2

/-- A member has its place. -/
theorem child_valid (t : C.Underway group k) (hc : c ∈ group) : (C.child c).Valid k := by
  refine ⟨(t.given c hc _ c.owns_id).2, fun id hid => ?_, t.valid.accounted⟩
  rcases List.mem_cons.1 hid with rfl | hid
  · exact (t.given c hc _ c.owns_id).1
  · exact t.valid.path id hid

/-- What has to do with one of them has nothing to do with another one, whatever that does. -/
theorem not_taken (t : C.Underway group k) (hc : c ∈ group) (hd : d ∈ group)
    (hne : c.id ≠ d.id) (behaves : (C.child c).Behaves c.mine mine k k') {h : Nat}
    (howns : d.owns h = true) : mine h = false := by
  cases hmine : mine h with
  | false => rfl
  | true =>
      -- What is the first child's was so before its turn, and then it is not the other's, or it is
      -- newly given out, and the other's were given out before.
      cases hbefore : c.mine h with
      | true =>
          have := t.apart c hc d hd (t.ne_position hc hd hne) h (Child.owns_of_mine hbefore)
          rw [howns] at this
          cases this
      | false =>
          have := (behaves.new h hmine hbefore).1
          have := (t.given d hd h howns).1
          omega

/-- What one of them has to do with is not what another one has, nor what is around them. -/
theorem not_woken (t : C.Underway group k) (hc : c ∈ group) (hd : d ∈ group)
    (hne : c.id ≠ d.id) (behaves : (C.child c).Behaves c.mine mine k k') {h : Nat}
    (howns : d.owns h = true) :
    (!(C.child c).owns mine h && !(C.child c).around.contains h) = true := by
  have hid : h ≠ c.id := by
    rintro rfl
    have := t.apart c hc d hd (t.ne_position hc hd hne) c.id c.owns_id
    rw [howns] at this
    cases this
  have hpath : h ∉ C.whole.path := (t.given d hd h howns).2
  simp [FiberPlace.owns, child, hid, hpath, t.not_taken hc hd hne behaves howns]

/-- What one of them does in its turn happens between the turns of another one. -/
theorem beside (t : C.Underway group k) (hc : c ∈ group) (hd : d ∈ group) (hne : c.id ≠ d.id)
    (hkc : C.known c.position) (hkd : C.known d.position)
    (behaves : (C.child c).Behaves c.mine mine k k') :
    (C.child d).Meanwhile d.mine d.fiber k k' := by
  refine ⟨behaves.fresh, behaves.accounted (t.child_valid hc).path,
    C.apart hkc hkd (t.ne_position hc hd hne) behaves.store,
    fun h hmine => behaves.slots h (t.not_taken hc hd hne behaves (Child.owns_of_mine hmine)),
    ?_, .inl ⟨behaves.clock, ?_⟩⟩
  · refine FiberPlace.filter_of_filter behaves.tasks fun task hmine => ?_
    rw [t.not_taken hc hd hne behaves (Child.owns_of_mine hmine)]
    rfl
  · exact FiberPlace.filter_of_filter behaves.woken fun h howns =>
      t.not_woken hc hd hne behaves howns

/-- What belongs to one of them after its turn does not belong to another one. -/
theorem not_owns_after (t : C.Underway group k) (hc : c ∈ group) (hd : d ∈ group)
    (hne : c.id ≠ d.id) (behaves : (C.child c).Behaves c.mine mine k k') {h : Nat}
    (howns : d.owns h = true) : (h == c.id || mine h) = false := by
  have := t.not_woken hc hd hne behaves howns
  simp only [FiberPlace.owns, Bool.and_eq_true, Bool.not_eq_true'] at this
  exact this.1

/-- The number of a member does not belong to the one that has had its turn. -/
theorem not_mine_id (t : C.Underway group k) (hc : c ∈ group) (hd : d ∈ group)
    (behaves : (C.child c).Behaves c.mine mine k k') : mine d.id = false := by
  by_cases heq : c.id = d.id
  · cases t.eq_of_id hc hd heq
    cases hmine : mine c.id with
    | false => rfl
    | true =>
        have := (behaves.new c.id hmine (t.own c hc)).1
        have := (t.given c hc c.id c.owns_id).1
        omega
  · exact t.not_taken hc hd heq behaves d.owns_id

/-- After the turn of one of them, they still have nothing in common. -/
theorem apart_after (t : C.Underway group k) (hc : c ∈ group)
    (behaves : (C.child c).Behaves c.mine mine k k') :
    ∀ e ∈ group.after c.id fiber mine turns, ∀ e' ∈ group.after c.id fiber mine turns,
      e.position ≠ e'.position → ∀ h, e.owns h = true → e'.owns h = false := by
  intro e he e' he' hne h howns
  -- Either of the two may be the child that had its turn; if both are other children nothing has
  -- changed.
  rcases (t.mem_after hc).1 he with rfl | ⟨he, hec⟩ <;>
    rcases (t.mem_after hc).1 he' with rfl | ⟨he', hec'⟩
  · exact absurd rfl hne
  · cases hother : e'.owns h with
    | false => rfl
    | true =>
        have := t.not_owns_after hc he' (Ne.symm hec') behaves hother
        rw [Child.owns] at howns
        rw [howns] at this
        cases this
  · exact t.not_owns_after hc he (Ne.symm hec) behaves howns
  · exact t.apart e he e' he' hne h howns

/-- What they have after the turn of one of them has been given out since the whole began. -/
theorem given_after (t : C.Underway group k) (hc : c ∈ group)
    (behaves : (C.child c).Behaves c.mine mine k k') :
    ∀ e ∈ group.after c.id fiber mine turns, ∀ h, e.owns h = true →
      h < k'.fresh ∧ h ∉ C.whole.path := by
  intro e he h howns
  have fresh := behaves.fresh
  rcases (t.mem_after hc).1 he with rfl | ⟨he, -⟩
  · cases hbefore : c.owns h with
    | true =>
        have := t.given c hc h hbefore
        exact ⟨Nat.lt_of_lt_of_le this.1 fresh, this.2⟩
    | false =>
        -- A number that has been given out just now.
        simp only [Child.owns, Bool.or_eq_false_iff] at hbefore
        have hmine : mine h = true := by simpa [Child.owns, hbefore.1] using howns
        have new := behaves.new h hmine hbefore.2
        exact ⟨new.2, fun hpath => Nat.not_lt.2 new.1 (t.valid.path h hpath)⟩
  · have := t.given e he h howns
    exact ⟨Nat.lt_of_lt_of_le this.1 fresh, this.2⟩

/-- After the turn of one of them, still no task has the number of one of them. -/
theorem strangers_after (t : C.Underway group k) (hc : c ∈ group)
    (behaves : (C.child c).Behaves c.mine mine k k') :
    ∀ e ∈ group.after c.id fiber mine turns, ∀ task ∈ k'.tasks, task.id ≠ e.id := by
  intro e he task htask heq
  have old : ∃ d ∈ group, d.id = e.id := by
    rcases (t.mem_after hc).1 he with rfl | ⟨he, hec⟩
    · exact ⟨c, hc, rfl⟩
    · exact ⟨e, he, rfl⟩
  rcases old with ⟨d, hd, hid⟩
  -- The turn gives out numbers of its own only, so the task was there before it.
  have hnot : mine task.id = false := by
    rw [heq, ← hid]
    exact t.not_mine_id hc hd behaves
  have before : task ∈ k.tasks.filter fun task => !mine task.id := by
    rw [← behaves.tasks]
    exact List.mem_filter.2 ⟨htask, by rw [hnot]; rfl⟩
  exact t.strangers d hd task (List.mem_filter.1 before).1 (heq.trans hid.symm)

/-- Those that have not begun keep their places in the queue while one of them has its turn. -/
theorem order_after (t : C.Underway group k) (hc : c ∈ group)
    (behaves : (C.child c).Behaves c.mine mine k k') :
    k'.woken.filter (group.after c.id fiber mine turns).awaits =
      (group.after c.id fiber mine turns).waiting.map (·.id) := by
  -- Those that still wait for their first turn are not woken or taken from the queue by another
  -- child's turn.
  have kept : ∀ h, (group.after c.id fiber mine turns).awaits h = true →
      (!(C.child c).owns mine h && !(C.child c).around.contains h) = true := by
    intro h hh
    rw [FiberGroup.awaits_after, Bool.and_eq_true, bne_iff_ne] at hh
    rcases FiberGroup.awaits_iff.1 hh.1 with ⟨d, hd, -, rfl⟩
    exact t.not_woken hc hd (Ne.symm hh.2) behaves d.owns_id
  have before := congrArg (List.filter (· != c.id)) t.order
  rw [List.filter_filter, List.filter_map] at before
  rw [FiberPlace.filter_of_filter behaves.woken kept, FiberGroup.waiting_after]
  refine (List.filter_congr fun h _ => ?_).trans before
  rw [FiberGroup.awaits_after, Bool.and_comm]

/-- One of them does something, and all of them are still on their way. Each part holds of the child
    that had its turn by what the turn did, and of the others because the turn does not touch what
    is theirs. -/
theorem after (t : C.Underway group k) (hc : c ∈ group) (known : C.known c.position)
    (behaves : (C.child c).Behaves c.mine mine k k')
    (attains : (C.child c).Attains (C.aim c) turns mine fiber k')
    (prompt : fiber.isSome = true → (C.timings c.position).prompt = false) :
    C.Underway (group.after c.id fiber mine turns) k' where
  valid := ⟨t.valid.apart, fun id hid => Nat.lt_of_lt_of_le (t.valid.path id hid) behaves.fresh,
    behaves.accounted (t.child_valid hc).path t.valid.accounted⟩
  sorted := by
    rw [FiberGroup.positions_after]
    exact t.sorted
  apart := t.apart_after hc behaves
  given := t.given_after hc behaves
  own := by
    intro e he
    rcases (t.mem_after hc).1 he with rfl | ⟨he, -⟩
    · exact (t.not_mine_id hc hc behaves : mine c.id = false)
    · exact t.own e he
  strangers := t.strangers_after hc behaves
  attains := by
    intro e he hknown
    rcases (t.mem_after hc).1 he with rfl | ⟨he, hec⟩
    · exact attains
    · exact (t.attains e he hknown).meanwhile
        (t.beside hc he (Ne.symm hec) known hknown behaves)
  begun := by
    intro e he hbegun
    rcases (t.mem_after hc).1 he with rfl | ⟨he, -⟩
    · exact known
    · exact t.begun e he hbegun
  fresh := by
    intro e he hbegun
    rcases (t.mem_after hc).1 he with rfl | ⟨he, -⟩
    · cases hbegun
    · exact t.fresh e he hbegun
  prompt := by
    intro e he hbegun hsome
    rcases (t.mem_after hc).1 he with rfl | ⟨he, -⟩
    · exact prompt hsome
    · exact t.prompt e he hbegun hsome
  order := t.order_after hc behaves

/-- What one of them does is what the whole does. -/
theorem whole_behaves (t : C.Underway group k) (hc : c ∈ group) (known : C.known c.position)
    (behaves : (C.child c).Behaves c.mine mine k k') :
    C.whole.Behaves group.mine (group.after c.id fiber mine turns).mine k k' := by
  have mem : { c with fiber := fiber, mine := mine, turns := turns, begun := true } ∈
      group.after c.id fiber mine turns := (t.mem_after hc).2 (.inl rfl)
  -- What is not of the group afterwards is neither the child's number nor newly its own.
  have hers : ∀ {h}, (group.after c.id fiber mine turns).mine h = false →
      h ≠ c.id ∧ mine h = false := by
    intro h hnot
    have : ¬ Child.owns { c with fiber := fiber, mine := mine, turns := turns, begun := true } h =
        true := fun howns => by
      rw [FiberGroup.mine_iff.2 ⟨_, mem, howns⟩] at hnot
      cases hnot
    simpa [Child.owns] using this
  have kept : ∀ h, (!C.whole.owns (group.after c.id fiber mine turns).mine h &&
      !C.whole.around.contains h) = true →
      (!(C.child c).owns mine h && !(C.child c).around.contains h) = true := by
    intro h hh
    simp only [FiberPlace.owns, Bool.and_eq_true, Bool.not_eq_true', Bool.or_eq_false_iff] at hh
    rcases hers hh.1.2 with ⟨hid, hmine⟩
    have hpath : h ≠ C.whole.id := by simpa using hh.1.1
    have haround : h ∉ C.whole.around := by simpa using hh.2
    simp [FiberPlace.owns, child, FiberPlace.path, hid, hmine, hpath, haround]
  refine ⟨behaves.fresh, fun _ => behaves.accounted (t.child_valid hc).path, behaves.clock,
    C.guarantee known behaves.store, fun h hmine => ?_, fun h hmine hnot => ?_,
    fun h hnot => behaves.slots h (hers hnot).2, ?_,
    FiberPlace.filter_of_filter behaves.woken kept,
    fun id hid => behaves.around id (List.mem_cons_of_mem _ hid),
    fun id hid hwoken hnot i hi => ?_⟩
  -- What was of the group stays of the group, for the child's own only grows.
  · rcases FiberGroup.mine_iff.1 hmine with ⟨d, hd, howns⟩
    by_cases heq : d.id = c.id
    · cases t.eq_of_id hd hc heq
      refine FiberGroup.mine_iff.2 ⟨_, mem, ?_⟩
      rcases Bool.or_eq_true_iff.1 howns with h' | h'
      · exact Bool.or_eq_true_iff.2 (.inl h')
      · exact Bool.or_eq_true_iff.2 (.inr (behaves.grows h h'))
    · exact FiberGroup.mine_iff.2 ⟨d, (t.mem_after hc).2 (.inr ⟨hd, heq⟩), howns⟩
  -- What is new in the group is new with the child that had its turn.
  · rcases FiberGroup.mine_iff.1 hmine with ⟨e, he, howns⟩
    have before : ∀ d ∈ group, ¬ d.owns h = true := fun d hd howns => by
      rw [FiberGroup.mine_iff.2 ⟨d, hd, howns⟩] at hnot
      cases hnot
    rcases (t.mem_after hc).1 he with rfl | ⟨he, -⟩
    · have hbefore := before c hc
      simp only [Child.owns, Bool.or_eq_true, not_or, Bool.not_eq_true] at hbefore
      exact behaves.new h (by simpa [Child.owns, hbefore.1] using howns) hbefore.2
    · exact absurd howns (before e he)
  · refine FiberPlace.filter_of_filter behaves.tasks fun task hnot => ?_
    rw [(hers (by simpa using hnot)).2]
    rfl
  · exact behaves.carries id (List.mem_cons_of_mem _ hid) hwoken hnot i (List.mem_cons_of_mem _ hi)

/-- The tasks of the whole are errands of members. -/
theorem owner (t : C.Underway group k) {task : Task σ} (htask : task ∈ k.tasksOf group.mine) :
    ∃ c ∈ group, C.known c.position ∧ task ∈ k.tasksOf c.mine := by
  rcases List.mem_filter.1 htask with ⟨hmem, hmine⟩
  rcases FiberGroup.mine_iff.1 hmine with ⟨c, hc, howns⟩
  have hnot : (task.id == c.id) = false := by simpa using t.strangers c hc task hmem
  have hers : c.mine task.id = true := by
    rw [Child.owns, hnot] at howns
    exact howns
  refine ⟨c, hc, ?_, List.mem_filter.2 ⟨hmem, hers⟩⟩
  cases hbegun : c.begun with
  | true => exact t.begun c hc hbegun
  | false =>
      rw [(t.fresh c hc hbegun).1] at hers
      cases hers

/-- The tasks of the whole are errands. -/
theorem errand (t : C.Underway group k) {task : Task σ} (htask : task ∈ k.tasksOf group.mine) :
    task.work.IsErrand := by
  rcases t.owner htask with ⟨c, hc, hknown, hers⟩
  exact (t.attains c hc hknown).tidy.2 task hers

/-- The numbers that a fiber side by side with others is about belong to it. -/
theorem numbers (t : C.Underway group k) (hc : c ∈ group) {f : Fiber σ}
    (hf : c.fiber = some f) {h : Nat} (hh : h ∈ f.numbers) : c.mine h = true := by
  by_cases hknown : C.known c.position
  · exact (t.attains c hc hknown).tidy.1 f hf h hh
  · cases hbegun : c.begun with
    | true => exact absurd (t.begun c hc hbegun) hknown
    | false =>
        rcases (t.fresh c hc hbegun).2 with ⟨m, hm⟩
        rw [hf] at hm
        cases hm
        cases hh

/-- The numbers that the members are about belong to them. -/
theorem mine_of_mem_numbersEach (t : C.Underway group k) {h : Nat}
    (mem : h ∈ Fiber.numbersEach group.running) : group.mine h = true := by
  rw [FiberGroup.mem_numbersEach] at mem
  rcases mem with ⟨c, hc, f, hf, rfl | hh⟩
  · exact mine_of_owns hc c.owns_id
  · exact mine_of_owns hc (Child.owns_of_mine (t.numbers hc hf hh))

/-- The whole has nothing but what belongs to its members. -/
theorem tidy (t : C.Underway group k) :
    FiberPlace.Tidy group.mine (some (.joining join group.running point)) k := by
  refine ⟨fun f hf h hh => ?_, fun task htask => t.errand htask⟩
  cases hf
  exact t.mine_of_mem_numbersEach hh

/-- As far as one of them is concerned, those whose time has come are its own. -/
theorem dues_child (t : C.Underway group k) (hc : c ∈ group) (time : Nat) :
    (C.whole.dues group.mine (some (.joining join group.running point)) k time).filter c.owns =
      ((C.child c).dues c.mine c.fiber k time).filter c.owns := by
  unfold FiberPlace.dues
  rw [List.filter_append, List.filter_append]
  congr 1
  · -- The others are not concerned with its numbers.
    let theirs (d : Child σ) : List Path :=
      d.fiber.toList.flatMap fun f => f.dueAt time (d.id :: C.whole.path)
    have all : (Option.toList (some (Fiber.joining join group.running point))).flatMap
        (fun f => f.dueAt time C.whole.path) = group.flatMap theirs := by
      rw [Option.toList_some, List.flatMap_singleton, Fiber.dueAt, FiberGroup.dueAtEach_running]
    rw [all]
    show _ = (theirs c).flatten.filter c.owns
    rw [flatten_flatMap, List.filter_flatMap]
    refine flatMap_eq_of_mem t.nodup hc fun d hd hne => List.filter_eq_nil_iff.2 fun h hh => ?_
    have apart : c.position ≠ d.position := fun h => hne (t.eq_of_position hc hd h).symm
    intro howns
    rw [flatten_flatMap, List.mem_flatMap] at hh
    rcases hh with ⟨f, hf, hh⟩
    have hnot := t.apart c hc d hd apart h howns
    rcases Fiber.mem_dueAt f hh with hpath | hnumbers
    · rcases List.mem_cons.1 hpath with rfl | hpath
      · rw [d.owns_id] at hnot
        cases hnot
      · exact (t.given c hc h howns).2 hpath
    · rw [Child.owns_of_mine (t.numbers hd (by simpa using hf) hnumbers)] at hnot
      cases hnot
  · -- An errand is nobody's but its own.
    have only : ∀ mine : Nat → Bool,
        (((k.tasksOf mine).flatMap fun task => task.work.dueAt time [task.id]).flatten).filter
          c.owns = k.tasks.flatMap fun task =>
            if mine task.id = true then (task.work.dueAt time [task.id]).flatten.filter c.owns
            else [] := by
      intro mine
      unfold Kernel.tasksOf
      rw [flatten_flatMap, List.filter_flatMap]
      exact flatMap_filter ..
    rw [only, only]
    refine List.flatMap_congr fun task htask => ?_
    by_cases hers : c.mine task.id = true
    · rw [if_pos hers, if_pos (mine_of_owns hc (Child.owns_of_mine hers))]
    · rw [if_neg hers]
      split
      · next hmine =>
          have hnot : c.owns task.id = false := by
            simp [Child.owns, t.strangers c hc task htask, hers]
          rcases Task.dueAt_errand (t.errand (List.mem_filter.2 ⟨htask, hmine⟩)) time with h | h
          · rw [h]
            rfl
          · rw [h, List.filter_cons_of_neg (by simp [hnot])]
            rfl
      · rfl

/-- If the time of one of them has come, then the whole is woken, and one of those that are left
    is. -/
theorem dues_underway (t : C.Underway group k) {time h : Nat}
    (due : h ∈ C.whole.dues group.mine (some (.joining join group.running point)) k time)
    (other : ∀ task ∈ k.tasksOf group.mine, task.id ≠ h) :
    ∃ c ∈ group, c.fiber.isSome = true ∧
      ∀ i ∈ (C.child c).path,
        i ∈ C.whole.dues group.mine (some (.joining join group.running point)) k time := by
  have all : (Option.toList (some (Fiber.joining join group.running point))).flatMap
      (fun f => f.dueAt time C.whole.path) = Fiber.dueAtEach time C.whole.path group.running := by
    rw [Option.toList_some, List.flatMap_singleton, Fiber.dueAt]
  unfold FiberPlace.dues at due ⊢
  rw [all, FiberGroup.dueAtEach_running] at due ⊢
  -- Something due in the whole is due in a child, with the child's whole path, or is an errand,
  -- which was excluded.
  rcases List.mem_append.1 due with due | due
  · rcases List.mem_flatten.1 due with ⟨path, hpath, -⟩
    rcases List.mem_flatMap.1 hpath with ⟨c, hc, hmem⟩
    rcases List.mem_flatMap.1 hmem with ⟨f, hf, hdue⟩
    have hf : c.fiber = some f := by simpa using hf
    refine ⟨c, hc, by rw [hf]; rfl, fun i hi => List.mem_append_left _ ?_⟩
    exact List.mem_flatten.2 ⟨path, hpath, Fiber.subset_of_mem_dueAt f hdue hi⟩
  · rw [flatten_flatMap, List.mem_flatMap] at due
    rcases due with ⟨task, htask, hh⟩
    rcases Task.dueAt_errand (t.errand htask) time with h' | h'
    · rw [h'] at hh
      cases hh
    · rw [h'] at hh
      exact absurd (List.mem_singleton.1 hh).symm (other task htask)

/-- What happens between the turns of the whole happens between the turns of its members. -/
theorem child_meanwhile (t : C.Underway group k) (wholeWoken : C.WholeWoken group k)
    (hc : c ∈ group)
    (known : C.known c.position)
    (meanwhile : C.whole.Meanwhile group.mine (some (.joining join group.running point)) k k') :
    (C.child c).Meanwhile c.mine c.fiber k k' := by
  have less : ∀ h, c.owns h = true → C.whole.owns group.mine h = true := fun h howns =>
    FiberPlace.owns_of_mine (mine_of_owns hc howns)
  refine ⟨meanwhile.fresh, meanwhile.accounted, C.rely known meanwhile.store,
    fun h hmine => meanwhile.slots h (mine_of_owns hc (Child.owns_of_mine hmine)),
    FiberPlace.filter_of_filter meanwhile.tasks fun task hmine =>
      mine_of_owns hc (Child.owns_of_mine hmine), ?_⟩
  -- Without time passing the queue is kept; after time has passed it holds what is due, and what is
  -- due in the whole is for this child what is due in it.
  rcases meanwhile.time with ⟨still, woken⟩ | ⟨later, quiet, within, woken⟩
  · exact .inl ⟨still, FiberPlace.filter_of_filter woken less⟩
  · refine .inr ⟨later, wholeWoken.quiet hc quiet, fun time hwakes => ?_, ?_⟩
    · rcases wakes_of_mem hc hwakes with ⟨first, hfirst, hle⟩
      exact Nat.le_trans (within first hfirst) hle
    · refine (FiberPlace.filter_of_filter woken less).trans ?_
      show (enqueueAll [] _).filter c.owns = (enqueueAll [] _).filter c.owns
      rw [filter_enqueueAll, filter_enqueueAll, t.dues_child hc]

/-- Others do something, or time goes by, and all members are still on their way. -/
theorem meanwhile (t : C.Underway group k) (wholeWoken : C.WholeWoken group k)
    (meanwhile : C.whole.Meanwhile group.mine (some (.joining join group.running point)) k k') :
    C.Underway group k' := by
  have fresh := meanwhile.fresh
  refine { t with
    valid := ⟨t.valid.apart, fun id hid => Nat.lt_of_lt_of_le (t.valid.path id hid) fresh,
      meanwhile.accounted t.valid.accounted⟩
    given := fun c hc h howns => ⟨Nat.lt_of_lt_of_le (t.given c hc h howns).1 fresh,
      (t.given c hc h howns).2⟩
    strangers := fun c hc task htask heq => ?_
    attains := fun c hc known => (t.attains c hc known).meanwhile
      (t.child_meanwhile wholeWoken hc known meanwhile)
    order := ?_ }
  -- The tasks of the group are the same as before, so a stranger to the child is one still.
  · have own : task ∈ k'.tasksOf group.mine :=
      List.mem_filter.2 ⟨htask, mine_of_owns hc (heq ▸ c.owns_id)⟩
    rw [meanwhile.tasks] at own
    exact t.strangers c hc task (List.mem_filter.1 own).1 heq
  · rcases meanwhile.time with ⟨-, woken⟩ | ⟨-, quiet, -, -⟩
    · rw [FiberPlace.filter_of_filter woken fun h hh => FiberPlace.owns_of_mine (mine_of_awaits hh)]
      exact t.order
    · -- Whoever has not begun waits for a turn, so time cannot go by.
      have none : group.waiting = [] := by
        refine List.eq_nil_iff_forall_not_mem.2 fun c hc => ?_
        rcases List.mem_filter.1 hc with ⟨hmem, hbegun⟩
        have hwoken : c.id ∈ k.woken := by
          have := List.mem_map_of_mem (f := Child.id) hc
          rw [← t.order] at this
          exact (List.mem_filter.1 this).1
        have hsome : c.fiber.isSome = true := by
          rcases (t.fresh c hmem (by simpa using hbegun)).2 with ⟨m, hm⟩
          rw [hm]
          rfl
        exact (wholeWoken.quiet hmem quiet).1 hsome hwoken
      rw [none]
      exact List.filter_eq_nil_iff.2 fun h _ hh => by simp [FiberGroup.awaits, none] at hh

/-- Time goes by, and the whole is woken if and only if one of those that are left is. -/
theorem woken_later (t : C.Underway group k)
    (woken : k'.woken.filter (C.whole.owns group.mine) = (enqueueAll []
      (C.whole.dues group.mine (some (.joining join group.running point)) k k'.now)).filter
        (C.whole.owns group.mine)) :
    C.WholeWoken group k' ∧ (C.whole.id ∈ k'.woken →
      ∃ c ∈ group, c.fiber.isSome = true ∧ c.id ∈ k'.woken) := by
  -- Time has passed: the group's part of the queue is what was due.
  have mem : ∀ {h}, C.whole.owns group.mine h = true → (h ∈ k'.woken ↔
      h ∈ C.whole.dues group.mine (some (.joining join group.running point)) k k'.now) := by
    intro h howns
    have := congrArg (h ∈ ·) woken
    simpa [List.mem_filter, howns, mem_enqueueAll] using this
  have whole : C.whole.owns group.mine C.whole.id = true := FiberPlace.owns_id _
  have member : ∀ {c : Child σ}, c ∈ group → C.whole.owns group.mine c.id = true := fun hc =>
    FiberPlace.owns_of_mine (mine_of_owns hc (Child.owns_id _))
  refine ⟨fun c hc _ hwoken => ?_, fun hwoken => ?_⟩
  · rcases t.dues_underway ((mem (member hc)).1 hwoken) fun task htask =>
      t.strangers c hc task (List.mem_filter.1 htask).1 with ⟨d, -, -, hdue⟩
    exact (mem whole).2 (hdue _ (List.mem_cons_of_mem _ List.mem_cons_self))
  -- The number of the whole is a child's errand's as little as it is a child's.
  · have other : ∀ task ∈ k.tasksOf group.mine, task.id ≠ C.whole.id := by
      intro task htask heq
      rcases t.owner htask with ⟨c, hc, -, hers⟩
      have := t.not_owns_path hc (h := task.id) (heq ▸ List.mem_cons_self)
      rw [Child.owns_of_mine (List.mem_filter.1 hers).2] at this
      cases this
    rcases t.dues_underway ((mem whole).1 hwoken) other with ⟨c, hc, hsome, hdue⟩
    exact ⟨c, hc, hsome, (mem (member hc)).2 (hdue _ List.mem_cons_self)⟩

/-- Somebody else joins or leaves the queue. -/
theorem rewoken (t : C.Underway group k) {woken : List Nat}
    (numbered : ∀ id ∈ woken, id < k.fresh)
    (same : woken.filter group.mine = k.woken.filter group.mine) :
    C.Underway group { k with woken := woken } := by
  have each : ∀ c ∈ group, (C.child c).Meanwhile c.mine c.fiber k { k with woken := woken } :=
    fun c hc => ⟨Nat.le_refl _, fun h => ⟨numbered, h.tasks⟩, (C.contract c.position).rely_refl _,
      fun _ _ => rfl, rfl, .inl ⟨rfl, FiberPlace.filter_of_filter same fun h => mine_of_owns hc⟩⟩
  refine { t with
    valid := ⟨t.valid.apart, t.valid.path, ⟨numbered, t.valid.accounted.tasks⟩⟩
    attains := fun c hc known => (t.attains c hc known).meanwhile (each c hc)
    order := (FiberPlace.filter_of_filter same fun h => mine_of_awaits).trans t.order }

/-- Those around the whole do not belong to it. -/
theorem not_mine_path (t : C.Underway group k) {h : Nat} (hpath : h ∈ C.whole.path) :
    group.mine h = false := by
  cases hmine : group.mine h with
  | false => rfl
  | true =>
      rcases FiberGroup.mine_iff.1 hmine with ⟨c, hc, howns⟩
      rw [t.not_owns_path hc hpath] at howns
      cases howns

/-- The whole may leave the queue. -/
theorem unwake (t : C.Underway group k) : C.Underway group (k.unwake C.whole.id) := by
  refine t.rewoken (fun id hid => t.valid.accounted.woken id (List.mem_filter.1 hid).1) ?_
  rw [List.filter_filter]
  refine List.filter_congr fun h _ => ?_
  by_cases heq : h = C.whole.id
  · rw [heq, t.not_mine_path List.mem_cons_self]
    rfl
  · simp [heq]

/-- The whole may be put in the queue. -/
theorem wake (t : C.Underway group k) : C.Underway group (k.wake C.whole.path) := by
  rw [Kernel.wake_enqueue]
  refine t.rewoken (fun id hid => (mem_enqueueAll.1 hid).elim (t.valid.accounted.woken id)
    (t.valid.path id)) ?_
  have none : C.whole.path.filter group.mine = [] :=
    List.filter_eq_nil_iff.2 fun h hh => by simp [t.not_mine_path hh]
  rw [filter_enqueueAll, none]
  rfl

end Underway

end GroupSpec

end EffectKernel
