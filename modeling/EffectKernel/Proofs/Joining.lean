import EffectKernel.Proofs.ChildFibers
import Mathlib.Algebra.Order.BigOperators.Group.List
import Mathlib.Algebra.Order.Group.Nat

/-!
# Fibers Joined

A fiber that runs others side by side. In its turn it gives turns to those of them that are in
the queue, and when one of them ends it takes in the end. Each of them goes its own way, so it
ends when and how it should; and so the whole comes to what it should, out of the ends in the
order in which they come.

The ends come in the order of the points in time. Where two of them end at the same one, neither
of them ever waits; both of them end in their first turn then, and they have their first turns in
their order. A fiber about which nothing is known stands behind one that decides the whole in its
first turn, so it never has a turn.

The turns of the whole are limited. Each of them is a turn of one of the fibers at least, apart
from one in which none of them is in the queue any more.

## Main definitions

* `GroupSpec.Completing`: A group on its way to what a join comes to.
* `GroupSpec.FirstTurn`: What comes of one turn of a fiber.
* `GroupSpec.Round`: What comes of the turns of all of them.
* `GroupSpec.Patient`: How many turns the whole needs.

## Theorems

* `GroupSpec.Completing.firstTurn`: The first fiber in the queue has its turn.
* `GroupSpec.Completing.turnsEach`: The turns of fibers side by side, until they all wait or the
  whole is decided.
* `GroupSpec.Completing.attains`: The whole goes on from what the join comes to.
-/

namespace EffectKernel

variable {σ : Type}

namespace Fiber

variable {settings : Settings} {path : Path} {join : Join}
  {children : List (FiberId × Nat × Fiber σ)} {waiting gaveWay count : Nat} {k k' : Kernel σ}
  {id : FiberId} {position : Nat} {fiber : Fiber σ}

/-- The turns of fibers side by side, if they are given enough steps. -/
def TurnsEach (settings : Settings) (path : Path) (join : Join)
    (children : List (FiberId × Nat × Fiber σ)) (waiting gaveWay count : Nat) (k : Kernel σ)
    (r : JoinTurn σ) (k' : Kernel σ) : Prop :=
  ∃ least, ∀ fuel, least ≤ fuel →
    turnEach settings fuel path join children waiting gaveWay count k = (r, k')

/-- No fiber is left. -/
theorem TurnsEach.none (waiting gaveWay count : Nat) (k : Kernel σ) :
    TurnsEach settings path join [] waiting gaveWay count k (.ended join.outcome) k := by
  refine exists_enough_of_succ 0 fun fuel _ => ?_
  rw [turnEach, k.firstWoken?_nil]
  rfl

/-- None of the fibers that are left is in the queue. -/
theorem TurnsEach.quiet (first : k.firstWoken? children = .none) (some : children ≠ []) :
    TurnsEach settings path join children waiting gaveWay count k (.waiting join children) k := by
  refine exists_enough_of_succ 0 fun fuel _ => ?_
  rw [turnEach, first]
  simp [some]

section First

variable (first : k.firstWoken? children = some (id, position, fiber))
include first

/-- The first of them has its turn and waits, and then others are to have their turns before any
    of them has another one. -/
theorem TurnsEach.enough {fiber' : Fiber σ}
    (turn : fiber.Turns settings (id :: path) (k.unwake id) (.waiting fiber') k')
    (enough : 2 ≤ (if k'.isWoken id then gaveWay + 1 else gaveWay) ∨ waiting + 1 = count) :
    TurnsEach settings path join children waiting gaveWay count k
      (.waiting join (withChild id fiber' children)) (k'.wake path) := by
  rcases turn with ⟨least, turn⟩
  refine exists_enough_of_succ least fun fuel hfuel => ?_
  rw [turnEach, first]
  simp only [turn fuel hfuel]
  rw [if_pos enough]

/-- The first of them has its turn and waits. -/
theorem TurnsEach.waits {fiber' : Fiber σ} {r : JoinTurn σ} {k₁ : Kernel σ}
    (turn : fiber.Turns settings (id :: path) (k.unwake id) (.waiting fiber') k₁)
    (enough : ¬(2 ≤ (if k₁.isWoken id then gaveWay + 1 else gaveWay) ∨ waiting + 1 = count))
    (rest : TurnsEach settings path join (withChild id fiber' children) (waiting + 1)
      (if k₁.isWoken id then gaveWay + 1 else gaveWay) count k₁ r k') :
    TurnsEach settings path join children waiting gaveWay count k r k' := by
  rcases turn with ⟨least, turn⟩
  rcases rest with ⟨least', rest⟩
  refine exists_enough_of_succ (max least least') fun fuel hfuel => ?_
  rw [turnEach, first]
  simp only [turn fuel (by omega)]
  rw [if_neg enough]
  exact rest fuel (by omega)

/-- The first of them has its turn and ends, which decides the whole. -/
theorem TurnsEach.decided {x y : Outcome}
    (turn : fiber.Turns settings (id :: path) (k.unwake id) (.ended x) k')
    (absorb : join.absorb position x = .left y) :
    TurnsEach settings path join children waiting gaveWay count k (.ended y)
      (k'.leaveAll (handlesEach (withoutChild id children))) := by
  rcases turn with ⟨least, turn⟩
  refine exists_enough_of_succ least fun fuel hfuel => ?_
  rw [turnEach, first]
  simp only [turn fuel hfuel, absorb]

/-- The first of them has its turn and ends, and the others go on. -/
theorem TurnsEach.more {x : Outcome} {join' : Join} {r : JoinTurn σ} {k₁ : Kernel σ}
    (turn : fiber.Turns settings (id :: path) (k.unwake id) (.ended x) k₁)
    (absorb : join.absorb position x = .right join')
    (rest : TurnsEach settings path join' (withoutChild id children) 0 0
      (withoutChild id children).length k₁ r k') :
    TurnsEach settings path join children waiting gaveWay count k r k' := by
  rcases turn with ⟨least, turn⟩
  rcases rest with ⟨least', rest⟩
  refine exists_enough_of_succ (max least least') fun fuel hfuel => ?_
  rw [turnEach, first]
  simp only [turn fuel (by omega), absorb]
  exact rest fuel (by omega)

end First

section Whole

variable {join₁ : Join} {children₁ : List (FiberId × Nat × Fiber σ)} {point : Suspension σ}
  {x : Outcome}

/-- A fiber goes on when those that it runs side by side have come to an end. -/
theorem Continues.joined
    (turns : TurnsEach settings path join children 0 0 children.length k (.ended x) k') :
    Continues settings path (.joining join children point) k
      (.ready (point.resume (.unwind x))) k' := by
  rcases turns with ⟨least, turns⟩
  exact ⟨least, 1, fun fuel hfuel => by rw [turn, turns fuel hfuel]⟩

/-- A fiber waits while those that it runs side by side do. -/
theorem Turns.joining
    (turns : TurnsEach settings path join children 0 0 children.length k
      (.waiting join₁ children₁) k') :
    Turns settings path (.joining join children point) k
      (.waiting (.joining join₁ children₁ point)) k' := by
  rcases turns with ⟨least, turns⟩
  refine exists_enough_of_succ least fun fuel hfuel => ?_
  rw [turn, turns fuel hfuel]

end Whole

end Fiber

namespace GroupSpec

variable {C : GroupSpec σ} {group : FiberGroup σ} {k k' : Kernel σ} {c d : Child σ}
  {fiber : Option (Fiber σ)} {mine : Nat → Bool} {turns : Nat} {join : Join} {point : Suspension σ}
  {result : Option (Nat × Outcome)}

namespace Underway

/-- Nobody that is left is in the queue. -/
theorem not_woken_of_none (h : k.firstWoken? group.running = none) (hc : c ∈ group)
    (hsome : c.fiber.isSome = true) : c.id ∉ k.woken := by
  intro hwoken
  rcases Option.isSome_iff_exists.1 hsome with ⟨f, hf⟩
  have hnone := List.findSome?_eq_none_iff.1 h c.id hwoken
  have := List.find?_eq_none.1 hnone _ (FiberGroup.mem_running.2 ⟨c, hc, f, hf, rfl⟩)
  simp at this

/-- Whoever has not begun is one of those that are left. -/
theorem isSome_of_waiting (t : C.Underway group k) (hc : c ∈ group)
    (hbegun : c.begun = false) : c.fiber.isSome = true := by
  rcases (t.fresh c hc hbegun).2 with ⟨m, hm⟩
  rw [hm]
  rfl

/-- The first of them in the queue. If it has not begun, it is the first of those that have not. -/
theorem first (t : C.Underway group k) {id : FiberId} {position : Nat} {f : Fiber σ}
    (h : k.firstWoken? group.running = some (id, position, f)) :
    ∃ c ∈ group, c.fiber = some f ∧ id = c.id ∧ position = c.position ∧ c.id ∈ k.woken ∧
      (c.begun = false → ∀ d ∈ group, d.begun = false → c.position ≤ d.position) := by
  have found := Fiber.find?_of_firstWoken? h
  rcases FiberGroup.mem_running.1 (List.mem_of_find?_eq_some found) with ⟨c, hc, f, hf, heq⟩
  cases heq
  rcases List.findSome?_eq_some_iff.1 h with ⟨front, a, back, hwoken, ha, hfront⟩
  have hid : c.id = a := by simpa using List.find?_some ha
  subst hid
  refine ⟨c, hc, hf, rfl, rfl, by rw [hwoken]; simp, fun hbegun d hd hbegun' => ?_⟩
  -- Nobody in front of it is one of them, so it stands in front of those that have not begun.
  have none : front.filter group.awaits = [] := by
    refine List.filter_eq_nil_iff.2 fun h hh hawaits => ?_
    rcases FiberGroup.awaits_iff.1 hawaits with ⟨e, he, hbegun, rfl⟩
    rcases Option.isSome_iff_exists.1 (t.isSome_of_waiting he hbegun) with ⟨g, hg⟩
    have := List.find?_eq_none.1 (hfront e.id hh) _ (FiberGroup.mem_running.2 ⟨e, he, g, hg, rfl⟩)
    simp at this
  have own : group.awaits c.id = true := FiberGroup.awaits_iff.2 ⟨c, hc, hbegun, rfl⟩
  have order := t.order
  rw [hwoken, List.filter_append, none, List.nil_append, List.filter_cons_of_pos own] at order
  rcases hwaiting : group.waiting with _ | ⟨e, rest⟩
  · rw [hwaiting] at order
    cases order
  · rw [hwaiting, List.map_cons] at order
    have he : e ∈ group.waiting := by rw [hwaiting]; exact List.mem_cons_self
    have same := t.eq_of_id hc (List.mem_filter.1 he).1 (List.cons_eq_cons.1 order).1
    subst same
    have sorted : (group.waiting.map (·.position)).Pairwise (· < ·) :=
      t.sorted.sublist (List.filter_sublist.map _)
    rw [hwaiting, List.map_cons, List.pairwise_cons] at sorted
    have hd' : d ∈ group.waiting := List.mem_filter.2 ⟨hd, by simp [hbegun']⟩
    rw [hwaiting] at hd'
    rcases List.mem_cons.1 hd' with rfl | hd'
    · exact Nat.le_refl _
    · exact Nat.le_of_lt (sorted.1 _ (List.mem_map.2 ⟨d, hd', rfl⟩))

/-- One that ends now ends before the others that are left. -/
theorem precedes (t : C.Underway group k) (within : k.now ≤ C.horizon) (hc : c ∈ group)
    (hsome : c.fiber.isSome = true) {y : Outcome}
    (ends : (C.timings c.position).ends = some (k.now, y))
    (front : c.begun = false → ∀ d ∈ group, d.begun = false → c.position ≤ d.position) :
    ∀ i ∈ group.left, i ≠ c.position → Join.Precedes C.timings c.position i := by
  intro i hi hne s z hs s' z' hs'
  rw [ends] at hs
  cases hs
  rcases FiberGroup.mem_left.1 hi with ⟨d, hd, hsome', rfl⟩
  rcases Option.isSome_iff_exists.1 hsome' with ⟨f, hf⟩
  -- A child about which nothing is known has no end that could come first.
  have known : C.known d.position := by
    by_contra hnot
    rw [C.unknown hnot] at hs'
    cases hs'
  have attains := t.attains d hd known
  rw [hf] at attains
  have hle : k.now ≤ s' := (attains.onTime within s' (by simp [aim, Timing.aim, hs'])).1
  rcases Nat.lt_or_eq_of_le hle with hlt | rfl
  · exact .inl hlt
  · -- Neither of them ever waits, so neither of them has begun.
    have both := C.distinct [c.position, d.position] c.position (by simp) d.position (by simp)
      (Ne.symm hne) _ _ _ ends hs'
    have unbegun : ∀ e ∈ group, e.fiber.isSome = true → (C.timings e.position).prompt = true →
        e.begun = false := by
      intro e he hsome hprompt
      cases hbegun : e.begun with
      | false => rfl
      | true =>
          rw [t.prompt e he hbegun hsome] at hprompt
          cases hprompt
    have hle := front (unbegun c hc hsome both.1) d hd (unbegun d hd hsome' both.2)
    exact .inr ⟨rfl, both.1, both.2, Nat.lt_of_le_of_ne hle (Ne.symm hne)⟩

/-- A member that goes on as another fiber. -/
theorem running_after_some (t : C.Underway group k) (hc : c ∈ group)
    (hsome : c.fiber.isSome = true) (f : Fiber σ) :
    (group.after c.id (some f) mine turns).running = withChild c.id f group.running :=
  FiberGroup.running_after_some group c.id f mine turns fun d hd heq => by
    rw [t.eq_of_id hd hc heq]
    exact hsome

/-- The positions of the fibers that are left after one of them has ended. -/
theorem left_after_none (t : C.Underway group k) (hc : c ∈ group) :
    (group.after c.id none mine turns).left = group.left.filter (· != c.position) := by
  unfold FiberGroup.left
  rw [FiberGroup.running_after_none, withoutChild, List.filter_map]
  refine congrArg (List.map _) (List.filter_congr fun child hchild => ?_)
  rcases FiberGroup.mem_running.1 hchild with ⟨d, hd, f, hf, rfl⟩
  by_cases heq : d.id = c.id
  · cases t.eq_of_id hd hc heq
    simp
  · have hne := t.ne_position hd hc heq
    simp only [Function.comp_apply, bne_iff_ne.2 heq, bne_iff_ne.2 hne]

/-- Nothing has happened to the fiber itself. -/
theorem running_after_self (t : C.Underway group k) (hc : c ∈ group) :
    (group.after c.id c.fiber mine turns).running = group.running := by
  unfold FiberGroup.running FiberGroup.after
  rw [List.filterMap_map]
  refine List.filterMap_congr fun d hd => ?_
  by_cases heq : d.id = c.id
  · cases t.eq_of_id hd hc heq
    simp [Child.after]
  · simp [Child.after, heq]

/-- There are less turns to come. -/
theorem turns_after (t : C.Underway group k) (hc : c ∈ group) (less : turns < c.turns) :
    (group.after c.id fiber mine turns).turns < group.turns := by
  unfold FiberGroup.turns FiberGroup.after
  rw [List.map_map]
  refine List.sum_lt_sum _ _ (fun d hd => ?_) ⟨c, hc, ?_⟩
  · by_cases heq : d.id = c.id
    · cases t.eq_of_id hd hc heq
      simpa [Child.after] using Nat.le_of_lt less
    · simp [Child.after, heq]
  · simpa [Child.after] using less

end Underway

/-- A group on its way to what a join comes to. -/
structure Completing (C : GroupSpec σ) (join : Join) (group : FiberGroup σ)
    (result : Option (Nat × Outcome)) (k : Kernel σ) : Prop where
  /-- All members are on their way. -/
  underway : C.Underway group k
  /-- Before any fiber about which nothing is known there is one that has not had a turn and will
      decide the whole in its first turn. -/
  guarded : ∀ c ∈ group, ¬C.known c.position → ∃ d ∈ group, C.known d.position ∧
    d.begun = false ∧ d.position < c.position ∧ (C.timings d.position).prompt = true ∧
      ∀ s y, (C.timings d.position).ends = some (s, y) → join.settles y = true
  /-- What the join comes to. -/
  hasResult : Join.HasResult C.timings C.horizon join k.now group.left result

namespace Completing

/-- The first of those that have not begun is one about which something is known. Otherwise it would
    stand behind a member that decides the whole at once, which has not begun either. -/
theorem known_of_first (h : C.Completing join group result k) (hc : c ∈ group)
    (front : c.begun = false → ∀ d ∈ group, d.begun = false → c.position ≤ d.position) :
    C.known c.position := by
  by_contra hnot
  rcases h.guarded c hc hnot with ⟨d, hd, -, hbegun, hlt, -⟩
  have hbegun' : c.begun = false := by
    cases hc' : c.begun with
    | false => rfl
    | true => exact absurd (h.underway.begun c hc hc') hnot
  exact Nat.not_le_of_lt hlt (front hbegun' d hd hbegun)

/-- The fiber that has something happen to it is not one that decides the whole in its first turn,
    so the others are still guarded. -/
theorem guarded_after {join' : Join} (h : C.Completing join group result k) (hc : c ∈ group)
    (known : C.known c.position)
    (other : c.begun = true ∨ (C.timings c.position).prompt = false ∨
      ∃ s y, (C.timings c.position).ends = some (s, y) ∧ join.settles y = false)
    (same : ∀ y, join'.settles y = join.settles y) :
    ∀ e ∈ group.after c.id fiber mine turns, ¬C.known e.position →
      ∃ d ∈ group.after c.id fiber mine turns, C.known d.position ∧ d.begun = false ∧
        d.position < e.position ∧ (C.timings d.position).prompt = true ∧
        ∀ s y, (C.timings d.position).ends = some (s, y) → join'.settles y = true := by
  intro e he hnot
  rcases (h.underway.mem_after hc).1 he with rfl | ⟨he, -⟩
  · exact absurd known hnot
  · rcases h.guarded e he hnot with ⟨d, hd, hknown, hbegun, hlt, hprompt, hsettles⟩
    refine ⟨d, (h.underway.mem_after hc).2 (.inr ⟨hd, fun heq => ?_⟩), hknown, hbegun, hlt, hprompt,
      fun s y hends => (same y).trans (hsettles s y hends)⟩
    cases h.underway.eq_of_id hd hc heq
    -- The guard in front of `e` is not this child: it has not begun, is prompt, and settles the
    -- join.
    rcases other with hbegun' | hprompt' | ⟨s, y, hends, hopen⟩
    · rw [hbegun] at hbegun'
      cases hbegun'
    · rw [hprompt] at hprompt'
      cases hprompt'
    · rw [hsettles s y hends] at hopen
      cases hopen

/-- As long as anything is left, only the members count. -/
theorem congr (h : C.Completing join group result k) (underway : C.Underway group k')
    (some : group.left ≠ []) : C.Completing join group result k' :=
  ⟨underway, h.guarded, h.hasResult.later some _⟩

/-- A fiber has had its turn and waits. -/
theorem after_waits (h : C.Completing join group result k) (hc : c ∈ group)
    (known : C.known c.position) (hsome : c.fiber.isSome = true) {f : Fiber σ}
    (prompt : (C.timings c.position).prompt = false)
    (behaves : (C.child c).Behaves c.mine mine k k')
    (attains : (C.child c).Attains (C.aim c) turns mine (some f) k') :
    C.Completing join (group.after c.id (some f) mine turns) result k' := by
  refine ⟨h.underway.after hc known behaves attains fun _ => prompt,
    h.guarded_after hc known (.inr (.inl prompt)) fun _ => rfl, ?_⟩
  -- The child is still on its way, so the same children are left.
  have left : (group.after c.id (some f) mine turns).left = group.left := by
    unfold FiberGroup.left
    rw [h.underway.running_after_some hc hsome, withChild, List.map_map]
    refine List.map_congr_left fun child _ => ?_
    by_cases heq : child.1 = c.id <;> simp [heq]
  rw [left]
  refine h.hasResult.later (List.ne_nil_of_mem (FiberGroup.mem_left.2 ⟨c, hc, hsome, rfl⟩)) _

/-- A fiber has had its turn and ended, and the others go on. -/
theorem after_ends (h : C.Completing join group result k) (hc : c ∈ group)
    (known : C.known c.position) {join' : Join} {y : Outcome}
    (behaves : (C.child c).Behaves c.mine mine k k')
    (attains : (C.child c).Attains (C.aim c) turns mine none k')
    (ends : (C.timings c.position).ends = some (k.now, y))
    (absorb : join.absorb c.position y = .right join')
    (hasResult : Join.HasResult C.timings C.horizon join' k.now
      (group.left.filter (· != c.position))
      result) :
    C.Completing join' (group.after c.id none mine turns) result k' := by
  -- Had this outcome settled the join, nothing would have been absorbed.
  have hopen : join.settles y = false := by
    cases hsettles : join.settles y with
    | false => rfl
    | true =>
        rw [Join.absorb_of_settles hsettles] at absorb
        cases absorb
  rcases Join.absorb_of_not_settles hopen c.position with ⟨join'', absorb', same⟩
  rw [absorb] at absorb'
  cases absorb'
  refine ⟨h.underway.after hc known behaves attains nofun,
    h.guarded_after hc known (.inr (.inr ⟨_, _, ends, hopen⟩)) same, ?_⟩
  rw [h.underway.left_after_none hc, show k'.now = k.now from behaves.clock]
  exact hasResult

end Completing

/-- Where the turns of fibers side by side lead. -/
inductive Round (C : GroupSpec σ) (group : FiberGroup σ) (result : Option (Nat × Outcome))
    (k : Kernel σ) : JoinTurn σ → Kernel σ → Prop where
  /-- The whole is decided. -/
  | decided {k' : Kernel σ} {x : Outcome} (mine : Nat → Bool)
      (behaves : C.whole.Behaves group.mine mine k k') (now : result = some (k'.now, x))
      (errands : ∀ task ∈ k'.tasksOf mine, task.work.IsErrand) :
      Round C group result k (.ended x) k'
  /-- The fibers that are left wait, and some have had their turns, unless none of them was in the
      queue. -/
  | waits {join' : Join} {group' : FiberGroup σ} {k' : Kernel σ}
      (behaves : C.whole.Behaves group.mine group'.mine k k')
      (completing : C.Completing join' group' result k') (wholeWoken : C.WholeWoken group' k')
      (some : group'.left ≠ [])
      (turns : group'.turns < group.turns ∨ group' = group ∧ k' = k ∧
        ∀ c ∈ group, c.fiber.isSome = true → c.id ∉ k.woken) :
      Round C group result k (.waiting join' group'.running) k'

/-- One of them has its turn first. -/
theorem Round.after {group₁ : FiberGroup σ} {k₁ : Kernel σ} {r : JoinTurn σ}
    (behaves : C.whole.Behaves group.mine group₁.mine k k₁) (less : group₁.turns < group.turns)
    (rest : Round C group₁ result k₁ r k') : Round C group result k r k' := by
  cases rest with
  | decided mine behaves' now errands => exact .decided mine (behaves.trans behaves') now errands
  | waits behaves' completing wholeWoken some turns =>
      refine .waits (behaves.trans behaves') completing wholeWoken some (.inl ?_)
      rcases turns with turns | ⟨rfl, -⟩
      · exact Nat.lt_trans turns less
      · exact less

/-- What comes of the turn of the first of the fibers that is in the queue. -/
inductive FirstTurn (C : GroupSpec σ) (join : Join) (group : FiberGroup σ)
    (result : Option (Nat × Outcome)) (k : Kernel σ) (id : FiberId) (position : Nat) (f : Fiber σ) :
    Prop where
  /-- It waits, and the whole is on its way still. -/
  | waits {f' : Fiber σ} {group' : FiberGroup σ} {k' : Kernel σ}
      (turn : f.Turns C.whole.settings (id :: C.whole.path) (k.unwake id) (.waiting f') k')
      (behaves : C.whole.Behaves group.mine group'.mine k k')
      (fewer : group'.turns < group.turns)
      (running : group'.running = withChild id f' group.running)
      (some : group'.left ≠ []) (completing : C.Completing join group' result k') :
      FirstTurn C join group result k id position f
  /-- It ends, and that decides the whole. -/
  | decides {x y : Outcome} {group' : FiberGroup σ} {k' : Kernel σ}
      (turn : f.Turns C.whole.settings (id :: C.whole.path) (k.unwake id) (.ended x) k')
      (behaves : C.whole.Behaves group.mine group'.mine k k')
      (running : group'.running = withoutChild id group.running)
      (absorb : join.absorb position x = .left y) (now : result = some (k'.now, y))
      (underway : C.Underway group' k') :
      FirstTurn C join group result k id position f
  /-- It ends, and the others go on. -/
  | goesOn {x : Outcome} {join' : Join} {group' : FiberGroup σ} {k' : Kernel σ}
      (turn : f.Turns C.whole.settings (id :: C.whole.path) (k.unwake id) (.ended x) k')
      (behaves : C.whole.Behaves group.mine group'.mine k k')
      (fewer : group'.turns < group.turns)
      (running : group'.running = withoutChild id group.running)
      (absorb : join.absorb position x = .right join')
      (completing : C.Completing join' group' result k') :
      FirstTurn C join group result k id position f

/-- A decided whole leaves those that are still waiting behind. -/
theorem Underway.leaveAll (t : C.Underway group k) :
    C.whole.Behaves group.mine group.mine k (k.leaveAll (Fiber.handlesEach group.running)) ∧
      ∀ task ∈ (k.leaveAll (Fiber.handlesEach group.running)).tasksOf group.mine,
        task.work.IsErrand := by
  refine ⟨FiberPlace.behaves_leaveAll (fun h hh => t.mine_of_mem_numbersEach
    (Fiber.handlesEach_subset_numbers _ hh)) k, fun task htask => t.errand ?_⟩
  rcases k.leaveAll_eq (Fiber.handlesEach group.running) with ⟨slots, heq⟩
  rw [heq] at htask
  exact htask

namespace Completing

/-- The first of the fibers that is in the queue has its turn. If it ends, it does so before all
    others that are left. -/
theorem firstTurn (h : C.Completing join group result k) (within : k.now ≤ C.horizon) {id : FiberId}
    {position : Nat} {f : Fiber σ} (hfirst : k.firstWoken? group.running = some (id, position, f)) :
    C.FirstTurn join group result k id position f := by
  rcases h.underway.first hfirst with ⟨c, hc, hf, rfl, rfl, hwoken, front⟩
  have hsome : c.fiber.isSome = true := by rw [hf]; rfl
  have known := h.known_of_first hc front
  have attains := h.underway.attains c hc known
  rw [hf] at attains
  -- The turn begins with the child taken off the queue.
  have unwoken : (C.child c).Behaves c.mine c.mine k (k.unwake c.id) :=
    FiberPlace.behaves_unwake (FiberPlace.owns_id _) (h.underway.child_valid hc).apart k
  rcases attains.turn within hwoken with ⟨m, less, turn⟩
  rcases turn with ⟨prompt, f', mine', k', turn, behaves, attains'⟩ |
    ⟨x, mine', k', turn, behaves, ends, attains'⟩
  · have did := unwoken.trans behaves
    exact .waits turn (h.underway.whole_behaves hc known did) (h.underway.turns_after hc less)
      (h.underway.running_after_some hc hsome f')
      (List.ne_nil_of_mem (FiberGroup.mem_left.2
        ⟨_, (h.underway.mem_after hc).2 (.inl rfl), rfl, rfl⟩))
      (h.after_waits hc known hsome prompt did attains')
  · have did := unwoken.trans behaves
    have clock : k'.now = k.now := did.clock
    have ends' : (C.timings c.position).ends = some (k.now, x) := clock ▸ ends
    have running := FiberGroup.running_after_none group c.id mine' m
    rcases h.hasResult.step (FiberGroup.mem_left.2 ⟨c, hc, hsome, rfl⟩) ends' within
      (h.underway.precedes within hc hsome ends' front) with
      ⟨y, absorb, now⟩ | ⟨join', absorb, hasResult⟩
    · exact .decides turn (h.underway.whole_behaves hc known did) running absorb (clock ▸ now)
        (h.underway.after hc known did attains' nofun)
    · exact .goesOn turn (h.underway.whole_behaves hc known did) (h.underway.turns_after hc less)
        running absorb (h.after_ends hc known did attains' ends' absorb hasResult)

/-- The turns of fibers side by side, until they all wait or the whole is decided. The induction is
    on how many turns of theirs are still to come. -/
theorem turnsEach (h : C.Completing join group result k) (within : k.now ≤ C.horizon)
    (waiting gaveWay count : Nat) :
    ∃ r k', Fiber.TurnsEach C.whole.settings C.whole.path join group.running waiting gaveWay count k
      r k' ∧ Round C group result k r k' := by
  -- Every turn takes one off the turns left to the group, and the next child is looked for in what
  -- is left.
  induction hn : group.turns using Nat.strongRecOn generalizing group join k waiting gaveWay
    count with
  | ind n ih =>
      cases hfirst : k.firstWoken? group.running with
      | none =>
          by_cases hnil : group.running = []
          · -- All have ended.
            have hasResult := h.hasResult
            unfold FiberGroup.left at hasResult
            rw [hnil] at hasResult ⊢
            exact ⟨_, _, .none _ _ _ k, .decided _ (.refl _ k) hasResult.last fun task htask =>
              h.underway.errand htask⟩
          · have none : ∀ c ∈ group, c.fiber.isSome = true → c.id ∉ k.woken := fun c hc =>
              Underway.not_woken_of_none hfirst hc
            exact ⟨_, _, .quiet hfirst hnil, .waits (.refl _ k) h
              (fun c hc hsome hwoken => absurd hwoken (none c hc hsome))
              (fun hleft => hnil (List.map_eq_nil_iff.1 hleft)) (.inr ⟨rfl, rfl, none⟩)⟩
      | some child =>
          rcases child with ⟨id, position, f⟩
          cases h.firstTurn within hfirst with
          | @waits f' group' k₁ turn behaves fewer running some completing =>
              -- The round ends early, with the whole woken again, after two turns given away or
              -- when all have waited.
              by_cases enough : 2 ≤ (if k₁.isWoken id then gaveWay + 1 else gaveWay) ∨
                  waiting + 1 = count
              · refine ⟨_, _, .enough hfirst turn enough, ?_⟩
                have queued : C.whole.id ∈ (k₁.wake C.whole.path).woken := by
                  rw [Kernel.wake_enqueue]
                  exact mem_enqueueAll.2 (.inr List.mem_cons_self)
                exact running ▸ .waits (behaves.trans (FiberPlace.behaves_wake _ k₁))
                  (completing.congr completing.underway.wake some) (fun _ _ _ _ => queued) some
                  (.inl fewer)
              · rcases ih _ (hn ▸ fewer) completing (behaves.clock ▸ within) (waiting + 1)
                  (if k₁.isWoken id then gaveWay + 1 else gaveWay) count rfl with
                  ⟨r, k', rest, round⟩
                exact ⟨r, k', .waits hfirst turn enough (running ▸ rest), round.after behaves fewer⟩
          | decides turn behaves running absorb now underway =>
              have left := underway.leaveAll
              rw [running] at left
              exact ⟨_, _, .decided hfirst turn absorb, .decided _ (behaves.trans left.1)
                (left.1.clock ▸ now) left.2⟩
          | @goesOn x join' group' k₁ turn behaves fewer running absorb completing =>
              rcases ih _ (hn ▸ fewer) completing
                (behaves.clock ▸ within) 0 0 group'.running.length rfl
                with ⟨r, k', rest, round⟩
              rw [running] at rest
              exact ⟨r, k', .more hfirst turn absorb rest, round.after behaves fewer⟩

/-- One of the errands has its turn. -/
theorem after_errand (h : C.Completing join group result k) (hc : c ∈ group)
    (known : C.known c.position) (begun : c.begun = true)
    (behaves : (C.child c).Behaves c.mine mine k k')
    (attains : (C.child c).Attains (C.aim c) turns mine c.fiber k') :
    C.Completing join (group.after c.id c.fiber mine turns) result k' := by
  refine ⟨h.underway.after hc known behaves attains (h.underway.prompt c hc begun),
    h.guarded_after hc known (.inl begun) fun _ => rfl, ?_⟩
  unfold FiberGroup.left
  rw [h.underway.running_after_self hc, show k'.now = k.now from behaves.clock]
  exact h.hasResult

/-- Nothing of the whole should have been woken already. -/
theorem ahead (h : C.Completing join group result k) (wholeWoken : C.WholeWoken group k)
    (within : k.now ≤ C.horizon) :
    C.whole.Ahead group.mine (some (.joining join group.running point)) k := by
  intro quiet time wakes
  -- A wake-up is some child's or some errand's, and each child known is ahead of its own.
  have own : ∀ c ∈ group, C.known c.position → FiberPlace.Wakes c.mine c.fiber k time →
      k.now < time := fun c hc known wakes =>
    (h.underway.attains c hc known).ahead within (wholeWoken.quiet hc quiet) time wakes
  rcases wakes with ⟨f, hf, hwake⟩ | ⟨task, htask, hwake⟩
  · cases hf
    rcases FiberGroup.exists_nextWake hwake with ⟨c, hc, f, hf, hwake⟩
    by_cases known : C.known c.position
    · exact own c hc known (.inl ⟨f, hf, hwake⟩)
    · -- Whoever has not begun does not wait for a point in time.
      have hbegun : c.begun = false := by
        cases hbegun : c.begun with
        | false => rfl
        | true => exact absurd (h.underway.begun c hc hbegun) known
      rcases (h.underway.fresh c hc hbegun).2 with ⟨m, hm⟩
      rw [hf] at hm
      cases hm
      cases hwake
  · rcases h.underway.owner htask with ⟨c, hc, known, hers⟩
    exact own c hc known (.inr ⟨task, hers, hwake⟩)

/-- The whole is not late for what the join comes to. -/
theorem onTime (h : C.Completing join group result k) (wholeWoken : C.WholeWoken group k)
    (some : group.left ≠ []) (within : k.now ≤ C.horizon) {point' : Suspension σ} :
    C.whole.OnTime (.onward result point' C.horizon) group.mine
      (.joining join group.running point) k := by
  intro time htime
  rcases Option.map_eq_some_iff.1 htime with ⟨⟨time, x⟩, hresult, rfl⟩
  -- Something has to end by then, and it is not late for that.
  rcases h.hasResult.some_ends some hresult with ⟨i, hi, s, y, hends, hle⟩
  rcases FiberGroup.mem_left.1 hi with ⟨c, hc, hsome, rfl⟩
  rcases Option.isSome_iff_exists.1 hsome with ⟨f, hf⟩
  have known : C.known c.position := by
    by_contra hnot
    rw [C.unknown hnot] at hends
    cases hends
  have attains := h.underway.attains c hc known
  rw [hf] at attains
  rcases attains.onTime within s (by simp [aim, Timing.aim, hends]) with ⟨soon, own⟩
  refine ⟨Nat.le_trans soon hle, fun quiet within => ?_⟩
  rcases own (hf ▸ wholeWoken.quiet hc quiet) (Nat.le_trans hle within) with ⟨wake, hwake, hsooner⟩
  rcases wakes_of_mem hc (by rw [hf]; exact hwake) with ⟨first, hfirst, hsoonest⟩
  exact ⟨first, hfirst, Nat.le_trans hsoonest (Nat.le_trans hsooner hle)⟩

end Completing

/-- If one of those that are left is in the queue then so is the whole, whatever happens
    meanwhile. -/
theorem WholeWoken.meanwhile (wholeWoken : C.WholeWoken group k) (t : C.Underway group k)
    (meanwhile : C.whole.Meanwhile group.mine (some (.joining join group.running point)) k k') :
    C.WholeWoken group k' := by
  rcases meanwhile.time with ⟨-, woken⟩ | ⟨-, -, -, woken⟩
  · intro c hc hsome hwoken
    refine (FiberPlace.mem_woken_congr woken (FiberPlace.owns_id _)).2 (wholeWoken c hc hsome ?_)
    exact (FiberPlace.mem_woken_congr woken
      (FiberPlace.owns_of_mine (mine_of_owns hc c.owns_id))).1 hwoken
  · exact (t.woken_later woken).1

/-- So it is after an errand of one of them. -/
theorem WholeWoken.after_errand (wholeWoken : C.WholeWoken group k) (t : C.Underway group k)
    (hc : c ∈ group) (behaves : (C.child c).Behaves c.mine mine k k') :
    C.WholeWoken (group.after c.id c.fiber mine turns) k' := by
  intro e he hsome hwoken
  have mem : C.whole.id ∈ (C.child c).around := List.mem_cons_self
  rcases (t.mem_after hc).1 he with rfl | ⟨he, hne⟩
  -- The child may have been woken before its errand or by it; either way the whole is woken with
  -- it.
  · by_cases hbefore : c.id ∈ k.woken
    · exact behaves.around _ mem (wholeWoken c hc hsome hbefore)
    · exact behaves.carries c.id List.mem_cons_self hwoken hbefore _ mem
  · have same := FiberPlace.filter_of_filter (r := fun h => h == e.id) behaves.woken fun h hh => by
      rw [beq_iff_eq.1 hh]
      exact t.not_woken hc he (Ne.symm hne) behaves e.owns_id
    have hbefore : e.id ∈ k.woken := by
      have : e.id ∈ k'.woken.filter (· == e.id) := List.mem_filter.2 ⟨hwoken, by simp⟩
      rw [same] at this
      exact (List.mem_filter.1 this).1
    exact behaves.around _ mem (wholeWoken e he hsome hbefore)

/-- The turns that the whole needs are less than so many. It needs two for each turn of one of its
    members: the one in which that has its turn, and perhaps one in which nobody is in the queue
    any more. -/
def Patient (C : GroupSpec σ) (group : FiberGroup σ) (k : Kernel σ) (n : Nat) : Prop :=
  2 * group.turns < n ∧ (C.whole.id ∈ k.woken →
    (∀ c ∈ group, c.fiber.isSome = true → c.id ∉ k.woken) → 2 * group.turns + 1 < n)

/-- What happens meanwhile uses up no turn. -/
theorem Patient.meanwhile {n : Nat} (patient : C.Patient group k n) (t : C.Underway group k)
    (meanwhile : C.whole.Meanwhile group.mine (some (.joining join group.running point)) k k') :
    C.Patient group k' n := by
  refine ⟨patient.1, fun hwoken none => ?_⟩
  rcases meanwhile.time with ⟨-, woken⟩ | ⟨-, -, -, woken⟩
  · refine patient.2 ((FiberPlace.mem_woken_congr woken (FiberPlace.owns_id _)).1 hwoken)
      fun c hc hsome hwoken' => none c hc hsome ?_
    exact (FiberPlace.mem_woken_congr woken
      (FiberPlace.owns_of_mine (mine_of_owns hc c.owns_id))).2 hwoken'
  · rcases (t.woken_later woken).2 hwoken with ⟨c, hc, hsome, hwoken'⟩
    exact absurd hwoken' (none c hc hsome)

namespace Completing

/-- In a turn of the whole either the join comes to something, or the whole is on its way still. -/
theorem attainsInTurn {n : Nat} (h : C.Completing join group result k) (within : k.now ≤ C.horizon)
    (enough : 2 * group.turns ≤ n)
    (patient : (∀ c ∈ group, c.fiber.isSome = true → c.id ∉ k.woken) → C.Patient group k n)
    (next : ∀ {join' : Join} {group' : FiberGroup σ} {k' : Kernel σ},
      C.Completing join' group' result k' → C.WholeWoken group' k' → group'.left ≠ [] →
      C.Patient group' k' n → C.whole.Attains (.onward result point C.horizon) n group'.mine
        (some (.joining join' group'.running point)) k') :
    C.whole.AttainsInTurn (.onward result point C.horizon)
      (C.whole.Attains (.onward result point C.horizon) n) group.mine
      (.joining join group.running point) k := by
  rcases h.turnsEach within 0 0 group.running.length with ⟨r, k', turns, round⟩
  cases round with
  | decided mine behaves now errands =>
      exact .inr ⟨_, mine, k', now, behaves, errands, .joined turns⟩
  | @waits join' group' k' behaves completing wholeWoken some progress =>
      refine .inl ⟨rfl, _, group'.mine, k', .joining turns, behaves,
        next completing wholeWoken some ?_⟩
      -- A round makes progress: a turn was used, or nothing was woken and the whole goes back to
      -- waiting.
      rcases progress with fewer | ⟨rfl, rfl, none⟩
      · exact ⟨by omega, fun _ _ => by omega⟩
      · exact patient none

/-- The whole goes on from what the join comes to, when it does. The induction is on how many turns
    the whole has. -/
theorem attains (n : Nat) (h : C.Completing join group result k) (wholeWoken : C.WholeWoken group k)
    (some : group.left ≠ []) (patient : C.Patient group k n) :
    C.whole.Attains (.onward result point C.horizon) n group.mine
      (.some (.joining join group.running point)) k := by
  -- Time goes by first; then either the whole has its turn or one of its errands runs, and each
  -- uses up one of `n`.
  induction n generalizing join group k with
  | zero => exact absurd patient.1 (Nat.not_lt_zero _)
  | succ n ih =>
      refine ⟨h.underway.tidy, fun k' meanwhile within => ?_⟩
      have h' := h.congr (h.underway.meanwhile wholeWoken meanwhile) some
      have wholeWoken' := wholeWoken.meanwhile h.underway meanwhile
      have patient' := patient.meanwhile h.underway meanwhile
      refine ⟨h'.ahead wholeWoken' within, fun f hf => ?_, fun task htask hwoken => ?_⟩
      · cases hf
        refine ⟨h'.onTime wholeWoken' some within, fun hwoken => ?_⟩
        refine (h'.congr h'.underway.unwake some).attainsInTurn within
          (by have := patient'.1; omega)
          (fun none => ⟨?_, fun hmem => ?_⟩)
          fun h wholeWoken some patient => ih h wholeWoken some patient
        · have := patient'.2 hwoken fun c hc hsome hc' => none c hc hsome
            (List.mem_filter.2 ⟨hc', by
              have := h'.underway.not_owns_path hc (h := C.whole.id) List.mem_cons_self
              have hne : c.id ≠ C.whole.id := fun heq => by
                rw [← heq, c.owns_id] at this
                cases this
              simpa using hne⟩)
          omega
        · simp [Kernel.unwake] at hmem
      · rcases h'.underway.owner htask with ⟨c, hc, known, hers⟩
        -- An errand belongs to a child that has had a turn, since a new child owns nothing but its
        -- number.
        have begun : c.begun = true := by
          cases hbegun : c.begun with
          | true => rfl
          | false =>
              have := (List.mem_filter.1 hers).2
              rw [(h'.underway.fresh c hc hbegun).1] at this
              cases this
        rcases (h'.underway.attains c hc known).errand within hers hwoken with
          ⟨m, less, mine', k'', runs, behaves, attains⟩
        have fewer : (group.after c.id c.fiber mine' m).turns < group.turns :=
          h'.underway.turns_after hc less
        have running : (group.after c.id c.fiber mine' m).running = group.running :=
          h'.underway.running_after_self hc
        have left : (group.after c.id c.fiber mine' m).left ≠ [] := by
          unfold FiberGroup.left
          rw [running]
          exact some
        have rest := ih (h'.after_errand hc known begun behaves attains)
          (wholeWoken'.after_errand h'.underway hc behaves) left
          ⟨by have := patient'.1; omega, fun _ _ => by have := patient'.1; omega⟩
        rw [running] at rest
        exact ⟨_, k'', runs, h'.underway.whole_behaves hc known behaves, rest⟩

end Completing

end GroupSpec

end EffectKernel
