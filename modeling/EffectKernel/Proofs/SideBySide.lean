import EffectKernel.Fiber.Turn
import EffectKernel.Machine.Step
import Mathlib.Data.List.Basic

/-!
# Effects Side by Side

Fibers that run side by side, compared with effects that run in order. What a join knows
of fibers of which some have ended is what a frame knows that waits for the next child, so
there is a machine on the spot for every join and the children that are left
(`Join.machine`). The end of a child means the same to both (`Join.step_machine`).

The fibers are numbered on as they are put in the queue, behind everybody who is in it.
While they have their turns they stay in order, and what their turns add to the queue comes
behind all of them: so the first of them in the queue is always the next child.

## Main definitions

* `Join.machine`: What a run on the spot does where a join is.
* `Join.Counts`: How much a join knows.
* `lineUp`: Fibers that have not had a turn.
* `Kernel.Queued`: The queue while fibers are in it that have not had a turn.

## Theorems

* `Join.step_machine`: The end of a child, to a join and to a frame.
* `Kernel.enlist_eq`, `Kernel.queued_enlist`: Fibers are put in the queue in order.
* `Kernel.Queued.firstWoken?`: The next child is the first of them in the queue.
* `Kernel.Queued.unwake`: When it has its turn, the others stay in order.
-/

namespace EffectKernel

variable {σ : Type}

namespace Join

/-- The frame that waits for a child, where the rest of them is run in order. -/
def frame (rest : List (Effect σ)) : Join → Frame σ
  | .gather _ collect ends => .all rest collect (ends.map (·.2))
  | .compete _ => .race rest

/-- What a run on the spot does where a join is: it runs the next child that is left, or it
    ends as the join does. -/
def machine (join : Join) (env : Context) (stack : List (Frame σ)) :
    List (Effect σ) → Machine σ
  | [] => ⟨.unwind join.outcome, env, stack⟩
  | e :: rest => ⟨.eval e, env, join.frame rest :: stack⟩

/-- A join knows how the children before a position have ended, the latest first, and so
    many of them are left. -/
def Counts (position left : Nat) : Join → Prop
  | .gather total _ ends =>
    ends.map (·.1) = (List.range position).reverse ∧ total = position + left
  | .compete _ => True

theorem counts_gather (collect : Collect) (total : Nat) :
    (gather total collect []).Counts 0 total :=
  ⟨rfl, (Nat.zero_add total).symm⟩

theorem counts_compete (lastFailure : Option Value) (position left : Nat) :
    (compete lastFailure).Counts position left :=
  trivial

/-- Ends that are known in the order of the positions, the latest first. -/
theorem inOrder_eq {n : Nat} {ends : List (Nat × Either Value Value)}
    (h : ends.map (·.1) = (List.range n).reverse) :
    inOrder n ends = (ends.map (·.2)).reverse := by
  induction n generalizing ends with
  | zero =>
      rw [List.map_eq_nil_iff.1 h]
      rfl
  | succ n ih =>
      rw [List.range_succ, List.reverse_append] at h
      rcases List.map_eq_cons_iff.1 h with ⟨⟨position, last⟩, before, rfl, rfl, hbefore⟩
      -- The latest end is at the last position, so at the others the same is found.
      have hsame : ∀ p ∈ List.range position,
          (((position, last) :: before).find? (·.1 == p)).map (·.2) =
            (before.find? (·.1 == p)).map (·.2) := by
        intro p hp
        rw [List.find?_cons_of_neg]
        have hne := Nat.ne_of_gt (List.mem_range.1 hp)
        simpa using hne
      unfold inOrder at ih ⊢
      rw [List.range_succ, List.filterMap_append, List.filterMap_congr hsame, ih hbefore]
      simp

/-- The end of a child, to a join and to the frame that waits where the join is: it
    decides the whole, or the next child has its turn. -/
theorem step_machine {join : Join} {position : Nat} {rest : List (Effect σ)}
    (counts : join.Counts position (rest.length + 1)) (settings : Settings) (x : Outcome)
    (env : Context) (stack : List (Frame σ)) (w : World σ) :
    (∃ y, join.absorb position x = .left y ∧
      Machine.step settings ⟨.unwind x, env, join.frame rest :: stack⟩ w =
        (.next ⟨.unwind y, env, stack⟩, w)) ∨
    ∃ join', join.absorb position x = .right join' ∧ join'.Counts (position + 1) rest.length ∧
      Machine.step settings ⟨.unwind x, env, join.frame rest :: stack⟩ w =
        (.next (join'.machine env stack rest), w) := by
  cases join with
  | compete last =>
      cases x with
      | success v => exact .inl ⟨_, rfl, rfl⟩
      | die d => exact .inl ⟨_, rfl, rfl⟩
      | fail e =>
          refine .inr ⟨_, rfl, trivial, ?_⟩
          cases rest <;> rfl
  | gather total collect ends =>
      rcases counts with ⟨hends, htotal⟩
      -- One more end, and the others as they were.
      have known : ∀ (x : Either Value Value),
          (Join.gather total collect ((position, x) :: ends)).Counts (position + 1)
            rest.length := by
        intro x
        refine ⟨?_, by omega⟩
        rw [List.map_cons, hends, List.range_succ, List.reverse_append]
        rfl
      have last : ∀ (x : Either Value Value), rest = [] →
          (Join.gather total collect ((position, x) :: ends)).outcome =
            .success (Outcome.toList (x :: ends.map (·.2)).reverse) := by
        rintro x rfl
        rcases known x with ⟨hends', htotal'⟩
        rw [List.length_nil, Nat.add_zero] at htotal'
        simp only [outcome]
        rw [htotal', inOrder_eq hends']
        rfl
      cases x with
      | success v =>
          refine .inr ⟨_, rfl, known _, ?_⟩
          cases rest with
          | nil =>
              simp only [machine, last _ rfl]
              rfl
          | cons next rest => rfl
      | die d => exact .inl ⟨_, by cases collect <;> rfl, by cases collect <;> rfl⟩
      | fail e =>
          cases collect with
          | shortCircuit => exact .inl ⟨_, rfl, rfl⟩
          | every =>
              refine .inr ⟨_, rfl, known _, ?_⟩
              cases rest with
              | nil =>
                  simp only [machine, last _ rfl]
                  rfl
              | cons next rest => rfl

end Join

/-- Children that are collected begin where a join of all of them is. -/
theorem Machine.startAll_eq_machine (children : List (Effect σ)) (collect : Collect)
    (env : Context) (stack : List (Frame σ)) :
    startAll children collect env stack =
      (Join.gather children.length collect []).machine env stack children := by
  cases children <;> rfl

/-- Children that are tried begin where a join of all of them is. -/
theorem Machine.startRace_eq_machine (children : List (Effect σ)) (env : Context)
    (stack : List (Frame σ)) :
    startRace children env stack = (Join.compete none).machine env stack children := by
  cases children <;> rfl

/-- Fibers that have not had a turn, numbered on and in order. -/
def lineUp (env : Context) : List (Effect σ) → Nat → Nat → List (FiberId × Nat × Fiber σ)
  | [], _, _ => []
  | e :: rest, id, position =>
    (id, position, .ready (Machine.start e env)) :: lineUp env rest (id + 1) (position + 1)

section LineUp

variable {env : Context} {effects : List (Effect σ)} {id position : Nat}

theorem le_of_mem_lineUp {child : FiberId × Nat × Fiber σ}
    (h : child ∈ lineUp env effects id position) : id ≤ child.1 := by
  induction effects generalizing id position with
  | nil => cases h
  | cons e rest ih =>
      rcases List.mem_cons.1 h with rfl | h
      · exact Nat.le_refl _
      · exact Nat.le_of_succ_le (ih h)

/-- When the first of them has gone, the others are left. -/
theorem withoutChild_lineUp (e : Effect σ) :
    withoutChild id (lineUp env (e :: effects) id position) =
      lineUp env effects (id + 1) (position + 1) := by
  unfold withoutChild
  rw [lineUp, List.filter_cons_of_neg (by simp)]
  refine List.filter_eq_self.2 fun child hchild => ?_
  have hlt := le_of_mem_lineUp hchild
  simpa using Nat.ne_of_gt hlt

/-- Nobody among them waits for a handle. -/
theorem handlesEach_lineUp : Fiber.handlesEach (lineUp env effects id position) = [] := by
  induction effects generalizing id position with
  | nil => rfl
  | cons e rest ih => exact ih

end LineUp

namespace Kernel

/-- Nobody in the queue has a number that is still to be given out. -/
def Numbered (k : Kernel σ) : Prop :=
  ∀ id : Nat, id ∈ k.woken → id < k.fresh

/-- Fibers with these numbers are in the queue one after the other. Before them are some
    with smaller numbers, and behind them some with greater ones. -/
structure Queued (before : List Nat) (id count : Nat) (k : Kernel σ) : Prop where
  /-- Those before them have smaller numbers. -/
  early : ∀ i ∈ before, i < id
  /-- All of the numbers have been given out. -/
  given : id + count ≤ k.fresh
  /-- They stand in order, and those behind them have greater numbers. -/
  woken : ∃ after : List Nat, k.woken = before ++ (List.range' id count ++ after) ∧
    ∀ i ∈ after, id + count ≤ i ∧ i < k.fresh

/-- What turns do to the queue, to the numbers and to the tasks: some may be in the queue
    behind those named, with numbers from the given one on, and that is all. -/
structure Follows (before : List Nat) (least : Nat) (k k' : Kernel σ) : Prop where
  /-- There are the same tasks. -/
  tasks : k'.tasks = k.tasks
  /-- No number is given out twice. -/
  fresh : k.fresh ≤ k'.fresh
  /-- Those who have been added have new numbers. -/
  woken : ∃ stale : List Nat, k'.woken = before ++ stale ∧ ∀ i ∈ stale, least ≤ i ∧ i < k'.fresh

variable {k k' : Kernel σ} {before : List Nat} {id count : Nat} {env : Context}

/-- The world does not matter to it. -/
theorem Follows.moved (k : Kernel σ) (w : World σ) :
    Follows k.woken k.fresh k { k with world := w } :=
  ⟨rfl, Nat.le_refl _, [], (List.append_nil _).symm, fun _ h => by cases h⟩

/-- One turn after another. -/
theorem Follows.trans {k₁ : Kernel σ} {least : Nat} (first : Follows before least k k₁)
    (low : least ≤ k.fresh) (second : Follows k₁.woken k₁.fresh k₁ k') :
    Follows before least k k' := by
  rcases first with ⟨tasks, fresh, stale, hwoken, hstale⟩
  rcases second with ⟨tasks', fresh', stale', hwoken', hstale'⟩
  refine ⟨tasks'.trans tasks, Nat.le_trans fresh fresh', stale ++ stale', ?_, fun i hi => ?_⟩
  · rw [hwoken', hwoken, List.append_assoc]
  · rcases List.mem_append.1 hi with hi | hi
    · have := hstale i hi
      omega
    · have := hstale' i hi
      omega

/-- What turns do to the queue after one of them. -/
theorem Follows.after {k₁ : Kernel σ} {least least' : Nat}
    (second : Follows before least' k₁ k') (low : least ≤ least')
    (tasks : k₁.tasks = k.tasks) (fresh : k.fresh ≤ k₁.fresh) : Follows before least k k' := by
  rcases second with ⟨tasks', fresh', stale, hwoken, hstale⟩
  exact ⟨tasks'.trans tasks, Nat.le_trans fresh fresh', stale, hwoken,
    fun i hi => ⟨Nat.le_trans low (hstale i hi).1, (hstale i hi).2⟩⟩

theorem Queued.numbered (h : Queued before id count k) : k.Numbered := by
  rcases h with ⟨early, given, after, hwoken, hafter⟩
  intro i hi
  rw [hwoken] at hi
  rcases List.mem_append.1 hi with hi | hi
  · have := early i hi
    omega
  · rcases List.mem_append.1 hi with hi | hi
    · have := (List.mem_range'_1.1 hi).2
      omega
    · exact (hafter i hi).2

/-- If they never have a turn, they are left in the queue. -/
theorem Queued.follows (h : Queued before id count k) : Follows before id k k := by
  rcases h with ⟨early, given, after, hwoken, hafter⟩
  refine ⟨rfl, Nat.le_refl _, _, hwoken, fun i hi => ?_⟩
  rcases List.mem_append.1 hi with hi | hi
  · have := List.mem_range'_1.1 hi
    omega
  · have := hafter i hi
    omega

/-- A turn leaves them in order. -/
theorem Queued.keeps (h : Queued before id count k) (turn : Follows k.woken k.fresh k k') :
    Queued before id count k' := by
  rcases h with ⟨early, given, after, hwoken, hafter⟩
  rcases turn with ⟨-, fresh, stale, hwoken', hstale⟩
  refine ⟨early, Nat.le_trans given fresh, after ++ stale, ?_, fun i hi => ?_⟩
  · rw [hwoken', hwoken]
    simp only [List.append_assoc]
  · rcases List.mem_append.1 hi with hi | hi
    · have := hafter i hi
      omega
    · have := hstale i hi
      omega

/-- When the first of them has its turn, the others stay in order. -/
theorem Queued.unwake (h : Queued before id (count + 1) k) :
    Queued before (id + 1) count (k.unwake id) := by
  rcases h with ⟨early, given, after, hwoken, hafter⟩
  -- The number of the first is nowhere else in the queue.
  have stays : ∀ {items : List Nat}, id ∉ items → items.filter (· != id) = items :=
    fun hid => List.filter_eq_self.2 fun i hi => by
      simpa using fun heq : i = id => hid (heq ▸ hi)
  refine ⟨fun i hi => Nat.lt_succ_of_lt (early i hi), ?_, after, ?_, fun i hi => ?_⟩
  · show id + 1 + count ≤ k.fresh
    omega
  · show k.woken.filter (· != id) = _
    rw [hwoken, List.range'_succ, List.cons_append, List.filter_append,
      stays fun hid => Nat.lt_irrefl _ (early id hid), List.filter_cons_of_neg (by simp),
      stays fun hid => ?_]
    rcases List.mem_append.1 hid with hid | hid
    · have := (List.mem_range'_1.1 hid).1
      omega
    · have := (hafter id hid).1
      omega
  · show id + 1 + count ≤ i ∧ i < k.fresh
    have := hafter i hi
    omega

/-- The next child is the first of them in the queue. -/
theorem Queued.firstWoken? {e : Effect σ} {rest : List (Effect σ)} {position : Nat}
    (h : Queued before id (rest.length + 1) k) :
    k.firstWoken? (lineUp env (e :: rest) id position) =
      some (id, position, .ready (Machine.start e env)) := by
  rcases h with ⟨early, given, after, hwoken, hafter⟩
  -- Those before them in the queue have smaller numbers.
  have passed : before.findSome? (fun i =>
      (lineUp env (e :: rest) id position).find? (·.1 == i)) = none := by
    refine List.findSome?_eq_none_iff.2 fun i hi => List.find?_eq_none.2 fun child hchild => ?_
    have hlt := Nat.lt_of_lt_of_le (early i hi) (le_of_mem_lineUp hchild)
    simpa using Nat.ne_of_gt hlt
  unfold Kernel.firstWoken?
  rw [hwoken, List.findSome?_append, passed, Option.none_or, List.range'_succ]
  simp [lineUp]

theorem firstWoken?_nil (k : Kernel σ) : k.firstWoken? [] = none :=
  List.findSome?_eq_none_iff.2 fun _ _ => rfl

/-- Fibers are numbered and put in the queue in order. -/
theorem enlist_eq {effects : List (Effect σ)} {position : Nat} (h : k.Numbered) :
    enlist env effects position k =
      (lineUp env effects k.fresh position,
        { k with
          woken := k.woken ++ List.range' k.fresh effects.length
          fresh := k.fresh + effects.length }) := by
  induction effects generalizing k position with
  | nil =>
      unfold enlist lineUp
      simp only [List.length_nil, List.range'_zero, List.append_nil, Nat.add_zero]
  | cons e rest ih =>
      -- The number is a new one, so it goes to the end of the queue.
      have hnew : k.fresh ∉ k.woken := fun hmem => Nat.lt_irrefl _ (h _ hmem)
      have hwoken : k.draw.2.wakeOne k.fresh =
          { k with woken := k.woken ++ [k.fresh], fresh := k.fresh + 1 } := by
        unfold wakeOne draw
        rw [if_neg hnew]
      have hnumbered : (k.draw.2.wakeOne k.fresh).Numbered := by
        rw [hwoken]
        intro i hi
        rcases List.mem_append.1 hi with hi | hi
        · exact Nat.lt_succ_of_lt (h i hi)
        · rw [List.mem_singleton.1 hi]
          exact Nat.lt_succ_self _
      have hrest := @ih (k.draw.2.wakeOne k.fresh) (position + 1) hnumbered
      rw [hwoken] at hrest
      have hdraw : k.draw.2.wakeOne k.draw.1 = _ := hwoken
      simp only [enlist, hdraw, hrest]
      simp only [lineUp, draw, List.length_cons, List.range'_succ, List.append_assoc,
        List.singleton_append, Nat.add_assoc, Nat.add_comm 1]

/-- Fibers that have just been put in the queue are in it. -/
theorem queued_enlist {effects : List (Effect σ)} {position : Nat} (h : k.Numbered) :
    Queued k.woken k.fresh effects.length (enlist env effects position k).2 := by
  rw [enlist_eq h]
  exact ⟨h, Nat.le_refl _, [], by rw [List.append_nil], fun _ hi => by cases hi⟩

end Kernel

end EffectKernel
