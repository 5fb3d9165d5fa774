import EffectKernel.Schedule
import Mathlib.Data.ENat.Lattice

/-!
# How Long Schedules Last

Whether a schedule must stop can be asked before it has been run, and the answer is read off its
tree. What it is about is what happens later, from whatever state the schedule is run: one that it
has come to by itself, one of another schedule, or one out of a file.

Between the two stands a number. How often a schedule goes on from a state can be counted on the
tree and the state together, where there may be no end of it. A union lasts as long as the side
that lasts longer, an intersection as long as the side that does not, and where the state does not
fit the schedule, nothing is left. A step uses up exactly one of what is left, and there is a step
as long as something is (`Schedule.lasts_eq`), so the number is no bound but what a run comes to.

A policy that counts how often it has been asked never runs out, also where its count has come to
the top and stays there.

## Main definitions

* `Schedule.lasts`: How often a schedule goes on from a state.
* `Schedule.GoesOn`: A schedule goes on so often.

## Theorems

* `Schedule.lasts_eq`: A step uses up one of what is left.
* `Schedule.length_delaysFrom`: There are as many waits as are left.
* `Schedule.lasts_ne_top`: A schedule that must stop runs out of every state.
* `Schedule.lasts_initial`: A schedule that need not stop never runs out of its first state.
* `isBounded_iff_stops`: Whether a schedule must stop is told exactly.
-/

namespace EffectKernel

namespace Schedule

/-- How often a schedule goes on from a state, whether it is one of its own or not. -/
noncomputable def lasts : Schedule → ScheduleState → ℕ∞
  | .recurs _, .recurs remaining => remaining.toNat
  | .forever, .attempt _ | .spaced _, .attempt _ | .linear _, .attempt _
  | .exponential _ _, .attempt _ | .fibonacci _, .attempt _ => ⊤
  | .union left right, .union s t =>
    max (match s with | some s => left.lasts s | none => 0)
      (match t with | some t => right.lasts t | none => 0)
  | .intersect left right, .intersect s t => min (left.lasts s) (right.lasts t)
  | .capped inner _, .capped s => inner.lasts s
  | _, _ => 0

/-- A schedule goes on so often, from one state to another. -/
inductive GoesOn (s : Schedule) : Nat → ScheduleState → ScheduleState → Prop where
  /-- Not at all. -/
  | here {state} : GoesOn s 0 state state
  /-- Once, and then the other times. -/
  | again {n state delay next last} (step : s.step state = .again delay next)
      (rest : GoesOn s n next last) : GoesOn s (n + 1) state last

/-- What is left after a decision, the continuation that was decided on included. -/
noncomputable def lastsAfter (s : Schedule) : Decision → ℕ∞
  | .again _ next => s.lasts next + 1
  | .stop => 0

variable {s left right inner : Schedule} {state : ScheduleState} {limit : Duration}

/-- Of two policies that are followed together the one that lasts longer counts. -/
theorem lastsAfter_union (a b : Decision) :
    (Schedule.union left right).lastsAfter (unionDecision a b) =
      max (left.lastsAfter a) (right.lastsAfter b) := by
  cases a with
  | again d s =>
      cases b with
      | again e t => exact (max_add_add_right _ _ _).symm
      | stop =>
          -- The side that has stopped is gone, so the other one is all that is left.
          simp only [unionDecision, lastsAfter, lasts, zero_le, sup_of_le_left]
  | stop =>
      cases b with
      | again e t => simp only [unionDecision, lastsAfter, lasts, zero_le, sup_of_le_right]
      | stop => exact (max_self 0).symm

/-- If both have to agree it is the one that ends sooner. -/
theorem lastsAfter_intersect (a b : Decision) :
    (Schedule.intersect left right).lastsAfter (intersectDecision a b) =
      min (left.lastsAfter a) (right.lastsAfter b) := by
  cases a with
  | again d s =>
      cases b with
      | again e t => exact (min_add_add_right _ _ _).symm
      | stop => exact (min_eq_right zero_le).symm
  | stop => cases b <;> exact (min_eq_left zero_le).symm

/-- To cut the waits of a policy does not change how long it lasts. -/
theorem lastsAfter_capped (a : Decision) :
    (Schedule.capped inner limit).lastsAfter (cappedDecision limit a) = inner.lastsAfter a := by
  cases a <;> rfl

/-- A step uses up one of what is left, and there is none if nothing is left. -/
theorem lasts_eq (s : Schedule) (state : ScheduleState) :
    s.lasts state = s.lastsAfter (s.step state) := by
  -- Along the tree. A state of another shape than the schedule expects makes it stop at once.
  induction s generalizing state with
  | recurs times =>
      cases state with
      | recurs remaining =>
          unfold step
          by_cases none : remaining = 0
          · rw [if_pos none, none]
            rfl
          · rw [if_neg none]
            have more : remaining.toNat ≠ 0 := fun h => none (UInt32.toNat_inj.1 h)
            have one : (1 : UInt32).toNat = 1 := rfl
            have less : (remaining - 1).toNat = remaining.toNat - 1 :=
              UInt32.toNat_sub_of_le remaining 1 (UInt32.le_iff_toNat_le.2 (by omega))
            have whole : remaining.toNat = (remaining - 1).toNat + 1 := by omega
            exact congrArg Nat.cast whole
      | attempt n => rfl
      | union s t => rfl
      | intersect s t => rfl
      | capped s => rfl
  | forever => cases state <;> rfl
  | spaced delay => cases state <;> rfl
  | linear base => cases state <;> rfl
  | exponential base factor => cases state <;> rfl
  | fibonacci base => cases state <;> rfl
  | union left right ihl ihr =>
      cases state with
      | union s t =>
          -- A side that is gone has nothing left, as if it were to stop now.
          have onLeft : (match s with | some s => left.lasts s | none => 0) =
              left.lastsAfter (match s with | some s => left.step s | none => .stop) := by
            cases s with
            | none => rfl
            | some s => exact ihl s
          have onRight : (match t with | some t => right.lasts t | none => 0) =
              right.lastsAfter (match t with | some t => right.step t | none => .stop) := by
            cases t with
            | none => rfl
            | some t => exact ihr t
          exact (congrArg₂ max onLeft onRight).trans (lastsAfter_union _ _).symm
      | recurs n => rfl
      | attempt n => rfl
      | intersect s t => rfl
      | capped s => rfl
  | intersect left right ihl ihr =>
      cases state with
      | intersect s t =>
          exact (congrArg₂ min (ihl s) (ihr t)).trans (lastsAfter_intersect _ _).symm
      | recurs n => rfl
      | attempt n => rfl
      | union s t => rfl
      | capped s => rfl
  | capped inner limit ih =>
      cases state with
      | capped s =>
          exact (ih s).trans (lastsAfter_capped _).symm
      | recurs n => rfl
      | attempt n => rfl
      | union s t => rfl
      | intersect s t => rfl

/-- One side of a union may stand in a state of another schedule, and be gone from there on, while
    the other one is counted down. -/
example : (Schedule.union (.recurs 3) (.recurs 9)).lasts
    (.union (some (.recurs 2)) (some (.attempt 7))) = 2 := rfl

/-- There are as many waits as are left, if so many are looked at. -/
theorem length_delaysFrom (s : Schedule) (limit : Nat) (state : ScheduleState) :
    ((s.delaysFrom limit state).length : ℕ∞) = min (limit : ℕ∞) (s.lasts state) := by
  induction limit generalizing state with
  | zero => exact (min_eq_left zero_le).symm
  | succ limit ih =>
      rw [lasts_eq, delaysFrom]
      cases s.step state with
      | again delay next =>
          simp only [lastsAfter, List.length_cons]
          rw [Nat.cast_add, Nat.cast_add, Nat.cast_one, ih, min_add_add_right]
      | stop => exact (min_eq_right zero_le).symm

/-- The first of some continuations, and the others. -/
theorem goesOn_succ {n : Nat} {last : ScheduleState} :
    s.GoesOn (n + 1) state last ↔
      ∃ delay next, s.step state = .again delay next ∧ s.GoesOn n next last := by
  constructor
  · intro run
    cases run with
    | again step rest => exact ⟨_, _, step, rest⟩
  · rintro ⟨delay, next, step, rest⟩
    exact .again step rest

/-- A schedule goes on as often as anything is left, and no more often. -/
theorem exists_goesOn_iff {n : Nat} :
    (∃ last, s.GoesOn n state last) ↔ (n : ℕ∞) ≤ s.lasts state := by
  -- One decision more is one more that the schedule lasts, and after a stop it lasts no longer.
  induction n generalizing state with
  | zero => exact iff_of_true ⟨state, .here⟩ zero_le
  | succ n ih =>
      rw [lasts_eq]
      simp only [goesOn_succ]
      cases s.step state with
      | again delay next =>
          simp only [lastsAfter, Nat.cast_add, Nat.cast_one,
            ENat.add_le_add_iff_right ENat.one_ne_top, ← ih, Decision.again.injEq]
          constructor
          · rintro ⟨last, _, _, ⟨rfl, rfl⟩, rest⟩
            exact ⟨last, rest⟩
          · rintro ⟨last, rest⟩
            exact ⟨last, _, _, ⟨rfl, rfl⟩, rest⟩
      | stop =>
          simp only [lastsAfter, reduceCtorEq, false_and, exists_false, false_iff]
          rw [Nat.cast_add, Nat.cast_one, not_le]
          exact add_pos_of_right zero_lt_one _

/-- A schedule stops after just so many continuations as are left, if there is an end of them. -/
theorem exists_stop_iff {n : Nat} :
    (∃ last, s.GoesOn n state last ∧ s.step last = .stop) ↔ s.lasts state = n := by
  constructor
  · rintro ⟨last, run, stop⟩
    induction run with
    | here => rw [lasts_eq, stop, lastsAfter, Nat.cast_zero]
    | again step rest ih =>
        rw [lasts_eq, step, lastsAfter, ih stop, Nat.cast_add, Nat.cast_one]
  · intro left
    obtain ⟨last, run⟩ := exists_goesOn_iff.2 (le_of_eq left.symm)
    refine ⟨last, run, ?_⟩
    cases decision : s.step last with
    | stop => rfl
    | again delay next =>
        -- One more continuation would be one more than are left.
        have more : s.GoesOn (n + 1) state next := by
          clear left
          induction run with
          | here => exact .again decision .here
          | again step rest ih => exact .again step (ih decision)
        have bound := exists_goesOn_iff.1 ⟨next, more⟩
        rw [left, Nat.cast_le] at bound
        omega

/-- A schedule that must stop runs out of whatever state. -/
theorem lasts_ne_top (bounded : s.isBounded = true) (state : ScheduleState) :
    s.lasts state ≠ ⊤ := by
  induction s generalizing state with
  | recurs times => cases state <;> exact ENat.natCast_ne_top _
  | forever => cases bounded
  | spaced delay => cases bounded
  | linear base => cases bounded
  | exponential base factor => cases bounded
  | fibonacci base => cases bounded
  | union left right ihl ihr =>
      rw [isBounded, Bool.and_eq_true] at bounded
      cases state with
      | union s t =>
          -- Both sides run out, also if one of them is gone already.
          have onLeft : (match s with | some s => left.lasts s | none => 0) ≠ ⊤ := by
            cases s with
            | none => exact ENat.zero_ne_top
            | some s => exact ihl bounded.1 s
          have onRight : (match t with | some t => right.lasts t | none => 0) ≠ ⊤ := by
            cases t with
            | none => exact ENat.zero_ne_top
            | some t => exact ihr bounded.2 t
          exact (max_lt (lt_top_iff_ne_top.2 onLeft) (lt_top_iff_ne_top.2 onRight)).ne
      | _ => exact ENat.zero_ne_top
  | intersect left right ihl ihr =>
      rw [isBounded, Bool.or_eq_true] at bounded
      cases state with
      | intersect s t =>
          rw [lasts, ← lt_top_iff_ne_top, min_lt_iff, lt_top_iff_ne_top, lt_top_iff_ne_top]
          exact bounded.imp (ihl · s) (ihr · t)
      | _ => exact ENat.zero_ne_top
  | capped inner limit ih =>
      cases state with
      | capped s => exact ih bounded s
      | _ => exact ENat.zero_ne_top

/-- A schedule that need not stop never runs out of the state that it starts from. -/
theorem lasts_initial (unbounded : s.isBounded = false) : s.lasts s.initial = ⊤ := by
  induction s with
  | recurs times => cases unbounded
  | forever => rfl
  | spaced delay => rfl
  | linear base => rfl
  | exponential base factor => rfl
  | fibonacci base => rfl
  | union left right ihl ihr =>
      rw [initial, lasts]
      -- One side is enough.
      rcases (Bool.and_eq_false_iff).1 unbounded with onLeft | onRight
      · exact max_eq_top.2 (.inl (ihl onLeft))
      · exact max_eq_top.2 (.inr (ihr onRight))
  | intersect left right ihl ihr =>
      rcases (Bool.or_eq_false_iff).1 unbounded with ⟨onLeft, onRight⟩
      rw [initial, lasts, ihl onLeft, ihr onRight, min_self]
  | capped inner limit ih => exact ih unbounded

/-- A schedule must stop exactly if it runs out of every state. -/
theorem isBounded_eq_true_iff : s.isBounded = true ↔ ∀ state, s.lasts state ≠ ⊤ := by
  refine ⟨lasts_ne_top, fun ends => ?_⟩
  by_contra unbounded
  exact ends s.initial (lasts_initial (Bool.eq_false_of_not_eq_true unbounded))

/-- It need not stop exactly if it does not run out of the state that it starts from. -/
theorem isBounded_eq_false_iff :
    s.isBounded = false ↔ ∀ n : Nat, (n : ℕ∞) ≤ s.lasts s.initial := by
  rw [← ENat.eq_top_iff_forall_ge]
  refine ⟨lasts_initial, fun forever => ?_⟩
  by_contra bounded
  exact lasts_ne_top (Bool.eq_true_of_not_eq_false bounded) s.initial forever

end Schedule

/-- Whether a schedule must stop is told exactly. If it is said to, it stops after some number of
    continuations from every state, whether it is one of its own or not; and if it is not said to,
    it goes on any number of times from the state that it starts from, so that it has as many waits
    as are asked for. How often it goes on can be counted for any schedule and any state, and there
    are as many waits. -/
theorem isBounded_iff_stops (s : Schedule) :
    (s.isBounded = true ↔
      ∀ state, ∃ n last, s.GoesOn n state last ∧ s.step last = .stop) ∧
    (s.isBounded = false ↔ ∀ n, ∃ last, s.GoesOn n s.initial last) ∧
    (s.isBounded = false ↔ ∀ limit, (s.delays limit).length = limit) ∧
    (∀ n state, (∃ last, s.GoesOn n state last ∧ s.step last = .stop) ↔ s.lasts state = n) ∧
    ∀ limit state,
      ((s.delaysFrom limit state).length : ℕ∞) = min (limit : ℕ∞) (s.lasts state) := by
  refine ⟨?_, ?_, ?_, fun n state => Schedule.exists_stop_iff, s.length_delaysFrom⟩
  · rw [Schedule.isBounded_eq_true_iff]
    simp only [Schedule.exists_stop_iff, ENat.ne_top_iff_exists]
    exact forall_congr' fun state => exists_congr fun n => eq_comm
  · rw [Schedule.isBounded_eq_false_iff]
    simp only [Schedule.exists_goesOn_iff]
  · rw [Schedule.isBounded_eq_false_iff]
    refine forall_congr' fun limit => ?_
    -- There are as many waits as asked for exactly if so many are left.
    rw [← min_eq_left_iff, ← s.length_delaysFrom limit s.initial, Nat.cast_inj]
    rfl

end EffectKernel
