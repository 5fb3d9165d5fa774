import EffectKernel.Schedule
import Mathlib.Order.BoundedOrder.Lattice
import Mathlib.Order.MinMax
import Mathlib.Order.WithBot

/-!
# Schedules as Sequences

What a schedule means, read off its tree and without a state: for every number of earlier
continuations, the wait before the next one, or that there is none. Not to go on is the
greatest of all waits. A union is then the smaller of its two sides at every place and an
intersection the greater one, so the laws of schedules are those of minimum and maximum.

The state that is threaded through the steps of a schedule is an account of how many
continuations there have been. `Schedule.Stands` says which states account for which
number. A side of a union that has gone stands where the sequence of that side has stopped,
and it may be forgotten because a sequence that has stopped stays stopped. In a state that
stands, a step finds what it expects at every node of the tree, and leads to a state that
stands one place further.

## Main definitions

* `Schedule.delayAt`: The wait at a place, or the top if there is none.
* `Schedule.Stands`: A state that accounts for so many continuations.
* `Schedule.Alike`: Two schedules with the same waits, however many are looked at.

## Theorems

* `Schedule.delayAt_add_eq_top`: A sequence that has stopped stays stopped.
* `Schedule.Stands.step`: A step is told by the sequence.
* `Schedule.delays_eq_takeWhile`: The waits of a schedule are its sequence up to its stop.
* `delays_are_pointwise`: The waits of a schedule, and the laws that hold of them.
-/

namespace EffectKernel

/-- Spans are ordered by their length. -/
instance : LinearOrder Duration :=
  LinearOrder.lift Duration.nanos (fun _ _ => Duration.eq_of_nanos_eq)
    (fun a b => by
      show (if a ≤ b then b else a).nanos = _
      split
      · next h => exact (max_eq_right h).symm
      · next h => exact (max_eq_left (Nat.le_of_not_le h)).symm)
    (fun a b => by
      show (if a ≤ b then a else b).nanos = _
      split
      · next h => exact (min_eq_left h).symm
      · next h => exact (min_eq_right (Nat.le_of_not_le h)).symm)

theorem Duration.zero_le (d : Duration) : Duration.zero ≤ d :=
  Nat.zero_le d.nanos

/-- The count of a policy that has been asked so many times: it has 32 bits and stays at the top. -/
def countAt (i : Nat) : UInt32 :=
  UInt32.ofNat (min i 0xFFFFFFFF)

theorem toNat_countAt (i : Nat) : (countAt i).toNat = min i 0xFFFFFFFF :=
  UInt32.toNat_ofNat_of_lt' (by simp only [UInt32.size]; omega)

theorem saturatingSucc_countAt (i : Nat) : saturatingSucc (countAt i) = countAt (i + 1) := by
  have here := toNat_countAt i
  apply UInt32.toNat_inj.1
  rw [toNat_countAt]
  unfold saturatingSucc
  -- Past the greatest count both sides stay there.
  split
  · next top =>
      have highest : (0xFFFFFFFF : UInt32).toNat = 0xFFFFFFFF := rfl
      rw [top] at here ⊢
      omega
  · next low =>
      have below : (countAt i).toNat ≠ 0xFFFFFFFF := fun h => low (UInt32.toNat_inj.1 h)
      have one : (1 : UInt32).toNat = 1 := rfl
      rw [UInt32.toNat_add, here, one]
      omega

namespace Schedule

/-- The wait of a schedule after so many continuations. Where it has stopped, this is the top. -/
def delayAt : Schedule → Nat → WithTop Duration
  | .recurs times, i => if i < times.toNat then Duration.zero else ⊤
  | .forever, i => delayFor .forever (countAt i)
  | .spaced delay, i => delayFor (.spaced delay) (countAt i)
  | .linear base, i => delayFor (.linear base) (countAt i)
  | .exponential base factor, i => delayFor (.exponential base factor) (countAt i)
  | .fibonacci base, i => delayFor (.fibonacci base) (countAt i)
  | .union left right, i => min (left.delayAt i) (right.delayAt i)
  | .intersect left right, i => max (left.delayAt i) (right.delayAt i)
  | .capped inner limit, i => (inner.delayAt i).map (min · limit)

/-- A sequence that has stopped stays stopped. -/
theorem delayAt_add_eq_top {s : Schedule} {i : Nat} (stopped : s.delayAt i = ⊤) (k : Nat) :
    s.delayAt (i + k) = ⊤ := by
  -- A union stops when both have, an intersection when one has, and a cap never changes it.
  induction s with
  | recurs times =>
      unfold delayAt at stopped ⊢
      split at stopped
      · cases stopped
      · exact if_neg (by omega)
  | forever | spaced | linear | exponential | fibonacci => cases stopped
  | union left right ihl ihr =>
      unfold delayAt at stopped ⊢
      rcases min_eq_top.1 stopped with ⟨hl, hr⟩
      rw [ihl hl, ihr hr, min_self]
  | intersect left right ihl ihr =>
      unfold delayAt at stopped ⊢
      rcases max_choice (left.delayAt i) (right.delayAt i) with h | h
      · rw [ihl (h ▸ stopped), top_sup_eq]
      · rw [ihr (h ▸ stopped), sup_top_eq]
  | capped inner limit ih =>
      unfold delayAt at stopped ⊢
      rw [ih ((WithTop.map_eq_top_iff).1 stopped), WithTop.map_top]

/-- A policy that only counts how often it has been asked. -/
def Counts : Schedule → Prop
  | .forever | .spaced _ | .linear _ | .exponential _ _ | .fibonacci _ => True
  | _ => False

/-- A policy that counts starts from zero, and has a wait at every count. -/
theorem Counts.delay {s : Schedule} (counts : s.Counts) (i : Nat) :
    s.initial = .attempt (countAt 0) ∧ ∃ d, s.delayFor (countAt i) = some d ∧ s.delayAt i = d := by
  cases s <;> first | exact ⟨rfl, _, rfl, rfl⟩ | exact counts.elim

/-- The states that account for so many continuations of a schedule. -/
inductive Stands : Schedule → Nat → ScheduleState → Prop where
  /-- What is left and what has been used up make the whole. -/
  | recurs {times left i} (whole : left.toNat + i = times.toNat) :
      Stands (.recurs times) i (.recurs left)
  /-- They have been counted. -/
  | counting {s i} (counts : s.Counts) : Stands s i (.attempt (countAt i))
  /-- Each side stands there, or has stopped and is gone. -/
  | union {left right i s t} (onLeft : ∀ state, s = some state → Stands left i state)
      (onRight : ∀ state, t = some state → Stands right i state)
      (goneLeft : s = none → left.delayAt i = ⊤) (goneRight : t = none → right.delayAt i = ⊤) :
      Stands (.union left right) i (.union s t)
  /-- Both sides stand there. -/
  | intersect {left right i s t} (onLeft : Stands left i s) (onRight : Stands right i t) :
      Stands (.intersect left right) i (.intersect s t)
  /-- The inner policy stands there. -/
  | capped {inner limit i s} (inside : Stands inner i s) :
      Stands (.capped inner limit) i (.capped s)

/-- A schedule starts from a state in which it has not continued yet. -/
theorem stands_initial (s : Schedule) : Stands s 0 s.initial := by
  induction s with
  | recurs times => exact .recurs rfl
  | forever | spaced | linear | exponential | fibonacci => exact .counting trivial
  | union left right ihl ihr =>
      refine .union ?_ ?_ (fun h => by cases h) (fun h => by cases h)
      · rintro _ ⟨⟩
        exact ihl
      · rintro _ ⟨⟩
        exact ihr
  | intersect left right ihl ihr => exact .intersect ihl ihr
  | capped inner limit ih => exact .capped ih

/-- A decision after so many continuations is told by the sequence. -/
inductive Told (s : Schedule) (i : Nat) : Decision → Prop where
  /-- It waits as long as the sequence says, and leads one place further. -/
  | again {delay : Duration} {state : ScheduleState} (wait : s.delayAt i = delay)
      (stands : s.Stands (i + 1) state) : Told s i (.again delay state)
  /-- The sequence has stopped. -/
  | stop (spent : s.delayAt i = ⊤) : Told s i .stop

variable {s : Schedule} {i : Nat}

/-- The decision of a union, from those of its two sides. -/
theorem Told.union {left right : Schedule} {a b : Decision} (onLeft : left.Told i a)
    (onRight : right.Told i b) : (Schedule.union left right).Told i (unionDecision a b) := by
  -- A side that stops now is gone from here on, and its sequence stays stopped.
  have gone : ∀ {r : Schedule}, r.delayAt i = ⊤ → r.delayAt (i + 1) = ⊤ := fun spent =>
    delayAt_add_eq_top spent 1
  cases onLeft with
  | @again d st wait stands =>
      cases onRight with
      | @again e st' wait' stands' =>
          refine .again ?_ (.union ?_ ?_ (fun h => by cases h) (fun h => by cases h))
          · rw [delayAt, wait, wait', WithTop.coe_min]
          · rintro _ ⟨⟩
            exact stands
          · rintro _ ⟨⟩
            exact stands'
      | stop spent =>
          refine .again ?_
            (.union ?_ (fun _ h => by cases h) (fun h => by cases h) fun _ => gone spent)
          · rw [delayAt, wait, spent, min_top_right]
          · rintro _ ⟨⟩
            exact stands
  | stop spent =>
      cases onRight with
      | @again e st' wait' stands' =>
          refine .again ?_
            (.union (fun _ h => by cases h) ?_ (fun _ => gone spent) fun h => by cases h)
          · rw [delayAt, wait', spent, min_top_left]
          · rintro _ ⟨⟩
            exact stands'
      | stop spent' => exact .stop (by rw [delayAt, spent, spent', min_self])

/-- The decision of an intersection, from those of its two sides. -/
theorem Told.intersect {left right : Schedule} {a b : Decision} (onLeft : left.Told i a)
    (onRight : right.Told i b) :
    (Schedule.intersect left right).Told i (intersectDecision a b) := by
  cases onLeft with
  | again wait stands =>
      cases onRight with
      | again wait' stands' =>
          exact .again (by rw [delayAt, wait, wait', WithTop.coe_max]) (.intersect stands stands')
      | stop spent => exact .stop (by rw [delayAt, spent, sup_top_eq])
  | stop spent =>
      cases onRight <;> exact .stop (by rw [delayAt, spent, top_sup_eq])

/-- In a state that stands, the step of a schedule is told by its sequence. In particular it never
    meets a state that does not fit. -/
theorem Stands.step {state : ScheduleState} (stands : s.Stands i state) :
    s.Told i (s.step state) := by
  induction stands with
  | @recurs times left i whole =>
      unfold Schedule.step
      split
      · next none =>
          subst none
          have zero : (0 : UInt32).toNat = 0 := rfl
          exact .stop (if_neg (by omega))
      · next more =>
          have pos : left.toNat ≠ 0 := fun h => more (UInt32.toNat_inj.1 h)
          have one : (1 : UInt32).toNat = 1 := rfl
          have less : (left - 1).toNat = left.toNat - 1 :=
            UInt32.toNat_sub_of_le left 1 (UInt32.le_iff_toNat_le.2 (by omega))
          exact .again (if_pos (by omega)) (.recurs (by omega))
  | @counting s i counts =>
      -- A counting schedule never stops, and its attempt number is the position in the sequence.
      rcases (counts.delay i).2 with ⟨d, found, wait⟩
      have step : s.step (.attempt (countAt i)) = s.stepCounting (countAt i) := by
        cases s <;> rfl
      rw [step, stepCounting, found, saturatingSucc_countAt]
      exact .again wait (.counting counts)
  | @union left right i s t onLeft onRight goneLeft goneRight ihl ihr =>
      unfold Schedule.step
      refine Told.union ?_ ?_
      · cases s with
        | some state => exact ihl state rfl
        | none => exact .stop (goneLeft rfl)
      · cases t with
        | some state => exact ihr state rfl
        | none => exact .stop (goneRight rfl)
  | intersect _ _ ihl ihr =>
      unfold Schedule.step
      exact ihl.intersect ihr
  | @capped inner limit i state _ ih =>
      unfold Schedule.step
      generalize inner.step state = decision at ih
      cases ih with
      | again wait stands => exact .again (by rw [delayAt, wait]; rfl) (.capped stands)
      | stop spent => exact .stop (by rw [delayAt, spent, WithTop.map_top])

/-- The waits from a state that stands. -/
theorem Stands.delaysFrom {state : ScheduleState} (stands : s.Stands i state) (limit : Nat) :
    (s.delaysFrom limit state).map WithTop.some =
      ((List.range' i limit).map s.delayAt).takeWhile (· ≠ ⊤) := by
  induction limit generalizing i state with
  | zero => rfl
  | succ limit ih =>
      have told := stands.step
      unfold Schedule.delaysFrom
      rw [List.range'_succ, List.map_cons, List.takeWhile_cons]
      generalize s.step state = decision at told
      cases told with
      | again wait next =>
          rw [wait, List.map_cons, ih next, if_pos (by simp)]
      | stop spent => rw [spent, if_neg (by simp), List.map_nil]

/-- The waits of a schedule are its sequence, cut off where it stops or at the limit. -/
theorem delays_eq_takeWhile (s : Schedule) (limit : Nat) :
    (s.delays limit).map WithTop.some =
      ((List.range limit).map s.delayAt).takeWhile (· ≠ ⊤) := by
  rw [List.range_eq_range']
  exact s.stands_initial.delaysFrom limit

/-- Two schedules have the same waits, however many are looked at. -/
def Alike (s t : Schedule) : Prop :=
  ∀ limit, s.delays limit = t.delays limit

/-- Schedules with one sequence are alike. -/
theorem alike_of_delayAt {s t : Schedule} (same : ∀ i, s.delayAt i = t.delayAt i) :
    s.Alike t := by
  intro limit
  apply (List.map_inj_right fun _ _ => WithTop.coe_inj.1).1
  rw [delays_eq_takeWhile, delays_eq_takeWhile, funext same]

/-- A policy cut off after so many times has the waits of the policy at these places. -/
theorem delayAt_withMaxRetries (s : Schedule) (n : UInt32) (i : Nat) :
    (s.withMaxRetries n).delayAt i = if i < n.toNat then s.delayAt i else ⊤ := by
  rw [withMaxRetries, delayAt]
  simp only [delayAt]
  split
  · cases s.delayAt i with
    | top => rfl
    | coe d => exact max_eq_left (WithTop.coe_le_coe.2 d.zero_le)
  · exact sup_top_eq _

/-- A sequence that is cut off at a place has been cut off where it stops or there. -/
theorem takeWhile_cutOff (f : Nat → WithTop Duration) (n i limit : Nat) :
    ((List.range' i limit).map fun j => if j < n then f j else ⊤).takeWhile (· ≠ ⊤) =
      (((List.range' i limit).map f).takeWhile (· ≠ ⊤)).take (n - i) := by
  induction limit generalizing i with
  | zero => exact List.take_nil.symm
  | succ limit ih =>
      rw [List.range'_succ, List.map_cons, List.map_cons, List.takeWhile_cons, List.takeWhile_cons,
        ih]
      -- Below the cut both take the element, and past it both are at their end.
      by_cases within : i < n
      · have more : n - i = n - (i + 1) + 1 := by omega
        rw [if_pos within, more]
        split
        · rfl
        · exact List.take_nil.symm
      · have spent : n - i = 0 := by omega
        rw [if_neg within, if_neg (by simp), spent, List.take_zero]

/-- A policy cut off after so many times has the first waits of the policy. -/
theorem delays_withMaxRetries (s : Schedule) (n : UInt32) (limit : Nat) :
    (s.withMaxRetries n).delays limit = (s.delays limit).take n.toNat := by
  apply (List.map_inj_right fun _ _ => WithTop.coe_inj.1).1
  rw [List.map_take, delays_eq_takeWhile, delays_eq_takeWhile, funext (delayAt_withMaxRetries s n),
    List.range_eq_range', takeWhile_cutOff, Nat.sub_zero]

/-- The laws of schedules, up to the waits that they have. -/
structure Laws : Prop where
  /-- The sides of a union may be exchanged. -/
  union_comm : ∀ a b : Schedule, (a.union b).Alike (b.union a)
  /-- So may those of an intersection. -/
  intersect_comm : ∀ a b : Schedule, (a.intersect b).Alike (b.intersect a)
  /-- A union of three may be grouped either way. -/
  union_assoc : ∀ a b c : Schedule, ((a.union b).union c).Alike (a.union (b.union c))
  /-- So may an intersection of three. -/
  intersect_assoc : ∀ a b c : Schedule,
    ((a.intersect b).intersect c).Alike (a.intersect (b.intersect c))
  /-- A union of two that are the same is that one. -/
  union_self : ∀ a : Schedule, (a.union a).Alike a
  /-- So is an intersection. -/
  intersect_self : ∀ a : Schedule, (a.intersect a).Alike a
  /-- A union absorbs an intersection. -/
  union_intersect_self : ∀ a b : Schedule, (a.union (a.intersect b)).Alike a
  /-- An intersection absorbs a union. -/
  intersect_union_self : ∀ a b : Schedule, (a.intersect (a.union b)).Alike a
  /-- A union distributes over an intersection. -/
  union_intersect : ∀ a b c : Schedule,
    (a.union (b.intersect c)).Alike ((a.union b).intersect (a.union c))
  /-- An intersection distributes over a union. -/
  intersect_union : ∀ a b c : Schedule,
    (a.intersect (b.union c)).Alike ((a.intersect b).union (a.intersect c))
  /-- A limit to the waits distributes over a union. -/
  withMaxDelay_union : ∀ (a b : Schedule) (limit : Duration),
    ((a.union b).withMaxDelay limit).Alike ((a.withMaxDelay limit).union (b.withMaxDelay limit))
  /-- And over an intersection. -/
  withMaxDelay_intersect : ∀ (a b : Schedule) (limit : Duration),
    ((a.intersect b).withMaxDelay limit).Alike
      ((a.withMaxDelay limit).intersect (b.withMaxDelay limit))

/-- A limit to the waits keeps their order. -/
theorem monotone_limit (limit : Duration) :
    Monotone (WithTop.map (min · limit) : WithTop Duration → WithTop Duration) :=
  Monotone.withTop_map fun _ _ h => min_le_min_right limit h

/-- The laws of schedules are those of minimum and maximum. -/
theorem laws : Laws where
  -- Point by point these are the laws of minimum and maximum in a linear order with a top.
  union_comm a b := alike_of_delayAt fun i => min_comm (a.delayAt i) (b.delayAt i)
  intersect_comm a b := alike_of_delayAt fun i => max_comm (a.delayAt i) (b.delayAt i)
  union_assoc a b c := alike_of_delayAt fun i => min_assoc (a.delayAt i) (b.delayAt i) (c.delayAt i)
  intersect_assoc a b c :=
    alike_of_delayAt fun i => max_assoc (a.delayAt i) (b.delayAt i) (c.delayAt i)
  union_self a := alike_of_delayAt fun i => min_self (a.delayAt i)
  intersect_self a := alike_of_delayAt fun i => max_self (a.delayAt i)
  union_intersect_self _ _ := alike_of_delayAt fun _ => inf_sup_self
  intersect_union_self _ _ := alike_of_delayAt fun _ => sup_inf_self
  union_intersect a b c :=
    alike_of_delayAt fun i => min_max_distrib_left (a.delayAt i) (b.delayAt i) (c.delayAt i)
  intersect_union a b c :=
    alike_of_delayAt fun i => max_min_distrib_left (a.delayAt i) (b.delayAt i) (c.delayAt i)
  withMaxDelay_union _ _ limit := alike_of_delayAt fun _ => (monotone_limit limit).map_min
  withMaxDelay_intersect _ _ limit := alike_of_delayAt fun _ => (monotone_limit limit).map_max

end Schedule

/-- The waits of every schedule are its sequence, cut off at the first place where it has stopped
    or at the limit; what has stopped stays stopped; and so the laws of minimum and maximum hold of
    schedules, and a policy cut off after so many times has the first waits of the policy. -/
theorem delays_are_pointwise (s : Schedule) :
    (∀ limit, (s.delays limit).map WithTop.some =
      ((List.range limit).map s.delayAt).takeWhile (· ≠ ⊤)) ∧
    (∀ i, s.delayAt i = ⊤ → ∀ k, s.delayAt (i + k) = ⊤) ∧
    Schedule.Laws ∧
    ∀ n limit, (s.withMaxRetries n).delays limit = (s.delays limit).take n.toNat :=
  ⟨s.delays_eq_takeWhile, fun _ stopped => Schedule.delayAt_add_eq_top stopped, Schedule.laws,
    s.delays_withMaxRetries⟩

namespace Sample

/-- One wait of nothing at once, and three of five milliseconds in all. -/
def onceOrThrice : Schedule :=
  .union (.recurs 1) (Schedule.withMaxRetries (.spaced (Duration.ofMillis 5)) 3)

end Sample

/-- The union goes on when its left side has gone, and stops with its right side. -/
theorem sample_delays_are_pointwise :
    Sample.onceOrThrice.delays 9 =
      [Duration.zero, Duration.ofMillis 5, Duration.ofMillis 5] ∧
    Sample.onceOrThrice.delayAt 3 = ⊤ ∧ (∀ k, Sample.onceOrThrice.delayAt (3 + k) = ⊤) ∧
    (Sample.onceOrThrice.withMaxRetries 2).delays 9 = [Duration.zero, Duration.ofMillis 5] := by
  rcases delays_are_pointwise Sample.onceOrThrice with ⟨-, stays, -, first⟩
  have waits : Sample.onceOrThrice.delays 9 =
      [Duration.zero, Duration.ofMillis 5, Duration.ofMillis 5] := rfl
  have spent : Sample.onceOrThrice.delayAt 3 = ⊤ := rfl
  refine ⟨waits, spent, stays 3 spent, ?_⟩
  rw [first, waits]
  rfl

end EffectKernel
