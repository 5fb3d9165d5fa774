import EffectKernel.Proofs.Sequences
import Mathlib.Data.List.TakeWhile
import Mathlib.Data.Nat.Fib.Basic

/-!
# Delays That Level Off

A delay that grows without end has to stop growing somewhere. Three things stop on the way to it,
each at a top of its own: the count of how often the policy has been asked, the member of the
sequence that belongs to the count, and the span of time that the member is multiplied with. What
is proved here is that they never get in each other's way. However late a delay is, it is the one
that unbounded numbers would give, cut off at these tops.

For the Fibonacci numbers this is an invariant of a loop that keeps two neighbours (`Neighbours`).
Both of them are cut off, and they get to the top one after the other. A sum of numbers that have
been cut off is cut off where the sum of the numbers themselves is (`min_add_min`), so it does not
matter which of the two has got there. The count stops at a place where the sequence is long past
its own top, so that from there on nothing changes any more.

## Main definitions

* `nextPair`: A round of the loop.
* `Neighbours`: What the loop keeps.
* `Schedule.Grows`: A policy that never stops, and whose waits never decrease.

## Theorems

* `Duration.scale_by_parts`: A multiple of a span, by seconds and nanoseconds with a carry.
* `fibonacciFrom_eq_iterate`: The loop skips nothing that matters.
* `toNat_fibonacci`: The Fibonacci numbers of 32 bits are the true ones, cut off.
* `Schedule.grows_of_delayAt`: Growth is seen at each place.
* `growth_levels_off`: The waits of the linear and the Fibonacci policy.
-/

namespace EffectKernel

namespace Duration

/-- A multiple of a span is that of its whole seconds and that of the rest, whose own whole seconds
    are carried; if the seconds then do not fit, it is the longest span. -/
theorem scale_by_parts (d : Duration) (k : Nat) :
    d.scale k = (ofParts? (d.seconds * k + d.subsecond * k / nanosPerSecond)
      (d.subsecond * k % nanosPerSecond)).getD longest := by
  have parts : (d.seconds * k + d.subsecond * k / nanosPerSecond) * nanosPerSecond +
      d.subsecond * k % nanosPerSecond = d.nanos * k := by
    have whole : d.seconds * nanosPerSecond + d.subsecond = d.nanos :=
      Nat.div_add_mod' d.nanos nanosPerSecond
    rw [Nat.add_mul, Nat.add_assoc, Nat.div_add_mod', Nat.mul_right_comm, ← Nat.add_mul, whole]
  unfold scale ofNanos ofParts?
  simp only [parts]
  split <;> rfl

end Duration

/-! ### Counts -/

/-- A sum of counts is cut off where that of the numbers is. -/
theorem toNat_saturatingAdd (a b : UInt32) :
    (saturatingAdd a b).toNat = min (a.toNat + b.toNat) 0xFFFFFFFF := by
  unfold saturatingAdd
  split
  · next fits =>
      rw [UInt32.toNat_add, Nat.mod_eq_of_lt fits]
      simp only [UInt32.size] at fits
      omega
  · next full =>
      have top : (0xFFFFFFFF : UInt32).toNat = 0xFFFFFFFF := rfl
      simp only [UInt32.size] at full
      omega

/-- Numbers may be cut off before they are added, or only their sum. -/
theorem min_add_min (a b top : Nat) : min (min a top + min b top) top = min (a + b) top := by
  omega

/-- What a round of the loop makes of two neighbours of the sequence. -/
def nextPair (pair : UInt32 × UInt32) : UInt32 × UInt32 :=
  (pair.2, saturatingAdd pair.1 pair.2)

/-- Two neighbours of the Fibonacci sequence, each cut off at the top. Both may be there, or the
    later one only, or neither. -/
structure Neighbours (i : Nat) (pair : UInt32 × UInt32) : Prop where
  /-- The first of them. -/
  earlier : pair.1.toNat = min (Nat.fib i) 0xFFFFFFFF
  /-- The second one. -/
  later : pair.2.toNat = min (Nat.fib (i + 1)) 0xFFFFFFFF

/-- The next pair of neighbours, where the sum stays at its top once it gets there. -/
theorem Neighbours.next {i : Nat} {pair : UInt32 × UInt32} (h : Neighbours i pair) :
    Neighbours (i + 1) (nextPair pair) where
  earlier := h.later
  later := by
    rw [nextPair, toNat_saturatingAdd, h.earlier, h.later, min_add_min, Nat.fib_add_two]

/-- So many pairs further on. -/
theorem Neighbours.iterate {i : Nat} {pair : UInt32 × UInt32} (h : Neighbours i pair)
    (rounds : Nat) : Neighbours (i + rounds) (nextPair^[rounds] pair) := by
  induction rounds with
  | zero => exact h
  | succ rounds ih =>
      rw [Function.iterate_succ_apply']
      exact ih.next

/-- Where the later one has got to the top, it stays there. -/
theorem iterate_nextPair_of_top {pair : UInt32 × UInt32} (top : pair.2 = 0xFFFFFFFF)
    (rounds : Nat) : (nextPair^[rounds] pair).2 = 0xFFFFFFFF := by
  induction rounds generalizing pair with
  | zero => exact top
  | succ rounds ih =>
      refine ih (UInt32.toNat_inj.1 ?_)
      have highest : (0xFFFFFFFF : UInt32).toNat = 0xFFFFFFFF := rfl
      rw [nextPair, toNat_saturatingAdd, top, highest]
      omega

/-- The loop has the result of all its rounds, those that it skips included. -/
theorem fibonacciFrom_eq_iterate (rounds : Nat) (earlier later : UInt32) :
    fibonacciFrom rounds earlier later = (nextPair^[rounds] (earlier, later)).2 := by
  induction rounds generalizing earlier later with
  | zero => rfl
  | succ rounds ih =>
      unfold fibonacciFrom
      split
      · next top => rw [iterate_nextPair_of_top top, top]
      · exact ih later (saturatingAdd earlier later)

/-- The Fibonacci numbers of 32 bits are the true ones, cut off at the top. -/
theorem toNat_fibonacci (n : UInt32) :
    (fibonacci n).toNat = min (Nat.fib n.toNat) 0xFFFFFFFF := by
  unfold fibonacci
  split
  · next zero => subst zero; rfl
  · next more =>
      have first : Neighbours 0 (0, 1) := ⟨rfl, rfl⟩
      have pos : n.toNat ≠ 0 := fun h => more (UInt32.toNat_inj.1 h)
      have last : 0 + (n.toNat - 1) + 1 = n.toNat := by omega
      rw [fibonacciFrom_eq_iterate, (first.iterate _).later, last]

-- The first number that does not fit comes after the 47th.
example : fibonacci 47 = 2971215073 ∧ fibonacci 48 = 0xFFFFFFFF := by decide

/-- The count of a policy does not get far enough to matter for its Fibonacci number. -/
theorem toNat_fibonacci_countAt (i : Nat) :
    (fibonacci (countAt i)).toNat = min (Nat.fib i) 0xFFFFFFFF := by
  rw [toNat_fibonacci, toNat_countAt]
  rcases Nat.le_total i 0xFFFFFFFF with low | high
  · rw [min_eq_left low]
  · -- Both numbers are past the top, the one for the last count as well.
    have last : 0xFFFFFFFF ≤ Nat.fib 0xFFFFFFFF := Nat.le_fib_self (by omega)
    have here : Nat.fib 0xFFFFFFFF ≤ Nat.fib i := Nat.fib_mono high
    rw [min_eq_right high, min_eq_right last, min_eq_right (last.trans here)]

/-! ### Growth -/

namespace Schedule

/-- A policy goes on for ever, its waits have these lengths in nanoseconds, and they never
    decrease. -/
structure Grows (s : Schedule) (nanos : Nat → Nat) : Prop where
  /-- Each wait is known. -/
  waits : ∀ limit, (s.delays limit).map Duration.nanos = (List.range limit).map nanos
  /-- There is a wait wherever one is looked for. -/
  never_stops : ∀ limit, (s.delays limit).length = limit
  /-- No wait is shorter than an earlier one. -/
  never_decreases : ∀ limit, (s.delays limit).Pairwise (· ≤ ·)

/-- A policy has its waits in one way. -/
theorem Grows.unique {s : Schedule} {nanos nanos' : Nat → Nat} (grows : s.Grows nanos)
    (other : s.Grows nanos') : nanos = nanos' := by
  funext k
  have same := (grows.waits (k + 1)).symm.trans (other.waits (k + 1))
  exact List.map_inj_left.1 same k (List.mem_range.2 (Nat.lt_succ_self k))

/-- A policy grows if it has a wait at every place, and these never decrease. -/
theorem grows_of_delayAt {s : Schedule} {wait : Nat → Duration}
    (each : ∀ i, s.delayAt i = wait i) (grow : Monotone fun i => (wait i).nanos) :
    s.Grows fun i => (wait i).nanos := by
  -- No delay is the stop, so nothing is cut off the sequence.
  have delays : ∀ limit, s.delays limit = (List.range limit).map wait := by
    intro limit
    apply (List.map_inj_right fun _ _ => WithTop.coe_inj.1).1
    rw [delays_eq_takeWhile, funext each, List.map_map]
    exact List.takeWhile_eq_self_iff.2 fun d mem => by
      obtain ⟨i, -, rfl⟩ := List.mem_map.1 mem
      exact decide_eq_true WithTop.coe_ne_top
  refine ⟨fun limit => ?_, fun limit => ?_, fun limit => ?_⟩
  · rw [delays, List.map_map]
    rfl
  · rw [delays, List.length_map, List.length_range]
  · rw [delays, List.pairwise_map]
    exact List.pairwise_lt_range.imp fun earlier => grow (Nat.le_of_lt earlier)

end Schedule

/-- A multiple of a span grows with the factor. -/
theorem Duration.nanos_scale_mono (d : Duration) : Monotone fun k => (d.scale k).nanos := by
  intro k k' more
  have product := Nat.mul_le_mul_left d.nanos more
  simp only [Duration.nanos_scale]
  omega

/-- The Fibonacci numbers of 32 bits are the true ones, cut off at the top. The waits of the
    Fibonacci policy are the base taken so many times, and those of the linear policy the base taken
    one more time each, again cut off at the longest span, however often they have been asked; they
    never decrease and never stop. -/
theorem growth_levels_off (base : Duration) :
    (∀ n : UInt32, (fibonacci n).toNat = min (Nat.fib n.toNat) (2 ^ 32 - 1)) ∧
    (Schedule.fibonacci base).Grows (fun k =>
      min (base.nanos * min (Nat.fib (k + 1)) (2 ^ 32 - 1)) Duration.longest.nanos) ∧
    (Schedule.linear base).Grows fun k =>
      min (base.nanos * min (k + 1) (2 ^ 32 - 1)) Duration.longest.nanos := by
  have length : ∀ k, (base.scale k).nanos = min (base.nanos * k) Duration.longest.nanos :=
    base.nanos_scale
  refine ⟨toNat_fibonacci, ?_, ?_⟩
  -- Both sequences scale the base by a factor cut at the greatest count, and both factors only
  -- grow.
  · have each : ∀ k, (Schedule.fibonacci base).delayAt k =
        base.scale (min (Nat.fib (k + 1)) (2 ^ 32 - 1)) := by
      intro k
      rw [Schedule.delayAt, Schedule.delayFor, saturatingSucc_countAt, toNat_fibonacci_countAt]
      rfl
    have grow : Monotone fun k => min (Nat.fib (k + 1)) (2 ^ 32 - 1) := fun k k' more =>
      min_le_min_right _ (Nat.fib_mono (Nat.succ_le_succ more))
    simpa only [length] using
      Schedule.grows_of_delayAt each (base.nanos_scale_mono.comp grow)
  · have each : ∀ k, (Schedule.linear base).delayAt k =
        base.scale (min (k + 1) (2 ^ 32 - 1)) := by
      intro k
      rw [Schedule.delayAt, Schedule.delayFor, saturatingSucc_countAt, toNat_countAt]
      rfl
    have grow : Monotone fun k => min (k + 1) (2 ^ 32 - 1) := fun k k' more =>
      min_le_min_right _ (Nat.succ_le_succ more)
    simpa only [length] using
      Schedule.grows_of_delayAt each (base.nanos_scale_mono.comp grow)

end EffectKernel
