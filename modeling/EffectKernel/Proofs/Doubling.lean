import EffectKernel.Proofs.Exactness
import EffectKernel.Proofs.Growth

/-!
# Delays That Double

The waits of the doubling policy are products of floating point numbers. For a base of at most 53
bits none of them is rounded, so that each wait is the base taken as often as the power of two
says, as long as that fits in 64 bits of nanoseconds. What does not fit is the longest span. Long
before the power itself gets to the top of the range, at the 1024th wait, the products of every base
that is not zero have got past 64 bits.

A base that is zero is another matter. Nothing is too large there, and all waits ought to be zero.
So they are until the power becomes infinite. Zero times an infinite number is no number, and what
is no number is taken for one that is too large. From the 1024th wait on, the policy that never
waited waits for the longest span (`zero_waits_in_the_end`).

## Main definitions

* `Schedule.doubled`: The base, doubled so many times.

## Theorems

* `product_reaches`: Where the product is the one of the values.
* `nanos_exponentialDelay_two`: Each wait of the doubling policy.
* `doubling_is_exact`: The waits of the doubling policy.
-/

namespace EffectKernel

namespace Schedule

/-- The length of a base that is doubled so many times, in nanoseconds. What does not fit in 64 bits
    is the longest span. -/
def doubled (base : Duration) (k : Nat) : Nat :=
  if base.nanos * 2 ^ k < 2 ^ 64 then base.nanos * 2 ^ k else Duration.longest.nanos

end Schedule

section Doubling

open Binary64

/-- The product of a number of 53 bits and a power of two is not rounded, except that zero times
    what is past the top of the range is no number. -/
theorem product_reaches {n p : ℕ} (few : n < 2 ^ 53) (finite : n ≠ 0 ∨ p < 1024) :
    ((ofNat n).mul (two.power p)).Reaches (n * 2 ^ p : ℕ) := by
  have left := ofNat_reaches few
  have right := power_two_reaches p
  have short := short_mul_two_pow few p
  rw [Nat.cast_mul, Nat.cast_pow, Nat.cast_ofNat]
  rcases Nat.eq_zero_or_pos n with rfl | some
  · have room : (2 : ℚ) ^ p < 2 ^ 1024 :=
      pow_lt_pow_right₀ (by norm_num) (finite.resolve_left fun h => h rfl)
    exact (left.below (by rw [Nat.cast_zero]; positivity)).mul (right.below room) short
  · exact left.mul right (by exact_mod_cast some) (one_le_two_pow p) short

/-- Zero times a power that has got past the top is no number. -/
theorem zero_mul_power_two {p : ℕ} (high : 1024 ≤ p) : (ofNat 0).mul (two.power p) = .nan := by
  have past : (2 : ℚ) ^ 1024 ≤ 2 ^ p := pow_le_pow_right₀ (by norm_num) high
  rw [(power_two_reaches p).past past]
  rfl

/-- The bound of 64 bits is far below the top of the range. -/
theorem size_le_top : ((UInt64.size : ℕ) : ℚ) ≤ 2 ^ 1024 := by
  have size : ((UInt64.size : ℕ) : ℚ) = 2 ^ 64 := by norm_num
  rw [size]
  exact pow_le_pow_right₀ (by norm_num) (by norm_num)

variable {base : Duration}

/-- Once the base does not fit any more, the number of further times does not matter. -/
theorem doubled_of_le {p k : ℕ} (some : base.nanos ≠ 0) (high : 64 ≤ p) (le : p ≤ k) :
    Schedule.doubled base p = Schedule.doubled base k := by
  have full : ∀ {k}, 64 ≤ k → ¬ base.nanos * 2 ^ k < 2 ^ 64 := fun more => not_lt.2 <|
    (Nat.pow_le_pow_right Nat.two_pos more).trans (Nat.le_mul_of_pos_left _ (by omega))
  rw [Schedule.doubled, Schedule.doubled, if_neg (full high), if_neg (full (high.trans le))]

/-- Each wait of the doubling policy, also when the count or the power has stopped growing. -/
theorem nanos_exponentialDelay_two (few : base.nanos < 2 ^ 53) (k : ℕ) :
    (Schedule.exponentialDelay base two (countAt k)).nanos =
      if base.nanos = 0 ∧ 1024 ≤ k then Duration.longest.nanos else Schedule.doubled base k := by
  obtain ⟨p, hp, near⟩ : ∃ p, min (countAt k).toNat Schedule.maxPower = p ∧
      (p = k ∨ 1024 ≤ p ∧ p ≤ k) := by
    refine ⟨_, rfl, ?_⟩
    rw [toNat_countAt, Schedule.maxPower]
    omega
  unfold Schedule.exponentialDelay
  simp only [hp]
  -- Zero times an infinite power is the one product that is no number.
  by_cases finite : base.nanos ≠ 0 ∨ p < 1024
  · have product : ¬ (base.nanos = 0 ∧ 1024 ≤ k) := by omega
    have same : Schedule.doubled base p = Schedule.doubled base k := by
      rcases near with rfl | ⟨high, le⟩
      · rfl
      · exact doubled_of_le (finite.resolve_right (by omega)) (by omega) le
    rw [if_neg product, ← same, (product_reaches few finite).toNatBelow? size_le_top,
      Schedule.doubled]
    by_cases fits : base.nanos * 2 ^ p < 2 ^ 64
    · have room : base.nanos * 2 ^ p ≤ UInt64.size * nanosPerSecond - 1 :=
        (Nat.le_of_lt fits).trans (by decide)
      rw [if_pos fits, if_pos (show _ < UInt64.size from fits)]
      exact (Duration.nanos_ofNanos _).trans (min_eq_left room)
    · rw [if_neg fits, if_neg (show ¬ _ < UInt64.size from fits)]
  · have zero : base.nanos = 0 := by omega
    rw [if_pos ⟨zero, by omega⟩, zero, zero_mul_power_two (by omega)]
    rfl

/-- Nothing, doubled as often as one likes, is nothing. -/
theorem doubled_zero (zero : base.nanos = 0) (k : ℕ) : Schedule.doubled base k = 0 := by
  rw [Schedule.doubled, zero, Nat.zero_mul, if_pos (by decide)]

/-- The lengths of the waits never decrease. -/
theorem monotone_wait (base : Duration) : Monotone fun k =>
    if base.nanos = 0 ∧ 1024 ≤ k then Duration.longest.nanos else Schedule.doubled base k := by
  have size : 2 ^ 64 ≤ Duration.longest.nanos := by decide
  intro k k' le
  have power : base.nanos * 2 ^ k ≤ base.nanos * 2 ^ k' :=
    Nat.mul_le_mul_left _ (Nat.pow_le_pow_right Nat.two_pos le)
  simp only [Schedule.doubled]
  split_ifs <;> omega

/-- The waits of the doubling policy, for a base of at most 53 bits. -/
theorem grows_doubling (few : base.nanos < 2 ^ 53) :
    (Schedule.doubling base).Grows fun k =>
      if base.nanos = 0 ∧ 1024 ≤ k then Duration.longest.nanos else Schedule.doubled base k := by
  have each : ∀ k, (Schedule.doubling base).delayAt k =
      Schedule.exponentialDelay base two (countAt k) := fun _ => rfl
  simp only [← nanos_exponentialDelay_two few]
  refine Schedule.grows_of_delayAt each ?_
  simpa only [nanos_exponentialDelay_two few] using monotone_wait base

end Doubling

/-- The waits of the doubling policy for a base of at most 53 bits. They never stop and never
    decrease, and each of them is the base taken exactly as often as the power of two says, or the
    longest span where that does not fit in 64 bits, however often the policy has been asked; with
    the one exception of a base that is zero, which waits for the longest span from the 1024th wait
    on. -/
theorem doubling_is_exact (base : Duration) (few : base.nanos < 2 ^ 53) :
    ((Schedule.doubling base).Grows fun k =>
      if base.nanos = 0 ∧ 1024 ≤ k then Duration.longest.nanos else Schedule.doubled base k) ∧
    ((Schedule.doubling base).Grows (Schedule.doubled base) ↔ base.nanos ≠ 0) := by
  have grows := grows_doubling few
  refine ⟨grows, fun same zero => ?_, fun some => ?_⟩
  · have differ := congrFun (grows.unique same) 1024
    rw [if_pos ⟨zero, Nat.le_refl _⟩, doubled_zero zero] at differ
    exact absurd differ (by decide)
  · have product : ∀ k, ¬ (base.nanos = 0 ∧ 1024 ≤ k) := fun _ h => some h.1
    simpa only [if_neg (product _)] using grows

/-- The waits of three nanoseconds get past 64 bits when they have been doubled 63 times. -/
theorem sample_doubling_is_exact :
    (Duration.ofNanos 3).nanos < 2 ^ 53 ∧
    (((Schedule.doubling (Duration.ofNanos 3)).delays 64).map Duration.nanos).drop 62 =
      [3 * 2 ^ 62, Duration.longest.nanos] := by
  have few : (Duration.ofNanos 3).nanos < 2 ^ 53 := by decide
  refine ⟨few, ?_⟩
  rw [((doubling_is_exact _ few).2.2 (by decide)).waits]
  decide

/-- A base of zero has waited for nothing 1024 times, and then waits for the longest span. -/
theorem zero_waits_in_the_end :
    ((Schedule.doubling Duration.zero).delays 1025)[1024]? = some Duration.longest ∧
    Schedule.doubled Duration.zero 1024 = Duration.zero.nanos ∧
    ¬ (Schedule.doubling Duration.zero).Grows (Schedule.doubled Duration.zero) := by
  have grows := @grows_doubling Duration.zero (by decide)
  have none := @doubled_zero Duration.zero rfl 1024
  refine ⟨?_, none, fun same => ?_⟩
  · have last := congrArg (·[1024]?) (grows.waits 1025)
    simp only [List.getElem?_map, List.getElem?_range (Nat.lt_succ_self 1024), Option.map_some,
      Option.map_eq_some_iff] at last
    obtain ⟨d, found, length⟩ := last
    rw [found, Duration.eq_of_nanos_eq (length.trans (if_pos ⟨rfl, Nat.le_refl _⟩))]
  -- Two sequences that both describe the delays agree everywhere, and at 1024 these two do not.
  · have differ := congrFun (grows.unique same) 1024
    rw [if_pos ⟨rfl, Nat.le_refl _⟩, none] at differ
    exact absurd differ (by decide)

end EffectKernel
