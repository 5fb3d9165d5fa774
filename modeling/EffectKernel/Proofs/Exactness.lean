import EffectKernel.Binary64
import Mathlib.Algebra.Order.Field.Rat
import Mathlib.Data.Rat.Cast.Order
import Mathlib.Tactic.FieldSimp
import Mathlib.Tactic.Linarith
import Mathlib.Tactic.NormNum
import Mathlib.Tactic.Ring

/-!
# Exact Results in Binary Floating Point

Rounding changes nothing where the exact result is a number of the format. This is so for a value
with a mantissa of 53 bits and an exponent that is not too low (`Short`), as long as the value is
below the top of the range; from there on the result is infinite. Both cases together are what is
meant by a number that reaches a value (`Binary64.Reaches`).

The exponent that is chosen for a quotient leaves 53 bits in front of the point
(`exponentFor_spec`). A short value has no more than that, so it has nothing behind the point, and
there is nothing to round.

Products of numbers that reach values which are not below one reach the product of the values, if
this is short: once a factor has become infinite, the product of the values is past the top as well.
That carries a power of two through the rounds of repeated squaring, whether or not it gets to the
top on the way (`power_two_reaches`). A factor that is zero is left out here for a reason. Zero
times an infinite number is no number, although the product of the values would be zero.

## Main definitions

* `Short`: A value that the format has room for, but for its size.
* `Binary64.Is`: A finite number with this value.
* `Binary64.Reaches`: A number with this value, or an infinite one if that is too large.

## Theorems

* `ofQuotient_reaches`: A short quotient is not rounded.
* `Reaches.mul`: Nor is a short product.
* `power_two_reaches`: Powers of two are exact up to the top.
* `Reaches.toNatBelow?`: The whole part of a number that reaches a natural number.
-/

namespace EffectKernel

/-- A value that has a mantissa of 53 bits where the exponent is not below the lowest one. -/
def Short (q : ℚ) : Prop :=
  ∃ (c : ℕ) (j : ℤ), c < 2 ^ 53 ∧ -1074 ≤ j ∧ q = c * 2 ^ j

/-- A small whole number stays short when it is doubled. -/
theorem short_mul_two_pow {n : ℕ} (few : n < 2 ^ 53) (k : ℕ) : Short ((n : ℚ) * 2 ^ k) :=
  ⟨n, k, few, by omega, by rw [zpow_natCast]⟩

theorem two_zpow_pos (e : ℤ) : (0 : ℚ) < 2 ^ e :=
  zpow_pos (by norm_num) e

theorem two_zpow_add (e f : ℤ) : (2 : ℚ) ^ (e + f) = 2 ^ e * 2 ^ f :=
  zpow_add₀ (by norm_num) e f

theorem two_zpow_mono {e f : ℤ} (le : e ≤ f) : (2 : ℚ) ^ e ≤ 2 ^ f :=
  zpow_le_zpow_right₀ (by norm_num) le

namespace Binary64

/-- A finite number that is not negative, with this value. -/
def Is (x : Binary64) (q : ℚ) : Prop :=
  ∃ (m : ℕ) (e : ℤ), x = .finite false m e ∧ (m : ℚ) * 2 ^ e = q

/-- A number with this value if it is below the top of the range, and otherwise the infinite one. -/
structure Reaches (x : Binary64) (q : ℚ) : Prop where
  /-- There is room for the value. -/
  below : q < 2 ^ 1024 → x.Is q
  /-- There is none. -/
  past : 2 ^ 1024 ≤ q → x = .infinite false

/-! ### Quotients -/

section Quotients

variable {n d : ℕ}

/-- A fraction that has been scaled is the quotient over the power of two. -/
theorem scaled_spec (n : ℕ) (pos : 0 < d) (e : ℤ) :
    0 < (scaled n d e).2 ∧ ((scaled n d e).1 : ℚ) = n / d / 2 ^ e * (scaled n d e).2 := by
  have whole : (d : ℚ) ≠ 0 := by exact_mod_cast pos.ne'
  -- A positive exponent is shifted into the denominator, a negative one into the numerator.
  cases e with
  | ofNat k =>
      have power : (2 : ℚ) ^ k ≠ 0 := pow_ne_zero k (by norm_num)
      simp only [scaled, Nat.shiftLeft_eq, Int.ofNat_eq_natCast, zpow_natCast]
      refine ⟨Nat.mul_pos pos (Nat.two_pow_pos k), ?_⟩
      push_cast
      field_simp
  | negSucc k =>
      have power : (2 : ℚ) ^ (k + 1) ≠ 0 := pow_ne_zero _ (by norm_num)
      simp only [scaled, Nat.shiftLeft_eq, zpow_negSucc]
      refine ⟨pos, ?_⟩
      push_cast
      field_simp

/-- A positive number lies between two neighbouring powers of two, by its length. -/
theorem log2_spec {a : ℕ} (pos : 0 < a) :
    (2 : ℚ) ^ (a.log2 : ℤ) ≤ a ∧ (a : ℚ) < 2 ^ (a.log2 + 1 : ℤ) := by
  constructor
  · rw [zpow_natCast]
    exact_mod_cast Nat.log2_self_le pos.ne'
  · exact_mod_cast (Nat.lt_log2_self : a < 2 ^ (a.log2 + 1))

/-- The lengths of two numbers tell their quotient up to a factor of four. -/
theorem quotient_spec (some : 0 < n) (pos : 0 < d) :
    (2 : ℚ) ^ ((n.log2 : ℤ) - d.log2 - 1) ≤ n / d ∧
      (n : ℚ) / d < 2 ^ ((n.log2 : ℤ) - d.log2 + 1) := by
  -- Each of the two numbers lies between its leading power of two and the next one.
  have upper := log2_spec some
  have lower := log2_spec pos
  have whole : (0 : ℚ) < d := by exact_mod_cast pos
  constructor
  · rw [le_div_iff₀ whole]
    calc (2 : ℚ) ^ ((n.log2 : ℤ) - d.log2 - 1) * d
        ≤ 2 ^ ((n.log2 : ℤ) - d.log2 - 1) * 2 ^ (d.log2 + 1 : ℤ) :=
          mul_le_mul_of_nonneg_left lower.2.le (two_zpow_pos _).le
      _ = 2 ^ (n.log2 : ℤ) := by rw [← two_zpow_add]; congr 1; omega
      _ ≤ n := upper.1
  · rw [div_lt_iff₀ whole]
    calc (n : ℚ) < 2 ^ (n.log2 + 1 : ℤ) := upper.2
      _ = 2 ^ ((n.log2 : ℤ) - d.log2 + 1) * 2 ^ (d.log2 : ℤ) := by
          rw [← two_zpow_add]; congr 1; omega
      _ ≤ 2 ^ ((n.log2 : ℤ) - d.log2 + 1) * d :=
          mul_le_mul_of_nonneg_left lower.1 (two_zpow_pos _).le

/-- The exponent that is chosen leaves 53 bits in front of the point, unless it is the lowest
    one. -/
theorem exponentFor_spec (some : 0 < n) (pos : 0 < d) :
    ∃ e : ℤ, exponentFor n d = max e lowestExponent ∧
      (2 : ℚ) ^ (52 + e) ≤ n / d ∧ (n : ℚ) / d < 2 ^ (53 + e) := by
  obtain ⟨lower, upper⟩ := quotient_spec some pos
  unfold exponentFor
  generalize hestimate : (n.log2 : ℤ) - d.log2 - 53 = estimate
  obtain ⟨pos', fraction⟩ := scaled_spec n pos estimate
  have whole : (0 : ℚ) < (scaled n d estimate).2 := by exact_mod_cast pos'
  have power := two_zpow_pos estimate
  -- Whether the estimate is one too small is seen from the whole part of the fraction.
  have fits : (scaled n d estimate).1 / (scaled n d estimate).2 < 1 <<< 53 ↔
      (n : ℚ) / d < 2 ^ (53 + estimate) := by
    rw [Nat.div_lt_iff_lt_mul pos', Nat.shiftLeft_eq, Nat.one_mul, ← Nat.cast_lt (α := ℚ),
      Nat.cast_mul, fraction, mul_lt_mul_iff_left₀ whole, div_lt_iff₀ power, two_zpow_add]
    norm_cast
  dsimp only
  split
  · next short =>
      refine ⟨estimate, rfl, ?_, fits.1 short⟩
      exact le_trans (le_of_eq (by congr 1; omega)) lower
  · next long =>
      refine ⟨estimate + 1, rfl, ?_, ?_⟩
      · exact le_trans (le_of_eq (by congr 1; omega)) (not_lt.1 (mt fits.2 long))
      · exact lt_of_lt_of_le upper (le_of_eq (by congr 1; omega))

/-- That exponent is too high for the format exactly when the quotient is past the top. -/
theorem highestExponent_lt_iff (some : 0 < n) (pos : 0 < d) :
    highestExponent < exponentFor n d ↔ (2 : ℚ) ^ (1024 : ℕ) ≤ n / d := by
  obtain ⟨e, chosen, lower, upper⟩ := exponentFor_spec some pos
  have order : lowestExponent < highestExponent := by decide
  have highest : highestExponent = 971 := rfl
  rw [chosen, ← zpow_natCast]
  constructor
  · intro high
    rw [lt_max_iff, or_iff_left (by omega)] at high
    exact (two_zpow_mono (by omega)).trans lower
  · intro past
    have bits := (zpow_lt_zpow_iff_right₀ (by norm_num)).1 (past.trans_lt upper)
    exact lt_max_of_lt_left (by omega)

/-- A short quotient has nothing behind the point. -/
theorem exists_whole (some : 0 < n) (pos : 0 < d) (short : Short (n / d)) :
    ∃ r : ℕ, r < 2 ^ 53 ∧ (n : ℚ) / d = r * 2 ^ exponentFor n d := by
  obtain ⟨c, j, few, low, value⟩ := short
  obtain ⟨e, chosen, lower, upper⟩ := exponentFor_spec some pos
  -- The exponent of the leading digit is at most that of the short form, which has no more than 53
  -- digits.
  have last : e ≤ j := by
    have bits : (2 : ℚ) ^ (52 + e) < 2 ^ (53 + j) := by
      calc (2 : ℚ) ^ (52 + e) ≤ n / d := lower
        _ = c * 2 ^ j := value
        _ < 2 ^ (53 : ℕ) * 2 ^ j :=
            mul_lt_mul_of_pos_right (by exact_mod_cast few) (two_zpow_pos j)
        _ = 2 ^ (53 + j) := by rw [two_zpow_add]; rfl
    have := (zpow_lt_zpow_iff_right₀ (by norm_num)).1 bits
    omega
  have least : exponentFor n d ≤ j := chosen ▸ max_le last low
  obtain ⟨shift, hshift⟩ := Int.eq_ofNat_of_zero_le (sub_nonneg.2 least)
  have ratio : (n : ℚ) / d = (c * 2 ^ shift : ℕ) * 2 ^ exponentFor n d := by
    rw [value, Nat.cast_mul, Nat.cast_pow, Nat.cast_ofNat, mul_assoc, ← zpow_natCast,
      ← two_zpow_add]
    congr 2
    omega
  refine ⟨c * 2 ^ shift, ?_, ratio⟩
  -- So many digits fit in 53 bits, for the ratio is below the next power of two.
  have high : (n : ℚ) / d < 2 ^ (53 : ℕ) * 2 ^ exponentFor n d := by
    refine lt_of_lt_of_le upper ?_
    rw [two_zpow_add]
    exact mul_le_mul_of_nonneg_left (two_zpow_mono (chosen ▸ le_max_left _ _)) (by positivity)
  rw [ratio, mul_lt_mul_iff_left₀ (two_zpow_pos _)] at high
  exact_mod_cast high

/-- There is nothing to round in a whole number. -/
theorem roundQuotient_mul (r : ℕ) (pos : 0 < d) : roundQuotient (r * d) d = r := by
  simp only [roundQuotient, Nat.mul_mod_left, Nat.mul_div_cancel r pos, Nat.mul_zero, pos, if_true]

/-- A quotient with nothing behind the point is kept as it is, unless its exponent is too high. -/
theorem ofQuotient_of_whole {r : ℕ} (some : 0 < n) (pos : 0 < d) (few : r < 2 ^ 53)
    (value : (n : ℚ) / d = r * 2 ^ exponentFor n d) :
    ofQuotient false n d =
      if highestExponent < exponentFor n d then .infinite false
      else .finite false r (exponentFor n d) := by
  obtain ⟨pos', fraction⟩ := scaled_spec n pos (exponentFor n d)
  rw [value, mul_div_cancel_right₀ _ (two_zpow_pos _).ne'] at fraction
  have whole : (scaled n d (exponentFor n d)).1 = r * (scaled n d (exponentFor n d)).2 := by
    exact_mod_cast fraction
  have rounded : roundQuotient (scaled n d (exponentFor n d)).1 (scaled n d (exponentFor n d)).2 =
      r := by
    rw [whole, roundQuotient_mul r pos']
  have uncarried : r ≠ 1 <<< 53 := few.ne
  simp only [ofQuotient, some.ne', if_false, rounded, uncarried]

/-- A short quotient is not rounded. -/
theorem ofQuotient_reaches (n : ℕ) (pos : 0 < d) (short : Short (n / d)) :
    (ofQuotient false n d).Reaches (n / d) := by
  rcases Nat.eq_zero_or_pos n with rfl | some
  · have nothing : ((0 : ℕ) : ℚ) / d = 0 := by rw [Nat.cast_zero, zero_div]
    rw [nothing]
    exact ⟨fun _ => ⟨0, lowestExponent, rfl, by simp⟩,
      fun past => absurd past (not_le.2 (by positivity))⟩
  · obtain ⟨r, few, value⟩ := exists_whole some pos short
    have top := highestExponent_lt_iff some pos
    rw [ofQuotient_of_whole some pos few value]
    -- Within range the number is the one of `value`, and past the highest exponent it is infinite.
    constructor
    · intro room
      rw [if_neg (mt top.1 (not_le.2 room))]
      exact ⟨r, _, rfl, value.symm⟩
    · intro past
      rw [if_pos (top.2 past)]

end Quotients

/-! ### Products -/

section Products

variable {x y : Binary64} {a b : ℚ}

/-- A short multiple of a power of two is not rounded. -/
theorem ofScaled_reaches (m : ℕ) (e : ℤ) (short : Short (m * 2 ^ e)) :
    (ofScaled false m e).Reaches (m * 2 ^ e) := by
  -- Scaling by a power of two is a quotient with denominator 1, or with a power of two below.
  cases e with
  | ofNat k =>
      have value : (m : ℚ) * (2 : ℚ) ^ (Int.ofNat k) = (m <<< k : ℕ) / (1 : ℕ) := by
        rw [Nat.shiftLeft_eq, Int.ofNat_eq_natCast, zpow_natCast]
        push_cast
        rw [div_one]
      rw [value] at short ⊢
      exact ofQuotient_reaches _ Nat.one_pos short
  | negSucc k =>
      have value : (m : ℚ) * (2 : ℚ) ^ (Int.negSucc k) = m / (1 <<< (k + 1) : ℕ) := by
        rw [Nat.shiftLeft_eq, zpow_negSucc, Nat.one_mul, div_eq_mul_inv]
        push_cast
        rfl
      rw [value] at short ⊢
      refine ofQuotient_reaches m ?_ short
      rw [Nat.shiftLeft_eq, Nat.one_mul]
      exact Nat.two_pow_pos _

/-- A small whole number is held exactly. -/
theorem ofNat_reaches {n : ℕ} (few : n < 2 ^ 53) : (ofNat n).Reaches n := by
  have short : Short ((n : ℚ) / (1 : ℕ)) :=
    ⟨n, 0, few, by decide, by rw [Nat.cast_one, div_one, zpow_zero, mul_one]⟩
  have exact := ofQuotient_reaches n Nat.one_pos short
  rwa [Nat.cast_one, div_one] at exact

/-- A short product of finite numbers is not rounded. -/
theorem Is.mul (left : x.Is a) (right : y.Is b) (short : Short (a * b)) :
    (x.mul y).Reaches (a * b) := by
  obtain ⟨m, e, rfl, rfl⟩ := left
  obtain ⟨n, f, rfl, rfl⟩ := right
  have value : (m : ℚ) * 2 ^ e * (n * 2 ^ f) = (m * n : ℕ) * 2 ^ (e + f) := by
    rw [two_zpow_add, Nat.cast_mul, mul_mul_mul_comm]
  rw [value] at short ⊢
  exact ofScaled_reaches (m * n) (e + f) short

/-- Infinite times a number that is not zero is infinite. -/
theorem infinite_mul_of_is (right : y.Is b) (some : b ≠ 0) :
    mul (.infinite false) y = .infinite false ∧ y.mul (.infinite false) = .infinite false := by
  obtain ⟨n, f, rfl, rfl⟩ := right
  have mantissa : n ≠ 0 := by
    rintro rfl
    exact some (by rw [Nat.cast_zero, zero_mul])
  simp only [Binary64.mul, if_neg mantissa, bne_self_eq_false, and_self]

/-- A short product is not rounded, where no factor is below one. -/
theorem Reaches.mul (left : x.Reaches a) (right : y.Reaches b) (one_le : 1 ≤ a) (one_le' : 1 ≤ b)
    (short : Short (a * b)) : (x.mul y).Reaches (a * b) := by
  rcases lt_or_ge a (2 ^ 1024) with low | high <;> rcases lt_or_ge b (2 ^ 1024) with low' | high'
  · exact (left.below low).mul (right.below low') short
  all_goals
    -- Where a factor is infinite, the product of the values is past the top as well.
    have past : (2 : ℚ) ^ 1024 ≤ a * b := by
      first
        | exact high'.trans (le_mul_of_one_le_left (by positivity) one_le)
        | exact high.trans (le_mul_of_one_le_right (by positivity) one_le')
    refine ⟨fun room => absurd past (not_le.2 room), fun _ => ?_⟩
  · rw [right.past high']
    exact (infinite_mul_of_is (left.below low) (by positivity)).2
  · rw [left.past high]
    exact (infinite_mul_of_is (right.below low') (by positivity)).1
  · rw [left.past high, right.past high']
    rfl

end Products

/-! ### Powers of two -/

theorem one_le_two_pow (p : ℕ) : (1 : ℚ) ≤ 2 ^ p :=
  one_le_pow₀ (by norm_num)

/-- The product of two powers of two, of which either may have got to the top. -/
theorem Reaches.mul_two_pow {x y : Binary64} {p q : ℕ} (left : x.Reaches (2 ^ p))
    (right : y.Reaches (2 ^ q)) : (x.mul y).Reaches (2 ^ (p + q)) := by
  have short : Short ((2 : ℚ) ^ p * 2 ^ q) :=
    ⟨1, (p + q : ℕ), by norm_num, by omega, by rw [zpow_natCast, pow_add, Nat.cast_one, one_mul]⟩
  rw [pow_add]
  exact left.mul right (one_le_two_pow p) (one_le_two_pow q) short

/-- The rounds of repeated squaring. -/
theorem powerLoop_reaches {base result : Binary64} {p q : ℕ} (n : ℕ) (left : base.Reaches (2 ^ p))
    (right : result.Reaches (2 ^ q)) : (powerLoop base result n).Reaches (2 ^ (q + p * n)) := by
  induction n using Nat.strong_induction_on generalizing base result p q with
  | _ n ih =>
      -- The lowest bit of the power says whether the result is multiplied in this round.
      have round : (if n % 2 = 1 then result.mul base else result).Reaches
          (2 ^ (q + p * (n % 2))) := by
        rcases Nat.mod_two_eq_zero_or_one n with even | odd
        · rw [if_neg (by omega), even]
          exact right
        · rw [if_pos odd, odd, Nat.mul_one]
          exact right.mul_two_pow left
      have bits : n = n % 2 + 2 * (n / 2) := (Nat.mod_add_div n 2).symm
      unfold powerLoop
      dsimp only
      split
      · next last =>
          have only : n % 2 = n := by omega
          rwa [only] at round ⊢
      · next more =>
          have rest := ih (n / 2) (by omega) (left.mul_two_pow left) round
          have count : q + p * (n % 2) + (p + p) * (n / 2) = q + p * n := by
            conv_rhs => rw [bits]
            ring
          rwa [count] at rest

/-- A power of two is exact, or infinite from the top on. -/
theorem power_two_reaches (n : ℕ) : (two.power n).Reaches (2 ^ n) := by
  have base : two.Reaches (2 ^ 1) := by
    rw [pow_one]
    exact ofNat_reaches (by norm_num)
  have one : one.Reaches (2 ^ 0) := by
    rw [pow_zero, ← Nat.cast_one]
    exact ofNat_reaches (by norm_num)
  have loop := powerLoop_reaches n base one
  rwa [Nat.zero_add, Nat.one_mul] at loop

/-! ### Whole parts -/

/-- A number with a natural value is its own whole part. -/
theorem wholePart_eq {m v : ℕ} {e : ℤ} (value : (m : ℚ) * 2 ^ e = v) : wholePart m e = v := by
  cases e with
  | ofNat k =>
      rw [Int.ofNat_eq_natCast, zpow_natCast] at value
      rw [wholePart, Nat.shiftLeft_eq]
      exact_mod_cast value
  | negSucc k =>
      have power : (2 : ℚ) ^ (k + 1) ≠ 0 := pow_ne_zero _ (by norm_num)
      rw [zpow_negSucc, ← div_eq_mul_inv, div_eq_iff power] at value
      have whole : m = v * 2 ^ (k + 1) := by exact_mod_cast value
      rw [wholePart, Nat.shiftRight_eq_div_pow, whole, Nat.mul_div_cancel _ (Nat.two_pow_pos _)]

/-- The whole part of a number that reaches a natural number is this number, if it is below the
    bound. -/
theorem Reaches.toNatBelow? {x : Binary64} {v bound : ℕ} (reaches : x.Reaches v)
    (small : (bound : ℚ) ≤ 2 ^ 1024) :
    x.toNatBelow? bound = if v < bound then some v else none := by
  rcases lt_or_ge (v : ℚ) (2 ^ 1024) with room | past
  · obtain ⟨m, e, rfl, value⟩ := reaches.below room
    simp only [Binary64.toNatBelow?, wholePart_eq value, Bool.false_eq_true, if_false]
  · have large : ¬ v < bound := not_lt.2 (by exact_mod_cast small.trans past)
    rw [reaches.past past, if_neg large]
    rfl

end Binary64

end EffectKernel
