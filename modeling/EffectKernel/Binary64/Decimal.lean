import EffectKernel.Binary64

/-!
# Decimal Text of Floating Point Numbers

A floating point number is written with the fewest decimal digits that read back
as it, and of those with the digits nearest to it. The search is exact: the reals
that round to the number form an interval with rational ends, and for one digit,
two digits and so on the two neighbours of the number on that decimal grid are
tried. Seventeen digits always suffice.

Reading goes the other way in two roundings. The digits are brought to the nearest
number, and that number is multiplied or divided by a power of ten that has itself
been rounded. A size past the largest finite number is refused.

## Main definitions

* `Binary64.shortest`: The fewest digits that read back, with their exponent.
* `Binary64.text`: The written form of a finite number.
* `Binary64.ofDecimal?`: The number read from decimal digits and an exponent.
-/

namespace EffectKernel

namespace Binary64

/-- The numerator and denominator of `m * 2 ^ e`. -/
def fraction (m : Nat) : Int → Nat × Nat
  | .ofNat e => (m <<< e, 1)
  | .negSucc e => (m, 1 <<< (e + 1))

/-- The reals that round to `m * 2 ^ e`, times four over the scale: the lower end,
    the number and the upper end of the interval, each over the same denominator.
    Below a power of two the neighbour is only half as far. -/
def interval (m : Nat) (e : Int) : Nat × Nat × Nat × Nat :=
  let low := if m = 1 <<< 52 ∧ lowestExponent < e then 4 * m - 1 else 4 * m - 2
  let unit := fraction 1 (e - 2)
  (low * unit.1, 4 * m * unit.1, (4 * m + 2) * unit.1, unit.2)

/-- Whether a candidate numerator lies in the interval, the ends included when the
    mantissa is even. -/
def inside (even : Bool) (low high candidate : Nat) : Bool :=
  if even then low ≤ candidate && candidate ≤ high else low < candidate && candidate < high

/-- The decimal exponent of the grid on which `n / d` has `digits` digits. -/
def gridExponent (n d digits : Nat) : Int :=
  -- The number of digits of the whole part, or minus the number of leading zeros.
  let size : Int :=
    if d ≤ n then ((Nat.toDigits 10 (n / d)).length : Int)
    else 1 - ((Nat.toDigits 10 ((d - 1) / n)).length : Int)
  size - digits

/-- The decimal of `digits` digits nearest to the number that reads back as it, as a
    whole number and a power of ten, if there is one. -/
def candidate? (m : Nat) (e : Int) (digits : Nat) : Option (Nat × Int) :=
  let bounds := interval m e
  let d := bounds.2.2.2
  let grid := gridExponent bounds.2.1 d digits
  -- Everything is brought over one denominator on which the grid has step `step`.
  let up := match grid with | .ofNat _ => 1 | .negSucc k => Nat.pow 10 (k + 1)
  let step := match grid with | .ofNat k => d * Nat.pow 10 k | .negSucc _ => d
  let value := bounds.2.1 * up
  let low := bounds.1 * up
  let high := bounds.2.2.1 * up
  let below := value / step
  let even := m % 2 == 0
  let lowerFits := inside even low high (below * step)
  let upperFits := inside even low high ((below + 1) * step)
  if lowerFits && upperFits then
    let distanceBelow := value - below * step
    let distanceAbove := (below + 1) * step - value
    if distanceBelow < distanceAbove || (distanceBelow == distanceAbove && below % 2 == 0) then
      some (below, grid)
    else some (below + 1, grid)
  else if lowerFits then some (below, grid)
  else if upperFits then some (below + 1, grid)
  else none

/-- A whole number without its trailing zeros, which move into the exponent. -/
def dropZeros (digits : Nat) (exponent : Int) : Nat → Nat × Int
  | 0 => (digits, exponent)
  | fuel + 1 =>
    if digits % 10 = 0 ∧ digits ≠ 0 then dropZeros (digits / 10) (exponent + 1) fuel
    else (digits, exponent)

/-- The fewest digits that read back as `m * 2 ^ e`, as a whole number and a power
    of ten. -/
def shortest (m : Nat) (e : Int) : Nat × Int :=
  let found := (List.range 17).findSome? fun fewer => candidate? m e (fewer + 1)
  match found with
  | some (digits, exponent) => dropZeros digits exponent 20
  | none => (0, 0)

/-- Where positional notation ends: a number is written out if its decimal point
    falls at most this many places after its first digit. -/
def positionalAbove : Int := 16

/-- The same limit for small numbers: at most this many places before the first
    digit, counted negatively. -/
def positionalBelow : Int := -5

/-- Digits with a decimal point put at `point` places from the left. Large and
    small numbers get an exponent instead of zeros. -/
def placePoint (digits : List Char) (point : Int) : List Char :=
  let count : Int := digits.length
  if count ≤ point ∧ point ≤ positionalAbove then
    digits ++ List.replicate (point - count).toNat '0' ++ ['.', '0']
  else if 0 < point ∧ point ≤ positionalAbove then
    digits.take point.toNat ++ '.' :: digits.drop point.toNat
  else if positionalBelow < point ∧ point ≤ 0 then
    ['0', '.'] ++ List.replicate (-point).toNat '0' ++ digits
  else
    let mantissa := match digits with
      | [] => []
      | [d] => [d]
      | d :: rest => d :: '.' :: rest
    mantissa ++ 'e' :: (toString (point - 1)).toList

/-- The written form of a finite number; the others have none. -/
def text : Binary64 → Option String
  | .finite negative m e =>
    let sign := if negative then "-" else ""
    if m = 0 then some (sign ++ "0.0")
    else
      let found := shortest m e
      let digits := Nat.toDigits 10 found.1
      let point : Int := (digits.length : Int) + found.2
      some (sign ++ String.ofList (placePoint digits point))
  | _ => none

/-- The largest power of ten below the top of the range. -/
def largestTen : Nat := 308

/-- `value * 10 ^ exponent`, one rounded power of ten at a time. Small exponents
    are reached in steps, and the steps end once nothing is left of the value. -/
def scaleByTen (value : Binary64) (exponent : Int) : Option Binary64 :=
  if exponent.natAbs ≤ largestTen then
    if 0 ≤ exponent then
      match value.mul (ofNat (Nat.pow 10 exponent.natAbs)) with
      | .infinite _ => none
      | product => some product
    else some (value.div (ofNat (Nat.pow 10 exponent.natAbs)))
  else if value.isZero then some value
  else if 0 ≤ exponent then none
  else scaleByTen (value.div (ofNat (Nat.pow 10 largestTen))) (exponent + (largestTen : Int))
termination_by (-exponent).toNat
decreasing_by
  simp only [largestTen] at *
  omega

/-- The number read from `digits * 10 ^ exponent`, unless it is too large. -/
def ofDecimal? (negative : Bool) (digits : Nat) (exponent : Int) : Option Binary64 :=
  (scaleByTen (ofNat digits) exponent).map fun value => if negative then value.neg else value

end Binary64

end EffectKernel
