/-!
# Binary Floating Point

The 64-bit binary floating point numbers of IEEE 754, with the few operations a
growing delay needs. A finite number is a sign, a mantissa below `2 ^ 53` and a
power of two, so products and quotients can be formed exactly among the natural
numbers and rounded once. Nothing here depends on how a machine computes.

Every operation is the exact result brought to the nearest number by
`ofQuotient`, a tie going to the even mantissa. The exponent never falls below
`-1074`, which is where mantissas lose bits instead, and a result past the top of
the range is infinite.

## Main definitions

* `Binary64`: A number, an infinity or the result that is not a number.
* `Binary64.ofQuotient`: The number nearest to a quotient of natural numbers.
* `Binary64.mul`, `Binary64.div`: Product and quotient, rounded once.
* `Binary64.power`: A natural power, by repeated squaring.
* `Binary64.clampBelow`: A factor with everything below zero raised to zero.
* `Binary64.toNatBelow?`: The whole part of a finite number under a bound.
* `Binary64.sameNumber`: Equality of numbers, which the two zeros pass and
  `nan` fails.
-/

namespace EffectKernel

/-- A floating point number of 64 bits. A finite one stands for
    `mantissa * 2 ^ exponent`, negated if the sign says so. -/
inductive Binary64 where
  /-- The result of an operation that has none. -/
  | nan
  /-- Larger in size than every finite number. -/
  | infinite (negative : Bool)
  /-- A number, kept with the largest mantissa its exponent range allows. -/
  | finite (negative : Bool) (mantissa : Nat) (exponent : Int)
deriving DecidableEq, Repr

namespace Binary64

/-- The quotient `n / d` brought to the nearest natural number, a half to the even
    one. -/
def roundQuotient (n d : Nat) : Nat :=
  let quotient := n / d
  let twice := 2 * (n % d)
  if twice < d then quotient
  else if d < twice then quotient + 1
  else if quotient % 2 = 0 then quotient
  else quotient + 1

/-- The smallest exponent a finite number has. -/
def lowestExponent : Int := -1074

/-- The largest exponent a finite number has. -/
def highestExponent : Int := 971

/-- The quotient `n / d` divided by `2 ^ e`, as a fraction again. -/
def scaled (n d : Nat) : Int → Nat × Nat
  | .ofNat e => (n, d <<< e)
  | .negSucc e => (n <<< (e + 1), d)

/-- The exponent at which `n / d` has a mantissa of 53 bits, but never below the
    lowest one. The estimate from the lengths of `n` and `d` is at most one too
    small. -/
def exponentFor (n d : Nat) : Int :=
  let estimate : Int := (n.log2 : Int) - (d.log2 : Int) - 53
  let fraction := scaled n d estimate
  let exponent := if fraction.1 / fraction.2 < 1 <<< 53 then estimate else estimate + 1
  max exponent lowestExponent

/-- The number nearest to `n / d`, with the given sign. -/
def ofQuotient (negative : Bool) (n d : Nat) : Binary64 :=
  if n = 0 then .finite negative 0 lowestExponent
  else
    let exponent := exponentFor n d
    let fraction := scaled n d exponent
    let rounded := roundQuotient fraction.1 fraction.2
    -- Rounding up may carry into a 54th bit; the mantissa is then a power of two.
    let carried := rounded = 1 <<< 53
    let mantissa := if carried then 1 <<< 52 else rounded
    let exponent := if carried then exponent + 1 else exponent
    if highestExponent < exponent then .infinite negative
    else .finite negative mantissa exponent

/-- The number nearest to `m * 2 ^ e`, with the given sign. -/
def ofScaled (negative : Bool) (m : Nat) : Int → Binary64
  | .ofNat e => ofQuotient negative (m <<< e) 1
  | .negSucc e => ofQuotient negative m (1 <<< (e + 1))

/-- The number nearest to a natural number. -/
def ofNat (n : Nat) : Binary64 :=
  ofQuotient false n 1

/-- Positive zero. -/
def zero : Binary64 :=
  .finite false 0 lowestExponent

/-- One. -/
def one : Binary64 :=
  ofNat 1

/-- Two, the factor of a delay that doubles. -/
def two : Binary64 :=
  ofNat 2

/-- Whether the number is a zero of either sign. -/
def isZero : Binary64 → Bool
  | .finite _ 0 _ => true
  | _ => false

/-- The number with its sign turned. -/
def neg : Binary64 → Binary64
  | .nan => .nan
  | .infinite s => .infinite (!s)
  | .finite s m e => .finite (!s) m e

/-- The product, rounded once. Zero times an infinity has no result. -/
def mul : Binary64 → Binary64 → Binary64
  | .nan, _ => .nan
  | _, .nan => .nan
  | .infinite s, .infinite t => .infinite (s != t)
  | .infinite s, .finite t m _ => if m = 0 then .nan else .infinite (s != t)
  | .finite s m _, .infinite t => if m = 0 then .nan else .infinite (s != t)
  | .finite s m e, .finite t n f => ofScaled (s != t) (m * n) (e + f)

/-- The quotient, rounded once. -/
def div : Binary64 → Binary64 → Binary64
  | .nan, _ => .nan
  | _, .nan => .nan
  | .infinite _, .infinite _ => .nan
  | .infinite s, .finite t _ _ => .infinite (s != t)
  | .finite s _ _, .infinite t => .finite (s != t) 0 lowestExponent
  | .finite s m e, .finite t n f =>
    if n = 0 then (if m = 0 then .nan else .infinite (s != t))
    else
      match e - f with
      | .ofNat k => ofQuotient (s != t) (m <<< k) n
      | .negSucc k => ofQuotient (s != t) m (n <<< (k + 1))

/-- The loop of repeated squaring: `result` times `base ^ n`, reading the bits of
    `n` from the lowest up. The last square is not formed. -/
def powerLoop (base result : Binary64) (n : Nat) : Binary64 :=
  let result := if n % 2 = 1 then result.mul base else result
  if n / 2 = 0 then result else powerLoop (base.mul base) result (n / 2)
termination_by n
decreasing_by omega

/-- A natural power. Each product is rounded, so the order of the products counts:
    it is that of repeated squaring. -/
def power (base : Binary64) (n : Nat) : Binary64 :=
  powerLoop base one n

/-- A factor with everything below zero, and what is not a number, raised to zero. -/
def clampBelow : Binary64 → Binary64
  | .nan => zero
  | .infinite true => zero
  | .infinite false => .infinite false
  | .finite negative m e => if negative || m = 0 then zero else .finite false m e

/-- The whole part of `m * 2 ^ e`. -/
def wholePart (m : Nat) : Int → Nat
  | .ofNat e => m <<< e
  | .negSucc e => m >>> (e + 1)

/-- The whole part of a finite number below `bound`, a negative number counting as
    zero. There is none for the rest. -/
def toNatBelow? (bound : Nat) : Binary64 → Option Nat
  | .finite negative m e =>
    if negative then some 0
    else if wholePart m e < bound then some (wholePart m e)
    else none
  | _ => none

/-- Whether two numbers are equal as numbers. -/
def sameNumber : Binary64 → Binary64 → Bool
  | .nan, _ => false
  | _, .nan => false
  | .infinite s, .infinite t => s == t
  | .infinite _, .finite _ _ _ => false
  | .finite _ _ _, .infinite _ => false
  | .finite s m e, .finite t n f => (m == 0 && n == 0) || (s == t && m == n && e == f)

end Binary64

end EffectKernel
