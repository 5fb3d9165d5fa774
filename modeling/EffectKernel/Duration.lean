/-!
# Durations

A span of time counted in whole nanoseconds. The seconds of a span fit in 64 bits,
so there is a longest span, and arithmetic that would pass it stops there: a delay
can grow without end but never wraps around to a short one.

A span is kept as one number of nanoseconds below the bound rather than as seconds
and a remainder. Order, sums and products are then those of the natural numbers,
cut off at the top.

## Main definitions

* `Duration`: A span of time.
* `Duration.ofNanos`: The span of so many nanoseconds, or the longest one.
* `Duration.scale`: A whole multiple of a span.
* `Duration.ofParts?`: A span from seconds and nanoseconds, if it fits.
* `Duration.shown`: A span in the largest unit that it fills.
-/

namespace EffectKernel

/-- Nanoseconds in a second. -/
def nanosPerSecond : Nat := 1000000000

/-- Nanoseconds in a millisecond. -/
def nanosPerMilli : Nat := 1000000

/-- A span of time. The count of nanoseconds stays below `2 ^ 64` whole seconds. -/
structure Duration where
  /-- The length in nanoseconds. -/
  nanos : Nat
  /-- The seconds fit in 64 bits. -/
  nanos_lt : nanos < UInt64.size * nanosPerSecond
deriving DecidableEq

namespace Duration

/-- The longest span. -/
def longest : Duration :=
  ⟨UInt64.size * nanosPerSecond - 1, by decide⟩

/-- The empty span. -/
def zero : Duration :=
  ⟨0, by decide⟩

/-- The span of `n` nanoseconds, cut off at the longest span. -/
def ofNanos (n : Nat) : Duration :=
  if h : n < UInt64.size * nanosPerSecond then ⟨n, h⟩ else longest

/-- The span of `n` milliseconds, cut off at the longest span. -/
def ofMillis (n : Nat) : Duration :=
  ofNanos (n * nanosPerMilli)

instance : Inhabited Duration := ⟨zero⟩

instance : LE Duration := ⟨fun a b => a.nanos ≤ b.nanos⟩

instance : LT Duration := ⟨fun a b => a.nanos < b.nanos⟩

instance (a b : Duration) : Decidable (a ≤ b) :=
  inferInstanceAs (Decidable (a.nanos ≤ b.nanos))

instance (a b : Duration) : Decidable (a < b) :=
  inferInstanceAs (Decidable (a.nanos < b.nanos))

instance : Min Duration := ⟨fun a b => if a ≤ b then a else b⟩

instance : Max Duration := ⟨fun a b => if a ≤ b then b else a⟩

/-- Whether there is nothing to wait for. -/
def isZero (d : Duration) : Bool :=
  d.nanos == 0

/-- The span taken `k` times, cut off at the longest span. -/
def scale (d : Duration) (k : Nat) : Duration :=
  ofNanos (d.nanos * k)

/-- The whole seconds of a span. -/
def seconds (d : Duration) : Nat :=
  d.nanos / nanosPerSecond

/-- The nanoseconds beyond the last whole second. -/
def subsecond (d : Duration) : Nat :=
  d.nanos % nanosPerSecond

/-- The span of `seconds` and `nanos`, where the nanoseconds may fill further
    seconds. There is none if the seconds then no longer fit. -/
def ofParts? (seconds nanos : Nat) : Option Duration :=
  if h : seconds * nanosPerSecond + nanos < UInt64.size * nanosPerSecond then
    some ⟨seconds * nanosPerSecond + nanos, h⟩
  else none

/-- A fraction of a unit that holds `10 ^ digits` parts, after the decimal point and
    without trailing zeros; nothing if there is no fraction. -/
def shownFraction (digits part : Nat) : String :=
  if part = 0 then ""
  else
    let written := Nat.toDigits 10 part
    let padded := List.replicate (digits - written.length) '0' ++ written
    "." ++ String.ofList (padded.reverse.dropWhile (· == '0')).reverse

/-- A span in the largest unit that it fills, as a decimal number that is exact. -/
def shown (d : Duration) : String :=
  let n := d.nanos
  if n ≥ nanosPerSecond then
    toString (n / nanosPerSecond) ++ shownFraction 9 (n % nanosPerSecond) ++ "s"
  else if n ≥ nanosPerMilli then
    toString (n / nanosPerMilli) ++ shownFraction 6 (n % nanosPerMilli) ++ "ms"
  else if n ≥ 1000 then
    toString (n / 1000) ++ shownFraction 3 (n % 1000) ++ "µs"
  else toString n ++ "ns"

/-- A span is cut at the longest one that can be held. -/
@[simp] theorem nanos_ofNanos (n : Nat) :
    (ofNanos n).nanos = min n (UInt64.size * nanosPerSecond - 1) := by
  by_cases h : n < UInt64.size * nanosPerSecond
  · rw [ofNanos, dif_pos h]
    show n = _
    omega
  · rw [ofNanos, dif_neg h]
    show UInt64.size * nanosPerSecond - 1 = _
    omega

/-- A multiple of a span is cut at the longest one that can be held. -/
@[simp] theorem nanos_scale (d : Duration) (k : Nat) :
    (d.scale k).nanos = min (d.nanos * k) (UInt64.size * nanosPerSecond - 1) := by
  simp only [scale, nanos_ofNanos]

/-- Two spans of one length are the same span. -/
theorem eq_of_nanos_eq {a b : Duration} (h : a.nanos = b.nanos) : a = b := by
  cases a
  cases b
  cases h
  rfl

end Duration

end EffectKernel
