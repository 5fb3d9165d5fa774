import EffectKernel.Json.Reader
import EffectKernel.Schedule

/-!
# Written Schedules

Schedules and their states as JSON. A variant without a payload is its name, and
any other variant is an object whose one member is named for it; a payload of
named fields is an object, one of two unnamed parts an array of two. A duration is
written as seconds and nanoseconds.

The reader takes a little more than the writer gives: named fields may also come as
an array in order, unknown fields are passed over, and a variant without a payload
may carry an empty one. It refuses a field given twice, a number out of range, and
nesting past `depthLimit`, which is also what its recursion descends on.

## Main definitions

* `Schedule.toDocument`, `ScheduleState.toDocument`: The written forms.
* `Schedule.ofDocument?`, `ScheduleState.ofDocument?`: Their readers.
* `Schedule.ofText?`: A policy read from a text.
-/

namespace EffectKernel

open Json

namespace Codec

/-- How many arrays and objects may be open at once, plus one. -/
def depthLimit : Nat := 128

/-- The values given for a field; two of them are one too many. -/
def fieldValues (name : String) (members : List (Option String × Document)) : List Document :=
  members.filterMap fun member => if member.1 = some name then some member.2 else none

/-- The value of a field that must be given exactly once. -/
def field? (name : String) (members : List (Option String × Document)) : Option Document :=
  match fieldValues name members with
  | [value] => some value
  | _ => none

/-- Whether every member name is a text. -/
def namesAreTexts (members : List (Option String × Document)) : Bool :=
  members.all fun member => member.1.isSome

/-- The one named field of a payload, given as an object or as an array in order. A
    payload is itself a level of nesting, so at least one must be left below it. -/
def oneField? (name : String) : Nat → Document → Option Document
  | _ + 1, .object members => if namesAreTexts members then field? name members else none
  | _ + 1, .array [value] => some value
  | _, _ => none

/-- The two named fields of a payload, given as an object or as an array in order. -/
def twoFields? (first second : String) : Nat → Document → Option (Document × Document)
  | _ + 1, .object members =>
    if namesAreTexts members then
      match field? first members, field? second members with
      | some a, some b => some (a, b)
      | _, _ => none
    else none
  | _ + 1, .array [a, b] => some (a, b)
  | _, _ => none

/-- The two unnamed parts of a payload. -/
def twoParts? : Nat → Document → Option (Document × Document)
  | _ + 1, .array [a, b] => some (a, b)
  | _, _ => none

/-- A natural number below a bound. -/
def natBelow? (bound : Nat) : Document → Option Nat
  | .number n =>
    match n.toNat? with
    | some value => if value < bound then some value else none
    | none => none
  | _ => none

/-- A count of 32 bits. -/
def count? (d : Document) : Option UInt32 :=
  (natBelow? UInt32.size d).map UInt32.ofNat

/-- A count of 32 bits as a document. -/
def ofCount (n : UInt32) : Document :=
  .ofNat n.toNat

/-- A floating point number. -/
def binary64? : Document → Option Binary64
  | .number n => n.toBinary64?
  | _ => none

/-- A floating point number as a document. One that is not finite has no numeral. -/
def ofBinary64 (b : Binary64) : Document :=
  match b.text.bind read? with
  | some numeral => numeral
  | none => .null

/-- A duration as a document. -/
def ofDuration (d : Duration) : Document :=
  .object [(some "secs", .ofNat d.seconds), (some "nanos", .ofNat d.subsecond)]

/-- Whether an object has no members but the two fields of a duration. -/
def onlyDurationFields : Document → Bool
  | .object members =>
    members.all fun member => member.1 = some "secs" || member.1 = some "nanos"
  | _ => true

/-- A duration. Its fields must be the only ones, and nanoseconds past a second
    count as further seconds. -/
def duration? (depth : Nat) (d : Document) : Option Duration :=
  if onlyDurationFields d then do
    let (seconds, nanos) ← twoFields? "secs" "nanos" (depth - 1) d
    let seconds ← natBelow? UInt64.size seconds
    let nanos ← natBelow? UInt32.size nanos
    Duration.ofParts? seconds nanos
  else none

end Codec

namespace Schedule

/-- The written form of a policy. -/
def toDocument : Schedule → Document
  | .recurs times => .variant "Recurs" (Codec.ofCount times)
  | .forever => .string (some "Forever")
  | .spaced delay => .variant "Spaced" (Codec.ofDuration delay)
  | .linear base => .variant "Linear" (.object [(some "base", Codec.ofDuration base)])
  | .exponential base factor =>
    .variant "Exponential"
      (.object [(some "base", Codec.ofDuration base), (some "factor", Codec.ofBinary64 factor)])
  | .fibonacci base => .variant "Fibonacci" (.object [(some "base", Codec.ofDuration base)])
  | .union left right => .variant "Union" (.array [left.toDocument, right.toDocument])
  | .intersect left right => .variant "Intersect" (.array [left.toDocument, right.toDocument])
  | .capped inner maxDelay =>
    .variant "Capped"
      (.object [(some "inner", inner.toDocument), (some "max_delay", Codec.ofDuration maxDelay)])

/-- The text of a policy. -/
def text (s : Schedule) : String :=
  s.toDocument.text

/-- A policy from its written form, with `depth` more levels of nesting allowed. A
    variant opens one level and its payload another. -/
def ofDocument? : Nat → Document → Option Schedule
  | depth + 2, .object [(some name, payload)] =>
    match name with
    | "Forever" =>
      match payload with
      | .null => some .forever
      | _ => none
    | "Recurs" => (Codec.count? payload).map .recurs
    | "Spaced" => (Codec.duration? (depth + 1) payload).map .spaced
    | "Linear" => do
      let base ← Codec.oneField? "base" depth payload
      return .linear (← Codec.duration? depth base)
    | "Exponential" => do
      let (base, factor) ← Codec.twoFields? "base" "factor" depth payload
      return .exponential (← Codec.duration? depth base) (← Codec.binary64? factor)
    | "Fibonacci" => do
      let base ← Codec.oneField? "base" depth payload
      return .fibonacci (← Codec.duration? depth base)
    | "Union" => do
      let (left, right) ← Codec.twoParts? depth payload
      return .union (← ofDocument? depth left) (← ofDocument? depth right)
    | "Intersect" => do
      let (left, right) ← Codec.twoParts? depth payload
      return .intersect (← ofDocument? depth left) (← ofDocument? depth right)
    | "Capped" => do
      let (inner, maxDelay) ← Codec.twoFields? "inner" "max_delay" depth payload
      return .capped (← ofDocument? depth inner) (← Codec.duration? depth maxDelay)
    | _ => none
  | _, .string (some "Forever") => some .forever
  | _, _ => none

/-- A policy read from a text. -/
def ofText? (text : String) : Option Schedule :=
  (read? text).bind (ofDocument? Codec.depthLimit)

end Schedule

namespace ScheduleState

/-- The written form of a state. -/
def toDocument : ScheduleState → Document
  | .recurs remaining =>
    .variant "Recurs" (.object [(some "remaining", Codec.ofCount remaining)])
  | .attempt n => .variant "Attempt" (.object [(some "n", Codec.ofCount n)])
  | .union left right =>
    .variant "Union" (.array
      [(match left with | some s => s.toDocument | none => .null),
       (match right with | some s => s.toDocument | none => .null)])
  | .intersect left right => .variant "Intersect" (.array [left.toDocument, right.toDocument])
  | .capped inner => .variant "Capped" inner.toDocument

/-- The text of a state. -/
def text (s : ScheduleState) : String :=
  s.toDocument.text

/-- A state from its written form, with `depth` more levels of nesting allowed. -/
def ofDocument? : Nat → Document → Option ScheduleState
  | depth + 2, .object [(some name, payload)] =>
    match name with
    | "Recurs" => do
      let remaining ← Codec.oneField? "remaining" depth payload
      return .recurs (← Codec.count? remaining)
    | "Attempt" => do
      let n ← Codec.oneField? "n" depth payload
      return .attempt (← Codec.count? n)
    | "Union" => do
      let (left, right) ← Codec.twoParts? depth payload
      let side : Document → Option (Option ScheduleState)
        | .null => some none
        | d => (ofDocument? depth d).map some
      return .union (← side left) (← side right)
    | "Intersect" => do
      let (left, right) ← Codec.twoParts? depth payload
      return .intersect (← ofDocument? depth left) (← ofDocument? depth right)
    | "Capped" => (ofDocument? (depth + 1) payload).map .capped
    | _ => none
  | _, _ => none

/-- A state read from a text. -/
def ofText? (text : String) : Option ScheduleState :=
  (read? text).bind (ofDocument? Codec.depthLimit)

end ScheduleState

end EffectKernel
