import EffectKernel.ConstructionError
import EffectKernel.Effect
import EffectKernel.Value.Text

/-!
# Reports

What a script in the outer layer can be told, as plain values: how a run ended, why,
which services there are, where a schedule stands, what the machine did.

A script knows services by their tags, of which there is a fixed number here. Two tags
can have one name, so a report that has to tell services apart gives the tag, and one
that shows what people see gives the name.

## Main definitions

* `tags`: The services that a script can name.
* `Report.outcome`, `Report.cause`, `Report.defect`: How a run ended, and why.
* `Report.context`: The services of a context.
* `Report.state`: Where a schedule stands.
* `Report.event`: What the machine did.
-/

namespace EffectKernel

namespace Script

/-- The services that a script can name, with their tags. The last one differs from
    the first in nothing that people see. -/
def tags : List (String × ServiceKey) :=
  [("Alpha", ⟨0, "Alpha"⟩), ("Beta", ⟨1, "Beta"⟩), ("Gamma", ⟨2, "Gamma"⟩),
   ("Delta", ⟨3, "Delta"⟩), ("Epsilon", ⟨4, "Epsilon"⟩), ("Zeta", ⟨5, "Zeta"⟩),
   ("Eta", ⟨6, "Eta"⟩), ("Twin", ⟨7, "Alpha"⟩)]

/-- The service with a tag. -/
def keyOf? (tag : String) : Option ServiceKey :=
  tags.lookup tag

/-- The tag of a service. -/
def tagOf (key : ServiceKey) : String :=
  match tags.find? (·.2 == key) with
  | some entry => entry.1
  | none => key.name

namespace Report

/-- The service that is missing, if a defect is about one. -/
def service? : DefectKind → Option String
  | .missingService service => some service
  | _ => none

/-- A defect: its kind and message, the missing service and what it wraps. -/
def defect (d : Defect) : Value :=
  .record ([("kind", .text d.kind.name), ("message", .text d.message)] ++
    (match service? d.kind with | some s => [("service", .text s)] | none => []) ++
    (match d.source with | some s => [("source", .text s)] | none => []))

/-- Why a run did not succeed. -/
def cause : Cause Value → Value
  | .fail e => Value.record1 "fail" e
  | .die d => Value.record1 "die" (defect d)

/-- How a run ended. -/
def outcome : Outcome → Value
  | .success v => Value.record1 "success" v
  | .fail e => Value.record1 "fail" e
  | .die d => Value.record1 "die" (defect d)

/-- A result, or what came instead of one. -/
def except (error : ε → Value) : Except ε Value → Value
  | .ok v => Value.record1 "ok" v
  | .error e => Value.record1 "err" (error e)

/-- The services of a context. -/
def context (c : Context) : Value :=
  .record
    [("debug", .text c.shown),
     ("empty", .bool c.isEmpty),
     ("keys", Value.names ((c.keys.map (·.name)).mergeSort fun a b => decide (a ≤ b))),
     ("len", .ofNat c.size),
     ("services", .list (c.entries.map fun entry =>
       .pair (.text (tagOf entry.1)) entry.2))]

/-- A mistake in how a program is put together. -/
def mistake (e : ConstructionError) : Value :=
  Value.record2 "error" (.text e.kind) "message" (.text e.message)

/-- A function stopped that was asked for something. -/
def panic (p : Panic) : Value :=
  Value.record1 "panic" (.text (Defect.ofPanic p).message)

/-- Something was asked for in a wrong way. -/
def badInput : Value :=
  Value.record1 "error" (.text "BadInput")

/-- A span of time in nanoseconds. It can be longer than any number a script has, so
    it is given as a text. -/
def duration (d : Duration) : Value :=
  .text (toString d.nanos)

/-- A count of 32 bits. -/
def count (n : UInt32) : Value :=
  .ofNat n.toNat

mutual
/-- Where a schedule stands. -/
def state : ScheduleState → Value
  | .recurs n => Value.record1 "recurs" (count n)
  | .attempt n => Value.record1 "attempt" (count n)
  | .union left right => Value.record1 "union" (.pair (side left) (side right))
  | .intersect left right => Value.record1 "intersect" (.pair (state left) (state right))
  | .capped inner => Value.record1 "capped" (state inner)

/-- Where one side of a union stands. -/
def side : Option ScheduleState → Value
  | none => .null
  | some s => state s
end

/-- What a schedule decides. -/
def decision : Decision → Value
  | .again delay s => Value.record2 "delay" (duration delay) "state" (state s)
  | .stop => .text "stop"

/-- What the machine did. -/
def event (e : Event) : Value :=
  .list [.text e.level, .text e.message,
    Value.ofFields (e.fields.map fun field => (field.1, .text field.2))]

end Report

end Script

end EffectKernel
