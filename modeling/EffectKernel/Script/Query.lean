import EffectKernel.Exit.Expectation
import EffectKernel.Schedule.Codec
import EffectKernel.Script.Operation
import EffectKernel.Script.Transcript

/-!
# Queries

What the outer layer can be asked. There are questions about the plain parts of the
library, which no run is needed for: schedules and their written forms, exits, causes
and defects, one thing or another, services and configurations. The last kind of
question is a whole session.

A function in a question may panic, and then the question has no other answer than that.

## Main definitions

* `Query`: A question.
* `Query.answer`: Its answer.
-/

namespace EffectKernel

namespace Script

/-- A question. -/
inductive Query where
  /-- How a schedule begins, with so many of its delays. -/
  | schedule (s : Schedule) (limit : Nat)
  /-- The decisions of a schedule from a state, the first one if none is given. -/
  | decisions (s : Schedule) (steps : Nat) (state : Option ScheduleState)
  /-- Whether two schedules are the same. -/
  | sameSchedule (a b : Schedule)
  /-- The written form of a schedule. -/
  | writeSchedule (s : Schedule)
  /-- The schedule with a written form. -/
  | readSchedule (text : String)
  /-- The configuration with a written form. -/
  | readConfiguration (text : String)
  /-- Operations on an exit. -/
  | exit (x : Outcome) (operations : List ExitOperation)
  /-- All about a cause, and about the cause with its failure transformed. -/
  | cause (c : Cause Value) (f : Function)
  /-- What ends a routine for a cause. -/
  | halt (c : Cause Value)
  /-- All about a defect, and which others are the same. -/
  | defect (d : Defect) (others : List Defect)
  /-- All about a construction error, and which others are equal. -/
  | mistake (e : ConstructionError) (others : List ConstructionError)
  /-- Operations on one thing or another. -/
  | either (e : Either Value Value) (operations : List EitherOperation)
  /-- The order of two of them. -/
  | order (a b : Either Int64 Int64)
  /-- The left ones and the right ones. -/
  | partition (items : List (Either Value Value))
  /-- All about the keys of two services. -/
  | keys (a b : ServiceKey)
  /-- All about services with a configuration. -/
  | runtime (services : ContextScript) (honorDelays : Option Bool)
  /-- Whether an expectation holds. -/
  | expect (expectation : Expectation Value Value) (x : Outcome)
  /-- The reports on commands. -/
  | session (commands : List Command) (traced : Bool)

/-- The report on a text that cannot be read. -/
def unreadable : Value :=
  Value.record1 "error" (.text "Deserialize")

/-- How a schedule begins, without its state. -/
def beginning (s : Schedule) (limit : Nat) : List (String × Value) :=
  [("bounded", .bool s.isBounded),
   ("delays", .list ((s.delays limit).map Report.duration))]

/-- Whether a schedule is read back from its written form as the same. -/
def readsBack (s : Schedule) : Bool :=
  match Schedule.ofText? s.text with
  | some t => s.same t
  | none => false

namespace Query

/-- The answer about a cause, and about the cause with its failure transformed. -/
def aboutCause (c : Cause Value) (f : Function) : Act Store Value := do
  let mapped ← mapCause f.run c
  return Value.ofFields
    [("map", Report.cause mapped),
     ("same", .bool (mapped.same c)),
     ("into_fail", Value.ofOption c.error?),
     ("defect", match c.defect? with | some d => Report.defect d | none => .null),
     ("is_die", .bool c.isDie),
     ("display", .text (c.message Value.compact)),
     ("debug", .text (c.shown Value.compact)),
     ("source", .text (c.message Value.compact)),
     ("exit", Report.outcome (Exit.ofCause c))]

/-- The answer about services with a configuration. -/
def aboutRuntime (c : Context) (config : Configuration) : Value :=
  Value.ofFields
    [("debug", .text (shownRuntime c config)),
     ("honor", .bool config.honorDelays),
     ("context", Report.context c),
     ("eq_default", .bool (config == Configuration.usual))]

/-- The number of an order. -/
def sign : Ordering → Int64
  | .lt => -1
  | .eq => 0
  | .gt => 1

/-- The answer to a question, sessions taking at most so many steps. -/
def answer (fuel : Nat) : Query → Option Value
  | .schedule s limit =>
    some (Value.ofFields (beginning s limit ++ [("initial", Report.state s.initial)]))
  | .decisions s steps state =>
    some (.list ((s.decisionsFrom steps (state.getD s.initial)).map Report.decision))
  | .sameSchedule a b => some (.bool (a.same b))
  | .writeSchedule s =>
    some (Value.ofFields
      [("json", .text s.text), ("initial", .text s.initial.text),
       ("round_trip", .bool (readsBack s))])
  | .readSchedule text =>
    match Schedule.ofText? text with
    | some s => some (Value.ofFields (beginning s 6))
    | none => some unreadable
  | .readConfiguration text =>
    match Configuration.ofText? text with
    | some c =>
      some (Value.record2 "honor_delays" (.bool c.honorDelays) "json" (.text c.text))
    | none => some unreadable
  | .exit x operations => some (outright do
      return .list (← performAll ExitOperation.perform x operations))
  | .cause c f => some (outright (aboutCause c f))
  | .halt c =>
    some (Value.ofFields
      [("cause", Report.cause c),
       ("debug", .text (Text.shownRecord "Halt" [("cause", c.shown Value.compact)])),
       ("same", .bool (c.same c))])
  | .defect d others =>
    some (Value.ofFields
      [("defect", Report.defect d), ("display", .text d.message), ("debug", .text d.shown),
       ("eq", truths d.same others)])
  | .mistake e others =>
    some (Value.ofFields
      [("display", .text e.message), ("debug", .text e.shown),
       ("eq", truths (e == ·) others)])
  | .either e operations => some (outright do
      return .list (← performAll EitherOperation.perform e operations))
  | .order a b =>
    some (Value.ofFields
      [("cmp", .int (sign (a.compare b))), ("eq", .bool (a == b)),
       ("debug", .text (a.shown (toString ·.toInt) (toString ·.toInt)))])
  | .partition items =>
    match Either.partition items with
    | (lefts, rights) =>
      some (Value.record2 "lefts" (.list lefts) "rights" (.list rights))
  | .keys a b =>
    some (Value.ofFields
      [("eq", .bool (a == b)), ("names", Value.names [a.name, b.name]),
       ("debug", .text a.shown)])
  | .runtime services honorDelays =>
    match Session.start.made (services.make Session.start.names []) with
    | (.ok registry, _) =>
      let config := match honorDelays with
        | some b => ⟨b⟩
        | none => Configuration.usual
      some (aboutRuntime registry.context config)
    | (.error answer, _) => some answer
  | .expect expectation x =>
    match expectation.complaint? Value.compact Value.compact x with
    | some complaint =>
      some (Value.record2 "message" (.text complaint) "passed" (.bool false))
    | none => some (Value.record1 "passed" (.bool true))
  | .session commands traced => (Session.transcript fuel traced commands).map .list

end Query

end Script

end EffectKernel
