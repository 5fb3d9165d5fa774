import EffectKernel.Script.Session

/-!
# Transcripts

The answers of a session, in the outer layer, to a list of commands. Besides the answer
itself, the report on a command tells what it wrote to the log, where the counters are
now, and, if asked for, what the machine did.

Commands that go wrong are answered too, and the session goes on after them with what
they have changed so far. Only a session whose steps run out, or that waits in vain, has
no transcript.

## Main definitions

* `Session.perform`: The answer to a command, with the state it leaves.
* `Session.report`: The report on a command.
* `Session.transcript`: The reports on a list of commands.
-/

namespace EffectKernel

namespace Script

namespace Session

/-- The answer to a command, with the state it leaves. -/
def perform (fuel : Nat) (s : Session) : Command → Option (Value × Session)
  | .context name services => some (s.makeContext name services)
  | .sameRegistry a b => some (s.sameRegistry a b)
  | .layer name layer sorted fallback => some (s.makeLayer name layer sorted fallback)
  | .effect name effect => some (s.makeEffect name effect)
  | .sleepText span => some (shownNode (.sleep span), s)
  | .tagsText tags => some (.text (shownTags tags), s)
  | .run effect kind surroundings fresh =>
    let s := if fresh then s.withStore { s.store with counters := [] } else s
    match s.made (prepared s.names effect surroundings (usuallyHonored kind)) with
    | (.ok (effect, services, honorDelays), s) => s.run fuel effect services honorDelays kind
    | (.error answer, s) => some (answer, s)
  | .spawn name effect surroundings => some (s.spawn name effect surroundings)
  | .cancel name =>
    let s := s.cancelled name
    some (Value.record1 "delivered" (s.deliveredTo name), s)
  | .wait millis => (s.waited fuel millis).map fun s => (.text "waited", s)
  | .join name => (s.joined fuel name).map fun s =>
      (Value.record1 "delivered" (s.deliveredTo name), s.released name)
  | .drop name => some (.text "dropped", s.released name)
  | .status name => some (s.status name, s)
  | .resume name use =>
    match s.handle? name with
    | some handle => some (.text "resumed", s.useHandle name handle use)
    | none => some (.text "none", s)
  | .resumeStatus name =>
    match s.handle? name with
    | some handle => some (s.handleStatus handle, s)
    | none => some (.text "none", s)
  | .unknown => some (Report.badInput, s)

/-- The report on a command: its answer, what it wrote to the log, where the counters
    are now, and perhaps what the machine did. -/
def report (before after : Session) (answer : Value) (traced : Bool) : Value :=
  let log := after.store.log.toList.drop before.store.log.size
  let counters := after.store.counters
  let events := after.kernel.world.events.toList.drop before.kernel.world.events.size
  Value.ofFields
    ([("answer", answer)] ++
     (if log.isEmpty then []
      else [("log", .list (log.map fun entry => .pair (.ofNat entry.1) entry.2))]) ++
     (if counters.isEmpty then []
      else [("counters", Value.ofFields (counters.map fun c => (c.1, .ofNat c.2)))]) ++
     (if traced then [("trace", .list (events.map Report.event))] else []))

/-- The reports on a list of commands. -/
def transcriptFrom (fuel : Nat) (traced : Bool) : Session → List Command → Option (List Value)
  | _, [] => some []
  | before, command :: rest =>
    match before.perform fuel command with
    | none => none
    | some (answer, after) =>
      let after := { after with kernel := after.kernel.modifyStore (observe after.kernel.now) }
      match transcriptFrom fuel traced after rest with
      | some answers => some (before.report after answer traced :: answers)
      | none => none

/-- The reports on a list of commands, beginning with nothing. -/
def transcript (fuel : Nat) (traced : Bool) (commands : List Command) : Option (List Value) :=
  transcriptFrom fuel traced start commands

end Session

end Script

end EffectKernel
