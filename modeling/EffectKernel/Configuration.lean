import EffectKernel.Context
import EffectKernel.Schedule.Codec

/-!
# Configurations

What does not change while programs run: whether delays are waited out. Tests turn
this off, so that a program which would sleep for an hour ends at once. A configuration
is written as a JSON object with one field.

## Main definitions

* `Configuration`: Whether delays are waited out.
* `Configuration.text`, `Configuration.ofText?`: The written form and its reader.
* `Configuration.shown`, `shownRuntime`: What a programmer is shown.

## Theorems

* `Configuration.ofDocument?_toDocument`: A configuration is read back.
-/

namespace EffectKernel

open Json

/-- What does not change while programs run. -/
structure Configuration where
  /-- Whether delays are waited out. -/
  honorDelays : Bool
deriving DecidableEq

namespace Configuration

/-- The usual configuration waits. -/
def usual : Configuration :=
  ⟨true⟩

/-- The written form. -/
def toDocument (c : Configuration) : Document :=
  .object [(some "honor_delays", .bool c.honorDelays)]

/-- The text of a configuration. -/
def text (c : Configuration) : String :=
  c.toDocument.text

/-- A configuration from its written form. -/
def ofDocument? (d : Document) : Option Configuration :=
  match Codec.oneField? "honor_delays" Codec.depthLimit d with
  | some (.bool b) => some ⟨b⟩
  | _ => none

/-- A configuration read from a text. -/
def ofText? (text : String) : Option Configuration :=
  (read? text).bind ofDocument?

/-- A configuration as shown to a programmer. -/
def shown (c : Configuration) : String :=
  Text.shownRecord "RuntimeConfig" [("honor_delays", toString c.honorDelays)]

/-- A configuration that has been written down is read back as it was. -/
theorem ofDocument?_toDocument (c : Configuration) : ofDocument? c.toDocument = some c := by
  cases c
  rfl

end Configuration

/-- Services and a configuration together, as shown to a programmer. -/
def shownRuntime (context : Context) (c : Configuration) : String :=
  Text.shownRecord "Runtime" [("context", context.shown), ("config", c.shown)]

end EffectKernel
