import EffectKernel.Text.Quoted

/-!
# Defects

A defect is a fault that no program expects: a panic, a missing service, a misuse of
the machine. It has a kind, a message and, if it wraps an error, the text of that
error. The wrapped text is for diagnosis only; two defects are the same when kind
and message are.

## Main definitions

* `Panic`: What a function leaves behind that stops in the middle.
* `DefectKind`: The category of a defect.
* `Defect`: A fault.
* `Defect.same`: Equality up to the wrapped error.
* `Defect.ofPanic`: The fault that a panic becomes.
-/

namespace EffectKernel

/-- What a function leaves behind that stops in the middle: a message, unless what it
    stopped with was no text. -/
structure Panic where
  /-- The message, if there is one. -/
  message? : Option String
deriving DecidableEq

/-- The category of a defect. -/
inductive DefectKind where
  /-- A function that the machine called has panicked. -/
  | panic
  /-- The program asked for it. -/
  | raised
  /-- A service was not in the context. -/
  | missingService (service : String)
  /-- Something was run to the end that can only end later. -/
  | asyncInSyncRun
  /-- The fiber was cancelled. -/
  | interrupted
  /-- Nobody is left who could resume the fiber. -/
  | resumeDropped
  /-- A value was not what the description promised. -/
  | typeMismatch
deriving DecidableEq

namespace DefectKind

/-- The word for a category. -/
def name : DefectKind → String
  | .panic => "Panic"
  | .raised => "Raised"
  | .missingService _ => "MissingService"
  | .asyncInSyncRun => "AsyncInSyncRun"
  | .interrupted => "Interrupted"
  | .resumeDropped => "ResumeDropped"
  | .typeMismatch => "TypeMismatch"

/-- A category as shown to a programmer. -/
def shown : DefectKind → String
  | .missingService service =>
    Text.shownRecord "MissingService" [("service", Text.quoted service)]
  | kind => kind.name

end DefectKind

/-- A fault. -/
structure Defect where
  /-- The category. -/
  kind : DefectKind
  /-- What went wrong. -/
  message : String
  /-- The text of the error it wraps. -/
  source : Option String
deriving DecidableEq

namespace Defect

/-- A fault of a category. -/
def ofKind (kind : DefectKind) (message : String) : Defect :=
  ⟨kind, message, none⟩

/-- A fault that the program asks for. -/
def raised (message : String) : Defect :=
  ofKind .raised message

/-- A fault that wraps an error with the given text. -/
def ofError (text : String) : Defect :=
  ⟨.raised, text, some text⟩

/-- The fault that a panic becomes. -/
def ofPanic (p : Panic) : Defect :=
  ofKind .panic (p.message?.getD "panic with a non-string payload")

/-- A service was not in the context. -/
def missingService (service : String) : Defect :=
  ofKind (.missingService service) ("service not found in context: " ++ service)

/-- Something was run to the end that can only end later. -/
def asyncInSync (what : String) : Defect :=
  ofKind .asyncInSyncRun
    ("cannot run " ++ what ++ " synchronously; use an async entry point")

/-- The fiber was cancelled. -/
def interrupted : Defect :=
  ofKind .interrupted "fiber was interrupted"

/-- Nobody is left who could resume the fiber. -/
def resumeDropped : Defect :=
  ofKind .resumeDropped "async effect was dropped without being resumed"

/-- There is nothing around that could run a fiber on its own. -/
def outsideRuntime : Defect :=
  ofKind .asyncInSyncRun "run_async requires a tokio runtime"

/-- A race was held with nobody in it. -/
def emptyRace : Defect :=
  raised "race requires at least one effect"

/-- A value was not what the description promised. -/
def typeMismatch (expected : String) : Defect :=
  ofKind .typeMismatch ("value did not have expected type " ++ expected)

/-- Equality up to the wrapped error. -/
def same (a b : Defect) : Bool :=
  a.kind == b.kind && a.message == b.message

/-- A fault as shown to a programmer. -/
def shown (d : Defect) : String :=
  Text.shownRecord "Defect"
    [("kind", d.kind.shown),
     ("message", Text.quoted d.message),
     ("source", Text.shownOption (d.source.map Text.quoted))]

end Defect

end EffectKernel
