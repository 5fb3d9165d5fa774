import EffectKernel.Exit

/-!
# Expectations

What a test says about an exit, and the complaint when it does not hold. An
expectation names the channel and may say more: which value or failure, or which
kind of defect.

## Main definitions

* `Expectation`: What a test says.
* `Expectation.complaint?`: The message of a test that fails.
-/

namespace EffectKernel

/-- The kinds of defect a test can ask for. A missing service may be any. -/
inductive ExpectedKind where
  /-- A panic. -/
  | panic
  /-- A defect the program asked for. -/
  | raised
  /-- A cancelled fiber. -/
  | interrupted
  /-- A missing service, whichever it is. -/
  | missingService
deriving DecidableEq

namespace ExpectedKind

/-- Whether a kind of defect is the one asked for. -/
def admits : ExpectedKind → DefectKind → Bool
  | .panic, .panic => true
  | .raised, .raised => true
  | .interrupted, .interrupted => true
  | .missingService, .missingService _ => true
  | _, _ => false

/-- The pattern that a complaint names. -/
def pattern : ExpectedKind → String
  | .panic => "DefectKind::Panic"
  | .raised => "DefectKind::Raised"
  | .interrupted => "DefectKind::Interrupted"
  | .missingService => "DefectKind::MissingService \x7b .. \x7d"

end ExpectedKind

/-- What a test says about an exit. -/
inductive Expectation (α ε : Type) where
  /-- It succeeds, perhaps with this value. -/
  | success (value : Option α)
  /-- It fails, perhaps with this error. -/
  | fail (error : Option ε)
  /-- It dies, perhaps by such a defect. -/
  | die (kind : Option ExpectedKind)

namespace Expectation

variable {α ε : Type}

/-- The complaint that an exit took another channel than the one expected. -/
def wrongChannel (wanted : String) (detail : Option String) (got shown : String) : String :=
  "Expected " ++ wanted ++ (match detail with | some d => " " ++ d | none => "") ++
    ", got " ++ got ++ ": " ++ shown

/-- The message of a test that fails, or nothing if the expectation holds. -/
def complaint? [BEq α] [BEq ε] (value : α → String) (error : ε → String) :
    Expectation α ε → Exit α ε → Option String
  | .success wanted, .success a =>
    match wanted with
    | some w => if a == w then none else some "assert_eq failed"
    | none => none
  | .success wanted, .fail e =>
    some (wrongChannel "Success" (wanted.map value) "Fail" (error e))
  | .success wanted, .die d =>
    some (wrongChannel "Success" (wanted.map value) "Die" d.shown)
  | .fail wanted, .fail e =>
    match wanted with
    | some w => if e == w then none else some "assert_eq failed"
    | none => none
  | .fail wanted, .success a =>
    some (wrongChannel "Fail" (wanted.map error) "Success" (value a))
  | .fail wanted, .die d => some (wrongChannel "Fail" (wanted.map error) "Die" d.shown)
  | .die wanted, .die d =>
    match wanted with
    | some k =>
      if k.admits d.kind then none
      else some ("Expected Die of kind " ++ k.pattern ++ ", got " ++ d.shown)
    | none => none
  | .die _, .success a => some (wrongChannel "Die" none "Success" (value a))
  | .die _, .fail e => some (wrongChannel "Die" none "Fail" (error e))

end Expectation

end EffectKernel
