import EffectKernel.Defect
import EffectKernel.Text.Quoted

/-!
# Exits

How a run ends: with a value, with a failure that was to be expected, or by a
defect. The operations on exits keep the last two apart. A function that maps or
folds failures is never handed a defect, so a handler written for the expected error
cannot swallow a fault by accident.

## Main definitions

* `Exit`: How a run ends.
* `Cause`: How a run ends that does not succeed.
* `Exit.map`, `Exit.mapError`, `Exit.mapBoth`: Exits with a channel transformed.
* `Exit.fold`: One result out of value and failure; a defect escapes.
* `Exit.zip`: Two exits as one, the first that is no success winning.
* `Exit.toExcept`, `Exit.ofExcept`, `Exit.ofCause`: Other views.
-/

namespace EffectKernel

/-- How a run ends. -/
inductive Exit (α ε : Type) where
  /-- With a value. -/
  | success (value : α)
  /-- With a failure that was to be expected. -/
  | fail (error : ε)
  /-- By a defect. -/
  | die (defect : Defect)
deriving DecidableEq

/-- How a run ends that does not succeed. -/
inductive Cause (ε : Type) where
  /-- With a failure that was to be expected. -/
  | fail (error : ε)
  /-- By a defect. -/
  | die (defect : Defect)
deriving DecidableEq

namespace Cause

variable {ε ε' : Type}

/-- The cause with its failure transformed. -/
def map (f : ε → ε') : Cause ε → Cause ε'
  | .fail e => .fail (f e)
  | .die d => .die d

/-- The failure, if it is one. -/
def error? : Cause ε → Option ε
  | .fail e => some e
  | .die _ => none

/-- The defect, if it is one. -/
def defect? : Cause ε → Option Defect
  | .fail _ => none
  | .die d => some d

/-- Whether it is a defect. -/
def isDie : Cause ε → Bool
  | .fail _ => false
  | .die _ => true

/-- Equality, defects being compared up to what they wrap. -/
def same [BEq ε] : Cause ε → Cause ε → Bool
  | .fail a, .fail b => a == b
  | .die a, .die b => a.same b
  | _, _ => false

/-- The cause in words, given the words for a failure. -/
def message (text : ε → String) : Cause ε → String
  | .fail e => text e
  | .die d => d.message

/-- The cause as shown to a programmer, given how a failure is shown. -/
def shown (text : ε → String) : Cause ε → String
  | .fail e => Text.shownVariant "Fail" (text e)
  | .die d => Text.shownVariant "Die" d.shown

end Cause

namespace Exit

variable {α α' β ε ε' : Type}

/-- Whether it is a success. -/
def isSuccess : Exit α ε → Bool
  | .success _ => true
  | _ => false

/-- Whether it is an expected failure. -/
def isFail : Exit α ε → Bool
  | .fail _ => true
  | _ => false

/-- What is not an expected failure, or one. -/
theorem isFail_or_eq_fail (x : Exit α ε) : x.isFail = false ∨ ∃ e, x = .fail e := by
  cases x with
  | success a => exact .inl rfl
  | fail e => exact .inr ⟨e, rfl⟩
  | die d => exact .inl rfl

/-- Whether it is a defect. -/
def isDie : Exit α ε → Bool
  | .die _ => true
  | _ => false

/-- The exit with both channels transformed. -/
def mapBoth (f : α → α') (g : ε → ε') : Exit α ε → Exit α' ε'
  | .success a => .success (f a)
  | .fail e => .fail (g e)
  | .die d => .die d

/-- The exit with its value transformed. -/
def map (f : α → α') (x : Exit α ε) : Exit α' ε :=
  x.mapBoth f id

/-- The exit with its failure transformed. -/
def mapError (g : ε → ε') (x : Exit α ε) : Exit α ε' :=
  x.mapBoth id g

/-- One result out of value and failure. A defect is handed on as an error. -/
def fold (f : α → β) (g : ε → β) : Exit α ε → Except Defect β
  | .success a => .ok (f a)
  | .fail e => .ok (g e)
  | .die d => .error d

/-- Two exits as one. The first that is no success wins. -/
def zip : Exit α ε → Exit β ε → Exit (α × β) ε
  | .success a, .success b => .success (a, b)
  | .success _, .fail e => .fail e
  | .success _, .die d => .die d
  | .fail e, _ => .fail e
  | .die d, _ => .die d

/-- The value, if it is a success. -/
def success? : Exit α ε → Option α
  | .success a => some a
  | _ => none

/-- The cause, if it is no success. -/
def cause? : Exit α ε → Option (Cause ε)
  | .success _ => none
  | .fail e => some (.fail e)
  | .die d => some (.die d)

/-- The value, or the cause as an error. -/
def toExcept : Exit α ε → Except (Cause ε) α
  | .success a => .ok a
  | .fail e => .error (.fail e)
  | .die d => .error (.die d)

/-- The exit of a computation whose errors are expected failures. -/
def ofExcept : Except ε α → Exit α ε
  | .ok a => .success a
  | .error e => .fail e

/-- The exit with a given cause. -/
def ofCause : Cause ε → Exit α ε
  | .fail e => .fail e
  | .die d => .die d

/-- Equality, defects being compared up to what they wrap. -/
def same [BEq α] [BEq ε] : Exit α ε → Exit α ε → Bool
  | .success a, .success b => a == b
  | .fail a, .fail b => a == b
  | .die a, .die b => a.same b
  | _, _ => false

/-- The exit as shown to a programmer, given how its parts are shown. -/
def shown (value : α → String) (error : ε → String) : Exit α ε → String
  | .success a => Text.shownVariant "Success" (value a)
  | .fail e => Text.shownVariant "Fail" (error e)
  | .die d => Text.shownVariant "Die" d.shown

end Exit

end EffectKernel
