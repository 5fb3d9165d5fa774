import EffectKernel.Text.Quoted

/-!
# Either

One of two things. By custom the right one is the good one: `map` works on it and
leaves the left one alone. An effect that reports how it ended, instead of failing,
reports it this way.

## Main definitions

* `Either`: One of two things.
* `Either.fold`: One result out of both.
* `Either.compare`: The order in which everything on the left comes first.
* `Either.partition`: The left ones and the right ones, each in order.
-/

namespace EffectKernel

/-- One of two things. -/
inductive Either (α β : Type) where
  /-- The left one, by custom an error. -/
  | left (value : α)
  /-- The right one, by custom a result. -/
  | right (value : β)
deriving DecidableEq

namespace Either

variable {α α' β β' γ : Type}

/-- Whether it is a left one. -/
def isLeft : Either α β → Bool
  | .left _ => true
  | .right _ => false

/-- Whether it is a right one. -/
def isRight : Either α β → Bool
  | .left _ => false
  | .right _ => true

/-- What is on the left, if anything. -/
def left? : Either α β → Option α
  | .left a => some a
  | .right _ => none

/-- What is on the right, if anything. -/
def right? : Either α β → Option β
  | .left _ => none
  | .right b => some b

/-- One result out of both. -/
def fold (f : α → γ) (g : β → γ) : Either α β → γ
  | .left a => f a
  | .right b => g b

/-- The right one transformed. -/
def map (g : β → β') : Either α β → Either α β'
  | .left a => .left a
  | .right b => .right (g b)

/-- The left one transformed. -/
def mapLeft (f : α → α') : Either α β → Either α' β
  | .left a => .left (f a)
  | .right b => .right b

/-- The sides exchanged. -/
def swap : Either α β → Either β α
  | .left a => .right a
  | .right b => .left b

/-- The left one as an error. -/
def toExcept : Either α β → Except α β
  | .left a => .error a
  | .right b => .ok b

/-- The error on the left. -/
def ofExcept : Except α β → Either α β
  | .error a => .left a
  | .ok b => .right b

/-- The order in which everything on the left comes first. -/
def compare [Ord α] [Ord β] : Either α β → Either α β → Ordering
  | .left a, .left b => Ord.compare a b
  | .left _, .right _ => .lt
  | .right _, .left _ => .gt
  | .right a, .right b => Ord.compare a b

/-- The left ones and the right ones, each in order. -/
def partition (items : List (Either α β)) : List α × List β :=
  (items.filterMap left?, items.filterMap right?)

/-- One of two things as shown to a programmer, given how each is shown. -/
def shown (f : α → String) (g : β → String) : Either α β → String
  | .left a => Text.shownVariant "Left" (f a)
  | .right b => Text.shownVariant "Right" (g b)

/-- Things that are all on the right are found there. -/
theorem mapM_right?_map_right (values : List β) :
    (values.map Either.right : List (Either α β)).mapM right? = some values := by
  induction values with
  | nil => rfl
  | cons b rest ih => simp [List.mapM_cons, right?, ih]

end Either

end EffectKernel
