import EffectKernel.Text.Quoted

/-!
# Construction Errors

What can be wrong with a program before any of it runs. These errors come from the
functions that put effects and layers together, never from a run.

## Main definitions

* `ConstructionError`: The four mistakes.
* `ConstructionError.message`: The mistake in words.
* `ConstructionError.shown`: The mistake as shown to a programmer.
-/

namespace EffectKernel

/-- A mistake in how a program is put together. -/
inductive ConstructionError where
  /-- Two merged layers produce one service. -/
  | duplicateService (service : String)
  /-- Two layers of a graph provide one service. -/
  | duplicateProvider (service : String)
  /-- The layers of a graph need each other in a circle. -/
  | layerCycle (services : List String)
  /-- A combinator that needs an effect got none. -/
  | emptyInput (combinator : String)
deriving DecidableEq

namespace ConstructionError

/-- The mistake in words. -/
def message : ConstructionError → String
  | .duplicateService service => "service " ++ service ++ " is produced by both merged layers"
  | .duplicateProvider service =>
    "service " ++ service ++ " has more than one provider in the graph"
  | .layerCycle services => "layer dependency cycle: " ++ String.intercalate " -> " services
  | .emptyInput combinator => combinator ++ " requires at least one effect"

/-- The word for the kind of mistake. -/
def kind : ConstructionError → String
  | .duplicateService _ => "DuplicateService"
  | .duplicateProvider _ => "DuplicateProvider"
  | .layerCycle _ => "LayerCycle"
  | .emptyInput _ => "EmptyInput"

/-- The mistake as shown to a programmer. -/
def shown (e : ConstructionError) : String :=
  Text.shownRecord e.kind
    [match e with
      | .duplicateService service => ("service", Text.quoted service)
      | .duplicateProvider service => ("service", Text.quoted service)
      | .layerCycle services => ("services", Text.quotedList services)
      | .emptyInput combinator => ("combinator", Text.quoted combinator)]

end ConstructionError

end EffectKernel
