import EffectKernel.ConstructionError
import EffectKernel.Effect.Channels

/-!
# Layers

A layer is a recipe for services. The smallest recipes run an effect for one service
or hand out a finished context; the others put recipes together. A layer also says
which services come out of it and which it wants around it. What comes out follows
from the recipe, while what a recipe's own effects want has to be declared, since
nobody can look inside them.

A layer carries a number. Layers with one number are the same layer, and one build
of a larger layer builds it once. Whoever makes a layer draws a new number for it,
also when it differs from another one only in what it declares.

## Main definitions

* `Layer`: A recipe for services, with its number and its signature.
* `Layer.outputs`, `Layer.requires`: The signature.
* `Layer.ofEffect`, `Layer.ofContext`: The smallest recipes.
* `Layer.dependsOn`: A recipe that declares one more want.
* `Layer.feed`: One recipe fed from another.
* `Layer.merge?`: Two recipes that do not overlap.
* `Layer.mapFailure`: A recipe whose failure is transformed.
* `union`, `difference`: Lists of keys as sets.
-/

namespace EffectKernel

/-- The number of a layer. -/
abbrev LayerId : Type := Nat

/-- What a layer says of itself: its number and its signature. -/
structure LayerInfo where
  /-- What tells this layer from the others. -/
  id : LayerId
  /-- The services that come out of it. -/
  outputs : List ServiceKey
  /-- The services that it wants around it. -/
  requires : List ServiceKey

/-- A recipe for services. -/
inductive Layer (σ : Type) : Type where
  /-- Runs an effect for one service. -/
  | build (info : LayerInfo) (key : ServiceKey) (effect : Effect σ)
  /-- Hands out a finished context. -/
  | context (info : LayerInfo) (context : Context)
  /-- Builds one recipe with the services of another, which it may hand out too. -/
  | provide (info : LayerInfo) (consumer supplier : Layer σ) (keepSupplier : Bool)
  /-- Builds two recipes, one after the other. -/
  | merge (info : LayerInfo) (left right : Layer σ)
  /-- Builds recipes in order, each with the services of all before it. -/
  | sequence (info : LayerInfo) (layers : List (Layer σ))
  /-- Builds a recipe whose failure is transformed. -/
  | mapError (info : LayerInfo) (inner : Layer σ) (f : Value → Act σ Value)

/-- The keys of `a`, then those of `b` that are new. -/
def union (a b : List ServiceKey) : List ServiceKey :=
  b.foldl (fun keys key => if key ∈ keys then keys else keys ++ [key]) a

/-- The keys of `a` that are not in `b`. -/
def difference (a b : List ServiceKey) : List ServiceKey :=
  a.filter fun key => key ∉ b

namespace Layer

variable {σ : Type}

/-- What a layer says of itself. -/
def info : Layer σ → LayerInfo
  | .build info _ _ => info
  | .context info _ => info
  | .provide info _ _ _ => info
  | .merge info _ _ => info
  | .sequence info _ => info
  | .mapError info _ _ => info

/-- The same recipe under another number and signature. -/
def withInfo (info : LayerInfo) : Layer σ → Layer σ
  | .build _ key effect => .build info key effect
  | .context _ c => .context info c
  | .provide _ consumer supplier keep => .provide info consumer supplier keep
  | .merge _ left right => .merge info left right
  | .sequence _ layers => .sequence info layers
  | .mapError _ inner f => .mapError info inner f

/-- The number of a layer. -/
def id (L : Layer σ) : LayerId :=
  L.info.id

/-- The services that come out of a layer. -/
def outputs (L : Layer σ) : List ServiceKey :=
  L.info.outputs

/-- The services that a layer wants around it. -/
def requires (L : Layer σ) : List ServiceKey :=
  L.info.requires

/-- The names of the services that come out of a layer. -/
def outputNames (L : Layer σ) : List String :=
  L.outputs.map (·.name)

/-- The recipe that runs an effect for one service. -/
def ofEffect (id : LayerId) (key : ServiceKey) (effect : Effect σ) : Layer σ :=
  .build ⟨id, [key], []⟩ key effect

/-- The recipe that hands out a finished context. -/
def ofContext (id : LayerId) (c : Context) : Layer σ :=
  .context ⟨id, c.keys, []⟩ c

/-- The recipe that hands out one service. -/
def succeed (id : LayerId) (key : ServiceKey) (service : Value) : Layer σ :=
  ofContext id (Context.single key service)

/-- The recipe for nothing. -/
def empty (id : LayerId) : Layer σ :=
  ofContext id Context.empty

/-- The same recipe, declaring one more want. -/
def dependsOn (id : LayerId) (L : Layer σ) (key : ServiceKey) : Layer σ :=
  L.withInfo ⟨id, L.outputs, union L.requires [key]⟩

/-- The recipe `consumer` fed from `supplier`. What is still wanted is what
    `supplier` wants, and what `consumer` wants and `supplier` does not give. -/
def feed (id : LayerId) (consumer supplier : Layer σ) (keepSupplier : Bool) : Layer σ :=
  let outputs :=
    if keepSupplier then union supplier.outputs consumer.outputs else consumer.outputs
  let requires := union supplier.requires (difference consumer.requires supplier.outputs)
  .provide ⟨id, outputs, requires⟩ consumer supplier keepSupplier

/-- The two recipes as one, unless a service comes out of both. -/
def merge? (id : LayerId) (left right : Layer σ) : Except ConstructionError (Layer σ) :=
  match left.outputs.find? fun key => key ∈ right.outputs with
  | some key => .error (.duplicateService key.name)
  | none =>
    .ok (.merge ⟨id, union left.outputs right.outputs, union left.requires right.requires⟩
      left right)

/-- The recipe with its failure transformed. -/
def mapFailure (id : LayerId) (L : Layer σ) (f : Value → Act σ Value) : Layer σ :=
  .mapError ⟨id, L.outputs, L.requires⟩ L f

/-- A layer as shown to a programmer. -/
def shown (L : Layer σ) : String :=
  Text.shownRecord "Layer"
    [("outputs", Text.quotedList L.outputNames),
     ("requires", Text.quotedList (L.requires.map (·.name)))]

end Layer

end EffectKernel
