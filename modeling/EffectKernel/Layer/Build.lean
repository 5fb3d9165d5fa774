import EffectKernel.Layer

/-!
# Building Layers

Building a layer is an effect that ends in a context. Within one build each layer is
built once: what has been built is kept in a memo by the number of the layer, and a
layer met again hands out what the memo holds.

The memo travels with the value. Each part of a build takes the memo from the part
before it and ends in its context together with a longer memo. A failure leaves the
build altogether, so no memo outlives it, and since a build starts from an empty
memo, two builds have nothing in common.

## Main definitions

* `Memo`: What has been built, by layer.
* `Layer.resolve`: A part of a build, from a memo.
* `Layer.built`: The effect that builds a layer.
* `Effect.provideLayer`: An effect run with the services of a layer.
-/

namespace EffectKernel

/-- What has been built so far, by the number of the layer. -/
abbrev Memo : Type := List (LayerId × Value)

namespace Memo

/-- A context with the memo that goes on from there. -/
def withContext (memo : Memo) (c : Context) : Value :=
  .built c.toValue memo

/-- Goes on from a context and a memo. -/
def fromBuilt {σ : Type} (source : Effect σ) (next : Context → Memo → Effect σ) : Effect σ :=
  .flatMap source fun v =>
    match v with
    | .built registry memo =>
      match Context.ofValue? registry with
      | some c => pure (next c memo)
      | none => pure (Effect.die (.typeMismatch "a context"))
    | _ => pure (Effect.die (.typeMismatch "a built context"))

/-- Ends in what the memo holds for a layer, or runs `fresh` and keeps what it
    builds. -/
def remember {σ : Type} (memo : Memo) (info : LayerInfo) (fresh : Unit → Effect σ) :
    Effect σ :=
  match (Value.lookup info.id memo).bind Context.ofValue? with
  | some c =>
    .announce (.layerReused (info.outputs.map (·.name))) (Effect.succeed (memo.withContext c))
  | none =>
    fromBuilt (fresh ()) fun c memo =>
      Effect.succeed (Memo.withContext ((info.id, c.toValue) :: memo) c)

end Memo

namespace Layer

variable {σ : Type}

mutual
/-- A part of a build: from a memo, the effect that ends in the layer's context and a
    longer memo. -/
def resolve : Layer σ → Memo → Effect σ
  | .build info key effect, memo =>
    memo.remember info fun _ =>
      .announce (.buildingLayer key.name)
        (.flatMap effect fun service =>
          pure (Effect.succeed (memo.withContext (Context.single key service))))
  | .context info c, memo =>
    memo.remember info fun _ => Effect.succeed (memo.withContext c)
  | .provide info consumer supplier keepSupplier, memo =>
    memo.remember info fun _ =>
      Memo.fromBuilt (supplier.resolve memo) fun above memo =>
        if keepSupplier then
          Memo.fromBuilt (.provide (consumer.resolve memo) above) fun below memo =>
            Effect.succeed (memo.withContext (above.merge below))
        else .provide (consumer.resolve memo) above
  | .merge info left right, memo =>
    memo.remember info fun _ =>
      Memo.fromBuilt (left.resolve memo) fun first memo =>
        Memo.fromBuilt (right.resolve memo) fun second memo =>
          Effect.succeed (memo.withContext (first.merge second))
  | .sequence info layers, memo =>
    memo.remember info fun _ => resolveEach layers Context.empty memo
  | .mapError info inner f, memo =>
    memo.remember info fun _ => (inner.resolve memo).mapError f

/-- The part of a build that builds layers in order, each with the services of all
    before it. -/
def resolveEach : List (Layer σ) → Context → Memo → Effect σ
  | [], sofar, memo => Effect.succeed (memo.withContext sofar)
  | L :: rest, sofar, memo =>
    Memo.fromBuilt (.provide (L.resolve memo) sofar) fun next memo =>
      resolveEach rest (sofar.merge next) memo
end

/-- The effect that builds a layer and ends in its services. -/
def built (L : Layer σ) : Effect σ :=
  .suspend (pure (Memo.fromBuilt (L.resolve []) fun c _ => Effect.succeed c.toValue))

end Layer

namespace Effect

variable {σ : Type}

/-- Builds a layer and runs the source with its services. A failure of the build is
    turned into one of the source by `into`. -/
def provideLayer (source : Effect σ) (L : Layer σ) (into : Value → Act σ Value) : Effect σ :=
  .flatMap (L.built.mapError into) fun v =>
    match Context.ofValue? v with
    | some c => pure (.provide source c)
    | none => pure (die (.typeMismatch "a context"))

end Effect

end EffectKernel
