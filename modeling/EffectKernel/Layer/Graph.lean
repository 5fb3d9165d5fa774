import EffectKernel.Layer

/-!
# Graphs of Layers

A set of layers can be wired up by what each of them wants. Every service may have
one provider in the set, and every layer has to come after the providers of what it
wants. The order is found by a search in depth: a layer is placed once the providers
it wants have been placed, and a layer met again while its own wants are being
placed lies on a circle.

The search keeps the layers it has entered as a path, the latest one first, and the
layers it has placed in order. A path repeats no layer, so the number of layers
bounds how deep the search can go.

## Main definitions

* `providerOf?`: The layer of a set that provides a service.
* `duplicate?`: A service with two providers.
* `visit`: The search from one layer.
* `buildOrder`: The order of a whole set.
* `Layer.graph?`: The layer that builds a set in order.
-/

namespace EffectKernel

namespace Graph

/-- What the search looks at in a layer. -/
abbrev Node : Type := List ServiceKey × List ServiceKey

/-- The first node of a list that provides a service, by position. -/
def providerOf? (nodes : List Node) (key : ServiceKey) : Option Nat :=
  nodes.findIdx? fun node => key ∈ node.1

/-- The first service, in the order of the list, that an earlier output has provided
    already. -/
def duplicate? : List ServiceKey → List ServiceKey → Option ServiceKey
  | _, [] => none
  | seen, key :: rest => if key ∈ seen then some key else duplicate? (key :: seen) rest

/-- The service a node is called after. -/
def label (nodes : List Node) (index : Nat) : String :=
  match nodes[index]? with
  | some (key :: _, _) => key.name
  | _ => "<empty layer>"

/-- The circle that closes when `index` is met again on a path, which is given with
    its latest node first. -/
def circle (nodes : List Node) (path : List Nat) (index : Nat) : ConstructionError :=
  let entered := path.takeWhile (· != index)
  .layerCycle (label nodes index :: (entered.reverse.map (label nodes)) ++ [label nodes index])

/-- The positions of the providers of what a node wants, in the order of its wants. -/
def wanted (nodes : List Node) (index : Nat) : List Nat :=
  match nodes[index]? with
  | some node => node.2.filterMap (providerOf? nodes)
  | none => []

/-- Searches several nodes one after the other. -/
def visitEach (visitOne : List Nat → Nat → Except ConstructionError (List Nat)) :
    List Nat → List Nat → Except ConstructionError (List Nat)
  | order, [] => .ok order
  | order, index :: rest =>
    match visitOne order index with
    | .ok order => visitEach visitOne order rest
    | .error e => .error e

/-- The search from one node: the nodes placed so far with those added that it needs,
    and with itself. The count bounds the depth. -/
def visit (nodes : List Node) : Nat → List Nat → List Nat → Nat →
    Except ConstructionError (List Nat)
  | 0, path, _, index => .error (circle nodes path index)
  | depth + 1, path, order, index =>
    if index ∈ order then .ok order
    else if index ∈ path then .error (circle nodes path index)
    else
      match visitEach (visit nodes depth (index :: path)) order (wanted nodes index) with
      | .ok order => .ok (order ++ [index])
      | .error e => .error e

/-- The order of all nodes. -/
def buildOrder (nodes : List Node) : Except ConstructionError (List Nat) :=
  match duplicate? [] (nodes.flatMap (·.1)) with
  | some key => .error (.duplicateProvider key.name)
  | none => visitEach (visit nodes (nodes.length + 1) []) [] (List.range nodes.length)

end Graph

namespace Layer

variable {σ : Type}

/-- What the search looks at in a layer. -/
def node (L : Layer σ) : Graph.Node :=
  (L.outputs, L.requires)

/-- The services that come out of any layer of a set, in the order listed. -/
def allOutputs (layers : List (Layer σ)) : List ServiceKey :=
  layers.foldl (fun keys L => union keys L.outputs) []

/-- What layers of a set want and no layer of it provides. -/
def outerRequires (layers : List (Layer σ)) : List ServiceKey :=
  layers.foldl
    (fun keys L =>
      union keys (L.requires.filter fun key =>
        (Graph.providerOf? (layers.map node) key).isNone)) []

/-- The layer that builds a set in an order that suits its wants. -/
def graph? (id : LayerId) (layers : List (Layer σ)) : Except ConstructionError (Layer σ) :=
  match Graph.buildOrder (layers.map node) with
  | .ok order =>
    .ok (.sequence ⟨id, allOutputs layers, outerRequires layers⟩
      (order.filterMap fun index => layers[index]?))
  | .error e => .error e

end Layer

end EffectKernel
