import EffectKernel.Proofs.Layer.Order
import EffectKernel.Proofs.Layer.Signature
import Mathlib.Data.List.Chain
import Mathlib.Data.List.Nodup
import Mathlib.Data.List.Perm.Subperm
import Mathlib.Logic.Relation

/-!
# What the Search Comes To

A set of layers is a graph: a node needs another one if it wants a service that the other
one provides. Three things can be said of such a graph before anybody searches it. Two
nodes may provide one service, and then nobody knows which of them is meant; a node may
need itself, perhaps through others, and then no order suits it; and if neither is the
case there is an order in which every node stands behind all that it needs. The search
comes to the first thing that is the case, for every graph.

The search is given a number that bounds its depth. Here it is described once more with
no bound at all, as a relation whose derivations are the searches that end. A path repeats
no node, so it is never longer than there are nodes, and the bound is never met: what is
computed with it is what the unbounded search ends in.

That an error is a circle is read off the path. The path is a trail, on which every node
but the first was entered because the one before it needs it, so a node that is met again
on it needs itself.

## Main definitions

* `Graph.Needs`, `Graph.Clash`, `Graph.Circular`: What can be said of a graph.
* `Graph.Sorted`: An order in which every node stands behind all that it needs.
* `Graph.Search`: The search, with nothing that bounds its depth.
* `Graph.Verdict`: What the order of a whole set comes to.

## Theorems

* `Graph.search_visitEach`: The search ends, and in what is computed.
* `Graph.Search.circle_of_error`: A search that fails has met a node on its trail.
* `Graph.verdict_buildOrder`: The order of a whole set comes to what is the case.
* `Layer.graph_is_exact`: The same of a graph of layers.
-/

namespace EffectKernel

namespace Graph

/-- A node provides a service. -/
def Provides (nodes : List Node) (i : Nat) (key : ServiceKey) : Prop :=
  ∃ node, nodes[i]? = some node ∧ key ∈ node.1

/-- A node wants a service. -/
def Wants (nodes : List Node) (i : Nat) (key : ServiceKey) : Prop :=
  ∃ node, nodes[i]? = some node ∧ key ∈ node.2

/-- A node wants what another one provides, or what it provides itself. -/
def Needs (nodes : List Node) (i j : Nat) : Prop :=
  ∃ key, Wants nodes i key ∧ Provides nodes j key

/-- Two nodes provide one service. -/
def Clash (nodes : List Node) : Prop :=
  ∃ i j key, i ≠ j ∧ Provides nodes i key ∧ Provides nodes j key

/-- A node needs itself, perhaps through others. -/
def Circular (nodes : List Node) : Prop :=
  ∃ i, Relation.TransGen (Needs nodes) i i

/-- An order of all nodes in which every node stands behind all that it needs. -/
structure Sorted (nodes : List Node) (order : List Nat) : Prop where
  /-- Every node has one place. -/
  perm : order.Perm (List.range nodes.length)
  /-- Whatever a node needs stands before it. -/
  behind : ∀ {before i after}, order = before ++ i :: after →
    ∀ j, Needs nodes i j → j ∈ before

/-- The search of several nodes one after the other, on a path and after the nodes that
    are placed already. It goes as deep as it has to. -/
inductive Search (nodes : List Node) :
    List Nat → List Nat → List Nat → Except ConstructionError (List Nat) → Prop
  /-- Nothing is left to search. -/
  | nothing {path order} : Search nodes path order [] (.ok order)
  /-- A node that is placed already. -/
  | placed {path order index targets r} (mem : index ∈ order)
      (rest : Search nodes path order targets r) :
      Search nodes path order (index :: targets) r
  /-- A node that is met again on the path. -/
  | met {path order index targets} (new : index ∉ order) (mem : index ∈ path) :
      Search nodes path order (index :: targets) (.error (circle nodes path index))
  /-- A node that is placed after what it wants. -/
  | entered {path order index targets order' r} (new : index ∉ order) (off : index ∉ path)
      (wants : Search nodes (index :: path) order (wanted nodes index) (.ok order'))
      (rest : Search nodes path (order' ++ [index]) targets r) :
      Search nodes path order (index :: targets) r
  /-- A node whose wants cannot be placed. -/
  | stopped {path order index targets e} (new : index ∉ order) (off : index ∉ path)
      (wants : Search nodes (index :: path) order (wanted nodes index) (.error e)) :
      Search nodes path order (index :: targets) (.error e)

variable {nodes : List Node}

/-- The search ends, and in what is computed, if the bound leaves room for a path of all
    nodes. -/
theorem search_visitEach {depth : Nat} {path targets order : List Nat} (nodup : path.Nodup)
    (hpath : ∀ i ∈ path, i < nodes.length) (room : nodes.length < depth + path.length)
    (htargets : ∀ i ∈ targets, i < nodes.length) :
    Search nodes path order targets (visitEach (visit nodes depth path) order targets) := by
  induction depth generalizing path targets order with
  | zero =>
      -- A path without repetition has no more nodes than there are.
      have hsub : path ⊆ List.range nodes.length := fun i hi => List.mem_range.2 (hpath i hi)
      have hle := (List.subperm_of_subset nodup hsub).length_le
      rw [List.length_range] at hle
      omega
  | succ depth ih =>
      induction targets generalizing order with
      | nil => exact .nothing
      | cons index rest ihrest =>
          have others : ∀ {order}, Search nodes path order rest
              (visitEach (visit nodes (depth + 1) path) order rest) :=
            ihrest fun i hi => htargets i (List.mem_cons_of_mem _ hi)
          unfold visitEach
          by_cases hplaced : index ∈ order
          · have hone : visit nodes (depth + 1) path order index = .ok order := by
              rw [visit, if_pos hplaced]
            rw [hone]
            exact .placed hplaced others
          by_cases hmet : index ∈ path
          · have hone : visit nodes (depth + 1) path order index =
                .error (circle nodes path index) := by
              rw [visit, if_neg hplaced, if_pos hmet]
            rw [hone]
            exact .met hplaced hmet
          -- Below the node the path is longer by one, and the bound less by one.
          have hindex : index < nodes.length := htargets index List.mem_cons_self
          have wants := @ih (index :: path) (wanted nodes index) order
            (List.nodup_cons.2 ⟨hmet, nodup⟩) (List.forall_mem_cons.2 ⟨hindex, hpath⟩)
            (by rw [List.length_cons]; omega) (fun i hi => lt_of_mem_wanted hi)
          rw [visit, if_neg hplaced, if_neg hmet]
          rcases hwants : visitEach (visit nodes depth (index :: path)) order
            (wanted nodes index) with e | order'
          · rw [hwants] at wants
            exact .stopped hplaced hmet wants
          · rw [hwants] at wants
            exact .entered hplaced hmet wants others

/-- The nodes of a path, each entered because the one behind it wants it. The latest node
    stands in front. -/
def Trail (nodes : List Node) (path : List Nat) : Prop :=
  path.IsChain fun i j => i ∈ wanted nodes j

/-- A search that fails has met a node again on its trail. -/
theorem Search.circle_of_error {path order targets : List Nat} {e : ConstructionError}
    (h : Search nodes path order targets (.error e))
    (trail : ∀ i ∈ targets, Trail nodes (i :: path)) :
    ∃ path' index, e = circle nodes path' index ∧ index ∈ path' ∧
      Trail nodes (index :: path') := by
  -- The result is made a variable for the induction. The path only grows, so it stays a trail.
  generalize hr : Except.error e = r at h
  induction h with
  | nothing => cases hr
  | placed mem rest ih => exact ih (fun i hi => trail i (List.mem_cons_of_mem _ hi)) hr
  | @met path order index targets new mem =>
      cases hr
      exact ⟨path, index, rfl, mem, trail index List.mem_cons_self⟩
  | entered new off wants rest _ ih =>
      exact ih (fun i hi => trail i (List.mem_cons_of_mem _ hi)) hr
  | stopped new off wants ih =>
      cases hr
      refine ih (fun i hi => List.isChain_cons_cons.2 ⟨hi, ?_⟩) rfl
      exact trail _ List.mem_cons_self

theorem lt_of_wants {i : Nat} {key : ServiceKey} (h : Wants nodes i key) :
    i < nodes.length := by
  rcases h with ⟨node, hget, -⟩
  exact (List.getElem?_eq_some_iff.1 hget).1

/-- The provider of a service provides it. -/
theorem provides_of_providerOf? {key : ServiceKey} {i : Nat}
    (h : providerOf? nodes key = some i) : Provides nodes i key := by
  rcases List.findIdx?_eq_some_iff_getElem.1 h with ⟨hlt, hkey, -⟩
  exact ⟨nodes[i], List.getElem?_eq_getElem hlt, of_decide_eq_true hkey⟩

/-- A service has no provider if no node provides it. -/
theorem providerOf?_eq_none {key : ServiceKey} :
    providerOf? nodes key = none ↔ ∀ i, ¬ Provides nodes i key := by
  constructor
  · rintro h i ⟨node, hget, hkey⟩
    have hnot := List.findIdx?_eq_none_iff.1 h node (List.mem_of_getElem? hget)
    exact of_decide_eq_false hnot hkey
  · intro h
    rcases hprov : providerOf? nodes key with _ | i
    · rfl
    · exact absurd (provides_of_providerOf? hprov) (h i)

/-- Whom the search calls for a layer is one that it needs. -/
theorem needs_of_mem_wanted {i j : Nat} (h : j ∈ wanted nodes i) : Needs nodes i j := by
  unfold wanted at h
  split at h
  · next node hget =>
      rcases List.mem_filterMap.1 h with ⟨key, hkey, hprov⟩
      exact ⟨key, ⟨node, hget, hkey⟩, provides_of_providerOf? hprov⟩
  · cases h

/-- Where no two nodes provide one service, a node wants all that it needs. -/
theorem mem_wanted_of_needs (apart : ¬ Clash nodes) {i j : Nat} (h : Needs nodes i j) :
    j ∈ wanted nodes i := by
  rcases h with ⟨key, ⟨node, hget, hkey⟩, hprov⟩
  rcases hfirst : providerOf? nodes key with _ | k
  · exact absurd hprov (providerOf?_eq_none.1 hfirst j)
  · have hkj : k = j := by
      by_contra hne
      exact apart ⟨k, j, key, hne, provides_of_providerOf? hfirst, hprov⟩
    unfold wanted
    rw [hget]
    exact List.mem_filterMap.2 ⟨key, hkey, hkj ▸ hfirst⟩

/-- A node that is met again on its trail needs itself. -/
theorem circular_of_trail {path : List Nat} {index : Nat} (mem : index ∈ path)
    (trail : Trail nodes (index :: path)) : Circular nodes := by
  have needed : (index :: path).IsChain fun i j => Relation.TransGen (Needs nodes) j i :=
    trail.imp fun _ _ h => .single (needs_of_mem_wanted h)
  have trans : Trans (fun i j => Relation.TransGen (Needs nodes) j i)
      (fun i j => Relation.TransGen (Needs nodes) j i)
      (fun i j => Relation.TransGen (Needs nodes) j i) :=
    ⟨fun hij hjk => hjk.trans hij⟩
  exact ⟨index, List.rel_of_pairwise_cons (needed.pairwise) mem⟩

/-- In an order where everything is ready no layer stands twice. -/
theorem Ready.nodup {placed order : List Nat} (h : Ready nodes placed order) :
    order.Nodup ∧ ∀ i ∈ order, i ∉ placed ∧ i < nodes.length := by
  induction order generalizing placed with
  | nil => exact ⟨List.nodup_nil, fun _ h => by cases h⟩
  | cons index rest ih =>
      rcases h with ⟨hnew, hlt, -, hrest⟩
      rcases ih hrest with ⟨hnodup, haway⟩
      refine ⟨List.nodup_cons.2 ⟨fun hmem => ?_, hnodup⟩, fun i hi => ?_⟩
      · exact (haway index hmem).1 (List.mem_append_right _ List.mem_cons_self)
      · rcases List.mem_cons.1 hi with rfl | hi
        · exact ⟨hnew, hlt⟩
        · exact ⟨fun hmem => (haway i hi).1 (List.mem_append_left _ hmem), (haway i hi).2⟩

/-- What a node wants stands before it, or was placed before. -/
theorem Ready.mem_of_wanted {placed before after : List Nat} {i j : Nat}
    (h : Ready nodes placed (before ++ i :: after)) (hj : j ∈ wanted nodes i) :
    j ∈ placed ++ before := by
  induction before generalizing placed with
  | nil =>
      rw [List.append_nil]
      exact h.2.2.1 j hj
  | cons index rest ih =>
      have hmem := ih h.2.2.2
      rwa [List.append_assoc] at hmem

/-- A good order with all nodes is sorted, if no two nodes provide one service. -/
theorem sorted_of_ready (apart : ¬ Clash nodes) {order : List Nat}
    (ready : Ready nodes [] order) (all : ∀ i < nodes.length, i ∈ order) :
    Sorted nodes order where
  perm := by
    refine (List.perm_ext_iff_of_nodup ready.nodup.1 List.nodup_range).2 fun i => ?_
    rw [List.mem_range]
    exact ⟨fun hi => (ready.nodup.2 i hi).2, all i⟩
  behind {before i after} heq j hneeds := by
    rw [heq] at ready
    exact ready.mem_of_wanted (mem_wanted_of_needs apart hneeds)

/-- In a sorted order, needs lead from later places to earlier ones. -/
theorem Sorted.idxOf_lt {order : List Nat} (h : Sorted nodes order) {i j : Nat}
    (needs : Relation.TransGen (Needs nodes) i j) : order.idxOf j < order.idxOf i := by
  -- What a node needs stands in front of it in the order, and no node stands there twice.
  have one : ∀ {i j}, Needs nodes i j → order.idxOf j < order.idxOf i := by
    intro i j hneeds
    have hi : i ∈ order := by
      rcases hneeds with ⟨key, hwants, -⟩
      exact h.perm.mem_iff.2 (List.mem_range.2 (lt_of_wants hwants))
    rcases List.append_of_mem hi with ⟨before, after, heq⟩
    have hj := h.behind heq j hneeds
    have hnodup : (before ++ i :: after).Nodup :=
      heq ▸ h.perm.nodup_iff.2 List.nodup_range
    have hnot : i ∉ before := fun hmem =>
      (List.nodup_append.1 hnodup).2.2 i hmem i List.mem_cons_self rfl
    rw [heq, List.idxOf_append_of_mem hj, List.idxOf_append_of_notMem hnot]
    exact Nat.lt_of_lt_of_le (List.idxOf_lt_length_of_mem hj) (Nat.le_add_right _ _)
  induction needs with
  | single hneeds => exact one hneeds
  | tail _ hneeds ih => exact (one hneeds).trans ih

/-- Layers that can be sorted need each other in no circle. -/
theorem Sorted.not_circular {order : List Nat} (h : Sorted nodes order) :
    ¬ Circular nodes := by
  rintro ⟨i, hi⟩
  exact Nat.lt_irrefl _ (h.idxOf_lt hi)

/-- No duplicate is found if there is none. -/
theorem duplicate?_eq_none {keys seen : List ServiceKey} :
    duplicate? seen keys = none ↔ keys.Nodup ∧ ∀ key ∈ keys, key ∉ seen := by
  induction keys generalizing seen with
  | nil => simp [duplicate?]
  | cons key rest ih =>
      unfold duplicate?
      -- A key already seen is the duplicate; otherwise it is seen from here on.
      by_cases hseen : key ∈ seen
      · rw [if_pos hseen]
        constructor
        · intro h
          cases h
        · rintro ⟨-, h⟩
          exact absurd hseen (h key List.mem_cons_self)
      · rw [if_neg hseen, ih, List.nodup_cons, List.forall_mem_cons]
        simp only [List.mem_cons, not_or]
        constructor
        · rintro ⟨hnodup, haway⟩
          exact ⟨⟨fun hmem => (haway key hmem).1 rfl, hnodup⟩, hseen,
            fun k hk => (haway k hk).2⟩
        · rintro ⟨⟨hnot, hnodup⟩, -, haway⟩
          exact ⟨hnodup, fun k hk => ⟨fun heq => hnot (heq ▸ hk), haway k hk⟩⟩

theorem duplicate?_nil_eq_none {keys : List ServiceKey} :
    duplicate? [] keys = none ↔ keys.Nodup := by
  rw [duplicate?_eq_none]
  exact and_iff_left fun _ _ => List.not_mem_nil

/-- The provided services repeat none exactly if no two nodes provide one service, where
    no node lists a service twice. -/
theorem nodup_provided_iff (once : ∀ node ∈ nodes, node.1.Nodup) :
    (nodes.flatMap (·.1)).Nodup ↔ ¬ Clash nodes := by
  rw [List.nodup_flatMap, List.pairwise_iff_getElem]
  constructor
  · rintro ⟨-, apart⟩ ⟨i, j, key, hne, ⟨a, ha, hkeya⟩, ⟨b, hb, hkeyb⟩⟩
    rcases List.getElem?_eq_some_iff.1 ha with ⟨hi, rfl⟩
    rcases List.getElem?_eq_some_iff.1 hb with ⟨hj, rfl⟩
    rcases Nat.lt_or_gt_of_ne hne with hlt | hlt
    · exact apart i j hi hj hlt hkeya hkeyb
    · exact apart j i hj hi hlt hkeyb hkeya
  · intro apart
    refine ⟨once, fun i j hi hj hlt key hkeyi hkeyj => apart ⟨i, j, key, Nat.ne_of_lt hlt, ?_, ?_⟩⟩
    · exact ⟨nodes[i], List.getElem?_eq_getElem hi, hkeyi⟩
    · exact ⟨nodes[j], List.getElem?_eq_getElem hj, hkeyj⟩

/-- What the order of a whole set comes to. -/
inductive Verdict (nodes : List Node) : Except ConstructionError (List Nat) → Prop
  /-- Two nodes provide one service. -/
  | clash {service} (clash : Clash nodes) :
      Verdict nodes (.error (.duplicateProvider service))
  /-- A node needs itself. -/
  | circular {services} (apart : ¬ Clash nodes) (circular : Circular nodes) :
      Verdict nodes (.error (.layerCycle services))
  /-- There is an order. -/
  | sorted {order} (apart : ¬ Clash nodes) (sorted : Sorted nodes order) :
      Verdict nodes (.ok order)

/-- The search for the order of a whole set ends in what is computed, if no service has
    two providers. -/
theorem search_buildOrder (apart : duplicate? [] (nodes.flatMap (·.1)) = none) :
    Search nodes [] [] (List.range nodes.length) (buildOrder nodes) := by
  unfold buildOrder
  rw [apart]
  exact search_visitEach List.nodup_nil (fun _ h => by cases h)
    (by rw [List.length_nil]; omega) (fun i hi => List.mem_range.1 hi)

/-- The order of a whole set comes to what is the case. -/
theorem verdict_buildOrder (once : ∀ node ∈ nodes, node.1.Nodup) :
    Verdict nodes (buildOrder nodes) := by
  rcases hdup : duplicate? [] (nodes.flatMap (·.1)) with _ | key
  · have apart : ¬ Clash nodes :=
      (nodup_provided_iff once).1 (duplicate?_nil_eq_none.1 hdup)
    have search := search_buildOrder hdup
    rcases hres : buildOrder nodes with e | order
    · rw [hres] at search
      -- The search starts with an empty path, on which nothing has been entered yet.
      rcases search.circle_of_error fun i _ => List.isChain_singleton i with
        ⟨path, index, rfl, mem, trail⟩
      exact .circular apart (circular_of_trail mem trail)
    · rcases buildOrder_ready hres with ⟨ready, all⟩
      exact .sorted apart (sorted_of_ready apart ready all)
  · have clash : Clash nodes := by
      by_contra apart
      have hnone := duplicate?_nil_eq_none.2 ((nodup_provided_iff once).2 apart)
      rw [hdup] at hnone
      cases hnone
    unfold buildOrder
    rw [hdup]
    exact .clash clash

namespace Verdict

variable {r : Except ConstructionError (List Nat)}

/-- Two providers are reported exactly if there are two. -/
theorem clash_iff (h : Verdict nodes r) :
    (∃ service, r = .error (.duplicateProvider service)) ↔ Clash nodes := by
  cases h with
  | clash clash => exact ⟨fun _ => clash, fun _ => ⟨_, rfl⟩⟩
  | circular apart circular =>
      exact ⟨fun ⟨_, heq⟩ => (by cases heq), fun clash => absurd clash apart⟩
  | sorted apart sorted =>
      exact ⟨fun ⟨_, heq⟩ => (by cases heq), fun clash => absurd clash apart⟩

/-- A circle is reported exactly if there is one. -/
theorem circular_iff (h : Verdict nodes r) (apart : ¬ Clash nodes) :
    (∃ services, r = .error (.layerCycle services)) ↔ Circular nodes := by
  cases h with
  | clash clash => exact absurd clash apart
  | circular _ circular => exact ⟨fun _ => circular, fun _ => ⟨_, rfl⟩⟩
  | sorted _ sorted =>
      exact ⟨fun ⟨_, heq⟩ => (by cases heq), fun circular => absurd circular sorted.not_circular⟩

/-- An order is found if neither of them is there. -/
theorem sorted_of_not (h : Verdict nodes r) (apart : ¬ Clash nodes)
    (straight : ¬ Circular nodes) : ∃ order, r = .ok order ∧ Sorted nodes order := by
  cases h with
  | clash clash => exact absurd clash apart
  | circular _ circular => exact absurd circular straight
  | sorted _ sorted => exact ⟨_, rfl, sorted⟩

end Verdict

end Graph

theorem filterMap_range_getElem? {α : Type} (items : List α) :
    (List.range items.length).filterMap (fun i => items[i]?) = items := by
  induction items with
  | nil => rfl
  | cons item rest ih => simp [List.range_succ_eq_map, List.filterMap_map, ih]

namespace Layer

open EffectKernel.Graph

variable {σ : Type}

/-- The layers of a set in a sorted order are the layers of the set. -/
theorem perm_of_sorted {layers : List (Layer σ)} {order : List Nat}
    (h : Sorted (layers.map node) order) :
    (order.filterMap fun i => layers[i]?).Perm layers := by
  have hperm := h.perm.filterMap fun i => layers[i]?
  rwa [List.length_map, filterMap_range_getElem?] at hperm

/-- No layer that has been made provides a service twice. -/
theorem Made.nodup_provided {made : List (Layer σ)} (h : Made made)
    {layers : List (Layer σ)} (mem : ∀ L ∈ layers, L ∈ made) :
    ∀ n ∈ layers.map node, n.1.Nodup := by
  intro n hn
  rcases List.mem_map.1 hn with ⟨L, hL, rfl⟩
  exact (h.signed L (mem L hL)).2.1

/-- A graph cannot be made exactly if its order is not found. -/
theorem graph?_eq_error {id : LayerId} {layers : List (Layer σ)} {e : ConstructionError} :
    graph? id layers = .error e ↔ buildOrder (layers.map node) = .error e := by
  unfold graph?
  split
  · next order horder =>
      rw [horder]
      constructor <;> intro h <;> cases h
  · next e' he =>
      rw [he, Except.error.injEq, Except.error.injEq]

/-- A graph of layers that can be made comes to what is the case, and the search that it
    takes ends: it is refused for a service with two providers exactly if two of the layers
    provide one service, otherwise for a circle exactly if a layer needs itself, and
    otherwise it builds all the layers, each behind those that it needs. What it is refused
    for shows in the signatures of the layers, so for that nothing has to be built. -/
theorem graph_is_exact {made : List (Layer σ)} (h : Made made) {layers : List (Layer σ)}
    (mem : ∀ L ∈ layers, L ∈ made) (id : LayerId) :
    (¬ Clash (layers.map node) → Search (layers.map node) [] [] (List.range layers.length)
      (buildOrder (layers.map node))) ∧
    ((∃ service, graph? id layers = .error (.duplicateProvider service)) ↔
      Clash (layers.map node)) ∧
    (¬ Clash (layers.map node) →
      ((∃ services, graph? id layers = .error (.layerCycle services)) ↔
        Circular (layers.map node))) ∧
    (¬ Clash (layers.map node) → ¬ Circular (layers.map node) →
      ∃ order, Sorted (layers.map node) order ∧
        graph? id layers = .ok (.sequence ⟨id, allOutputs layers, outerRequires layers⟩
          (order.filterMap fun i => layers[i]?)) ∧
        (order.filterMap fun i => layers[i]?).Perm layers) ∧
    ∀ e, graph? id layers = .error e → ∀ others : List (Layer σ),
      others.map node = layers.map node → graph? id others = .error e := by
  have once := h.nodup_provided mem
  -- Everything but the search itself is read off the verdict on the order.
  have verdict := verdict_buildOrder once
  refine ⟨?_, ?_, ?_, ?_, ?_⟩
  · intro apart
    have hdup := duplicate?_nil_eq_none.2 ((nodup_provided_iff once).2 apart)
    have search := search_buildOrder hdup
    rwa [List.length_map] at search
  · simp only [graph?_eq_error]
    exact verdict.clash_iff
  · intro apart
    simp only [graph?_eq_error]
    exact verdict.circular_iff apart
  · intro apart straight
    rcases verdict.sorted_of_not apart straight with ⟨order, horder, sorted⟩
    refine ⟨order, sorted, ?_, perm_of_sorted sorted⟩
    unfold graph?
    rw [horder]
  · intro e he others hothers
    rw [graph?_eq_error] at he ⊢
    rwa [hothers]

/-- Three layers, listed with the ones that read in front: they do not clash and none of
    them needs itself, so they are built with the one that is read before the others. -/
theorem sample_graph_is_exact :
    Made (Sample.history Sample.counted) ∧
    (∀ L ∈ [Sample.needy 1 Sample.leftKey, Sample.needy 4 Sample.rightKey,
      Sample.base Sample.counted], L ∈ Sample.history Sample.counted) ∧
    graph? 8 [Sample.needy 1 Sample.leftKey, Sample.needy 4 Sample.rightKey,
        Sample.base Sample.counted] =
      .ok (.sequence ⟨8, [Sample.leftKey, Sample.rightKey, Sample.baseKey], []⟩
        [Sample.base Sample.counted, Sample.needy 1 Sample.leftKey,
          Sample.needy 4 Sample.rightKey]) ∧
    ¬ Clash ([Sample.needy 1 Sample.leftKey, Sample.needy 4 Sample.rightKey,
      Sample.base Sample.counted].map node) ∧
    ¬ Circular ([Sample.needy 1 Sample.leftKey, Sample.needy 4 Sample.rightKey,
      Sample.base Sample.counted].map node) := by
  have made := Sample.made_history Sample.counted
  have mem : ∀ L ∈ [Sample.needy 1 Sample.leftKey, Sample.needy 4 Sample.rightKey,
      Sample.base Sample.counted], L ∈ Sample.history Sample.counted :=
    fun _ => Sample.mem_history
  rcases graph_is_exact made mem 8 with ⟨-, clash, circular, -, -⟩
  -- The graph is computed; that there is no clash and no circle follows from its not being an
  -- error.
  have hgraph : graph? 8 [Sample.needy 1 Sample.leftKey, Sample.needy 4 Sample.rightKey,
        Sample.base Sample.counted] =
      .ok (.sequence ⟨8, [Sample.leftKey, Sample.rightKey, Sample.baseKey], []⟩
        [Sample.base Sample.counted, Sample.needy 1 Sample.leftKey,
          Sample.needy 4 Sample.rightKey]) := by
    rfl
  have apart : ¬ Clash ([Sample.needy 1 Sample.leftKey, Sample.needy 4 Sample.rightKey,
      Sample.base Sample.counted].map node) := by
    intro hclash
    rcases clash.2 hclash with ⟨service, heq⟩
    rw [hgraph] at heq
    cases heq
  refine ⟨made, mem, hgraph, apart, fun hcircular => ?_⟩
  rcases (circular apart).2 hcircular with ⟨services, heq⟩
  rw [hgraph] at heq
  cases heq

end Layer

end EffectKernel
