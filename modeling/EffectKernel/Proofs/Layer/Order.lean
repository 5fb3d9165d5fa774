import EffectKernel.Layer.Graph

/-!
# Orders That Are Found

An order of the nodes of a graph is a good one if every node finds those it wants placed
before it, and no node is placed twice. Read along the order, this is a condition on one
node at a time and on what stands before it, and that is how it is stated here: a node is
ready when its turn comes.

The search adds to an order at its end only. What it adds is ready after what was placed
before, and none of it lies on the path, for a node of the path is placed only when the
search leaves it. This is why the node itself, which lies on the path while its wants are
placed, can be added after them.

## Main definitions

* `Graph.Ready`: Nodes that are ready one after the other.
* `Graph.Adds`: A search adds ready nodes to an order.

## Theorems

* `Graph.visit_adds`: What the search from one node adds.
* `Graph.buildOrder_ready`: An order that is found is good, and no node is missing.
-/

namespace EffectKernel

namespace Graph

/-- Nodes that are ready one after the other, after those that are placed already: each
    of them is new, and what it wants is placed when its turn comes. -/
def Ready (nodes : List Node) : List Nat → List Nat → Prop
  | _, [] => True
  | placed, index :: rest =>
    index ∉ placed ∧ index < nodes.length ∧ (∀ i ∈ wanted nodes index, i ∈ placed) ∧
      Ready nodes (placed ++ [index]) rest

/-- A search on a path adds ready nodes to an order, and none of the path. -/
def Adds (nodes : List Node) (path order order' : List Nat) : Prop :=
  ∃ added, order' = order ++ added ∧ Ready nodes order added ∧ ∀ i ∈ added, i ∉ path

variable {nodes : List Node}

/-- An order behind another one. -/
theorem Ready.append {placed : List Nat} : ∀ {a b : List Nat}, Ready nodes placed a →
    Ready nodes (placed ++ a) b → Ready nodes placed (a ++ b) := by
  intro a
  induction a generalizing placed with
  | nil =>
      intro b _ hb
      rwa [List.append_nil] at hb
  | cons index rest ih =>
      intro b ha hb
      refine ⟨ha.1, ha.2.1, ha.2.2.1, ih ha.2.2.2 ?_⟩
      rwa [List.append_assoc]

namespace Adds

variable {path order order' order'' : List Nat}

theorem nothing : Adds nodes path order order :=
  ⟨[], (List.append_nil order).symm, trivial, fun _ h => by cases h⟩

/-- An order that is added to twice. -/
theorem trans (h : Adds nodes path order order') (h' : Adds nodes path order' order'') :
    Adds nodes path order order'' := by
  rcases h with ⟨a, rfl, ha, hapath⟩
  rcases h' with ⟨b, rfl, hb, hbpath⟩
  refine ⟨a ++ b, List.append_assoc _ _ _, ha.append hb, fun i hi => ?_⟩
  rcases List.mem_append.1 hi with hi | hi
  · exact hapath i hi
  · exact hbpath i hi

theorem mem (h : Adds nodes path order order') {i : Nat} (hi : i ∈ order) : i ∈ order' := by
  rcases h with ⟨a, rfl, -⟩
  exact List.mem_append_left _ hi

end Adds

/-- A layer that is wanted is one of the layers. -/
theorem lt_of_mem_wanted {index i : Nat} (h : i ∈ wanted nodes index) : i < nodes.length := by
  unfold wanted at h
  split at h
  · rcases List.mem_filterMap.1 h with ⟨key, -, hkey⟩
    exact (List.findIdx?_eq_some_iff_getElem.1 hkey).1
  · cases h

/-- What the search from several nodes adds, if that is known of the search from one. -/
theorem visitEach_adds {visitOne : List Nat → Nat → Except ConstructionError (List Nat)}
    {path : List Nat} : ∀ {targets order order' : List Nat},
    (∀ index ∈ targets, ∀ {order order'}, visitOne order index = .ok order' →
      Adds nodes path order order' ∧ index ∈ order') →
    visitEach visitOne order targets = .ok order' →
      Adds nodes path order order' ∧ ∀ index ∈ targets, index ∈ order' := by
  intro targets
  induction targets with
  | nil =>
      intro order order' _ h
      cases h
      exact ⟨.nothing, fun _ h => by cases h⟩
  | cons index rest ih =>
      intro order order' hone h
      unfold visitEach at h
      split at h
      · next order₁ hfirst =>
          -- What one visit adds stays in front of what the later ones add.
          have first := hone index List.mem_cons_self hfirst
          have others := ih (fun i hi => hone i (List.mem_cons_of_mem _ hi)) h
          refine ⟨first.1.trans others.1, fun i hi => ?_⟩
          rcases List.mem_cons.1 hi with rfl | hi
          · exact others.1.mem first.2
          · exact others.2 i hi
      · cases h

/-- The search from one node adds ready nodes, and the node is placed in the end. -/
theorem visit_adds {depth index : Nat} {path order order' : List Nat}
    (h : visit nodes depth path order index = .ok order') (hindex : index < nodes.length) :
    Adds nodes path order order' ∧ index ∈ order' := by
  -- By induction on the depth that is left, for all paths: below a node the path has grown.
  induction depth generalizing path order order' index with
  | zero => cases h
  | succ depth ih =>
      unfold visit at h
      by_cases hplaced : index ∈ order
      · rw [if_pos hplaced] at h
        cases h
        exact ⟨.nothing, hplaced⟩
      rw [if_neg hplaced] at h
      by_cases hpath : index ∈ path
      · rw [if_pos hpath] at h
        cases h
      rw [if_neg hpath] at h
      split at h
      · next order₁ hwants =>
          cases h
          have wants : Adds nodes (index :: path) order order₁ ∧
              ∀ i ∈ wanted nodes index, i ∈ order₁ :=
            visitEach_adds (fun i hi _ _ hvisit => ih hvisit (lt_of_mem_wanted hi)) hwants
          rcases wants with ⟨⟨added, rfl, ready, away⟩, wanted⟩
          -- The node is on the path while its wants are placed, so it is none of them.
          have hnew : index ∉ order ++ added := by
            intro hmem
            rcases List.mem_append.1 hmem with hmem | hmem
            · exact hplaced hmem
            · exact away index hmem List.mem_cons_self
          refine ⟨⟨added ++ [index], List.append_assoc _ _ _,
            ready.append ⟨hnew, hindex, wanted, trivial⟩, fun i hi => ?_⟩,
            List.mem_append_right _ List.mem_cons_self⟩
          rcases List.mem_append.1 hi with hi | hi
          · exact fun hipath => away i hi (List.mem_cons_of_mem _ hipath)
          · rcases List.mem_singleton.1 hi with rfl
            exact hpath
      · cases h

/-- An order that is found is good, and no node is missing. -/
theorem buildOrder_ready {order : List Nat} (h : buildOrder nodes = .ok order) :
    Ready nodes [] order ∧ ∀ index < nodes.length, index ∈ order := by
  unfold buildOrder at h
  split at h
  · cases h
  · have each : Adds nodes [] [] order ∧ ∀ i ∈ List.range nodes.length, i ∈ order :=
      visitEach_adds (fun i hi _ _ hvisit => visit_adds hvisit (List.mem_range.1 hi)) h
    rcases each with ⟨⟨added, rfl, ready, -⟩, all⟩
    exact ⟨ready, fun index hindex => all index (List.mem_range.2 hindex)⟩

end Graph

end EffectKernel
