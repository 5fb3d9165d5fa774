import EffectKernel.Proofs.Layer.Search

/-!
# Circles That Are Reported

A set of layers that need each other in a circle is refused, and the circle is reported by the names
of services. The search keeps no services on its path, only the layers that it has entered, so each
layer is called after the first service that comes out of it. Of a layer with several services this
need not be the one that is wanted: the circle is a circle of layers, and what is reported are names
for them.

A layer is met again on the path, and what lies between the two times is the circle. It has been
entered from one layer to the next because each wants something that the next one provides, so the
part of the path is turned round to be read in this order (`circle_of_trail`). Everything on it is
wanted by something, so there is no layer on it that provides nothing, and since no service has two
providers, a name stands for one layer only.

## Main definitions

* `Graph.CalledAfter`: The service that a node is called after.
* `Graph.Circle`: Services whose providers need each other in a circle.

## Theorems

* `Graph.circle_of_trail`: The positions that are reported, and how they follow each other.
* `Graph.circle_of_called`: What that means for the services that they are called after.
* `Layer.reported_circle`: A circle that is reported is one.
* `Layer.circle_passes_by`: It need not lead through the services that are wanted.
-/

namespace EffectKernel

namespace Graph

/-- A node is called after the first service that it provides. -/
def CalledAfter (nodes : List Node) (i : Nat) (key : ServiceKey) : Prop :=
  ∃ keys wants, nodes[i]? = some (key :: keys, wants)

/-- Services that stand for nodes which need each other in a circle. -/
structure Circle (nodes : List Node) (circle : List ServiceKey) : Prop where
  /-- It leads from somewhere to somewhere. -/
  long : 2 ≤ circle.length
  /-- It comes back to where it has started. -/
  closed : circle.head? = circle.getLast?
  /-- Each service has one provider, -/
  provided : ∀ key ∈ circle, ∃! i, Provides nodes i key
  /-- and that is called after it. -/
  called : ∀ key ∈ circle, ∀ i, Provides nodes i key → CalledAfter nodes i key
  /-- The provider of a service wants something that comes from the provider of the next one. -/
  follows : circle.IsChain fun a b => ∀ i j,
    Provides nodes i a → Provides nodes j b → Needs nodes i j
  /-- It wants the next service itself where nothing else comes from there. -/
  alone : circle.IsChain fun a b => ∀ (i j : Nat) (wants : List ServiceKey),
    Provides nodes i a → nodes[j]? = some ([b], wants) → Wants nodes i b

variable {nodes : List Node} {i j : Nat} {key : ServiceKey}

/-- A layer that is called after a service provides it. -/
theorem CalledAfter.provides (called : CalledAfter nodes i key) : Provides nodes i key := by
  rcases called with ⟨keys, wants, get⟩
  exact ⟨_, get, List.mem_cons_self⟩

/-- It is shown with the name of this service. -/
theorem CalledAfter.label (called : CalledAfter nodes i key) : label nodes i = key.name := by
  rcases called with ⟨keys, wants, get⟩
  rw [Graph.label, get]

/-- A node that provides something is called after something. -/
theorem exists_calledAfter (provides : Provides nodes i key) : ∃ key, CalledAfter nodes i key := by
  rcases provides with ⟨⟨keys, wants⟩, get, mem⟩
  cases keys with
  | nil => exact absurd mem List.not_mem_nil
  | cons first keys => exact ⟨first, keys, wants, get⟩

/-- What is wanted provides something. -/
theorem exists_calledAfter_of_wanted (wanted : j ∈ wanted nodes i) :
    ∃ key, CalledAfter nodes j key := by
  rcases needs_of_mem_wanted wanted with ⟨key, -, provides⟩
  exact exists_calledAfter provides

/-- A trail on which a node is met again comes back to it, and the labels of the nodes from there on
    are what is reported. -/
theorem circle_of_trail {path : List Nat} {index : Nat} (mem : index ∈ path)
    (trail : Trail nodes (index :: path)) :
    ∃ between, circle nodes path index =
        .layerCycle ((index :: (between ++ [index])).map (label nodes)) ∧
      (index :: (between ++ [index])).IsChain fun i j => j ∈ wanted nodes i := by
  -- The latest time that it was entered.
  obtain ⟨entered, older, rfl, new⟩ := List.eq_append_cons_of_mem mem
  have upTo : (entered ++ index :: older).takeWhile (· != index) = entered := by
    have skipped : ∀ i ∈ entered, (i != index) = true := fun i mem =>
      bne_iff_ne.2 fun same => new (same ▸ mem)
    rw [List.takeWhile_append_of_pos skipped, List.takeWhile_cons, bne_self_eq_false,
      if_neg Bool.false_ne_true, List.append_nil]
  refine ⟨entered.reverse, ?_, ?_⟩
  · simp only [circle, upTo, List.map_cons, List.map_append, List.map_nil, List.cons_append]
  · -- What was entered last stands in front on the trail, and is needed by what stands behind it.
    have part : (index :: (entered ++ [index])).IsChain fun i j => i ∈ wanted nodes j :=
      trail.prefix ⟨older, by
        rw [List.cons_append, List.append_assoc, List.singleton_append]⟩
    rw [← List.isChain_reverse] at part
    simpa only [List.reverse_cons, List.reverse_append, List.reverse_nil, List.nil_append,
      List.cons_append, List.singleton_append] using part

/-- Nodes on a way back to where it has started stand for services, each for the one that it is
    called after. -/
theorem circle_of_called (apart : ∀ {i j key}, Provides nodes i key → Provides nodes j key → i = j)
    {index : Nat} {between : List Nat}
    (chain : (index :: (between ++ [index])).IsChain fun i j => j ∈ wanted nodes i) :
    ∃ services : List ServiceKey,
      (index :: (between ++ [index])).map (label nodes) = services.map (·.name) ∧
      Circle nodes services := by
  -- Everything on the way is wanted by what stands before it, the first node as the last one.
  have called : ∀ i ∈ index :: (between ++ [index]), ∃ key, CalledAfter nodes i key := by
    have behind : ∀ i ∈ between ++ [index], ∃ key, CalledAfter nodes i key := by
      generalize between ++ [index] = rest at chain
      induction rest generalizing index with
      | nil => exact nofun
      | cons next rest ih =>
          rw [List.isChain_cons_cons] at chain
          exact List.forall_mem_cons.2 ⟨exists_calledAfter_of_wanted chain.1, ih chain.2⟩
    exact List.forall_mem_cons.2
      ⟨behind index (List.mem_append_right _ List.mem_cons_self), behind⟩
  have : Nonempty ServiceKey := (called index List.mem_cons_self).elim fun key _ => ⟨key⟩
  choose! key called using called
  have alike {i j : Nat} (mem : i ∈ index :: (between ++ [index]))
      (provides : Provides nodes j (key i)) : j = i :=
    apart provides (called i mem).provides
  have follows : (index :: (between ++ [index])).IsChain fun a b => ∀ i j,
      Provides nodes i (key a) → Provides nodes j (key b) → Needs nodes i j := by
    refine chain.imp_of_mem_imp fun a b ha hb wants i j hi hj => ?_
    rw [alike ha hi, alike hb hj]
    exact needs_of_mem_wanted wants
  refine ⟨(index :: (between ++ [index])).map key, ?_, ⟨?_, ?_, ?_, ?_, ?_, ?_⟩⟩
  · rw [List.map_map]
    exact List.map_congr_left fun i mem => (called i mem).label
  · simp only [List.length_map, List.length_cons, List.length_append, List.length_nil]
    omega
  · simp only [List.map_cons, List.map_append, List.map_nil, List.head?_cons,
      List.getLast?_cons, List.getLast?_append]
    rfl
  · rw [List.forall_mem_map]
    exact fun i mem => ⟨i, (called i mem).provides, fun j provides => alike mem provides⟩
  · rw [List.forall_mem_map]
    intro i mem j provides
    rw [alike mem provides]
    exact called i mem
  · exact (List.isChain_map key).2 follows
  · refine (List.isChain_map key).2 (follows.imp fun a b needs i j wants hi get => ?_)
    rcases needs i j hi ⟨_, get, List.mem_cons_self⟩ with ⟨service, wanted, node, get', mem⟩
    -- Nothing else comes from there that could be wanted.
    rw [get] at get'
    cases get'
    rwa [List.mem_singleton.1 mem] at wanted

end Graph

namespace Layer

open EffectKernel.Graph

variable {σ : Type}

/-- A circle that is reported is a circle of layers that need each other. It is reported by services
    of the layers in the set: at least two, of which the first one is also the last one; each comes
    out of exactly one layer, as its first one; and from one to the next, the layer that the one
    comes from declares that it wants something that comes from the layer of the other, which is the
    other itself where nothing else comes from there. -/
theorem reported_circle {id : LayerId} {layers : List (Layer σ)} {services : List String}
    (refused : graph? id layers = .error (.layerCycle services)) :
    ∃ circle : List ServiceKey, services = circle.map (·.name) ∧
      Circle (layers.map node) circle := by
  rw [graph?_eq_error] at refused
  -- A circle is looked for only if no service has two providers.
  have single : duplicate? [] ((layers.map node).flatMap (·.1)) = none := by
    cases twice : duplicate? [] ((layers.map node).flatMap (·.1)) with
    | none => rfl
    | some key =>
        rw [buildOrder, twice] at refused
        cases refused
  have once := duplicate?_nil_eq_none.1 single
  have noClash := (nodup_provided_iff (List.nodup_flatMap.1 once).1).1 once
  have apart : ∀ {i j key}, Provides (layers.map node) i key → Provides (layers.map node) j key →
      i = j := by
    intro i j key hi hj
    by_contra different
    exact noClash ⟨i, j, key, different, hi, hj⟩
  have search := search_buildOrder single
  rw [refused] at search
  obtain ⟨path, index, same, mem, trail⟩ :=
    search.circle_of_error fun i _ => List.isChain_singleton i
  obtain ⟨between, reported, chain⟩ := circle_of_trail mem trail
  obtain ⟨circle, named, real⟩ := circle_of_called apart chain
  rw [reported, named] at same
  exact ⟨circle, ConstructionError.layerCycle.inj same, real⟩

namespace Sample

/-- Two services that are made together, from a third one. -/
def twins : Layer Unit :=
  .merge ⟨2, [leftKey, rightKey], []⟩ (ofEffect 0 leftKey (.service baseKey))
    (ofEffect 1 rightKey (.service baseKey))

/-- They declare what they are made from, and that is made from the second one of them. -/
def knot : List (Layer Unit) :=
  [twins.dependsOn 3 baseKey, (ofEffect 4 baseKey (.service rightKey)).dependsOn 5 rightKey]

/-- All layers that are made for it. -/
def knotHistory : List (Layer Unit) :=
  [(ofEffect 4 baseKey (.service rightKey)).dependsOn 5 rightKey,
    ofEffect 4 baseKey (.service rightKey), twins.dependsOn 3 baseKey, twins,
    ofEffect 1 rightKey (.service baseKey), ofEffect 0 leftKey (.service baseKey)]

theorem made_knotHistory : Made knotHistory := by
  have left : Made [(ofEffect 0 leftKey (.service baseKey) : Layer Unit)] :=
    .effect .nothing (fresh_of_ids [] 0 rfl (by decide)) leftKey _
  have right := Made.effect left (fresh_of_ids [0] 1 rfl (by decide)) rightKey
    (.service baseKey)
  have both : Made (twins :: _) := Made.merge right (fresh_of_ids [1, 0] 2 rfl (by decide))
    (List.mem_of_getElem? (i := 1) rfl) List.mem_cons_self rfl
  have declared := Made.dependsOn both (fresh_of_ids [2, 1, 0] 3 rfl (by decide))
    List.mem_cons_self baseKey
  have base := Made.effect declared (fresh_of_ids [3, 2, 1, 0] 4 rfl (by decide)) baseKey
    (.service rightKey)
  exact Made.dependsOn base (fresh_of_ids [4, 3, 2, 1, 0] 5 rfl (by decide))
    List.mem_cons_self rightKey

theorem mem_knotHistory {L : Layer Unit} (mem : L ∈ knot) : L ∈ knotHistory := by
  simp only [knot, List.mem_cons, List.not_mem_nil, or_false] at mem
  rcases mem with rfl | rfl
  · exact List.mem_of_getElem? (i := 2) rfl
  · exact List.mem_cons_self

end Sample

/-- Two layers that need each other, the second one because of the second service that comes out of
    the first one. -/
theorem sample_reported_circle :
    graph? 6 Sample.knot = .error (.layerCycle ["Left", "Base", "Left"]) ∧
    ∃ circle : List ServiceKey, ["Left", "Base", "Left"] = circle.map (·.name) ∧
      Circle (Sample.knot.map node) circle := by
  have refused : graph? 6 Sample.knot = .error (.layerCycle ["Left", "Base", "Left"]) := rfl
  exact ⟨refused, reported_circle refused⟩

/-- A circle that is reported need not lead through the services that are wanted. A layer of two
    services is called after the first one, and what is made from the second one does not want the
    first one: whatever services of the set the names stand for, somewhere on the circle one is not
    wanted by the layer before it. -/
theorem circle_passes_by :
    Made Sample.knotHistory ∧ (∀ L ∈ Sample.knot, L ∈ Sample.knotHistory) ∧
    graph? 6 Sample.knot = .error (.layerCycle ["Left", "Base", "Left"]) ∧
    ¬ ∃ circle : List ServiceKey, ["Left", "Base", "Left"] = circle.map (·.name) ∧
      (∀ key ∈ circle, ∃ L ∈ Sample.knot, key ∈ L.outputs) ∧
      circle.IsChain fun a b => ∃ L ∈ Sample.knot, a ∈ L.outputs ∧ b ∈ L.requires := by
  refine ⟨Sample.made_knotHistory, fun L => Sample.mem_knotHistory, rfl, ?_⟩
  rintro ⟨circle, names, outputs, chain⟩
  obtain ⟨a, b, c, rfl⟩ : ∃ a b c, circle = [a, b, c] := by
    have three : circle.length = 3 := by
      rw [← List.length_map (·.name), ← names]
      rfl
    exact List.length_eq_three.1 three
  simp only [List.map_cons, List.map_nil, List.cons.injEq, and_true] at names
  -- The last name stands for the first twin and the one before it for what they are made from.
  have twin : ∀ L ∈ Sample.knot, ∀ key ∈ L.outputs, "Left" = key.name → key = Sample.leftKey := by
    decide
  have base : ∀ L ∈ Sample.knot, ∀ key ∈ L.outputs, "Base" = key.name → key = Sample.baseKey := by
    decide
  have unwanted : ∀ L ∈ Sample.knot, Sample.baseKey ∈ L.outputs → Sample.leftKey ∉ L.requires := by
    decide
  obtain ⟨-, middle, last⟩ := names
  obtain ⟨L, mem, output⟩ := outputs c (by simp only [List.mem_cons, true_or, or_true])
  obtain ⟨M, mem', provided, wanted⟩ := List.isChain_pair.1 (List.isChain_cons_cons.1 chain).2
  rw [twin L mem c output last] at wanted
  rw [base M mem' b provided middle] at provided
  exact unwanted M mem' provided wanted

end Layer

end EffectKernel
