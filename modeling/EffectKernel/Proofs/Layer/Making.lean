import EffectKernel.Layer.Graph

/-!
# The Making of Layers

Layers are made one after the other. Every new one is a smallest recipe, or is put
together from layers there are already, and it gets a number that none of them has.
What there is after some time is a history, and whatever is said of all layers is said
of the members of histories.

Two things follow from how a history grows. What a layer is put together from is in the
history with it, although declaring one more want makes a copy of a recipe. And its
members are told apart by their numbers alone, which is what lets a build recognise a
layer that it meets for the second time. A layer does not take part in itself, so its
number is never that of a layer it is made from.

## Main definitions

* `Layer.children`: What a recipe is put together from.
* `Layer.Within`: The layers that take part in a layer.
* `Layer.Made`: The histories of making layers.
* `Layer.Numbered`: Layers that take part in a layer are told apart by their numbers.

## Theorems

* `Layer.induct`: Induction over what layers are put together from.
* `Layer.Made.children_mem`: Whatever a layer is put together from has been made too.
* `Layer.Made.numbered`: Every layer that has been made is numbered.
* `Layer.Numbered.id_ne`: A layer takes part in no layer with its own number but itself.
-/

namespace EffectKernel

namespace Layer

variable {σ : Type}

/-- What a recipe is put together from, in the order in which it is built. -/
def children : Layer σ → List (Layer σ)
  | .build _ _ _ => []
  | .context _ _ => []
  | .provide _ consumer supplier _ => [supplier, consumer]
  | .merge _ left right => [left, right]
  | .sequence _ layers => layers
  | .mapError _ inner _ => [inner]

@[simp] theorem children_withInfo (info : LayerInfo) (L : Layer σ) :
    (L.withInfo info).children = L.children := by
  cases L <;> rfl

/-- The children of a layer that is provided with another one. -/
theorem mem_children_provide {M consumer supplier : Layer σ} {info : LayerInfo}
    {keepSupplier : Bool} :
    M ∈ (Layer.provide info consumer supplier keepSupplier).children ↔
      M = supplier ∨ M = consumer := by
  simp only [children, List.mem_cons, List.not_mem_nil, or_false]

theorem mem_children_merge {M left right : Layer σ} {info : LayerInfo} :
    M ∈ (Layer.merge info left right).children ↔ M = left ∨ M = right := by
  simp only [children, List.mem_cons, List.not_mem_nil, or_false]

@[simp] theorem info_withInfo (info : LayerInfo) (L : Layer σ) :
    (L.withInfo info).info = info := by
  cases L <;> rfl

/-- A child is smaller than the layer, which is what recursion on layers goes by. -/
theorem sizeOf_lt_of_mem_children {M L : Layer σ} (h : M ∈ L.children) :
    sizeOf M < sizeOf L := by
  cases L with
  | build _ _ _ => cases h
  | context _ _ => cases h
  | provide info consumer supplier keep =>
      rw [provide.sizeOf_spec]
      rcases mem_children_provide.1 h with rfl | rfl <;> omega
  | merge info left right =>
      rw [merge.sizeOf_spec]
      rcases mem_children_merge.1 h with rfl | rfl <;> omega
  | sequence info layers =>
      have hlt := List.sizeOf_lt_of_mem (show M ∈ layers from h)
      rw [sequence.sizeOf_spec]
      omega
  | mapError info inner f =>
      rcases List.mem_singleton.1 h with rfl
      rw [mapError.sizeOf_spec]
      omega

/-- What holds of a layer as soon as it holds of those it is put together from holds of
    all layers. -/
theorem induct {P : Layer σ → Prop} (step : ∀ L, (∀ M ∈ L.children, P M) → P L)
    (L : Layer σ) : P L :=
  step L fun M hM =>
    have := sizeOf_lt_of_mem_children hM
    induct step M
termination_by sizeOf L

/-- The layers that take part in a layer: itself, and those that take part in what it is
    put together from. -/
inductive Within : Layer σ → Layer σ → Prop
  | self {L} : Within L L
  | child {M N L} (mem : N ∈ L.children) (within : Within M N) : Within M L

namespace Within

theorem ofChild {M L : Layer σ} (h : M ∈ L.children) : Within M L :=
  .child h .self

/-- What is within a part of a layer is within the layer. -/
theorem trans {K M L : Layer σ} (hK : Within K M) (hM : Within M L) : Within K L := by
  induction hM with
  | self => exact hK
  | child mem _ ih => exact .child mem ih

/-- What a layer is put together from takes part wherever the layer does. -/
theorem ofPart {K M L : Layer σ} (h : K ∈ M.children) (hM : Within M L) : Within K L :=
  (ofChild h).trans hM

theorem sizeOf_le {M L : Layer σ} (h : Within M L) : sizeOf M ≤ sizeOf L := by
  induction h with
  | self => exact Nat.le_refl _
  | child mem _ ih =>
      have := sizeOf_lt_of_mem_children mem
      omega

end Within

/-- Layers that take part in a layer are told apart by their numbers. -/
def Numbered (L : Layer σ) : Prop :=
  ∀ M N, Within M L → Within N L → M.id = N.id → M = N

namespace Numbered

/-- The parts of a numbered layer are numbered. -/
theorem within {M L : Layer σ} (h : L.Numbered) (hM : Within M L) : M.Numbered :=
  fun K N hK hN => h K N (hK.trans hM) (hN.trans hM)

/-- A layer takes part in no layer with its own number but itself. -/
theorem id_ne {M N L : Layer σ} (h : L.Numbered) (hN : N ∈ L.children)
    (hM : Within M N) : M.id ≠ L.id := by
  intro hid
  -- Otherwise the layer would take part in one that is smaller than itself.
  have hML : M = L := h M L (.child hN hM) .self hid
  have hle := hM.sizeOf_le
  have hlt := sizeOf_lt_of_mem_children hN
  rw [hML] at hle
  omega

end Numbered

/-- The histories of making layers: what there is after some time, the latest layer
    first. A new layer gets a number that no layer before it has. -/
inductive Made : List (Layer σ) → Prop
  | nothing : Made []
  | effect {made id} (before : Made made) (fresh : ∀ M ∈ made, M.id ≠ id)
      (key : ServiceKey) (e : Effect σ) : Made (ofEffect id key e :: made)
  | context {made id} (before : Made made) (fresh : ∀ M ∈ made, M.id ≠ id)
      (c : Context) : Made (ofContext id c :: made)
  | dependsOn {made id L} (before : Made made) (fresh : ∀ M ∈ made, M.id ≠ id)
      (mem : L ∈ made) (key : ServiceKey) : Made (L.dependsOn id key :: made)
  | feed {made id consumer supplier} (before : Made made) (fresh : ∀ M ∈ made, M.id ≠ id)
      (memConsumer : consumer ∈ made) (memSupplier : supplier ∈ made)
      (keepSupplier : Bool) : Made (feed id consumer supplier keepSupplier :: made)
  | merge {made id left right L} (before : Made made) (fresh : ∀ M ∈ made, M.id ≠ id)
      (memLeft : left ∈ made) (memRight : right ∈ made)
      (merged : merge? id left right = .ok L) : Made (L :: made)
  | graph {made id layers L} (before : Made made) (fresh : ∀ M ∈ made, M.id ≠ id)
      (mem : ∀ M ∈ layers, M ∈ made) (ordered : graph? id layers = .ok L) :
      Made (L :: made)
  | mapFailure {made id L} (before : Made made) (fresh : ∀ M ∈ made, M.id ≠ id)
      (mem : L ∈ made) (f : Value → Act σ Value) : Made (L.mapFailure id f :: made)

/-- A merge that is allowed. -/
theorem merge?_eq_ok {id : LayerId} {left right L : Layer σ}
    (h : merge? id left right = .ok L) :
    (∀ key ∈ left.outputs, key ∉ right.outputs) ∧
      L = .merge ⟨id, union left.outputs right.outputs, union left.requires right.requires⟩
        left right := by
  unfold merge? at h
  split at h
  · cases h
  · next hnone =>
      refine ⟨fun key hkey hright => ?_, (Except.ok.inj h).symm⟩
      exact List.find?_eq_none.1 hnone key hkey (decide_eq_true hright)

/-- A graph that can be ordered. -/
theorem graph?_eq_ok {id : LayerId} {layers : List (Layer σ)} {L : Layer σ}
    (h : graph? id layers = .ok L) :
    ∃ order, Graph.buildOrder (layers.map node) = .ok order ∧
      L = .sequence ⟨id, allOutputs layers, outerRequires layers⟩
        (order.filterMap fun index => layers[index]?) := by
  unfold graph? at h
  split at h
  · next order horder => exact ⟨order, horder, (Except.ok.inj h).symm⟩
  · cases h

namespace Made

/-- How a history grows: by a layer with a new number, put together from layers of the
    history or from what a layer of the history is put together from. -/
theorem grown {L : Layer σ} {made : List (Layer σ)} (h : Made (L :: made)) :
    Made made ∧ (∀ M ∈ made, M.id ≠ L.id) ∧
      ∀ M ∈ L.children, M ∈ made ∨ ∃ N ∈ made, M ∈ N.children := by
  -- Constructors take layers made before; only `dependsOn` makes a copy, which has the children of
  -- the original.
  cases h with
  | effect before fresh key e => exact ⟨before, fresh, fun M hM => by cases hM⟩
  | context before fresh c => exact ⟨before, fresh, fun M hM => by cases hM⟩
  | @dependsOn _ id N before fresh mem key =>
      refine ⟨before, ?_, fun M hM => Or.inr ⟨N, mem, ?_⟩⟩
      · rw [Layer.id, Layer.dependsOn, info_withInfo]
        exact fresh
      · rwa [Layer.dependsOn, children_withInfo] at hM
  | feed before fresh memConsumer memSupplier keep =>
      refine ⟨before, fresh, fun M hM => Or.inl ?_⟩
      rcases mem_children_provide.1 hM with rfl | rfl
      · exact memSupplier
      · exact memConsumer
  | merge before fresh memLeft memRight merged =>
      rcases merge?_eq_ok merged with ⟨-, rfl⟩
      refine ⟨before, fresh, fun M hM => Or.inl ?_⟩
      rcases mem_children_merge.1 hM with rfl | rfl
      · exact memLeft
      · exact memRight
  | graph before fresh mem ordered =>
      rcases graph?_eq_ok ordered with ⟨order, -, rfl⟩
      refine ⟨before, fresh, fun M hM => Or.inl (mem M ?_)⟩
      rcases List.mem_filterMap.1 hM with ⟨index, -, hget⟩
      exact List.mem_of_getElem? hget
  | mapFailure before fresh mem f =>
      refine ⟨before, fresh, fun M hM => Or.inl ?_⟩
      rcases List.mem_singleton.1 hM with rfl
      exact mem

/-- Whatever a layer is put together from has been made too. -/
theorem children_mem {made : List (Layer σ)} (h : Made made) {L M : Layer σ}
    (hL : L ∈ made) (hM : M ∈ L.children) : M ∈ made := by
  induction made generalizing L M with
  | nil => cases hL
  | cons N made ih =>
      rcases h.grown with ⟨before, -, inside⟩
      refine List.mem_cons_of_mem _ ?_
      rcases List.mem_cons.1 hL with rfl | hL
      · -- A copy of a recipe has the children of the recipe, which was made before.
        rcases inside M hM with hmem | ⟨K, hK, hmem⟩
        · exact hmem
        · exact ih before hK hmem
      · exact ih before hL hM

/-- The parts of a layer that has been made have been made. -/
theorem within_mem {made : List (Layer σ)} (h : Made made) {L M : Layer σ}
    (hL : L ∈ made) (hM : Within M L) : M ∈ made := by
  induction hM with
  | self => exact hL
  | child mem _ ih => exact ih (h.children_mem hL mem)

/-- A layer that has been made is known by its number. -/
theorem eq_of_id {made : List (Layer σ)} (h : Made made) {L M : Layer σ}
    (hL : L ∈ made) (hM : M ∈ made) (hid : L.id = M.id) : L = M := by
  induction made generalizing L M with
  | nil => cases hL
  | cons N made ih =>
      rcases h.grown with ⟨before, fresh, -⟩
      rcases List.mem_cons.1 hL with hLN | hL <;> rcases List.mem_cons.1 hM with hMN | hM
      · rw [hLN, hMN]
      · exact absurd (hLN ▸ hid.symm) (fresh M hM)
      · exact absurd (hMN ▸ hid) (fresh L hL)
      · exact ih before hL hM hid

/-- Every layer that has been made is numbered. -/
theorem numbered {made : List (Layer σ)} (h : Made made) {L : Layer σ} (hL : L ∈ made) :
    L.Numbered :=
  fun _ _ hM hN hid => h.eq_of_id (h.within_mem hL hM) (h.within_mem hL hN) hid

end Made

namespace Sample

/-- The key of a service that two others read. -/
def baseKey : ServiceKey := ⟨0, "Base"⟩

/-- The key of one that reads it. -/
def leftKey : ServiceKey := ⟨1, "Left"⟩

/-- The key of another one. -/
def rightKey : ServiceKey := ⟨2, "Right"⟩

/-- The services that two copies are. -/
def both (left right : Value) : Context :=
  (Context.single leftKey left).insert rightKey right

/-- An effect that counts how often it has been run. -/
def counted : Effect Nat :=
  .sync (Act.update fun n => (Value.ofNat (n + 1), n + 1))

/-- The service that is read, by an effect. -/
def base (e : Effect σ) : Layer σ :=
  ofEffect 0 baseKey e

/-- A service that is a copy of it and declares that it reads it. -/
def needy (id : LayerId) (key : ServiceKey) : Layer σ :=
  (ofEffect id key (.service baseKey)).dependsOn (id + 1) baseKey

/-- A copy that is fed. -/
def copy (id : LayerId) (key : ServiceKey) (supplier : Layer σ) : Layer σ :=
  feed (id + 2) (needy id key) supplier false

/-- Two copies fed from one layer. -/
def app (e : Effect σ) : Layer σ :=
  .merge ⟨7, [leftKey, rightKey], []⟩ (copy 1 leftKey (base e)) (copy 4 rightKey (base e))

/-- All layers that are made for it. -/
def history (e : Effect σ) : List (Layer σ) :=
  [app e, copy 4 rightKey (base e), needy 4 rightKey, ofEffect 4 rightKey (.service baseKey),
    copy 1 leftKey (base e), needy 1 leftKey, ofEffect 1 leftKey (.service baseKey), base e]

/-- A number that none of the layers has is a new one. -/
theorem fresh_of_ids {made : List (Layer σ)} (ids : List LayerId) (id : LayerId)
    (h : made.map Layer.id = ids) (hid : id ∉ ids) : ∀ M ∈ made, M.id ≠ id := by
  rintro M hM rfl
  exact hid (h ▸ List.mem_map_of_mem hM)

/-- A copy can be made of any supplier there is, in three steps. -/
theorem made_copy {made : List (Layer σ)} {supplier : Layer σ} (ids : List LayerId)
    (id : LayerId) (key : ServiceKey) (before : Made made) (mem : supplier ∈ made)
    (h : made.map Layer.id = ids) (h₀ : id ∉ ids) (h₁ : id + 1 ∉ id :: ids)
    (h₂ : id + 2 ∉ (id + 1) :: id :: ids) :
    Made (copy id key supplier :: needy id key :: ofEffect id key (.service baseKey) ::
      made) := by
  have first := Made.effect before (fresh_of_ids ids id h h₀) key (.service baseKey)
  have second := Made.dependsOn first
    (fresh_of_ids _ (id + 1) (congrArg (id :: ·) h) h₁) List.mem_cons_self baseKey
  exact Made.feed second
    (fresh_of_ids _ (id + 2) (congrArg (fun l => (id + 1) :: id :: l) h) h₂)
    List.mem_cons_self (List.mem_cons_of_mem _ (List.mem_cons_of_mem _ mem)) false

/-- The layers of the sample can be made. -/
theorem made_history (e : Effect σ) : Made (history e) := by
  have base : Made [base e] :=
    .effect .nothing (fresh_of_ids [] 0 rfl (by decide)) baseKey e
  have left := made_copy [0] 1 leftKey base List.mem_cons_self rfl (by decide) (by decide)
    (by decide)
  have right := made_copy [3, 2, 1, 0] 4 rightKey left
    (List.mem_of_getElem? (i := 3) rfl) rfl (by decide) (by decide) (by decide)
  exact Made.merge right (fresh_of_ids [6, 5, 4, 3, 2, 1, 0] 7 rfl (by decide))
    (List.mem_of_getElem? (i := 3) rfl) List.mem_cons_self rfl

/-- The layers that run an effect are among those that are made. -/
theorem mem_history {e : Effect σ} {L : Layer σ}
    (h : L ∈ [needy 1 leftKey, needy 4 rightKey, base e]) : L ∈ history e := by
  simp only [List.mem_cons, List.not_mem_nil, or_false] at h
  rcases h with rfl | rfl | rfl
  · exact List.mem_of_getElem? (i := 5) rfl
  · exact List.mem_of_getElem? (i := 2) rfl
  · exact List.mem_of_getElem? (i := 7) rfl

/-- So are only two of them. -/
theorem mem_history_of_two {e : Effect σ} {L : Layer σ} (h : L ∈ [needy 1 leftKey, base e]) :
    L ∈ history e :=
  mem_history (((List.sublist_cons_self _ _).cons_cons _).subset h)

variable {e : Effect σ} {info : LayerInfo} {key : ServiceKey} {effect : Effect σ}

theorem effect_of_within_base (h : Within (.build info key effect) (base e)) : effect = e := by
  cases h with
  | self => rfl
  | child mem _ => cases mem

theorem effect_of_within_copy {id : LayerId} {k : ServiceKey} {supplier : Layer σ}
    (h : Within (.build info key effect) (copy id k supplier)) :
    Within (.build info key effect) supplier ∨
      (effect = .service baseKey ∧ baseKey ∈ info.requires) := by
  cases h with
  | child mem h =>
      rcases mem_children_provide.1 mem with rfl | rfl
      · exact Or.inl h
      · cases h with
        | self => exact Or.inr ⟨rfl, List.mem_cons_self⟩
        | child mem _ => cases mem

/-- The effects that take part: the one of the service that is read, and two that read
    it and declare that they do. -/
theorem effect_of_within (h : Within (.build info key effect) (app e)) :
    effect = e ∨ (effect = .service baseKey ∧ baseKey ∈ info.requires) := by
  cases h with
  | child mem h =>
      rcases mem_children_merge.1 mem with rfl | rfl
      · exact (effect_of_within_copy h).imp_left effect_of_within_base
      · exact (effect_of_within_copy h).imp_left effect_of_within_base

end Sample

end Layer

end EffectKernel
