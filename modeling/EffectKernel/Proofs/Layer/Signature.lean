import EffectKernel.Proofs.Layer.Making
import EffectKernel.Proofs.Layer.Order

/-!
# Signatures of Layers

What a layer says of itself is put down when it is made, from what its parts say of
themselves, while its services come out only when it is built. The signature that a
recipe should have can be read off the recipe, one node at a time: what comes out is
what comes out of the parts that are handed on, and what a part wants is wanted by the
whole unless some other part gives it first. For layers in a row this is where the order
matters, and the order that a graph is built in is one in which every want is met by a
layer that stands before, or by none of the graph at all.

Declaring one more want keeps all of this, since a signature may want more than it needs.

## Main definitions

* `Layer.Fed`: Layers in a row, each of which gets what it wants.
* `Layer.Signed`: A layer says of itself what its parts say of themselves.

## Theorems

* `mem_union`, `nodup_union`: Lists of keys as sets.
* `Layer.fed_of_ready`: In a good order every layer gets what it wants.
* `Layer.Made.signed`: Every layer that has been made is signed, and lists no key twice.
-/

namespace EffectKernel

section Keys

variable {α : Type} {key : ServiceKey}

/-- What belongs to a union belongs to one side. -/
theorem mem_union {a b : List ServiceKey} : key ∈ union a b ↔ key ∈ a ∨ key ∈ b := by
  unfold union
  induction b generalizing a with
  | nil => simp
  | cons k rest ih =>
      rw [List.foldl_cons, ih]
      -- A key is appended unless it is there already; both ways the keys are the same.
      by_cases hk : k ∈ a
      · rw [if_pos hk, List.mem_cons]
        constructor
        · exact fun h => h.imp_right Or.inr
        · rintro (h | rfl | h)
          · exact Or.inl h
          · exact Or.inl hk
          · exact Or.inr h
      · rw [if_neg hk, List.mem_append, List.mem_singleton, List.mem_cons, or_assoc]

/-- To add keys to a list without duplicates makes none. -/
theorem nodup_union {a b : List ServiceKey} (h : a.Nodup) : (union a b).Nodup := by
  unfold union
  induction b generalizing a with
  | nil => exact h
  | cons k rest ih =>
      rw [List.foldl_cons]
      by_cases hk : k ∈ a
      · rw [if_pos hk]
        exact ih h
      · rw [if_neg hk]
        refine ih (List.nodup_append.2 ⟨h, List.pairwise_singleton _ _, ?_⟩)
        intro x hx y hy hxy
        rcases List.mem_singleton.1 hy with rfl
        exact hk (hxy ▸ hx)

theorem mem_difference {a b : List ServiceKey} :
    key ∈ difference a b ↔ key ∈ a ∧ key ∉ b := by
  unfold difference
  rw [List.mem_filter, decide_eq_true_eq]

/-- What belongs to the union of many belongs to one of them. -/
theorem mem_foldl_union {f : α → List ServiceKey} {items : List α} {a : List ServiceKey} :
    key ∈ items.foldl (fun keys item => union keys (f item)) a ↔
      key ∈ a ∨ ∃ item ∈ items, key ∈ f item := by
  induction items generalizing a with
  | nil => simp
  | cons item rest ih =>
      rw [List.foldl_cons, ih, mem_union, or_assoc]
      simp only [List.mem_cons, exists_eq_or_imp]

theorem nodup_foldl_union {f : α → List ServiceKey} {items : List α} {a : List ServiceKey}
    (h : a.Nodup) : (items.foldl (fun keys item => union keys (f item)) a).Nodup := by
  induction items generalizing a with
  | nil => exact h
  | cons item rest ih => exact ih (nodup_union h)

end Keys

/-- The keys of entries are those under which something is found. -/
theorem Entries.mem_map_fst {entries : Entries} {key : ServiceKey} :
    key ∈ entries.map (·.1) ↔ (entries.find? key).isSome := by
  induction entries with
  | nil => simp [Entries.find?]
  | cons entry rest ih =>
      rcases entry with ⟨k, v⟩
      simp only [List.map_cons, List.mem_cons, Entries.find?]
      by_cases hk : k = key
      · simp [hk]
      · rw [if_neg hk, ← ih]
        exact ⟨fun h => h.resolve_left (Ne.symm hk), Or.inr⟩

namespace Context

/-- The keys of a context are those of the services that it has. -/
theorem mem_keys {c : Context} {key : ServiceKey} : key ∈ c.keys ↔ (c.get? key).isSome :=
  Entries.mem_map_fst

theorem get?_of_not_mem_keys {c : Context} {key : ServiceKey} (h : key ∉ c.keys) :
    c.get? key = none :=
  Option.not_isSome_iff_eq_none.1 fun hsome => h (mem_keys.2 hsome)

/-- The keys of two contexts. -/
theorem mem_keys_merge {c d : Context} {key : ServiceKey} :
    key ∈ (c.merge d).keys ↔ key ∈ c.keys ∨ key ∈ d.keys := by
  rw [mem_keys, mem_keys, mem_keys, get?_merge]
  cases d.get? key <;> simp

theorem mem_keys_single {k key : ServiceKey} {v : Value} :
    key ∈ (single k v).keys ↔ key = k := by
  rw [mem_keys, single, get?_insert]
  by_cases h : key = k <;> simp [h]

/-- A context lists no key twice. -/
theorem nodup_keys (c : Context) : c.keys.Nodup := by
  refine List.pairwise_map.2 (c.ordered.imp fun {a b} h heq => ?_)
  exact ServiceKey.not_before_self b.1 (heq ▸ h)

end Context

namespace Layer

variable {σ : Type}

/-- Layers in a row, each of which wants nothing but what the row as a whole wants and
    what comes out of the layers before it. -/
def Fed (requires : List ServiceKey) : List (Layer σ) → List (Layer σ) → Prop
  | _, [] => True
  | before, L :: rest =>
    (∀ key ∈ L.requires, key ∈ requires ∨ ∃ M ∈ before, key ∈ M.outputs) ∧
      Fed requires (before ++ [L]) rest

/-- A layer says of itself what its parts say of themselves. It may want more than they
    do. -/
def Signed : Layer σ → Prop
  | .build info key _ => ∀ k, k ∈ info.outputs ↔ k = key
  | .context info c => ∀ k, k ∈ info.outputs ↔ k ∈ c.keys
  | .provide info consumer supplier keepSupplier =>
    (∀ k, k ∈ info.outputs ↔
      (keepSupplier = true ∧ k ∈ supplier.outputs) ∨ k ∈ consumer.outputs) ∧
    (∀ k ∈ supplier.requires, k ∈ info.requires) ∧
    (∀ k ∈ consumer.requires, k ∈ info.requires ∨ k ∈ supplier.outputs)
  | .merge info left right =>
    (∀ k, k ∈ info.outputs ↔ k ∈ left.outputs ∨ k ∈ right.outputs) ∧
    (∀ k ∈ left.requires, k ∈ info.requires) ∧ (∀ k ∈ right.requires, k ∈ info.requires)
  | .sequence info layers =>
    (∀ k, k ∈ info.outputs ↔ ∃ M ∈ layers, k ∈ M.outputs) ∧ Fed info.requires [] layers
  | .mapError info inner _ =>
    (∀ k, k ∈ info.outputs ↔ k ∈ inner.outputs) ∧ (∀ k ∈ inner.requires, k ∈ info.requires)

/-- Layers that are fed are so with more to require. -/
theorem Fed.mono {requires requires' : List ServiceKey}
    (h : ∀ k ∈ requires, k ∈ requires') {before layers : List (Layer σ)}
    (hfed : Fed requires before layers) : Fed requires' before layers := by
  induction layers generalizing before with
  | nil => trivial
  | cons L rest ih => exact ⟨fun k hk => (hfed.1 k hk).imp_left (h k), ih hfed.2⟩

/-- Declaring more wants keeps a layer signed. -/
theorem Signed.withInfo {L : Layer σ} (h : L.Signed) (info : LayerInfo)
    (houtputs : info.outputs = L.outputs) (hrequires : ∀ k ∈ L.requires, k ∈ info.requires) :
    (L.withInfo info).Signed := by
  -- Changing the info keeps the parts. Requirements may become more, outputs stay.
  cases L with
  | build _ key e =>
      intro k
      rw [houtputs]
      exact h k
  | context _ c =>
      intro k
      rw [houtputs]
      exact h k
  | provide _ consumer supplier keep =>
      refine ⟨fun k => ?_, fun k hk => hrequires k (h.2.1 k hk),
        fun k hk => (h.2.2 k hk).imp_left (hrequires k)⟩
      rw [houtputs]
      exact h.1 k
  | merge _ left right =>
      refine ⟨fun k => ?_, fun k hk => hrequires k (h.2.1 k hk),
        fun k hk => hrequires k (h.2.2 k hk)⟩
      rw [houtputs]
      exact h.1 k
  | sequence _ layers =>
      refine ⟨fun k => ?_, h.2.mono hrequires⟩
      rw [houtputs]
      exact h.1 k
  | mapError _ inner f =>
      refine ⟨fun k => ?_, fun k hk => hrequires k (h.2 k hk)⟩
      rw [houtputs]
      exact h.1 k

/-- What any layer of a set provides comes out of the set. -/
theorem mem_allOutputs {layers : List (Layer σ)} {key : ServiceKey} :
    key ∈ allOutputs layers ↔ ∃ L ∈ layers, key ∈ L.outputs := by
  unfold allOutputs
  rw [mem_foldl_union]
  simp only [List.not_mem_nil, false_or]

/-- The layers in the order that is found are the layers of the set. -/
theorem mem_ordered {layers : List (Layer σ)} {order : List Nat}
    (h : Graph.buildOrder (layers.map node) = .ok order) {L : Layer σ} :
    L ∈ order.filterMap (fun i => layers[i]?) ↔ L ∈ layers := by
  rw [List.mem_filterMap]
  constructor
  · rintro ⟨i, -, hget⟩
    exact List.mem_of_getElem? hget
  · intro hL
    rcases List.getElem?_of_mem hL with ⟨i, hget⟩
    have hlt := (List.getElem?_eq_some_iff.1 hget).1
    exact ⟨i, (Graph.buildOrder_ready h).2 i (by rwa [List.length_map]), hget⟩

/-- What no layer of a set provides is wanted by the set. -/
theorem mem_outerRequires {layers : List (Layer σ)} {key : ServiceKey} :
    key ∈ outerRequires layers ↔
      ∃ L ∈ layers, key ∈ L.requires ∧ Graph.providerOf? (layers.map node) key = none := by
  unfold outerRequires
  rw [mem_foldl_union]
  simp only [List.not_mem_nil, false_or, List.mem_filter, Option.isNone_iff_eq_none]

/-- The provider of a service provides it. -/
theorem mem_outputs_of_providerOf? {layers : List (Layer σ)} {key : ServiceKey} {i : Nat}
    (h : Graph.providerOf? (layers.map node) key = some i) :
    ∃ M, layers[i]? = some M ∧ key ∈ M.outputs := by
  rcases List.findIdx?_eq_some_iff_getElem.1 h with ⟨hlt, hkey, -⟩
  rw [List.length_map] at hlt
  refine ⟨layers[i], List.getElem?_eq_getElem hlt, ?_⟩
  rw [List.getElem_map] at hkey
  exact of_decide_eq_true hkey

/-- In a good order every layer gets what it wants. -/
theorem fed_of_ready {layers : List (Layer σ)} {placed order : List Nat}
    (h : Graph.Ready (layers.map node) placed order) :
    Fed (outerRequires layers) (placed.filterMap fun i => layers[i]?)
      (order.filterMap fun i => layers[i]?) := by
  induction order generalizing placed with
  | nil => trivial
  | cons index rest ih =>
      -- A want that no layer of the set provides is one of the set as a whole.
      rcases h with ⟨-, hlt, wants, hrest⟩
      rw [List.length_map] at hlt
      have hget : layers[index]? = some layers[index] := List.getElem?_eq_getElem hlt
      have hrest := ih hrest
      rw [List.filterMap_append] at hrest
      simp only [List.filterMap_cons, List.filterMap_nil, hget] at hrest ⊢
      refine ⟨fun key hkey => ?_, hrest⟩
      rcases hprov : Graph.providerOf? (layers.map node) key with _ | i
      · exact Or.inl (mem_outerRequires.2 ⟨layers[index], List.getElem_mem hlt, hkey, hprov⟩)
      · -- The provider is among the wanted nodes, so it has been placed.
        have hwanted : i ∈ Graph.wanted (layers.map node) index := by
          unfold Graph.wanted
          rw [List.getElem?_map, hget]
          exact List.mem_filterMap.2 ⟨key, hkey, hprov⟩
        rcases mem_outputs_of_providerOf? hprov with ⟨M, hM, hout⟩
        exact Or.inr ⟨M, List.mem_filterMap.2 ⟨i, wants i hwanted, hM⟩, hout⟩

/-- Every layer that has been made is signed, and lists no key twice. -/
theorem Made.signed {made : List (Layer σ)} (h : Made made) :
    ∀ L ∈ made, L.Signed ∧ L.outputs.Nodup ∧ L.requires.Nodup := by
  -- One case for each constructor; every layer made before has its signature already.
  induction h with
  | nothing => exact fun _ h => by cases h
  | effect before fresh key e ih =>
      refine List.forall_mem_cons.2 ⟨⟨fun k => List.mem_singleton, ?_, ?_⟩, ih⟩
      · exact List.pairwise_singleton _ _
      · exact List.nodup_nil
  | context before fresh c ih =>
      exact List.forall_mem_cons.2
        ⟨⟨fun k => Iff.rfl, c.nodup_keys, List.nodup_nil⟩, ih⟩
  | @dependsOn _ id L before fresh mem key ih =>
      rcases ih L mem with ⟨hsigned, houtputs, hrequires⟩
      refine List.forall_mem_cons.2 ⟨⟨?_, ?_, ?_⟩, ih⟩
      · exact hsigned.withInfo _ rfl fun k hk => mem_union.2 (Or.inl hk)
      · rw [outputs, Layer.dependsOn, info_withInfo]
        exact houtputs
      · rw [requires, Layer.dependsOn, info_withInfo]
        exact nodup_union hrequires
  | @feed _ id consumer supplier before fresh memConsumer memSupplier keep ih =>
      rcases ih consumer memConsumer with ⟨-, hout, -⟩
      rcases ih supplier memSupplier with ⟨-, hout', hreq'⟩
      refine List.forall_mem_cons.2 ⟨⟨⟨fun k => ?_, fun k hk => ?_, fun k hk => ?_⟩, ?_, ?_⟩, ih⟩
      · cases keep <;> simp [mem_union]
      · exact mem_union.2 (Or.inl hk)
      · -- What the supplier provides is no longer wanted.
        by_cases hsup : k ∈ supplier.outputs
        · exact Or.inr hsup
        · exact Or.inl (mem_union.2 (Or.inr (mem_difference.2 ⟨hk, hsup⟩)))
      · cases keep with
        | true => exact nodup_union hout'
        | false => exact hout
      · exact nodup_union hreq'
  | @merge _ id left right L before fresh memLeft memRight merged ih =>
      rcases merge?_eq_ok merged with ⟨-, rfl⟩
      rcases ih left memLeft with ⟨-, hout, hreq⟩
      refine List.forall_mem_cons.2 ⟨⟨⟨fun k => mem_union, fun k hk => ?_, fun k hk => ?_⟩,
        nodup_union hout, nodup_union hreq⟩, ih⟩
      · exact mem_union.2 (Or.inl hk)
      · exact mem_union.2 (Or.inr hk)
  | @graph _ id layers L before fresh mem ordered ih =>
      rcases graph?_eq_ok ordered with ⟨order, horder, rfl⟩
      refine List.forall_mem_cons.2 ⟨⟨⟨fun k => ?_,
        fed_of_ready (Graph.buildOrder_ready horder).1⟩,
        nodup_foldl_union List.nodup_nil, nodup_foldl_union List.nodup_nil⟩, ih⟩
      show k ∈ allOutputs layers ↔ _
      rw [mem_allOutputs]
      simp only [mem_ordered horder]
  | @mapFailure _ id L before fresh mem f ih =>
      rcases ih L mem with ⟨-, houtputs, hrequires⟩
      exact List.forall_mem_cons.2
        ⟨⟨⟨fun k => Iff.rfl, fun k hk => hk⟩, houtputs, hrequires⟩, ih⟩

end Layer

end EffectKernel
