import EffectKernel.Proofs.Layer.Afresh
import EffectKernel.Proofs.Layer.Search

/-!
# How a Set Is Listed

The layers of a graph may be listed in any order. Whether the graph is accepted does not
depend on it, since that two layers provide one service and that a layer needs itself can
be said of the set. The order in which the layers are built does depend on it, and with
the order the services that a layer finds around it; for a layer in a row finds what all
layers before it have come to, whether it wants that or not.

What a layer reads is the same all the same, if it reads no more than it declares. All
that comes out of a build can be described without an order: services, one for everything
that a layer of the set lists, such that every layer comes to its share of them among
all of them. Where a layer wants a service, the layer that provides it stands before it,
and nothing that comes later provides it once more; so among the services so far the
layer comes to what it comes to among all of them. Services that solve the set in this
sense are what the graph builds, in whatever order it does.

This is said of the smallest layers, which run an effect or hand out a finished context.
A layer of this kind that is met again in the row is one that provides nothing, so the
memo makes no difference.

## Main definitions

* `Layer.Leaf`: The smallest layers.
* `Effect.DecidedBy`: The services under some keys decide how an effect ends.
* `Layer.Lined`: Smallest layers in a row that suits what they want.
* `Layer.Solves`: Services that all layers of a set come to among each other.

## Theorems

* `Graph.clash_perm`, `Graph.circular_perm`: What a set is refused for is said of the set.
* `Layer.row_solves`, `Layer.row_of_solves`: A row comes to services that solve the set.
* `Layer.graph_ignores_listing`: What a graph comes to does not depend on the listing.
-/

namespace EffectKernel

variable {σ : Type}

/-- The services under some keys decide how an effect ends, and in whatever world it is
    run it ends so. -/
def Effect.DecidedBy (settings : Settings) (outside : Outside σ) (keys : List ServiceKey)
    (e : Effect σ) : Prop :=
  ∃ f : Context → Option Outcome,
    (∀ env env', (∀ key ∈ keys, env.get? key = env'.get? key) → f env = f env') ∧
    ∀ env w x, (∃ w', e.Ends settings outside env w x w') ↔ f env = some x

/-- As an effect ends in one world it ends in any other, and also where only services
    differ that it is not decided by. -/
theorem Effect.DecidedBy.elsewhere {settings : Settings} {outside : Outside σ}
    {keys : List ServiceKey} {e : Effect σ} (h : e.DecidedBy settings outside keys)
    {env env' : Context} (same : ∀ key ∈ keys, env.get? key = env'.get? key)
    {w w₁ : World σ} {x : Outcome}
    (run : Evaluates settings outside (.effect e) (.of env) w x w₁) (w' : World σ) :
    ∃ w₁', Evaluates settings outside (.effect e) (.of env') w' x w₁' := by
  rcases h with ⟨f, local_f, hf⟩
  have hx := (hf env w x).1 ⟨w₁, ends_iff_evaluates.2 run⟩
  rw [local_f env env' same] at hx
  rcases (hf env' w' x).2 hx with ⟨w₁', hends⟩
  exact ⟨w₁', ends_iff_evaluates.1 hends⟩

/-- A value that is there already is decided by nothing. -/
theorem Effect.decidedBy_succeed {settings : Settings} {outside : Outside σ}
    (keys : List ServiceKey) (v : Value) :
    (Effect.succeed v : Effect σ).DecidedBy settings outside keys := by
  refine ⟨fun _ => some (.success v), fun _ _ _ => rfl, fun env w x => ?_⟩
  constructor
  · rintro ⟨w', hends⟩
    rw [(evaluates_exit_pure.1 (ends_iff_evaluates.1 hends)).1]
  · rintro ⟨⟩
    exact ⟨w, ends_iff_evaluates.2 (evaluates_exit_pure.2 ⟨rfl, rfl⟩)⟩

/-- To read a declared service is decided by what is declared. -/
theorem Effect.decidedBy_service {settings : Settings} {outside : Outside σ}
    {keys : List ServiceKey} {key : ServiceKey} (mem : key ∈ keys) :
    (Effect.service key : Effect σ).DecidedBy settings outside keys := by
  refine ⟨fun env => some (env.answer key), fun env env' same => ?_, fun env w x => ?_⟩
  · simp only [Context.answer, same key mem]
  · constructor
    · rintro ⟨w', hends⟩
      rw [(evaluates_service.1 (ends_iff_evaluates.1 hends)).1]
    · rintro ⟨⟩
      exact ⟨w, ends_iff_evaluates.2 (evaluates_service.2 ⟨rfl, rfl⟩)⟩

namespace Graph

variable {nodes nodes' : List Node}

/-- Whether two nodes provide one service does not depend on how the nodes are listed. -/
theorem clash_perm (perm : nodes.Perm nodes') (once : ∀ node ∈ nodes, node.1.Nodup) :
    Clash nodes ↔ Clash nodes' := by
  have once' : ∀ node ∈ nodes', node.1.Nodup := fun node hnode =>
    once node (perm.mem_iff.2 hnode)
  rw [← not_iff_not, ← nodup_provided_iff once, ← nodup_provided_iff once']
  exact (perm.flatMap_right _).nodup_iff

/-- A node of a list wants what a node of the list provides. This speaks of the nodes and
    not of their places. -/
def Demands (nodes : List Node) (a b : Node) : Prop :=
  a ∈ nodes ∧ b ∈ nodes ∧ ∃ key ∈ a.2, key ∈ b.1

/-- A node that needs itself can be found without looking at places. -/
theorem circular_iff_demands :
    Circular nodes ↔ ∃ a, Relation.TransGen (Demands nodes) a a := by
  constructor
  · rintro ⟨i, hi⟩
    refine ⟨nodes.getD i ([], []), hi.lift (fun i => nodes.getD i ([], [])) ?_⟩
    rintro i j ⟨key, ⟨a, ha, hkeya⟩, ⟨b, hb, hkeyb⟩⟩
    simp only [Function.onFun, List.getD_eq_getElem?_getD, ha, hb, Option.getD_some]
    exact ⟨List.mem_of_getElem? ha, List.mem_of_getElem? hb, key, hkeya, hkeyb⟩
  · rintro ⟨a, ha⟩
    -- For a node any of its places will do.
    refine ⟨nodes.idxOf a, ha.lift (fun a => nodes.idxOf a) ?_⟩
    rintro a b ⟨ha, hb, key, hkeya, hkeyb⟩
    exact ⟨key, ⟨a, List.getElem?_idxOf ha, hkeya⟩, ⟨b, List.getElem?_idxOf hb, hkeyb⟩⟩

/-- Whether a node needs itself does not depend on how the nodes are listed. -/
theorem circular_perm (perm : nodes.Perm nodes') : Circular nodes ↔ Circular nodes' := by
  have same : Demands nodes = Demands nodes' := by
    funext a b
    unfold Demands
    rw [perm.mem_iff, perm.mem_iff]
  rw [circular_iff_demands, circular_iff_demands, same]

/-- In a sorted order no node stands before one that it needs. -/
theorem Sorted.pairwise {order : List Nat} (h : Sorted nodes order) :
    order.Pairwise fun i j => i ≠ j ∧ ¬ Needs nodes i j := by
  have hnodup : order.Nodup := h.perm.nodup_iff.2 List.nodup_range
  -- What a node needs has a smaller place than the node.
  refine List.pairwise_iff_getElem.2 fun a b ha hb hlt => ⟨fun heq => ?_, fun hneeds => ?_⟩
  · have hab := (List.Nodup.getElem_inj_iff hnodup).1 heq
    omega
  · have hidx := h.idxOf_lt (.single hneeds)
    rw [hnodup.idxOf_getElem, hnodup.idxOf_getElem] at hidx
    omega

end Graph

namespace Layer

open EffectKernel.Graph

/-- A smallest layer: it runs an effect for one service, or it hands out a finished
    context. -/
inductive Leaf : Layer σ → Prop
  /-- It runs an effect. -/
  | build {info key e} : Leaf (.build info key e)
  /-- It hands out a context. -/
  | context {info c} : Leaf (.context info c)

/-- Smallest layers in a row that suits what they want: nobody wants what comes out of a
    layer that does not stand before, and no service comes out of two of them. The effects
    are decided by what is declared for them. -/
structure Lined (settings : Settings) (outside : Outside σ) (made layers : List (Layer σ)) :
    Prop where
  /-- All of them have been made. -/
  made : ∀ L ∈ layers, L ∈ made
  /-- All of them are smallest layers. -/
  leaf : ∀ L ∈ layers, L.Leaf
  /-- What is declared for an effect decides how it ends. -/
  decided : ∀ {info key e}, .build info key e ∈ layers →
    e.DecidedBy settings outside info.requires
  /-- No layer wants what comes out of itself. -/
  off : ∀ L ∈ layers, ∀ key ∈ L.outputs, key ∉ L.requires
  /-- What comes out of a layer is wanted by none before it, and comes out of none. -/
  apart : layers.Pairwise fun L M => ∀ key ∈ M.outputs, key ∉ L.requires ∧ key ∉ L.outputs

/-- What a memo holds was filed for layers of a row, and for a layer with a finished
    context it is that context. -/
def Filed (row : List (Layer σ)) (memo : Memo) : Prop :=
  ∀ {id c}, memo.context? id = some c →
    ∃ M ∈ row, M.id = id ∧ ∀ info d, M = .context info d → c = d

/-- A layer comes to its share of some services where these are around it. -/
def Settled (settings : Settings) (outside : Outside σ) (env c : Context) (L : Layer σ) :
    Prop :=
  ∃ share, (L.building settings outside Building.anew).Builds (env.merge c) share ∧
    ∀ key ∈ L.outputs, c.get? key = share.get? key

/-- Services that solve a set of layers: they are what the layers list, and every layer
    comes to its share of them. -/
structure Solves (settings : Settings) (outside : Outside σ) (layers : List (Layer σ))
    (env c : Context) : Prop where
  /-- The services are those that the layers list. -/
  keys : ∀ key, key ∈ c.keys ↔ ∃ L ∈ layers, key ∈ L.outputs
  /-- Every layer comes to its share. -/
  settled : ∀ L ∈ layers, Settled settings outside env c L

/-- A solution does not depend on how the layers are listed. -/
theorem Solves.perm {settings : Settings} {outside : Outside σ} {layers layers' : List (Layer σ)}
    {env c : Context} (perm : layers.Perm layers') (h : Solves settings outside layers env c) :
    Solves settings outside layers' env c where
  keys key := by
    rw [h.keys]
    simp only [perm.mem_iff]
  settled L hL := h.settled L (perm.mem_iff.2 hL)

section Leaves

variable {settings : Settings} {outside : Outside σ} {made : List (Layer σ)}
  {before rest : List (Layer σ)} {L : Layer σ} {memo memo' : Memo} {env env' c share : Context}
  {w w' : World σ} {t : List (Happening σ)}

/-- What comes out of a smallest layer is what it lists. -/
theorem mem_keys_of_builds (leaf : L.Leaf) (signed : L.Signed)
    (h : (L.building settings outside Building.anew).Builds env share) {key : ServiceKey} :
    key ∈ share.keys ↔ key ∈ L.outputs := by
  rcases h with ⟨memo, w, t, memo', w', run⟩
  cases leaf with
  | build =>
      cases run with
      | ready run => exact Context.mem_keys_single.trans (signed key).symm
  | context =>
      cases run
      exact (signed key).symm

namespace Lined

variable (row : Lined settings outside made (before ++ L :: rest))
include row

/-- No layer wants what comes out of it or of a layer behind it. -/
theorem not_wanted {M : Layer σ} (hM : M ∈ L :: rest) {key : ServiceKey}
    (hwant : key ∈ L.requires) : key ∉ M.outputs := by
  intro hout
  rcases List.mem_cons.1 hM with rfl | hM
  · exact row.off M List.mem_append_cons_self key hout hwant
  · have hafter := (List.pairwise_append.1 row.apart).2.1
    exact ((List.pairwise_cons.1 hafter).1 M hM key hout).1 hwant

/-- What comes out of a layer does not come out of one behind it. -/
theorem not_provided {M : Layer σ} (hM : M ∈ rest) {key : ServiceKey}
    (hkey : key ∈ L.outputs) : key ∉ M.outputs := by
  intro hout
  have hafter := (List.pairwise_append.1 row.apart).2.1
  exact ((List.pairwise_cons.1 hafter).1 M hM key hout).2 hkey

/-- What comes out of a layer has not come out of one before it. -/
theorem not_provided_before {M : Layer σ} (hM : M ∈ before) {key : ServiceKey}
    (hkey : key ∈ L.outputs) : key ∉ M.outputs :=
  ((List.pairwise_append.1 row.apart).2.2 M hM L List.mem_cons_self key hkey).2

/-- What is filed under the number of a layer is filed for that layer, and it has stood in
    the row before. -/
theorem filed_eq (h : Made made) (filed : Filed before memo)
    (hit : memo.context? L.id = some c) :
    L ∈ before ∧ ∀ info d, L = .context info d → c = d := by
  rcases filed hit with ⟨M, hM, hid, hc⟩
  have heq : M = L :=
    h.eq_of_id (row.made M (List.mem_append_left _ hM)) (row.made L List.mem_append_cons_self) hid
  rw [← heq]
  exact ⟨hM, hc⟩

/-- The effect of a layer in a row has not been built before. -/
theorem miss_of_build (h : Made made) {info : LayerInfo} {key : ServiceKey} {e : Effect σ}
    (heq : L = .build info key e) (filed : Filed before memo) :
    memo.context? L.id = none := by
  rcases hlook : memo.context? L.id with _ | c
  · rfl
  · -- It would provide its service twice.
    have hmem := (row.filed_eq h filed hlook).1
    have hsigned := (h.signed L (row.made L List.mem_append_cons_self)).1
    subst heq
    have hkey : key ∈ (Layer.build info key e).outputs := (hsigned key).2 rfl
    exact absurd hkey (row.not_provided_before hmem hkey)

omit row in
/-- A layer that has nothing to file. -/
theorem filed_more (filed : Filed before memo) : Filed (before ++ [L]) memo := by
  intro id c hsome
  rcases filed hsome with ⟨M, hM, hrest⟩
  exact ⟨M, List.mem_append_left _ hM, hrest⟩

omit row in
/-- A layer that has been filed with what it comes to. -/
theorem filed_store (filed : Filed before memo)
    (hc : ∀ info d, L = .context info d → c = d) :
    Filed (before ++ [L]) ((L.id, c.toValue) :: memo) := by
  intro id c' hsome
  rw [Memo.context?_cons] at hsome
  by_cases hid : L.id = id
  · rw [if_pos hid] at hsome
    cases hsome
    exact ⟨L, List.mem_append_right _ List.mem_cons_self, hid, hc⟩
  · rw [if_neg hid] at hsome
    exact filed_more filed hsome

/-- What a layer in a row is built to is what it comes to where it stands. -/
theorem builds_of_run (h : Made made) (filed : Filed before memo)
    (run : L.building settings outside .Remembering memo env w t (.ready share memo') w') :
    (L.building settings outside Building.anew).Builds env share ∧
      Filed (before ++ [L]) memo' := by
  have leaf := row.leaf L List.mem_append_cons_self
  generalize hL : L = M at leaf
  cases leaf with
  | @build info key e =>
      -- No layer before this one has its number, so it is not in the memo.
      have miss := row.miss_of_build h hL filed
      subst hL
      cases run with
      | reused hit => cases miss.symm.trans hit
      | kept _ one =>
          cases one with
          | ready run =>
              exact ⟨⟨memo, w, _, memo, _, .ready run⟩,
                filed_store (L := .build info key e) filed fun _ _ h => by cases h⟩
  | @context info d =>
      subst hL
      have builds : ((Layer.context info d : Layer σ).building settings outside
          Building.anew).Builds env d := ⟨memo, w, _, memo, w, .ready⟩
      cases run with
      | reused hit =>
          rw [(row.filed_eq h filed hit).2 info d rfl]
          exact ⟨builds, filed_more filed⟩
      | kept miss one =>
          cases one
          refine ⟨builds, filed_store (L := .context info share) filed ?_⟩
          rintro _ _ ⟨⟩
          rfl

/-- What a layer in a row comes to where it stands it is built to, in any world. -/
theorem run_of_builds (h : Made made) (filed : Filed before memo)
    (builds : (L.building settings outside Building.anew).Builds env share) (w : World σ) :
    ∃ t memo' w', L.building settings outside .Remembering memo env w t (.ready share memo') w' ∧
      Filed (before ++ [L]) memo' := by
  rcases builds with ⟨memo₀, w₀, t₀, memo₀', w₀', run⟩
  have leaf := row.leaf L List.mem_append_cons_self
  generalize hL : L = M at leaf
  cases leaf with
  | @build info key e =>
      have miss := row.miss_of_build h hL filed
      subst hL
      cases run with
      | ready run =>
          -- Built in one state, the effect comes to the same in any other with the same services.
          rcases (row.decided List.mem_append_cons_self).elsewhere (fun _ _ => rfl) run
            (w.report (.buildingLayer key.name)) with ⟨w', run'⟩
          exact ⟨_, _, w', .kept miss (.ready run'),
            filed_store (L := .build info key e) filed fun _ _ h => by cases h⟩
  | @context info d =>
      subst hL
      cases run
      rcases hlook : memo.context? info.id with _ | c
      · refine ⟨_, _, w, .kept hlook .ready, filed_store (L := .context info share) filed ?_⟩
        rintro _ _ ⟨⟩
        rfl
      · have hc := (row.filed_eq h filed hlook).2 info share rfl
        exact ⟨_, memo, _, .reused (hc ▸ hlook), filed_more filed⟩

/-- What a layer comes to depends on what it wants only. -/
theorem builds_congr (same : ∀ key ∈ L.requires, env.get? key = env'.get? key)
    (builds : (L.building settings outside Building.anew).Builds env share) :
    (L.building settings outside Building.anew).Builds env' share := by
  rcases builds with ⟨memo, w, t, memo', w', run⟩
  have leaf := row.leaf L List.mem_append_cons_self
  generalize hL : L = M at leaf
  cases leaf with
  | @build info key e =>
      subst hL
      cases run with
      | ready run =>
          -- The effect is decided by the services it requires, and on these the environments agree.
          rcases (row.decided List.mem_append_cons_self).elsewhere same run
            (w.report (.buildingLayer key.name)) with ⟨w₁, run'⟩
          exact ⟨memo, w, _, memo, w₁, .ready run'⟩
  | @context info d =>
      subst hL
      cases run
      exact ⟨memo, w, _, memo, w, .ready⟩

end Lined

/-- What a row of layers comes to: what the services so far were they still are, apart
    from what the layers list; those services are there; and every layer has come to its
    share. -/
theorem row_solves (h : Made made) {layers before : List (Layer σ)} {sofar : Context}
    (row : Lined settings outside made (before ++ layers)) (filed : Filed before memo)
    (run : freshEach settings outside .Remembering layers sofar memo env w t
      (.ready c memo') w') :
    (∀ key, (∀ L ∈ layers, key ∉ L.outputs) → c.get? key = sofar.get? key) ∧
    (∀ key, key ∈ c.keys ↔ key ∈ sofar.keys ∨ ∃ L ∈ layers, key ∈ L.outputs) ∧
    ∀ L ∈ layers, Settled settings outside env c L := by
  induction layers generalizing before sofar memo w t with
  | nil =>
      cases run
      exact ⟨fun _ _ => rfl, fun key => by simp, fun _ hL => by cases hL⟩
  | cons L rest ih =>
      cases run with
      | @ready _ _ _ _ share memo₁ w₁ _ _ _ one two =>
          rcases row.builds_of_run h filed one with ⟨builds, filed₁⟩
          have keys : ∀ {key}, key ∈ share.keys ↔ key ∈ L.outputs :=
            mem_keys_of_builds (row.leaf L List.mem_append_cons_self)
              (h.signed L (row.made L List.mem_append_cons_self)).1 builds
          have absent : ∀ {key}, key ∉ L.outputs → share.get? key = none := by
            intro key hkey
            exact Context.get?_of_not_mem_keys fun hmem => hkey (keys.1 hmem)
          rcases ih (by rwa [List.append_assoc]) filed₁ two with ⟨rest_same, rest_keys, settled⟩
          -- A key nobody provides any more is found where it was before.
          have same : ∀ key, (∀ M ∈ L :: rest, key ∉ M.outputs) →
              c.get? key = sofar.get? key := by
            intro key hkey
            rw [rest_same key fun M hM => hkey M (List.mem_cons_of_mem _ hM),
              Context.get?_merge, absent (hkey L List.mem_cons_self), Option.none_or]
          refine ⟨same, fun key => ?_, List.forall_mem_cons.2 ⟨⟨share, ?_, ?_⟩, settled⟩⟩
          · rw [rest_keys, Context.mem_keys_merge, keys]
            simp only [List.mem_cons, exists_eq_or_imp, or_assoc]
          · -- Nothing behind the layer provides what it wants, so it finds the same there.
            refine row.builds_congr (fun key hkey => ?_) builds
            rw [Context.get?_merge, Context.get?_merge,
              same key fun M hM => row.not_wanted hM hkey]
          · intro key hkey
            have hsome := Context.mem_keys.1 (keys.2 hkey)
            rw [rest_same key fun M hM => row.not_provided hM hkey, Context.get?_merge,
              Option.or_of_isSome hsome]

/-- A row of layers comes to services that solve it, in any world. -/
theorem row_of_solves (h : Made made) {layers before : List (Layer σ)} {sofar : Context}
    (row : Lined settings outside made (before ++ layers)) (filed : Filed before memo)
    (solves : Solves settings outside (before ++ layers) env c)
    (hsofar : ∀ key, (∃ L ∈ before, key ∈ L.outputs) → sofar.get? key = c.get? key)
    (hnone : ∀ key, (¬ ∃ L ∈ before, key ∈ L.outputs) → sofar.get? key = none)
    (w : World σ) :
    ∃ t memo' w', freshEach settings outside .Remembering layers sofar memo env w t
      (.ready c memo') w' := by
  induction layers generalizing before sofar memo w with
  | nil =>
      have heq : sofar = c := by
        refine Context.ext_get? fun key => ?_
        by_cases hkey : ∃ L ∈ before, key ∈ L.outputs
        · exact hsofar key hkey
        · have hnot : key ∉ c.keys := fun hmem => hkey (by
            simpa only [List.append_nil] using (solves.keys key).1 hmem)
          rw [hnone key hkey, Context.get?_of_not_mem_keys hnot]
      rw [heq]
      exact ⟨_, _, w, .ready⟩
  | cons L rest ih =>
      rcases solves.settled L List.mem_append_cons_self with ⟨share, builds, hshare⟩
      have keys : ∀ {key}, key ∈ share.keys ↔ key ∈ L.outputs :=
        mem_keys_of_builds (row.leaf L List.mem_append_cons_self)
          (h.signed L (row.made L List.mem_append_cons_self)).1 builds
      -- What the layer wants is there already, or will not be there in the end either.
      have here : (L.building settings outside Building.anew).Builds (env.merge sofar) share := by
        refine row.builds_congr (fun key hkey => ?_) builds
        rw [Context.get?_merge, Context.get?_merge]
        by_cases hbefore : ∃ M ∈ before, key ∈ M.outputs
        · rw [hsofar key hbefore]
        · have hnot : key ∉ c.keys := by
            intro hmem
            rcases (solves.keys key).1 hmem with ⟨M, hM, hout⟩
            rcases List.mem_append.1 hM with hM | hM
            · exact hbefore ⟨M, hM, hout⟩
            · exact row.not_wanted hM hkey hout
          rw [hnone key hbefore, Context.get?_of_not_mem_keys hnot]
      rcases row.run_of_builds h filed here w with ⟨t₁, memo₁, w₁, one, filed₁⟩
      have more : ∀ {key}, (∃ M ∈ before ++ [L], key ∈ M.outputs) ↔
          (∃ M ∈ before, key ∈ M.outputs) ∨ key ∈ L.outputs := by
        intro key
        simp only [List.mem_append, List.mem_singleton, or_and_right, exists_or, exists_eq_left]
      have next : ∃ t memo' w', freshEach settings outside .Remembering rest (sofar.merge share)
          memo₁ env w₁ t (.ready c memo') w' := by
        refine ih (by rwa [List.append_assoc]) filed₁
          (by rwa [List.append_assoc]) (fun key hkey => ?_) (fun key hkey => ?_) w₁
        · rw [Context.get?_merge]
          by_cases hout : key ∈ L.outputs
          · rw [Option.or_of_isSome (Context.mem_keys.1 (keys.2 hout)), hshare key hout]
          · rw [Context.get?_of_not_mem_keys fun hmem => hout (keys.1 hmem), Option.none_or]
            exact hsofar key ((more.1 hkey).resolve_right hout)
        · rw [more, not_or] at hkey
          rw [Context.get?_merge, hnone key hkey.1,
            Context.get?_of_not_mem_keys fun hmem => hkey.2 (keys.1 hmem)]
          rfl
      rcases next with ⟨t₂, memo₂, w₂, two⟩
      exact ⟨_, memo₂, w₂, .ready one two⟩

/-- The layers of a set in a sorted order are a row that suits what they want. -/
theorem lined_of_sorted {layers : List (Layer σ)} {order : List Nat}
    (mem : ∀ L ∈ layers, L ∈ made) (leaf : ∀ L ∈ layers, L.Leaf)
    (decided : ∀ {info key e}, .build info key e ∈ layers →
      e.DecidedBy settings outside info.requires)
    (apart : ¬ Clash (layers.map node)) (sorted : Sorted (layers.map node) order) :
    Lined settings outside made (order.filterMap fun i => layers[i]?) := by
  have perm := perm_of_sorted sorted
  -- Positions in the list and nodes of the graph are the same numbers.
  have outputs : ∀ {i : Nat} {L : Layer σ}, layers[i]? = some L → ∀ {key}, key ∈ L.outputs →
      Provides (layers.map node) i key := fun hL _ hkey =>
    ⟨_, by rw [List.getElem?_map, hL]; rfl, hkey⟩
  have requires : ∀ {i : Nat} {L : Layer σ}, layers[i]? = some L → ∀ {key}, key ∈ L.requires →
      Wants (layers.map node) i key := fun hL _ hkey =>
    ⟨_, by rw [List.getElem?_map, hL]; rfl, hkey⟩
  refine ⟨fun L hL => mem L (perm.mem_iff.1 hL), fun L hL => leaf L (perm.mem_iff.1 hL),
    fun hL => decided (perm.mem_iff.1 hL), fun L hL key hout hwant => ?_, ?_⟩
  · rcases List.getElem?_of_mem (perm.mem_iff.1 hL) with ⟨i, hget⟩
    exact sorted.not_circular ⟨i, .single ⟨key, requires hget hwant, outputs hget hout⟩⟩
  · refine List.pairwise_filterMap.2 (sorted.pairwise.imp ?_)
    rintro i j ⟨hne, hneeds⟩ L hL M hM key hkey
    exact ⟨fun hwant => hneeds ⟨key, requires hL hwant, outputs hM hkey⟩,
      fun hout => apart ⟨i, j, key, hne, outputs hL hout, outputs hM hkey⟩⟩

/-- A graph of smallest layers ends in services exactly if they solve the set, whatever the
    world is in which it is built. -/
theorem graph_ends_iff_solves (h : Made made) {layers : List (Layer σ)}
    (mem : ∀ L ∈ layers, L ∈ made) (leaf : ∀ L ∈ layers, L.Leaf)
    (decided : ∀ {info key e}, .build info key e ∈ layers →
      e.DecidedBy settings outside info.requires)
    {order : List Nat} (apart : ¬ Clash (layers.map node))
    (sorted : Sorted (layers.map node) order) {info : LayerInfo} {v : Value} :
    (∃ w', (Layer.sequence info (order.filterMap fun i => layers[i]?)).built.Ends settings
      outside env w (.success v) w') ↔
      ∃ c, v = c.toValue ∧ Solves settings outside layers env c := by
  have row : Lined settings outside made ([] ++ order.filterMap fun i => layers[i]?) :=
    lined_of_sorted mem leaf decided apart sorted
  have perm := perm_of_sorted sorted
  have nothing : Filed ([] : List (Layer σ)) [] := fun hsome => by cases hsome
  -- The memo of a build is empty at first, so nothing has been filed for the row.
  simp only [ends_built]
  constructor
  · rintro ⟨w', t, r, run, hexit⟩
    rcases r with ⟨c, memo⟩ | cause
    · cases hexit
      cases run with
      | reused hit => cases hit
      | kept _ one =>
          rcases row_solves h row nothing one with ⟨-, keys, settled⟩
          refine ⟨c, rfl, Solves.perm perm ⟨fun key => ?_, settled⟩⟩
          rw [keys, Context.mem_keys]
          exact or_iff_right Bool.false_ne_true
    · cases cause <;> cases hexit
  · rintro ⟨c, rfl, solves⟩
    have none : ∀ key, (∃ L ∈ ([] : List (Layer σ)), key ∈ L.outputs) →
        Context.empty.get? key = c.get? key := by
      rintro key ⟨L, hL, -⟩
      cases hL
    rcases row_of_solves h row nothing (solves.perm perm.symm) none (fun _ _ => rfl) w with
      ⟨t, memo', w', run⟩
    exact ⟨w', _, _, .kept rfl run, rfl⟩

end Leaves

/-- What a graph of smallest layers comes to does not depend on the order in which they are
    listed, if what is declared for their effects decides how these end: it is refused for
    the same kind of mistake in either order, and otherwise lists the same services, wants
    the same, and ends in the same services where it ends in services at all. -/
theorem graph_ignores_listing {settings : Settings} {outside : Outside σ}
    {made layers layers' : List (Layer σ)} (h : Made made) (perm : layers.Perm layers')
    (mem : ∀ L ∈ layers, L ∈ made) (leaf : ∀ L ∈ layers, L.Leaf)
    (decided : ∀ {info key e}, .build info key e ∈ layers →
      e.DecidedBy settings outside info.requires) (id id' : LayerId) :
    match graph? id layers, graph? id' layers' with
    | .ok G, .ok G' =>
      (∀ key, key ∈ G.outputs ↔ key ∈ G'.outputs) ∧
      (∀ key, key ∈ G.requires ↔ key ∈ G'.requires) ∧
      ∀ env w₁ w₂ v,
        (∃ w', G.built.Ends settings outside env w₁ (.success v) w') ↔
          ∃ w', G'.built.Ends settings outside env w₂ (.success v) w'
    | .error e, .error e' => e.kind = e'.kind
    | _, _ => False := by
  have mem' : ∀ L ∈ layers', L ∈ made := fun L hL => mem L (perm.mem_iff.2 hL)
  have once := h.nodup_provided mem
  have hnodes := perm.map node
  have hclash := clash_perm hnodes once
  have hcircular := circular_perm hnodes
  have verdict := verdict_buildOrder once
  have verdict' := verdict_buildOrder (h.nodup_provided mem')
  unfold graph?
  generalize buildOrder (layers.map node) = r at verdict
  generalize buildOrder (layers'.map node) = r' at verdict'
  rcases verdict with clash | ⟨apart, circular⟩ | ⟨apart, sorted⟩ <;>
    rcases verdict' with clash' | ⟨apart', circular'⟩ | ⟨apart', sorted'⟩
  -- The two verdicts agree, since both speak of the set.
  case clash.clash | circular.circular => rfl
  case clash.circular | clash.sorted => exact absurd (hclash.1 clash) apart'
  case circular.clash | sorted.clash => exact absurd (hclash.2 clash') apart
  case circular.sorted => exact sorted'.not_circular (hcircular.1 circular)
  case sorted.circular => exact sorted.not_circular (hcircular.2 circular')
  case sorted.sorted =>
    refine ⟨fun key => ?_, fun key => ?_, fun env w₁ w₂ v => ?_⟩
    · show key ∈ allOutputs layers ↔ key ∈ allOutputs layers'
      simp only [mem_allOutputs, perm.mem_iff]
    · show key ∈ outerRequires layers ↔ key ∈ outerRequires layers'
      simp only [mem_outerRequires, Graph.providerOf?, List.findIdx?_eq_none_iff, perm.mem_iff,
        hnodes.mem_iff]
    · rw [graph_ends_iff_solves h mem leaf decided apart sorted,
        graph_ends_iff_solves h mem' (fun L hL => leaf L (perm.mem_iff.2 hL))
          (fun hL => decided (perm.mem_iff.2 hL)) apart' sorted']
      exact exists_congr fun c => and_congr_right fun _ =>
        ⟨Solves.perm perm, Solves.perm perm.symm⟩

/-- A service and one that reads it, listed in either order: what the one graph comes to
    the other comes to as well. -/
theorem sample_graph_ignores_listing :
    Made (Sample.history (σ := Unit) (.succeed (.int 1))) ∧
    (∀ {info key e}, .build info key e ∈
        [Sample.needy 1 Sample.leftKey, Sample.base (σ := Unit) (.succeed (.int 1))] →
      e.DecidedBy ⟨.sync, false⟩ .nobody info.requires) ∧
    ∃ G G' : Layer Unit,
      graph? 8 [Sample.needy 1 Sample.leftKey, Sample.base (.succeed (.int 1))] = .ok G ∧
      graph? 9 [Sample.base (.succeed (.int 1)), Sample.needy 1 Sample.leftKey] = .ok G' ∧
      ∃ w', G'.built.Ends ⟨.sync, false⟩ .nobody Context.empty (⟨(), 0, #[]⟩ : World Unit)
        (.success ((Context.single Sample.baseKey (.int 1)).insert Sample.leftKey
          (.int 1)).toValue) w' := by
  have made := Sample.made_history (σ := Unit) (.succeed (.int 1))
  have mem : ∀ L ∈ [Sample.needy 1 Sample.leftKey, Sample.base (.succeed (.int 1))],
      L ∈ Sample.history (σ := Unit) (.succeed (.int 1)) :=
    fun _ => Sample.mem_history_of_two
  have leaf : ∀ L ∈ [Sample.needy 1 Sample.leftKey,
      Sample.base (σ := Unit) (.succeed (.int 1))], L.Leaf := by
    intro L hL
    simp only [List.mem_cons, List.not_mem_nil, or_false] at hL
    rcases hL with rfl | rfl <;> exact .build
  have decided : ∀ {info key e}, .build info key e ∈
        [Sample.needy 1 Sample.leftKey, Sample.base (σ := Unit) (.succeed (.int 1))] →
      e.DecidedBy ⟨.sync, false⟩ .nobody info.requires := by
    intro info key e hL
    simp only [List.mem_cons, List.not_mem_nil, or_false] at hL
    rcases hL with hL | hL
    · cases hL
      exact Effect.decidedBy_service (List.mem_singleton.2 rfl)
    · cases hL
      exact Effect.decidedBy_succeed _ _
  have hrun : runSync 100 false (Layer.sequence ⟨8, [Sample.leftKey, Sample.baseKey], []⟩
        [Sample.base (.succeed (.int 1)), Sample.needy 1 Sample.leftKey]).built Context.empty
      (⟨(), 0, #[]⟩ : World Unit) =
      some (.success ((Context.single Sample.baseKey (.int 1)).insert Sample.leftKey
          (.int 1)).toValue,
        ⟨(), 0, #[.buildingLayer "Base", .buildingLayer "Left"]⟩) := by
    rfl
  -- Swapping the two layers is the one permutation here; the run is that of the other listing.
  have same := @graph_ignores_listing Unit ⟨.sync, false⟩ .nobody _ _ _ made
    (.swap (Sample.base (.succeed (.int 1))) (Sample.needy 1 Sample.leftKey) []) mem leaf
    decided 8 9
  exact ⟨made, decided, _, _, rfl, rfl, (same.2.2 _ _ _ _).1
    ⟨_, ends_of_runSync hrun fun h => by cases h⟩⟩

end Layer

end EffectKernel
