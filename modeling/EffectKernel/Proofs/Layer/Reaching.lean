import EffectKernel.Proofs.Layer.Making

/-!
# The Order of Reaching

In which order a build starts the effects of a layer is settled by the recipe alone, before anything
has been built. The supplier comes before the consumer, the left side before the right side, and
layers in a row come in this order; and a layer that is met again has been built already, so nothing
is started for it. So a recipe is a plan: a list of what there is to do, one thing after the other.

An effect that is to be started stands at a place. Services of other layers are around it there, and
its failure is handed to functions, if it has one. Both are read off the way that leads to the place
from the root. A layer may be met at several places, and others may be around it at each of them; it
is the first one that counts.

What comes out of a layer can be told from what its effects have succeeded with, wherever they were
started.

## Main definitions

* `Site`: A place at which an effect is started.
* `Chore`: Something that a build has to do.
* `Plan`: What there is to do, depending on what has been built already.
* `Layer.plan`, `Layer.chores`: The plan of a layer, and what there is to do from the start.
* `Layer.services`: What comes out of a layer.
* `Layer.Encloses`: Functions that a failure is handed to on its way out.

## Theorems

* `Layer.encloses_of_mem_plan`: The functions at a site are those on the way to it.
* `Layer.sites_exactly`: Every effect that takes part has one site.
-/

namespace EffectKernel

variable {σ : Type}

/-- A place at which the effect of a layer is started. -/
structure Site (σ : Type) where
  /-- The layer. -/
  id : LayerId
  /-- The service that is made. -/
  key : ServiceKey
  /-- The effect that makes it. -/
  effect : Effect σ
  /-- The layers whose services are around it, the innermost ones first. Where there are several of
      one kind, they are in a row. -/
  around : List (List (Layer σ))
  /-- The functions that its failure is handed to, the innermost one first. -/
  maps : List (Value → Act σ Value)

/-- Something that a build has to do. -/
inductive Chore (σ : Type) where
  /-- An effect is to be started. -/
  | start (site : Site σ)
  /-- It is to be reported that a layer is not built again. -/
  | reuse (names : List String)

namespace Chore

/-- The same with the services of some layers around it. -/
def inside (Ls : List (Layer σ)) : Chore σ → Chore σ
  | .start site => .start { site with around := site.around ++ [Ls] }
  | .reuse names => .reuse names

/-- The same with a function that failures are handed to in the end. -/
def mapped (f : Value → Act σ Value) : Chore σ → Chore σ
  | .start site => .start { site with maps := site.maps ++ [f] }
  | .reuse names => .reuse names

/-- The place of the effect, if one is to be started. -/
def site? : Chore σ → Option (Site σ)
  | .start site => some site
  | .reuse _ => none

end Chore

/-- What there is to do, and what has been built when it is done, by what has been built before. -/
abbrev Plan (σ : Type) : Type :=
  List LayerId → List (Chore σ) × List LayerId

namespace Plan

/-- There is nothing to do. -/
def nothing : Plan σ :=
  fun built => ([], built)

/-- An effect is to be started. -/
def start (site : Site σ) : Plan σ :=
  fun built => ([.start site], built)

/-- One plan after another one. -/
def andThen (p q : Plan σ) : Plan σ :=
  fun built => ((p built).1 ++ (q (p built).2).1, (q (p built).2).2)

/-- A plan with the services of some layers around it. -/
def inside (Ls : List (Layer σ)) (p : Plan σ) : Plan σ :=
  fun built => ((p built).1.map (.inside Ls), (p built).2)

/-- A plan whose failures are handed to a function. -/
def mapped (f : Value → Act σ Value) (p : Plan σ) : Plan σ :=
  fun built => ((p built).1.map (.mapped f), (p built).2)

/-- A plan for a layer, if it has not been built already. -/
def once (info : LayerInfo) (p : Plan σ) : Plan σ :=
  fun built =>
    if info.id ∈ built then ([.reuse (info.outputs.map (·.name))], built)
    else ((p built).1, info.id :: (p built).2)

end Plan

namespace Layer

mutual
/-- The plan of a layer that has not been built. -/
def anew : Layer σ → Plan σ
  | .build info key effect => .start ⟨info.id, key, effect, [], []⟩
  | .context _ _ => .nothing
  | .provide _ consumer supplier _ =>
    .andThen (.once supplier.info supplier.anew)
      (.inside [supplier] (.once consumer.info consumer.anew))
  | .merge _ left right => .andThen (.once left.info left.anew) (.once right.info right.anew)
  | .sequence _ layers => anewEach layers []
  | .mapError _ inner f => .mapped f (.once inner.info inner.anew)

/-- The plan of layers in a row, behind others. -/
def anewEach : List (Layer σ) → List (Layer σ) → Plan σ
  | [], _ => .nothing
  | L :: rest, before =>
    .andThen (.inside before (.once L.info L.anew)) (anewEach rest (before ++ [L]))
end

/-- The plan of a layer. -/
def plan (L : Layer σ) : Plan σ :=
  .once L.info L.anew

/-- What there is to do for a layer where nothing has been built. -/
def chores (L : Layer σ) : List (Chore σ) :=
  (L.plan []).1

/-- The places at which effects are started, in order. -/
def sites (chores : List (Chore σ)) : List (Site σ) :=
  chores.filterMap Chore.site?

mutual
/-- What comes out of a layer, by what its effects have succeeded with. -/
def services (came : LayerId → Value) : Layer σ → Context
  | .build info key _ => Context.single key (came info.id)
  | .context _ c => c
  | .provide _ consumer supplier keepSupplier =>
    if keepSupplier then (supplier.services came).merge (consumer.services came)
    else consumer.services came
  | .merge _ left right => (left.services came).merge (right.services came)
  | .sequence _ layers => together came layers Context.empty
  | .mapError _ inner _ => inner.services came

/-- What comes out of layers in a row, and what was there before. -/
def together (came : LayerId → Value) : List (Layer σ) → Context → Context
  | [], sofar => sofar
  | L :: rest, sofar => together came rest (sofar.merge (L.services came))
end

/-- A layer takes part in another one, and a failure is handed to these functions on its way out of
    there, the innermost one first. -/
inductive Encloses : Layer σ → List (Value → Act σ Value) → Layer σ → Prop
  /-- The layer itself. -/
  | here {L} : Encloses L [] L
  /-- A layer whose failure is transformed. -/
  | mapError {info inner f maps M} (within : Encloses inner maps M) :
      Encloses (.mapError info inner f) (maps ++ [f]) M
  /-- A layer that is put together in another way. -/
  | part {L N maps M} (mem : N ∈ L.children) (other : ∀ info inner f, L ≠ .mapError info inner f)
      (within : Encloses N maps M) : Encloses L maps M

/-- A place at which the effect of a layer is started that takes part in another one. -/
def HasSite (L : Layer σ) (site : Site σ) : Prop :=
  ∃ info, info.id = site.id ∧ L.Encloses site.maps (.build info site.key site.effect)

/-- With a layer, what it is put together from has been built. -/
def Closed (R : Layer σ) (built : List LayerId) : Prop :=
  ∀ {M N}, Within M R → M.id ∈ built → N ∈ M.children → N.id ∈ built

/-- What a plan for some layers comes to. -/
structure Reached (R : Layer σ) (Ls : List (Layer σ)) (built : List LayerId)
    (chores : List (Chore σ)) (built' : List LayerId) : Prop where
  /-- With a layer, what it is put together from has been built. -/
  closed : Closed R built'
  /-- What had been built still has. -/
  keeps : ∀ id ∈ built, id ∈ built'
  /-- The layers have been built. -/
  holds : ∀ L ∈ Ls, L.id ∈ built'
  /-- Whatever else has been built takes part in one of them. -/
  adds : ∀ id ∈ built', id ∉ built → ∃ L ∈ Ls, ∃ M, Within M L ∧ M.id = id
  /-- No effect is started twice. -/
  once : ((sites chores).map Site.id).Nodup
  /-- Effects are started for what is new. -/
  exactly : ∀ id, id ∈ (sites chores).map Site.id ↔
    id ∉ built ∧ id ∈ built' ∧ ∃ info key e, Within (.build info key e) R ∧ info.id = id

/-- A plan is one for these layers. -/
def Reaches (R : Layer σ) (Ls : List (Layer σ)) (p : Plan σ) : Prop :=
  ∀ built, Closed R built → Reached R Ls built (p built).1 (p built).2

/-! ### The ways to sites -/

section Sites

variable {p q : Plan σ} {built : List LayerId} {site : Site σ} {info : LayerInfo}

/-- A site of two plans is one of the first or one of the second. -/
theorem start_mem_andThen :
    .start site ∈ (p.andThen q built).1 ↔
      .start site ∈ (p built).1 ∨ .start site ∈ (q (p built).2).1 :=
  List.mem_append

/-- A site among services was one without them. -/
theorem start_mem_inside {Ls : List (Layer σ)} (mem : .start site ∈ (p.inside Ls built).1) :
    ∃ around, .start { site with around := around } ∈ (p built).1 := by
  rcases List.mem_map.1 mem with ⟨chore, there, same⟩
  cases chore with
  | start site' =>
      cases same
      exact ⟨site'.around, there⟩
  | reuse names => cases same

/-- A site with one function more was one without it, which was further inside. -/
theorem start_mem_mapped {f : Value → Act σ Value} (mem : .start site ∈ (p.mapped f built).1) :
    ∃ maps, site.maps = maps ++ [f] ∧ .start { site with maps := maps } ∈ (p built).1 := by
  rcases List.mem_map.1 mem with ⟨chore, there, same⟩
  cases chore with
  | start site' =>
      cases same
      exact ⟨site'.maps, rfl, there⟩
  | reuse names => cases same

/-- A layer that is remembered has no other sites than when it is built. -/
theorem start_mem_once (mem : .start site ∈ (p.once info built).1) :
    .start site ∈ (p built).1 := by
  unfold Plan.once at mem
  by_cases again : info.id ∈ built
  · rw [if_pos again] at mem
    cases List.mem_singleton.1 mem
  · rwa [if_neg again] at mem

/-- A site in what a layer is put together from is one in the layer. -/
theorem HasSite.part {L N : Layer σ} (mem : N ∈ L.children)
    (other : ∀ info inner f, L ≠ .mapError info inner f) (has : N.HasSite site) :
    L.HasSite site := by
  rcases has with ⟨info, same, within⟩
  exact ⟨info, same, .part mem other within⟩

mutual
/-- The sites of a plan are sites of the layer. The recursion goes down to the parts of the layer.
    -/
theorem hasSite_of_mem_anew : ∀ (L : Layer σ) {built : List LayerId} {site : Site σ},
    .start site ∈ (L.anew built).1 → L.HasSite site
  | .build info key e, _, _, mem => by
      cases List.mem_singleton.1 mem
      exact ⟨info, rfl, .here⟩
  | .context _ _, _, _, mem => nomatch mem
  | .provide info consumer supplier keep, _, _, mem => by
      rcases start_mem_andThen.1 mem with mem | mem
      · exact (hasSite_of_mem_anew supplier (start_mem_once mem)).part
          (mem_children_provide.2 (.inl rfl)) nofun
      · obtain ⟨around, mem⟩ := start_mem_inside mem
        exact (hasSite_of_mem_anew consumer (start_mem_once mem)).part
          (mem_children_provide.2 (.inr rfl)) nofun
  | .merge info left right, _, _, mem => by
      rcases start_mem_andThen.1 mem with mem | mem
      · exact (hasSite_of_mem_anew left (start_mem_once mem)).part
          (mem_children_merge.2 (.inl rfl)) nofun
      · exact (hasSite_of_mem_anew right (start_mem_once mem)).part
          (mem_children_merge.2 (.inr rfl)) nofun
  | .sequence info layers, _, _, mem => by
      obtain ⟨N, there, has⟩ := hasSite_of_mem_anewEach layers [] mem
      exact has.part there nofun
  | .mapError info inner f, _, site, mem => by
      -- The function of the layer is the last one of the site's.
      obtain ⟨maps, same, mem⟩ := start_mem_mapped mem
      obtain ⟨info', id, within⟩ := hasSite_of_mem_anew inner (start_mem_once mem)
      refine ⟨info', id, ?_⟩
      rw [same]
      exact .mapError within

/-- The same for layers one after the other. -/
theorem hasSite_of_mem_anewEach : ∀ (layers before : List (Layer σ)) {built : List LayerId}
    {site : Site σ}, .start site ∈ (anewEach layers before built).1 →
      ∃ N ∈ layers, N.HasSite site
  | [], _, _, _, mem => nomatch mem
  | L :: rest, before, _, _, mem => by
      rcases start_mem_andThen.1 mem with mem | mem
      · obtain ⟨around, mem⟩ := start_mem_inside mem
        have has := hasSite_of_mem_anew L (start_mem_once mem)
        exact ⟨L, List.mem_cons_self, has⟩
      · obtain ⟨N, there, has⟩ := hasSite_of_mem_anewEach rest (before ++ [L]) mem
        exact ⟨N, List.mem_cons_of_mem _ there, has⟩
end

/-- The functions that the failure of a site is handed to are those on the way from there. -/
theorem encloses_of_mem_plan {L : Layer σ} (mem : .start site ∈ (L.plan built).1) :
    L.HasSite site :=
  hasSite_of_mem_anew L (start_mem_once mem)

end Sites

/-! ### What plans come to -/

section Plans

variable {R : Layer σ} {Ls Ks : List (Layer σ)} {p q : Plan σ}

/-- What is around effects does not matter to which of them are started. -/
theorem sites_map (f : Chore σ → Chore σ) (chores : List (Chore σ))
    (same : ∀ chore : Chore σ, (f chore).site?.map Site.id = chore.site?.map Site.id) :
    (sites (chores.map f)).map Site.id = (sites chores).map Site.id := by
  unfold sites
  rw [List.filterMap_map, List.map_filterMap, List.map_filterMap]
  exact congrArg (List.filterMap · chores) (funext same)

theorem reaches_nothing : Reaches R [] (.nothing : Plan σ) := by
  intro built closed
  refine ⟨closed, fun id mem => mem, nofun, fun id mem new => absurd mem new, List.nodup_nil, ?_⟩
  intro id
  exact ⟨nofun, fun ⟨new, mem, _⟩ => absurd mem new⟩

/-- Two plans one after the other reach what each of them does. -/
theorem Reaches.andThen (first : Reaches R Ls p) (second : Reaches R Ks q) :
    Reaches R (Ls ++ Ks) (p.andThen q) := by
  intro built closed
  have one := first built closed
  have two := second _ one.closed
  have both : (sites ((p.andThen q built).1)).map Site.id =
      (sites (p built).1).map Site.id ++ (sites (q (p built).2).1).map Site.id := by
    rw [sites, Plan.andThen, List.filterMap_append, List.map_append]
    rfl
  refine ⟨two.closed, fun id mem => two.keeps id (one.keeps id mem), ?_, ?_, ?_, ?_⟩
  · intro L mem
    rcases List.mem_append.1 mem with mem | mem
    · exact two.keeps _ (one.holds L mem)
    · exact two.holds L mem
  · intro id mem new
    by_cases early : id ∈ (p built).2
    · obtain ⟨L, there, part⟩ := one.adds id early new
      exact ⟨L, List.mem_append_left _ there, part⟩
    · obtain ⟨L, there, part⟩ := two.adds id mem early
      exact ⟨L, List.mem_append_right _ there, part⟩
  · rw [both, List.nodup_append]
    refine ⟨one.once, two.once, ?_⟩
    -- What the second plan starts had not been built when the first one was done.
    rintro id mem _ mem' rfl
    exact ((two.exactly id).1 mem').1 ((one.exactly id).1 mem).2.1
  · intro id
    rw [both, List.mem_append, one.exactly, two.exactly]
    constructor
    · rintro (⟨new, mem, leaf⟩ | ⟨new, mem, leaf⟩)
      · exact ⟨new, two.keeps id mem, leaf⟩
      · exact ⟨fun old => new (one.keeps id old), mem, leaf⟩
    · rintro ⟨new, mem, leaf⟩
      by_cases early : id ∈ (p built).2
      · exact .inl ⟨new, early, leaf⟩
      · exact .inr ⟨early, mem, leaf⟩

theorem Reaches.inside (reaches : Reaches R Ls p) (around : List (Layer σ)) :
    Reaches R Ls (p.inside around) := by
  intro built closed
  have same := sites_map (.inside around) (p built).1 fun chore => by
    cases chore <;> rfl
  have inner := reaches built closed
  exact { inner with
    once := by rw [Plan.inside, same]; exact inner.once
    exactly := by rw [Plan.inside, same]; exact inner.exactly }

/-- Functions do not change what is reached. -/
theorem Reaches.mapped (reaches : Reaches R Ls p) (f : Value → Act σ Value) :
    Reaches R Ls (p.mapped f) := by
  intro built closed
  have same := sites_map (.mapped f) (p built).1 fun chore => by
    cases chore <;> rfl
  have inner := reaches built closed
  exact { inner with
    once := by rw [Plan.mapped, same]; exact inner.once
    exactly := by rw [Plan.mapped, same]; exact inner.exactly }

/-- A layer that has been built is not built again. -/
theorem reached_again {L : Layer σ} {built : List LayerId} (closed : Closed R built)
    (again : L.id ∈ built) (names : List String) : Reached R [L] built [.reuse names] built where
  closed := closed
  keeps _ mem := mem
  holds M mem := by
    rw [List.mem_singleton.1 mem]
    exact again
  adds _ mem new := absurd mem new
  once := List.nodup_nil
  exactly _ := ⟨nofun, fun ⟨new, mem, _⟩ => absurd mem new⟩

/-- A layer that is no effect is built when all is built that it is put together from. -/
theorem reaches_whole (numbered : R.Numbered) {L : Layer σ} (within : Within L R)
    (noLeaf : ∀ info key e, L ≠ .build info key e) (parts : Reaches R L.children L.anew) :
    Reaches R [L] L.plan := by
  intro built closed
  by_cases again : L.info.id ∈ built
  · rw [plan, Plan.once, if_pos again]
    exact reached_again closed again _
  · rw [plan, Plan.once, if_neg again]
    -- Not built yet: its parts are reached first, and then the layer itself is among what is built.
    have inner := parts built closed
    refine ⟨?_, fun id mem => List.mem_cons_of_mem _ (inner.keeps id mem), ?_, ?_, inner.once, ?_⟩
    · intro M N hM mem part
      refine List.mem_cons_of_mem _ ?_
      rcases List.mem_cons.1 mem with same | mem
      · -- Only the layer itself has its number.
        have self : M = L := numbered M L hM within same
        rw [self] at part
        exact inner.holds N part
      · exact inner.closed hM mem part
    · intro M mem
      rw [List.mem_singleton.1 mem]
      exact List.mem_cons_self
    · intro id mem new
      rcases List.mem_cons.1 mem with rfl | mem
      · exact ⟨L, List.mem_cons_self, L, .self, rfl⟩
      · obtain ⟨N, part, M, hM, same⟩ := inner.adds id mem new
        exact ⟨L, List.mem_cons_self, M, .child part hM, same⟩
    · intro id
      rw [inner.exactly]
      refine and_congr_right fun new => ?_
      constructor
      · rintro ⟨mem, leaf⟩
        exact ⟨List.mem_cons_of_mem _ mem, leaf⟩
      · rintro ⟨mem, info, key, e, leaf, rfl⟩
        rcases List.mem_cons.1 mem with same | mem
        · exact absurd (numbered L (.build info key e) within leaf same.symm) (noLeaf info key e)
        · exact ⟨mem, info, key, e, leaf, rfl⟩

/-- A layer that is an effect is built when that has been started. -/
theorem reaches_leaf (numbered : R.Numbered) {info : LayerInfo} {key : ServiceKey} {e : Effect σ}
    (within : Within (.build info key e) R) :
    Reaches R [.build info key e] (Layer.build info key e).plan := by
  intro built closed
  by_cases again : info.id ∈ built
  · rw [plan, Plan.once, Layer.info, if_pos again]
    exact reached_again (L := .build info key e) closed again _
  · rw [plan, Plan.once, Layer.info, if_neg again]
    refine ⟨?_, fun id mem => List.mem_cons_of_mem _ mem, ?_, ?_, List.pairwise_singleton _ _, ?_⟩
    · intro M N hM mem part
      refine List.mem_cons_of_mem _ ?_
      -- Only the layer itself has its number, and a leaf has no parts.
      rcases List.mem_cons.1 mem with same | mem
      · have self : M = .build info key e := numbered M _ hM within same
        rw [self] at part
        cases part
      · exact closed hM mem part
    · intro M mem
      rw [List.mem_singleton.1 mem]
      exact List.mem_cons_self
    · intro id mem new
      rcases List.mem_cons.1 mem with rfl | mem
      · exact ⟨_, List.mem_cons_self, _, .self, rfl⟩
      · exact absurd mem new
    · intro id
      constructor
      · intro mem
        obtain rfl := List.mem_singleton.1 mem
        exact ⟨again, List.mem_cons_self, info, key, e, within, rfl⟩
      · rintro ⟨new, mem, -⟩
        rcases List.mem_cons.1 mem with rfl | mem
        · exact List.mem_cons_self
        · exact absurd mem new

mutual
/-- The plan of a layer is one for it. -/
theorem reaches_plan (numbered : R.Numbered) :
    ∀ L : Layer σ, Within L R → Reaches R [L] L.plan
  | .build _ _ _, within => reaches_leaf numbered within
  | .context _ _, within => reaches_whole numbered within nofun reaches_nothing
  | .provide info consumer supplier keep, within => by
      -- The supplier is reached first; the consumer is planned with what has been built by then.
      have part {N : Layer σ} (mem : N ∈ (provide info consumer supplier keep).children) :=
        Within.ofPart mem within
      have first := reaches_plan numbered supplier (part (mem_children_provide.2 (.inl rfl)))
      have second := reaches_plan numbered consumer (part (mem_children_provide.2 (.inr rfl)))
      exact reaches_whole numbered within nofun (first.andThen (second.inside [supplier]))
  | .merge info left right, within => by
      have part {N : Layer σ} (mem : N ∈ (merge info left right).children) :=
        Within.ofPart mem within
      have first := reaches_plan numbered left (part (mem_children_merge.2 (.inl rfl)))
      have second := reaches_plan numbered right (part (mem_children_merge.2 (.inr rfl)))
      exact reaches_whole numbered within nofun (first.andThen second)
  | .sequence info layers, within =>
      reaches_whole numbered within nofun (reaches_anewEach numbered layers
        (fun M mem => Within.ofPart (show M ∈ (sequence info layers).children from mem) within) [])
  | .mapError info inner f, within => by
      have inside : Within inner R :=
        Within.ofPart (show inner ∈ (mapError info inner f).children from List.mem_cons_self) within
      exact reaches_whole numbered within nofun ((reaches_plan numbered inner inside).mapped f)

/-- A plan for layers one after the other reaches all of them. -/
theorem reaches_anewEach (numbered : R.Numbered) :
    ∀ layers : List (Layer σ), (∀ L ∈ layers, Within L R) → ∀ before : List (Layer σ),
      Reaches R layers (anewEach layers before)
  | [], _, _ => reaches_nothing
  | L :: rest, within, before => by
      have first := reaches_plan numbered L (within L List.mem_cons_self)
      have others := reaches_anewEach numbered rest
        (fun M mem => within M (List.mem_cons_of_mem _ mem)) (before ++ [L])
      exact (first.inside before).andThen others
end

/-- Every effect that takes part in a layer is started at one site, and at no other site anything is
    started; and the functions there are those on the way to it. -/
theorem sites_exactly (numbered : R.Numbered) :
    ((sites R.chores).map Site.id).Nodup ∧
    (∀ id, id ∈ (sites R.chores).map Site.id ↔
      ∃ info key e, Within (.build info key e) R ∧ info.id = id) ∧
    ∀ site ∈ sites R.chores, R.HasSite site := by
  have reached := reaches_plan numbered R .self [] fun _ mem => nomatch mem
  refine ⟨reached.once, fun id => ?_, fun site mem => ?_⟩
  · rw [chores, reached.exactly]
    constructor
    · rintro ⟨-, -, leaf⟩
      exact leaf
    · rintro ⟨info, key, e, within, rfl⟩
      -- The whole has been built, and with it all that takes part.
      have all : ∀ {M L : Layer σ}, Within M L → Within L R → L.id ∈ (R.plan []).2 →
          M.id ∈ (R.plan []).2 := by
        intro M L hM
        induction hM with
        | self => exact fun _ mem => mem
        | child part _ ih =>
            exact fun hL mem => ih (Within.ofPart part hL) (reached.closed hL mem part)
      exact ⟨List.not_mem_nil, all within .self (reached.holds R List.mem_cons_self), info, key, e,
        within, rfl⟩
  · obtain ⟨chore, there, same⟩ := List.mem_filterMap.1 mem
    cases chore with
    | start site' =>
        cases same
        exact encloses_of_mem_plan there
    | reuse names => cases same

end Plans

end Layer

end EffectKernel
