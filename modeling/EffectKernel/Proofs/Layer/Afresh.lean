import EffectKernel.Proofs.Layer.Resolution

/-!
# Building Anew

The plain construction of a layer has no memo: every layer that is met is built, once
more if need be, among the services that its place gives it. It is the build under the
policy to remember nothing, and it says where each layer stands. A consumer stands among
what its supplier comes to, a layer in a row among what those before it come to, and all
others stand where the recipe stands that they are part of.

Effects are pure here if the services around them decide how they end. If all effects of
a layer are pure, then what the layer comes to among some services is the same in every
world, and the plain construction leaves the state of the program alone as long as it
does not fail. How it fails may depend on that state, since what a failure is turned into
is up to functions that may do what they like.

## Main definitions

* `Layer.afresh`: The effect that builds a layer without a memo.
* `Layer.Gives`: What a layer comes to among some services, built anew.
* `Layer.Stands`, `Layer.Occurs`: Where the layers stand that take part in a layer.
* `Effect.IsPure`, `Layer.IsPure`: The services decide how an effect ends, and all
  effects of a layer.
* `Building.Steady`: The services decide what a building comes to.

## Theorems

* `Layer.ends_afresh`: How a layer ends that is built anew.
* `Layer.steady_anew`: Layers of pure effects are steady.
* `Layer.gives_iff_builds`: What a layer gives is what it comes to as a building.
-/

namespace EffectKernel

variable {σ : Type}

/-- The services around an effect decide how it ends, if it ends, and it leaves the state
    of the program as it is. -/
def Effect.IsPure (settings : Settings) (outside : Outside σ) (e : Effect σ) : Prop :=
  ∃ f : Context → Option Outcome, ∀ env w,
    (∀ x, f env = some x → ∃ w', e.Ends settings outside env w x w') ∧
    ∀ x w', e.Ends settings outside env w x w' → f env = some x ∧ w'.store = w.store

namespace Effect

variable {settings : Settings} {outside : Outside σ}

/-- To succeed with a value does nothing else. -/
theorem isPure_succeed (v : Value) : (succeed v : Effect σ).IsPure settings outside := by
  refine ⟨fun _ => some (.success v), fun env w => ⟨?_, ?_⟩⟩
  · rintro x ⟨⟩
    exact ⟨w, ends_iff_evaluates.2 (evaluates_exit_pure.2 ⟨rfl, rfl⟩)⟩
  · intro x w' hends
    rcases evaluates_exit_pure.1 (ends_iff_evaluates.1 hends) with ⟨rfl, rfl⟩
    exact ⟨rfl, rfl⟩

/-- To read a service is pure. -/
theorem isPure_service (key : ServiceKey) :
    (Effect.service key : Effect σ).IsPure settings outside := by
  refine ⟨fun env => some (env.answer key), fun env w => ⟨?_, ?_⟩⟩
  · rintro x ⟨⟩
    exact ⟨w, ends_iff_evaluates.2 (evaluates_service.2 ⟨rfl, rfl⟩)⟩
  · intro x w' hends
    rcases evaluates_service.1 (ends_iff_evaluates.1 hends) with ⟨rfl, rfl⟩
    exact ⟨rfl, rfl⟩

namespace IsPure

variable {e : Effect σ} {env : Context} {w w' w₁ w₁' : World σ} {x y : Outcome}

/-- A pure effect leaves the state of the program alone. -/
theorem keeps_store (pure : e.IsPure settings outside)
    (run : Evaluates settings outside (.effect e) (.of env) w x w') :
    w'.store = w.store := by
  rcases pure with ⟨f, hf⟩
  exact ((hf env w).2 x w' (ends_iff_evaluates.2 run)).2

/-- As a pure effect ends in one world it ends in all others. -/
theorem elsewhere (pure : e.IsPure settings outside)
    (run : Evaluates settings outside (.effect e) (.of env) w x w') (w₁ : World σ) :
    ∃ w₁', Evaluates settings outside (.effect e) (.of env) w₁ x w₁' := by
  rcases pure with ⟨f, hf⟩
  have hx := ((hf env w).2 x w' (ends_iff_evaluates.2 run)).1
  rcases (hf env w₁).1 x hx with ⟨w₁', hends⟩
  exact ⟨w₁', ends_iff_evaluates.1 hends⟩

/-- A pure effect comes to the same in every world. -/
theorem unique (pure : e.IsPure settings outside)
    (run : Evaluates settings outside (.effect e) (.of env) w x w')
    (run₁ : Evaluates settings outside (.effect e) (.of env) w₁ y w₁') : x = y := by
  rcases pure with ⟨f, hf⟩
  have hx := ((hf env w).2 x w' (ends_iff_evaluates.2 run)).1
  have hy := ((hf env w₁).2 y w₁' (ends_iff_evaluates.2 run₁)).1
  exact Option.some.inj (hx.symm.trans hy)

end IsPure

end Effect

namespace Building

/-- A building comes to a context in some world. -/
def Builds (b : Building σ) (env c : Context) : Prop :=
  ∃ memo w t memo' w', b memo env w t (.ready c memo') w'

/-- The services around a building decide what it comes to, and then it leaves the memo
    and the state of the program as they are. -/
def Steady (b : Building σ) : Prop :=
  ∀ {env c}, b.Builds env c → ∀ memo w,
    (∃ t w', b memo env w t (.ready c memo) w' ∧ w'.store = w.store) ∧
    ∀ {t r w'}, b memo env w t r w' → r = .ready c memo ∧ w'.store = w.store

/-- To remember nothing: every building is done. -/
def anew (_ : LayerInfo) (b : Building σ) : Building σ :=
  b

/-- A context is steady. -/
theorem steady_done (c : Context) : (Done c : Building σ).Steady := by
  rintro env c' ⟨memo₀, w₀, t₀, memo₀', w₀', h⟩ memo w
  cases h
  refine ⟨⟨[], w, .ready, rfl⟩, fun run => ?_⟩
  cases run
  exact ⟨rfl, rfl⟩

/-- Steady buildings one behind the other are steady. -/
theorem steady_then {b : Building σ} {k : Context → Building σ} (hb : b.Steady)
    (hk : ∀ c, (k c).Steady) : (Then b k).Steady := by
  rintro env c ⟨memo₀, w₀, t₀, memo₀', w₀', h⟩ memo w
  cases h with
  | @ready _ _ _ _ c₁ _ _ _ _ _ one two =>
      -- What the first part comes to is decided, and so is where the second part begins.
      have first := hb ⟨_, _, _, _, _, one⟩
      have second := hk c₁ ⟨_, _, _, _, _, two⟩
      constructor
      · rcases (first memo w).1 with ⟨t₁, w₁, run₁, hstore₁⟩
        rcases (second memo w₁).1 with ⟨t₂, w₂, run₂, hstore₂⟩
        exact ⟨_, w₂, .ready run₁ run₂, hstore₂.trans hstore₁⟩
      · intro t r w' run
        cases run with
        | ready run₁ run₂ =>
            rcases (first memo w).2 run₁ with ⟨heq, hstore₁⟩
            cases heq
            rcases (second memo _).2 run₂ with ⟨rfl, hstore₂⟩
            exact ⟨rfl, hstore₂.trans hstore₁⟩
        | stopped run₁ =>
            rcases (first memo w).2 run₁ with ⟨heq, -⟩
            cases heq

theorem steady_inside {b : Building σ} (services : Context) (h : b.Steady) :
    (b.Inside services).Steady := by
  rintro env c ⟨memo₀, w₀, t₀, memo₀', w₀', run⟩ memo w
  exact h ⟨_, _, _, _, _, run⟩ memo w

/-- To convert failures does not matter where there are none. -/
theorem steady_converting {b : Building σ} (f : Value → Act σ Value) (h : b.Steady) :
    (Converting b f).Steady := by
  rintro env c ⟨memo₀, w₀, t₀, memo₀', w₀', run⟩ memo w
  cases run with
  | ready one =>
      have inner := h ⟨_, _, _, _, _, one⟩ memo w
      constructor
      · rcases inner.1 with ⟨t, w', run, hstore⟩
        exact ⟨t, w', .ready run, hstore⟩
      · intro t r w' run
        cases run with
        | ready one => exact inner.2 one
        | fail one => cases (inner.2 one).1
        | die one => cases (inner.2 one).1

/-- A pure effect is steady. -/
theorem steady_runs {settings : Settings} {outside : Outside σ} {id : LayerId}
    {key : ServiceKey} {e : Effect σ} (pure : e.IsPure settings outside) :
    (Runs settings outside id key e).Steady := by
  rintro env c ⟨memo₀, w₀, t₀, memo₀', w₀', run⟩ memo w
  cases run with
  | ready run₀ =>
      constructor
      · rcases pure.elsewhere run₀ (w.report (.buildingLayer key.name)) with ⟨w', run⟩
        have hstore := pure.keeps_store run
        exact ⟨_, w', .ready run, hstore⟩
      · intro t r w' run
        cases run with
        | ready run =>
            have hstore := pure.keeps_store run
            cases pure.unique run₀ run
            exact ⟨rfl, hstore⟩
        | @stopped _ _ _ cause _ run =>
            -- The effect has come to a value once, so it does not fail here.
            cases cause <;> cases pure.unique run₀ run

end Building

namespace Layer

/-- All effects that a layer runs are pure. -/
def IsPure (settings : Settings) (outside : Outside σ) (L : Layer σ) : Prop :=
  ∀ {info key e}, Within (.build info key e) L → e.IsPure settings outside

/-- The parts of a pure layer are pure. -/
theorem IsPure.within {settings : Settings} {outside : Outside σ} {L M : Layer σ}
    (h : L.IsPure settings outside) (hM : Within M L) : M.IsPure settings outside :=
  fun he => h (he.trans hM)

/-- The effect that builds a layer without a memo: every layer that takes part is built
    where it stands. -/
def afresh (L : Layer σ) : Effect σ :=
  L.builtBy fun _ _ fresh => fresh ()

section Plain

variable {settings : Settings} {outside : Outside σ} {L : Layer σ} {env : Context}

/-- How a layer ends that is built anew. -/
theorem ends_afresh {w w' : World σ} {x : Outcome} :
    L.afresh.Ends settings outside env w x w' ↔
      ∃ t r, L.building settings outside Building.anew [] env w t r w' ∧ x = r.exit :=
  ends_builtBy (fun _ _ _ h => h) L

/-- Layers of pure effects are steady. -/
theorem steady_anew (pure : L.IsPure settings outside) :
    (L.building settings outside Building.anew).Steady :=
  building_induct settings outside Building.anew (P := fun _ b => b.Steady)
    (fun c => Building.steady_done c) (fun hb hk => Building.steady_then hb hk)
    (fun services hb => Building.steady_inside services hb)
    (fun f hb => Building.steady_converting f hb)
    (fun _ _ _ hM => Building.steady_runs (pure hM))
    (fun _ _ _ hb => hb) L .self

variable (settings outside) in
/-- Built anew among some services, a layer comes to a context. -/
def Gives (L : Layer σ) (env c : Context) : Prop :=
  ∃ w w', L.afresh.Ends settings outside env w (.success c.toValue) w'

/-- What a layer of pure effects gives is what it comes to as a building. -/
theorem gives_iff_builds (pure : L.IsPure settings outside) {c : Context} :
    L.Gives settings outside env c ↔
      (L.building settings outside Building.anew).Builds env c := by
  constructor
  · rintro ⟨w, w', h⟩
    rcases ends_afresh.1 h with ⟨t, r, hb, hx⟩
    cases r with
    | ready c' memo =>
        have hc : c = c' := by
          have heq := congrArg Context.ofValue? (Exit.success.inj hx)
          rw [Context.ofValue?_toValue, Context.ofValue?_toValue] at heq
          exact Option.some.inj heq
        rw [hc]
        exact ⟨_, _, _, _, _, hb⟩
    | stopped cause => cases cause <;> cases hx
  -- A pure layer that is built in one state is built in every state.
  · intro h
    have ⟨_, w, _⟩ := h
    rcases (steady_anew pure h [] w).1 with ⟨t, w', run, -⟩
    exact ⟨w, w', ends_afresh.2 ⟨t, _, run, rfl⟩⟩

/-- A layer of pure effects gives one context at most. -/
theorem Gives.unique (pure : L.IsPure settings outside) {c c' : Context}
    (h : L.Gives settings outside env c) (h' : L.Gives settings outside env c') :
    c = c' := by
  rcases (gives_iff_builds pure).1 h' with ⟨memo, w, t, memo', w', run⟩
  have hsame := ((steady_anew pure ((gives_iff_builds pure).1 h) memo w).2 run).1
  cases hsame
  rfl

end Plain

/-- What layers in a row come to together, each built anew among what those before it
    come to. -/
inductive Gathers (settings : Settings) (outside : Outside σ) (env : Context) :
    List (Layer σ) → Context → Prop
  | nothing : Gathers settings outside env [] Context.empty
  | further {before sofar L next} (first : Gathers settings outside env before sofar)
      (then' : L.Gives settings outside (env.merge sofar) next) :
      Gathers settings outside env (before ++ [L]) (sofar.merge next)

/-- Where the layers stand that a layer is put together from, when the layer stands among
    some services. -/
inductive Stands (settings : Settings) (outside : Outside σ) :
    Layer σ → Context → Layer σ → Context → Prop
  | supplier {info consumer supplier keep env} :
      Stands settings outside (.provide info consumer supplier keep) env supplier env
  | consumer {info consumer supplier keep env above}
      (gives : supplier.Gives settings outside env above) :
      Stands settings outside (.provide info consumer supplier keep) env consumer
        (env.merge above)
  | left {info left right env} :
      Stands settings outside (.merge info left right) env left env
  | right {info left right env first} (gives : left.Gives settings outside env first) :
      Stands settings outside (.merge info left right) env right env
  | item {info before L after env sofar}
      (gathers : Gathers settings outside env before sofar) :
      Stands settings outside (.sequence info (before ++ L :: after)) env L
        (env.merge sofar)
  | inner {info inner f env} :
      Stands settings outside (.mapError info inner f) env inner env

/-- Where layers stand when a layer is built among some services, the layer itself and
    all that take part in it, as far as the plain construction comes. -/
inductive Occurs (settings : Settings) (outside : Outside σ) (L : Layer σ) (env : Context) :
    Layer σ → Context → Prop
  | here : Occurs settings outside L env L env
  | part {M env₁ N env₂} (occurs : Occurs settings outside L env M env₁)
      (stands : Stands settings outside M env₁ N env₂) :
      Occurs settings outside L env N env₂

section Places

variable {settings : Settings} {outside : Outside σ} {L M : Layer σ} {env env' : Context}

/-- What stands in a layer is one of its children. -/
theorem Stands.mem_children (h : Stands settings outside L env M env') :
    M ∈ L.children := by
  cases h with
  | supplier => exact mem_children_provide.2 (Or.inl rfl)
  | consumer gives => exact mem_children_provide.2 (Or.inr rfl)
  | left => exact mem_children_merge.2 (Or.inl rfl)
  | right gives => exact mem_children_merge.2 (Or.inr rfl)
  | item gathers => exact List.mem_append_right _ List.mem_cons_self
  | inner => exact List.mem_cons_self

/-- What occurs in a layer is within it. -/
theorem Occurs.within (h : L.Occurs settings outside env M env') : Within M L := by
  induction h with
  | here => exact .self
  | part _ stands ih => exact (Within.ofChild stands.mem_children).trans ih

end Places

end Layer

end EffectKernel
