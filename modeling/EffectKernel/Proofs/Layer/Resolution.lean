import EffectKernel.Layer.Build
import EffectKernel.Proofs.Ending
import EffectKernel.Proofs.Layer.Making

/-!
# What Builds Do

A build is an effect, and what it does has to be read out of nodes, handlers and values
in which a memo travels. Here it is said without them. A building leads from a memo,
some services and a world to a finish and another world, and on the way things happen:
the effect of a layer is started, a layer is reused, somebody is handed the services of
a layer, a failure is converted. Buildings are put together from a few kinds, and a
layer is a building by its recipe. What happens is part of the account, because the
world alone does not tell it: an effect that a layer runs may do and report the same
things.

What is done about layers met again is a parameter, the policy. The one that goes with a
memo remembers them; another one builds them anew every time. A build does exactly what
the building of its layer does, under either policy.

## Main definitions

* `Memo.context?`: What a memo holds for a layer.
* `Happening`, `Finish`, `Building`: What happens in a build, how it finishes, and what
  leads from where to where.
* `Building.Runs`, `Building.Then`, `Building.Inside`, `Building.Converting`,
  `Building.Remembering`: The kinds of buildings.
* `Layer.fresh`, `Layer.building`: A layer as a building.
* `Layer.resolveBy`: A part of a build under a policy.
* `Building.Follows`: An effect does what a building does.

## Theorems

* `Layer.resolveBy_remember`: The policy of a build is to remember.
* `Layer.follows_resolveBy`: A part of a build does what the layer as a building does.
* `Layer.ends_built`: How the build of a layer ends.
* `Layer.ends_provideLayer`: How an effect ends that gets the services of a layer.
-/

namespace EffectKernel

/-- What a memo holds for a layer. -/
def Memo.context? (memo : Memo) (id : LayerId) : Option Context :=
  (Value.lookup id memo).bind Context.ofValue?

/-- What is found in a memo to which something has been added. -/
theorem Memo.context?_cons (memo : Memo) (id other : LayerId) (c : Context) :
    Memo.context? ((id, c.toValue) :: memo) other =
      if id = other then some c else memo.context? other := by
  simp only [Memo.context?, Value.lookup, beq_iff_eq]
  by_cases h : id = other
  · simp [h]
  · simp [h]

/-- How a build goes on from the outcome of one of its parts. -/
def Memo.continued {σ : Type} (next : Context → Memo → Effect σ) : Value → Effect σ
  | .built registry memo =>
    match Context.ofValue? registry with
    | some c => next c memo
    | none => Effect.die (.typeMismatch "a context")
  | _ => Effect.die (.typeMismatch "a built context")

@[simp] theorem Memo.continued_withContext {σ : Type} (next : Context → Memo → Effect σ)
    (memo : Memo) (c : Context) : continued next (memo.withContext c) = next c memo := by
  simp only [continued, withContext, Context.ofValue?_toValue]

/-- To go on from a build is to go on from the value that it comes to. -/
theorem Memo.fromBuilt_eq {σ : Type} (source : Effect σ) (next : Context → Memo → Effect σ) :
    fromBuilt source next = .flatMap source fun v => pure (continued next v) := by
  unfold fromBuilt
  congr
  funext v
  cases v with
  | built registry memo =>
      simp only [continued]
      cases Context.ofValue? registry <;> rfl
  | _ => rfl

/-- What happens in a build. -/
inductive Happening (σ : Type) where
  /-- The effect of a layer was started among some services, and it ended. -/
  | started (id : LayerId) (key : ServiceKey) (effect : Effect σ) (env : Context)
      (outcome : Outcome)
  /-- Who builds with a layer was handed its services. -/
  | handed (id : LayerId) (services : Context)
  /-- It was reported that a layer was not built again. -/
  | reused (names : List String)
  /-- A failure was handed to a function. -/
  | converted (f : Value → Act σ Value) (error : Value)

/-- How a part of a build finishes. -/
inductive Finish where
  /-- With services, and with the memo that goes on from there. -/
  | ready (services : Context) (memo : Memo)
  /-- Without, and so the whole build ends. -/
  | stopped (cause : Cause Value)

namespace Finish

/-- The outcome in which a part of a build hands on its finish. -/
def outcome : Finish → Outcome
  | .ready c memo => .success (memo.withContext c)
  | .stopped cause => .ofCause cause

/-- The outcome in which a whole build ends. -/
def exit : Finish → Outcome
  | .ready c _ => .success c.toValue
  | .stopped cause => .ofCause cause

end Finish

/-- What leads from a memo, some services and a world, while things happen, to a finish
    and another world. -/
abbrev Building (σ : Type) : Type :=
  Memo → Context → World σ → List (Happening σ) → Finish → World σ → Prop

namespace Building

variable {σ : Type}

/-- A context that is there already. -/
inductive Done (c : Context) : Building σ
  | ready {memo env w} : Done c memo env w [] (.ready c memo) w

/-- An effect that is started for one service. It is reported that it is. -/
inductive Runs (settings : Settings) (outside : Outside σ) (id : LayerId)
    (key : ServiceKey) (e : Effect σ) : Building σ
  | ready {memo env w v w'}
      (run : Evaluates settings outside (.effect e) (.of env)
        (w.report (.buildingLayer key.name)) (.success v) w') :
      Runs settings outside id key e memo env w [.started id key e env (.success v)]
        (.ready (Context.single key v) memo) w'
  | stopped {memo env w cause w'}
      (run : Evaluates settings outside (.effect e) (.of env)
        (w.report (.buildingLayer key.name)) (.ofCause cause) w') :
      Runs settings outside id key e memo env w [.started id key e env (.ofCause cause)]
        (.stopped cause) w'

/-- A building and one that goes on from its services. -/
inductive Then (first : Building σ) (next : Context → Building σ) : Building σ
  | ready {memo env w t₁ c memo₁ w₁ t₂ r w'}
      (one : first memo env w t₁ (.ready c memo₁) w₁)
      (two : next c memo₁ env w₁ t₂ r w') :
      Then first next memo env w (t₁ ++ t₂) r w'
  | stopped {memo env w t cause w'} (one : first memo env w t (.stopped cause) w') :
      Then first next memo env w t (.stopped cause) w'

/-- A building with more services around it. -/
def Inside (b : Building σ) (services : Context) : Building σ :=
  fun memo env => b memo (env.merge services)

/-- A building whose failure is handed to a function. -/
inductive Converting (b : Building σ) (f : Value → Act σ Value) : Building σ
  | ready {memo env w t c memo' w'} (one : b memo env w t (.ready c memo') w') :
      Converting b f memo env w t (.ready c memo') w'
  | fail {memo env w t e w'} (one : b memo env w t (.stopped (.fail e)) w') :
      Converting b f memo env w (t ++ [.converted f e])
        (.stopped (EffectKernel.converted (w'.guarded (f e)).1)) (w'.guarded (f e)).2
  | die {memo env w t d w'} (one : b memo env w t (.stopped (.die d)) w') :
      Converting b f memo env w t (.stopped (.die d)) w'

/-- What the memo holds for a layer, and otherwise a building whose services the memo
    holds from then on. -/
inductive Remembering (info : LayerInfo) (b : Building σ) : Building σ
  | reused {memo env w c} (hit : memo.context? info.id = some c) :
      Remembering info b memo env w
        [.reused (info.outputs.map (·.name)), .handed info.id c] (.ready c memo)
        (w.report (.layerReused (info.outputs.map (·.name))))
  | kept {memo env w t c memo' w'} (miss : memo.context? info.id = none)
      (one : b memo env w t (.ready c memo') w') :
      Remembering info b memo env w (t ++ [.handed info.id c])
        (.ready c ((info.id, c.toValue) :: memo')) w'
  | stopped {memo env w t cause w'} (miss : memo.context? info.id = none)
      (one : b memo env w t (.stopped cause) w') :
      Remembering info b memo env w t (.stopped cause) w'

end Building

namespace Layer

variable {σ : Type} (settings : Settings) (outside : Outside σ)
  (policy : LayerInfo → Building σ → Building σ)

mutual
/-- A layer as a building that is not done yet. The policy says what is done about the
    layers it is put together from. -/
def fresh : Layer σ → Building σ
  | .build info key effect => .Runs settings outside info.id key effect
  | .context _ c => .Done c
  | .provide _ consumer supplier keepSupplier =>
    .Then (policy supplier.info supplier.fresh) fun above =>
      if keepSupplier then
        .Then (.Inside (policy consumer.info consumer.fresh) above) fun below =>
          .Done (above.merge below)
      else .Inside (policy consumer.info consumer.fresh) above
  | .merge _ left right =>
    .Then (policy left.info left.fresh) fun first =>
      .Then (policy right.info right.fresh) fun second => .Done (first.merge second)
  | .sequence _ layers => freshEach layers Context.empty
  | .mapError _ inner f => .Converting (policy inner.info inner.fresh) f

/-- Layers in order as a building, each with the services of all before it. -/
def freshEach : List (Layer σ) → Context → Building σ
  | [], sofar => .Done sofar
  | L :: rest, sofar =>
    .Then (.Inside (policy L.info L.fresh) sofar) fun next =>
      freshEach rest (sofar.merge next)
end

/-- A layer as a building. -/
def building (L : Layer σ) : Building σ :=
  policy L.info (L.fresh settings outside policy)

/-- What every kind of building hands on holds of all layers that take part in one. It is
    said of a building and of the layers that it consists of. -/
theorem building_induct {R : Layer σ} {P : List (Layer σ) → Building σ → Prop}
    (done : ∀ c, P [] (.Done c))
    (next : ∀ {Ls Ks b k}, P Ls b → (∀ c, P Ks (k c)) → P (Ls ++ Ks) (.Then b k))
    (inside : ∀ {Ls b} services, P Ls b → P Ls (.Inside b services))
    (converting : ∀ {Ls b} f, P Ls b → P Ls (.Converting b f))
    (leaf : ∀ info key e, Within (.build info key e) R →
      P [.build info key e] (policy info (.Runs settings outside info.id key e)))
    (whole : ∀ L, Within L R → (∀ info key e, L ≠ .build info key e) →
      P L.children (L.fresh settings outside policy) →
        P [L] (L.building settings outside policy))
    (L : Layer σ) (hL : Within L R) : P [L] (L.building settings outside policy) := by
  -- By induction on the layer. What the policy does to it is up to `leaf` and `whole`.
  induction L using Layer.induct with
  | step L ih =>
      have inner : ∀ M ∈ L.children, P [M] (M.building settings outside policy) :=
        fun M hM => ih M hM ((Within.ofChild hM).trans hL)
      cases L with
      | build info key e => exact leaf info key e hL
      | context info c => exact whole _ hL (fun _ _ _ h => by cases h) (done c)
      | provide info consumer supplier keep =>
          refine whole _ hL (fun _ _ _ h => by cases h) ?_
          have hsupplier := inner supplier (mem_children_provide.2 (Or.inl rfl))
          have hconsumer := inner consumer (mem_children_provide.2 (Or.inr rfl))
          refine @next [supplier] [consumer] _ _ hsupplier fun above => ?_
          cases keep with
          | true => exact @next [consumer] [] _ _ (inside above hconsumer) fun _ => done _
          | false => exact inside above hconsumer
      | merge info left right =>
          refine whole _ hL (fun _ _ _ h => by cases h) ?_
          have hleft := inner left (mem_children_merge.2 (Or.inl rfl))
          have hright := inner right (mem_children_merge.2 (Or.inr rfl))
          exact @next [left] [right] _ _ hleft fun _ =>
            @next [right] [] _ _ hright fun _ => done _
      | sequence info layers =>
          refine whole _ hL (fun _ _ _ h => by cases h) ?_
          -- The services so far vary from one layer in the row to the next.
          have each : ∀ rest, (∀ M ∈ rest, M ∈ layers) → ∀ sofar,
              P rest (freshEach settings outside policy rest sofar) := by
            intro rest
            induction rest with
            | nil => exact fun _ sofar => done sofar
            | cons M rest ihrest =>
                intro hsub sofar
                have hM := inner M (hsub M List.mem_cons_self)
                refine @next [M] rest _ _ (inside sofar hM) fun c => ?_
                exact ihrest (fun N hN => hsub N (List.mem_cons_of_mem _ hN)) _
          exact each layers (fun _ h => h) Context.empty
      | mapError info inner' f =>
          refine whole _ hL (fun _ _ _ h => by cases h) ?_
          exact converting f (inner inner' List.mem_cons_self)

end Layer

namespace Building

variable {σ : Type} {settings : Settings} {outside : Outside σ}

/-- An effect that is made from a memo does what a building does: it ends in the outcome
    and leaves the world that the building finishes with. -/
def Follows (settings : Settings) (outside : Outside σ) (e : Memo → Effect σ)
    (b : Building σ) : Prop :=
  ∀ memo env w x w', Evaluates settings outside (.effect (e memo)) (.of env) w x w' ↔
    ∃ t r, b memo env w t r w' ∧ x = r.outcome

/-- A layer that is a context has nothing to run. -/
theorem follows_done (c : Context) :
    Follows settings outside (fun memo => Effect.succeed (memo.withContext c)) (.Done c) := by
  intro memo env w x w'
  refine evaluates_exit_pure.trans ?_
  constructor
  · rintro ⟨rfl, rfl⟩
    exact ⟨_, _, .ready, rfl⟩
  · rintro ⟨t, r, ⟨⟩, rfl⟩
    exact ⟨rfl, rfl⟩

/-- A layer that is an effect says so, and runs it. -/
theorem follows_runs (id : LayerId) (key : ServiceKey) (e : Effect σ) :
    Follows settings outside
      (fun memo => .announce (.buildingLayer key.name)
        (.flatMap e fun service =>
          pure (Effect.succeed (memo.withContext (Context.single key service)))))
      (.Runs settings outside id key e) := by
  intro memo env w x w'
  -- Announcing adds an event and does nothing else, so the effect decides how it ends.
  rw [evaluates_announce, evaluates_flatMap_pure]
  constructor
  · rintro ⟨y, w₁, run, h⟩
    cases y with
    | success v =>
        rcases evaluates_exit_pure.1 h with ⟨rfl, rfl⟩
        exact ⟨_, _, .ready run, rfl⟩
    | fail e =>
        rcases h with ⟨rfl, rfl⟩
        exact ⟨_, .stopped (.fail e), .stopped run, rfl⟩
    | die d =>
        rcases h with ⟨rfl, rfl⟩
        exact ⟨_, .stopped (.die d), .stopped run, rfl⟩
  · rintro ⟨t, r, run, rfl⟩
    cases run with
    | ready run => exact ⟨_, _, run, evaluates_exit_pure.2 ⟨rfl, rfl⟩⟩
    | @stopped _ _ _ cause _ run =>
        refine ⟨_, _, run, ?_⟩
        cases cause <;> exact ⟨rfl, rfl⟩

/-- A building among services is an effect that is provided with them. -/
theorem follows_inside {e : Memo → Effect σ} {b : Building σ} (services : Context)
    (h : Follows settings outside e b) :
    Follows settings outside (fun memo => .provide (e memo) services)
      (.Inside b services) := by
  intro memo env w x w'
  rw [evaluates_provide]
  exact h memo _ w x w'

/-- How an effect ends that goes on from a part of a build. -/
theorem Follows.fromBuilt {e : Memo → Effect σ} {b : Building σ}
    (h : Follows settings outside e b) {next : Context → Memo → Effect σ} {memo : Memo}
    {env : Context} {w w' : World σ} {x : Outcome} :
    Evaluates settings outside (.effect (Memo.fromBuilt (e memo) next)) (.of env) w x w' ↔
      ∃ t r w₁, b memo env w t r w₁ ∧
        match r with
        | .ready c memo =>
          Evaluates settings outside (.effect (next c memo)) (.of env) w₁ x w'
        | .stopped cause => x = .ofCause cause ∧ w' = w₁ := by
  -- The memo travels in the outcome, so reading it back is what has to be undone here.
  rw [Memo.fromBuilt_eq, evaluates_flatMap_pure]
  constructor
  · rintro ⟨y, w₁, run, hx⟩
    rcases (h memo env w y w₁).1 run with ⟨t, r, hb, rfl⟩
    refine ⟨t, r, w₁, hb, ?_⟩
    cases r with
    | ready c memo₁ => simpa only [Finish.outcome, Memo.continued_withContext] using hx
    | stopped cause => cases cause <;> exact hx
  · rintro ⟨t, r, w₁, hb, hx⟩
    refine ⟨r.outcome, w₁, (h memo env w _ w₁).2 ⟨t, r, hb, rfl⟩, ?_⟩
    cases r with
    | ready c memo₁ => simpa only [Finish.outcome, Memo.continued_withContext] using hx
    | stopped cause => cases cause <;> exact hx

/-- One building behind another is a way on from the first. -/
theorem follows_then {e : Memo → Effect σ} {next : Context → Memo → Effect σ}
    {b : Building σ} {k : Context → Building σ} (h : Follows settings outside e b)
    (hnext : ∀ c, Follows settings outside (next c) (k c)) :
    Follows settings outside (fun memo => Memo.fromBuilt (e memo) next) (.Then b k) := by
  intro memo env w x w'
  refine h.fromBuilt.trans ?_
  constructor
  · rintro ⟨t, r, w₁, hb, hx⟩
    cases r with
    | ready c memo₁ =>
        -- The first part is ready, and the second begins with the memo it leaves.
        rcases (hnext c memo₁ env w₁ x w').1 hx with ⟨t₂, r, hk, rfl⟩
        exact ⟨_, r, .ready hb hk, rfl⟩
    | stopped cause =>
        rcases hx with ⟨rfl, rfl⟩
        exact ⟨_, .stopped cause, .stopped hb, rfl⟩
  · rintro ⟨t, r, hb, rfl⟩
    cases hb with
    | @ready _ _ _ _ c memo₁ w₁ _ _ _ one two =>
        exact ⟨_, .ready c memo₁, w₁, one, (hnext c memo₁ env w₁ _ w').2 ⟨_, _, two, rfl⟩⟩
    | @stopped _ _ _ _ cause _ one => exact ⟨_, .stopped cause, w', one, rfl, rfl⟩

/-- A failure is converted by the function of the effect. -/
theorem follows_converting {e : Memo → Effect σ} {b : Building σ}
    (f : Value → Act σ Value) (h : Follows settings outside e b) :
    Follows settings outside (fun memo => (e memo).mapError f) (.Converting b f) := by
  intro memo env w x w'
  -- A failure is converted; services and defects pass.
  rw [evaluates_mapError]
  constructor
  · rintro ⟨y, w₁, run, hx⟩
    rcases (h memo env w y w₁).1 run with ⟨t, r, hb, rfl⟩
    cases r with
    | ready c memo' =>
        rcases hx with ⟨rfl, rfl⟩
        exact ⟨_, _, .ready hb, rfl⟩
    | stopped cause =>
        cases cause with
        | fail error =>
            rcases hx with ⟨rfl, rfl⟩
            exact ⟨_, .stopped _, .fail hb, rfl⟩
        | die d =>
            rcases hx with ⟨rfl, rfl⟩
            exact ⟨_, .stopped _, .die hb, rfl⟩
  · rintro ⟨t, r, hb, rfl⟩
    cases hb with
    | ready one => exact ⟨_, _, (h memo env w _ _).2 ⟨_, _, one, rfl⟩, rfl, rfl⟩
    | fail one => exact ⟨_, _, (h memo env w _ _).2 ⟨_, _, one, rfl⟩, rfl, rfl⟩
    | die one => exact ⟨_, _, (h memo env w _ _).2 ⟨_, _, one, rfl⟩, rfl, rfl⟩

/-- A layer is built if the memo does not know it. -/
theorem follows_remembering {e : Memo → Effect σ} {b : Building σ} (info : LayerInfo)
    (h : Follows settings outside e b) :
    Follows settings outside (fun memo => memo.remember info fun _ => e memo)
      (.Remembering info b) := by
  intro memo env w x w'
  dsimp only
  rcases hlook : memo.context? info.id with _ | c
  · -- What is not in the memo is built, and the services that come out are kept.
    have heq : (memo.remember info fun _ => e memo) =
        Memo.fromBuilt (e memo) fun c memo =>
          Effect.succeed (Memo.withContext ((info.id, c.toValue) :: memo) c) := by
      unfold Memo.remember
      rw [← Memo.context?, hlook]
    rw [heq]
    refine h.fromBuilt.trans ?_
    constructor
    · rintro ⟨t, r, w₁, hb, hx⟩
      cases r with
      | ready c memo₁ =>
          rcases evaluates_exit_pure.1 hx with ⟨rfl, rfl⟩
          exact ⟨_, .ready c _, .kept hlook hb, rfl⟩
      | stopped cause =>
          rcases hx with ⟨rfl, rfl⟩
          exact ⟨_, .stopped cause, .stopped hlook hb, rfl⟩
    · rintro ⟨t, r, hb, rfl⟩
      cases hb with
      | reused hit => rw [hlook] at hit; cases hit
      | @kept _ _ _ _ c memo₁ _ miss one =>
          exact ⟨_, .ready c memo₁, w', one, evaluates_exit_pure.2 ⟨rfl, rfl⟩⟩
      | @stopped _ _ _ _ cause _ miss one => exact ⟨_, .stopped cause, w', one, rfl, rfl⟩
  · -- What is in the memo is handed out, and that is reported.
    have heq : (memo.remember info fun _ => e memo) =
        .announce (.layerReused (info.outputs.map (·.name)))
          (Effect.succeed (memo.withContext c)) := by
      unfold Memo.remember
      rw [← Memo.context?, hlook]
    rw [heq, evaluates_announce]
    refine evaluates_exit_pure.trans ?_
    constructor
    · rintro ⟨rfl, rfl⟩
      exact ⟨_, .ready c memo, .reused hlook, rfl⟩
    · rintro ⟨t, r, hb, rfl⟩
      cases hb with
      | reused hit =>
          rw [hlook] at hit
          cases hit
          exact ⟨rfl, rfl⟩
      | kept miss one => rw [hlook] at miss; cases miss
      | stopped miss one => rw [hlook] at miss; cases miss

end Building

namespace Layer

variable {σ : Type}

mutual
/-- A part of a build under a policy for layers met again. -/
def resolveBy (policy : Memo → LayerInfo → (Unit → Effect σ) → Effect σ) :
    Layer σ → Memo → Effect σ
  | .build info key effect, memo =>
    policy memo info fun _ =>
      .announce (.buildingLayer key.name)
        (.flatMap effect fun service =>
          pure (Effect.succeed (memo.withContext (Context.single key service))))
  | .context info c, memo =>
    policy memo info fun _ => Effect.succeed (memo.withContext c)
  | .provide info consumer supplier keepSupplier, memo =>
    policy memo info fun _ =>
      Memo.fromBuilt (supplier.resolveBy policy memo) fun above memo =>
        if keepSupplier then
          Memo.fromBuilt (.provide (consumer.resolveBy policy memo) above) fun below memo =>
            Effect.succeed (memo.withContext (above.merge below))
        else .provide (consumer.resolveBy policy memo) above
  | .merge info left right, memo =>
    policy memo info fun _ =>
      Memo.fromBuilt (left.resolveBy policy memo) fun first memo =>
        Memo.fromBuilt (right.resolveBy policy memo) fun second memo =>
          Effect.succeed (memo.withContext (first.merge second))
  | .sequence info layers, memo =>
    policy memo info fun _ => resolveEachBy policy layers Context.empty memo
  | .mapError info inner f, memo =>
    policy memo info fun _ => (inner.resolveBy policy memo).mapError f

/-- The part of a build under a policy that builds layers in order. -/
def resolveEachBy (policy : Memo → LayerInfo → (Unit → Effect σ) → Effect σ) :
    List (Layer σ) → Context → Memo → Effect σ
  | [], sofar, memo => Effect.succeed (memo.withContext sofar)
  | L :: rest, sofar, memo =>
    Memo.fromBuilt (.provide (L.resolveBy policy memo) sofar) fun next memo =>
      resolveEachBy policy rest (sofar.merge next) memo
end

mutual
/-- The policy of a build is to remember. -/
theorem resolveBy_remember : ∀ L : Layer σ, L.resolveBy Memo.remember = L.resolve
  | .build info key effect => rfl
  | .context info c => rfl
  | .provide info consumer supplier keep => by
      -- Both functions take the same memo down the tree, so they are compared at each layer.
      funext memo
      simp only [resolveBy, resolve, resolveBy_remember consumer, resolveBy_remember supplier]
  | .merge info left right => by
      funext memo
      simp only [resolveBy, resolve, resolveBy_remember left, resolveBy_remember right]
  | .sequence info layers => by
      funext memo
      simp only [resolveBy, resolve, resolveEachBy_remember layers]
  | .mapError info inner f => by
      funext memo
      simp only [resolveBy, resolve, resolveBy_remember inner]

theorem resolveEachBy_remember : ∀ layers : List (Layer σ),
    resolveEachBy Memo.remember layers = resolveEach layers
  | [] => rfl
  | L :: rest => by
      funext sofar memo
      simp only [resolveEachBy, resolveEach, resolveBy_remember L, resolveEachBy_remember rest]
end

/-- A policy for effects does to what an effect does as a policy for buildings does. -/
def Suits (settings : Settings) (outside : Outside σ)
    (effectPolicy : Memo → LayerInfo → (Unit → Effect σ) → Effect σ)
    (policy : LayerInfo → Building σ → Building σ) : Prop :=
  ∀ info (e : Memo → Effect σ) b, Building.Follows settings outside e b →
    Building.Follows settings outside (fun memo => effectPolicy memo info fun _ => e memo)
      (policy info b)

section Following

variable {settings : Settings} {outside : Outside σ}
  {effectPolicy : Memo → LayerInfo → (Unit → Effect σ) → Effect σ}
  {policy : LayerInfo → Building σ → Building σ}

mutual
/-- A part of a build does what the layer as a building does. -/
theorem follows_resolveBy (h : Suits settings outside effectPolicy policy) :
    ∀ L : Layer σ, Building.Follows settings outside (L.resolveBy effectPolicy)
      (L.building settings outside policy)
  | .build info key effect => h info _ _ (Building.follows_runs info.id key effect)
  | .context info c => h info _ _ (Building.follows_done c)
  | .provide info consumer supplier true =>
      h info _ _ (Building.follows_then (follows_resolveBy h supplier) fun above =>
        Building.follows_then (Building.follows_inside above (follows_resolveBy h consumer))
          fun below => Building.follows_done (above.merge below))
  | .provide info consumer supplier false =>
      h info _ _ (Building.follows_then (follows_resolveBy h supplier) fun above =>
        Building.follows_inside above (follows_resolveBy h consumer))
  | .merge info left right =>
      h info _ _ (Building.follows_then (follows_resolveBy h left) fun first =>
        Building.follows_then (follows_resolveBy h right) fun second =>
          Building.follows_done (first.merge second))
  | .sequence info layers => h info _ _ (follows_resolveEachBy h layers Context.empty)
  | .mapError info inner f =>
      h info _ _ (Building.follows_converting f (follows_resolveBy h inner))

/-- The same for layers one after the other, by recursion on their list. -/
theorem follows_resolveEachBy (h : Suits settings outside effectPolicy policy) :
    ∀ (layers : List (Layer σ)) (sofar : Context),
      Building.Follows settings outside (resolveEachBy effectPolicy layers sofar)
        (freshEach settings outside policy layers sofar)
  | [], sofar => Building.follows_done sofar
  | L :: rest, sofar =>
      Building.follows_then (Building.follows_inside sofar (follows_resolveBy h L))
        fun next => follows_resolveEachBy h rest (sofar.merge next)
end

end Following

/-- The effect that builds a layer under a policy and ends in its services. -/
def builtBy (policy : Memo → LayerInfo → (Unit → Effect σ) → Effect σ) (L : Layer σ) :
    Effect σ :=
  .suspend (pure (Memo.fromBuilt (L.resolveBy policy []) fun c _ => Effect.succeed c.toValue))

theorem builtBy_remember (L : Layer σ) : L.builtBy Memo.remember = L.built := by
  unfold builtBy built
  rw [resolveBy_remember]

section Whole

variable {settings : Settings} {outside : Outside σ} {env : Context} {w w' : World σ}
  {x : Outcome}

/-- What the effect of a layer ends with is what its building comes to. -/
theorem ends_builtBy {effectPolicy : Memo → LayerInfo → (Unit → Effect σ) → Effect σ}
    {policy : LayerInfo → Building σ → Building σ}
    (h : Suits settings outside effectPolicy policy) (L : Layer σ) :
    (L.builtBy effectPolicy).Ends settings outside env w x w' ↔
      ∃ t r, L.building settings outside policy [] env w t r w' ∧ x = r.exit := by
  -- The whole begins with an empty memo and hands out the services without it.
  rw [ends_iff_evaluates, builtBy, evaluates_suspend_pure,
    (follows_resolveBy h L).fromBuilt]
  constructor
  · rintro ⟨t, r, w₁, hb, hx⟩
    cases r with
    | ready c memo =>
        rcases evaluates_exit_pure.1 hx with ⟨rfl, rfl⟩
        exact ⟨t, .ready c memo, hb, rfl⟩
    | stopped cause =>
        rcases hx with ⟨rfl, rfl⟩
        exact ⟨t, .stopped cause, hb, rfl⟩
  · rintro ⟨t, r, hb, rfl⟩
    refine ⟨t, r, w', hb, ?_⟩
    cases r with
    | ready c memo => exact evaluates_exit_pure.2 ⟨rfl, rfl⟩
    | stopped cause => exact ⟨rfl, rfl⟩

/-- How the build of a layer ends: as the layer does that remembers, from an empty
    memo. -/
theorem ends_built (L : Layer σ) :
    L.built.Ends settings outside env w x w' ↔
      ∃ t r, L.building settings outside .Remembering [] env w t r w' ∧ x = r.exit := by
  rw [← builtBy_remember]
  exact ends_builtBy (fun info _ _ h => Building.follows_remembering info h) L

/-- How an effect ends that gets the services of a layer. -/
theorem ends_provideLayer (source : Effect σ) (L : Layer σ) (into : Value → Act σ Value) :
    (source.provideLayer L into).Ends settings outside env w x w' ↔
      ∃ t r w₁, L.building settings outside .Remembering [] env w t r w₁ ∧
        match r with
        | .ready c _ => source.Ends settings outside (env.merge c) w₁ x w'
        | .stopped (.fail e) =>
          x = .ofCause (converted (w₁.guarded (into e)).1) ∧ w' = (w₁.guarded (into e)).2
        | .stopped (.die d) => x = .die d ∧ w' = w₁ := by
  -- What a build ends in is a context, so the other branch is never taken.
  have heq : source.provideLayer L into = .flatMap (L.built.mapError into) fun v =>
      pure (match Context.ofValue? v with
        | some c => .provide source c
        | none => Effect.die (.typeMismatch "a context")) := by
    unfold Effect.provideLayer
    congr
    funext v
    cases Context.ofValue? v <;> rfl
  rw [ends_iff_evaluates, heq, evaluates_flatMap_pure]
  constructor
  · rintro ⟨z, w₂, hz, hx⟩
    rcases evaluates_mapError.1 hz with ⟨y, w₁, hy, hconv⟩
    rcases (ends_built L).1 (ends_iff_evaluates.2 hy) with ⟨t, r, hb, rfl⟩
    refine ⟨t, r, w₁, hb, ?_⟩
    cases r with
    | ready c memo =>
        rcases hconv with ⟨rfl, rfl⟩
        simp only [Finish.exit, Context.ofValue?_toValue] at hx
        exact ends_iff_evaluates.2 (evaluates_provide.1 hx)
    | stopped cause =>
        cases cause with
        | fail e =>
            rcases hconv with ⟨rfl, rfl⟩
            show x = .ofCause (converted (w₁.guarded (into e)).1) ∧ _
            generalize converted (w₁.guarded (into e)).1 = cause at hx ⊢
            cases cause <;> exact hx
        | die d =>
            rcases hconv with ⟨rfl, rfl⟩
            exact hx
  · rintro ⟨t, r, w₁, hb, hx⟩
    have hbuilt := ends_iff_evaluates.1 ((ends_built L).2 ⟨t, r, hb, rfl⟩)
    cases r with
    | ready c memo =>
        refine ⟨_, w₁, evaluates_mapError.2 ⟨_, w₁, hbuilt, rfl, rfl⟩, ?_⟩
        simp only [Finish.exit, Context.ofValue?_toValue]
        exact evaluates_provide.2 (ends_iff_evaluates.1 hx)
    | stopped cause =>
        cases cause with
        | fail e =>
            refine ⟨_, _, evaluates_mapError.2 ⟨_, w₁, hbuilt, rfl, rfl⟩, ?_⟩
            change x = .ofCause (converted (w₁.guarded (into e)).1) ∧ _ at hx
            generalize converted (w₁.guarded (into e)).1 = cause at hx ⊢
            cases cause <;> exact hx
        | die d => exact ⟨_, w₁, evaluates_mapError.2 ⟨_, w₁, hbuilt, rfl, rfl⟩, hx⟩

end Whole

/-- On its own the sample comes to its two copies, and the base that both of them read is
    counted once. -/
theorem Sample.runSync_app_counted :
    runSync 100 false (Sample.app Sample.counted).built Context.empty ⟨0, 0, #[]⟩ =
      some (.success (Sample.both (.int 1) (.int 1)).toValue,
        ⟨1, 0, #[.buildingLayer "Base", .buildingLayer "Left", .layerReused ["Base"],
          .buildingLayer "Right"]⟩) := by
  rfl

end Layer

end EffectKernel
