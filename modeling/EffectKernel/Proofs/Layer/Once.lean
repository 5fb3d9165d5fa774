import EffectKernel.Proofs.Layer.Making
import EffectKernel.Proofs.Layer.Resolution

/-!
# Once in a Build

A layer that is met in several places of a larger one is built once. Why that is so is
not to be seen at any one place: whether a layer is built is decided where it is met, by
a memo that has come there through everything built before, and the parts of a build do
not know of each other. What they share is an account of the memo, kept against
everything that has happened. The memo holds a layer if and only if its services have
been handed to somebody; it holds what they were; the effect of a layer has been started
once if the memo holds it and not at all if it does not; and with a layer it holds what
that layer is put together from.

Every kind of building keeps this account. At the moment when a layer is built its own
number is not in the memo, and nothing that takes part in it can put it there, because
no layer takes part in itself. So the services that are stored for it in the end are the
only ones that ever are.

## Main definitions

* `starts`: The layers whose effects were started.
* `Course`: What happens takes one world to another.
* `Layer.Once`: Of a build, that layers were built at most once, and that all consumers
  got what was built.
* `Layer.BuildsOnce`: A build from an empty memo that builds so.
* `Tally`, `Account`, `Grown`: What the parts of a build keep.

## Theorems

* `Layer.course_building`: What happens in a build leads to the world it leaves.
* `Layer.accounts_building`: Every layer keeps the account.
* `Layer.layers_build_once`: A build builds no layer twice, and all layers if it succeeds.
-/

namespace EffectKernel

variable {σ : Type}

/-- The layer whose effect is started, if one is. -/
def Happening.started? : Happening σ → Option LayerId
  | .started id _ _ _ _ => some id
  | _ => none

/-- The layers whose effects were started, in order. -/
def starts (t : List (Happening σ)) : List LayerId :=
  t.filterMap Happening.started?

@[simp] theorem starts_append (t₁ t₂ : List (Happening σ)) :
    starts (t₁ ++ t₂) = starts t₁ ++ starts t₂ :=
  List.filterMap_append

/-- What has been started, by what has happened. -/
theorem mem_starts {t : List (Happening σ)} {id : LayerId} :
    id ∈ starts t ↔ ∃ key e env x, Happening.started id key e env x ∈ t := by
  unfold starts
  rw [List.mem_filterMap]
  constructor
  · rintro ⟨h, hmem, heq⟩
    -- Of the things that can happen only a start is kept.
    cases h with
    | started id' key e env x =>
        cases heq
        exact ⟨key, e, env, x, hmem⟩
    | handed _ _ => cases heq
    | reused _ => cases heq
    | converted _ _ => cases heq
  · rintro ⟨key, e, env, x, hmem⟩
    exact ⟨_, hmem, rfl⟩

/-- What happens takes one world to another. Nothing else comes in between: that a layer
    is being built is reported once for each start, and then its effect runs. -/
inductive Course (settings : Settings) (outside : Outside σ) :
    World σ → List (Happening σ) → World σ → Prop
  | nothing {w} : Course settings outside w [] w
  | started {w id key e env x w₁ t w'}
      (run : Evaluates settings outside (.effect e) (.of env)
        (w.report (.buildingLayer key.name)) x w₁)
      (rest : Course settings outside w₁ t w') :
      Course settings outside w (.started id key e env x :: t) w'
  | handed {w id c t w'} (rest : Course settings outside w t w') :
      Course settings outside w (.handed id c :: t) w'
  | reused {w names t w'}
      (rest : Course settings outside (w.report (.layerReused names)) t w') :
      Course settings outside w (.reused names :: t) w'
  | converted {w f e t w'} (rest : Course settings outside (w.guarded (f e)).2 t w') :
      Course settings outside w (.converted f e :: t) w'

section Courses

variable {settings : Settings} {outside : Outside σ}

/-- One course of happenings behind another. -/
theorem Course.append {w w₁ w₂ : World σ} {t₁ t₂ : List (Happening σ)}
    (h₁ : Course settings outside w t₁ w₁) (h₂ : Course settings outside w₁ t₂ w₂) :
    Course settings outside w (t₁ ++ t₂) w₂ := by
  induction h₁ with
  | nothing => exact h₂
  | started run _ ih => exact .started run (ih h₂)
  | handed _ ih => exact .handed (ih h₂)
  | reused _ ih => exact .reused (ih h₂)
  | converted _ ih => exact .converted (ih h₂)

/-- What happens in a build leads to the world it leaves. -/
theorem Layer.course_building (L : Layer σ) {memo : Memo} {env : Context} {w w' : World σ}
    {t : List (Happening σ)} {r : Finish}
    (h : L.building settings outside .Remembering memo env w t r w') :
    Course settings outside w t w' := by
  -- To remember starts nothing: what is built takes its course, and the rest is handed on.
  have remembering : ∀ {info} {b : Building σ},
      (∀ {memo env w t r w'}, b memo env w t r w' → Course settings outside w t w') →
      ∀ {memo env w t r w'}, Building.Remembering info b memo env w t r w' →
        Course settings outside w t w' := by
    intro info b hb memo env w t r w' run
    cases run with
    | reused hit => exact .reused (.handed .nothing)
    | kept miss one => exact (hb one).append (.handed .nothing)
    | stopped miss one => exact hb one
  refine @building_induct σ settings outside .Remembering L
    (fun _ b => ∀ {memo env w t r w'}, b memo env w t r w' → Course settings outside w t w')
    ?done ?next ?inside ?converting ?leaf ?whole L .self memo env w t r w' h
  case done =>
      intro c memo env w t r w' run
      cases run
      exact .nothing
  case next =>
      intro _ _ b k hb hk memo env w t r w' run
      cases run with
      | ready one two => exact (hb one).append (hk _ two)
      | stopped one => exact hb one
  case inside =>
      intro _ b services hb memo env w t r w' run
      exact hb run
  case converting =>
      intro _ b f hb memo env w t r w' run
      cases run with
      | ready one => exact hb one
      | fail one => exact (hb one).append (.converted .nothing)
      | die one => exact hb one
  case leaf =>
      intro info key e _
      refine remembering fun run => ?_
      cases run with
      | ready run => exact .started run .nothing
      | stopped run => exact .started run .nothing
  case whole =>
      intro M _ _ hM
      exact remembering hM

end Courses

namespace Layer

/-- What is known of the starts in a build, however it finishes. -/
structure Tally (R : Layer σ) (t : List (Happening σ)) : Prop where
  /-- No layer was started twice. -/
  nodup : (starts t).Nodup
  /-- What was started takes part in the layer that is built. -/
  known : ∀ {id key e env x}, .started id key e env x ∈ t →
    ∃ info, info.id = id ∧ Within (.build info key e) R

/-- What a memo and the things that have happened so far know of each other, as long as
    the build goes on. -/
structure Account (R : Layer σ) (memo : Memo) (t : List (Happening σ)) : Prop
    extends Tally R t where
  /-- What was started is in the memo. -/
  stored : ∀ id ∈ starts t, (memo.context? id).isSome
  /-- The memo holds what was handed out. -/
  handed : ∀ {id c}, .handed id c ∈ t → memo.context? id = some c
  /-- What the memo holds was handed out. -/
  given : ∀ {id c}, memo.context? id = some c → .handed id c ∈ t
  /-- What the memo holds for an effect is what the effect succeeded with. -/
  ran : ∀ {info key e c}, Within (.build info key e) R → memo.context? info.id = some c →
    ∃ env v, .started info.id key e env (.success v) ∈ t ∧ c = Context.single key v
  /-- With a layer the memo holds what the layer is put together from. -/
  closed : ∀ {M N}, Within M R → (memo.context? M.id).isSome → N ∈ M.children →
    (memo.context? N.id).isSome

/-- How a memo grows while some layers are built. -/
structure Grown (Ls : List (Layer σ)) (memo memo' : Memo) : Prop where
  /-- What it held it still holds. -/
  keeps : ∀ {id c}, memo.context? id = some c → memo'.context? id = some c
  /-- It holds the layers. -/
  holds : ∀ L ∈ Ls, (memo'.context? L.id).isSome
  /-- What is new takes part in one of them. -/
  adds : ∀ {id}, memo.context? id = none → (memo'.context? id).isSome →
    ∃ L ∈ Ls, ∃ M, Within M L ∧ M.id = id

/-- A building of some layers keeps the account. -/
def Accounts (R : Layer σ) (Ls : List (Layer σ)) (b : Building σ) : Prop :=
  ∀ {memo t₀ env w t r w'}, Account R memo t₀ → b memo env w t r w' →
    match r with
    | .ready _ memo' => Account R memo' (t₀ ++ t) ∧ Grown Ls memo memo'
    | .stopped _ => Tally R (t₀ ++ t)

namespace Grown

/-- What is in a memo stays there. -/
theorem isSome {Ls : List (Layer σ)} {memo memo' : Memo} (h : Grown Ls memo memo')
    {id : LayerId} (hid : (memo.context? id).isSome) : (memo'.context? id).isSome := by
  rcases Option.isSome_iff_exists.1 hid with ⟨c, hc⟩
  rw [h.keeps hc]
  rfl

theorem nothing (memo : Memo) : Grown ([] : List (Layer σ)) memo memo where
  keeps h := h
  holds _ h := by cases h
  adds hnone hsome := by
    rw [hnone] at hsome
    cases hsome

/-- A memo that grows twice. -/
theorem append {Ls Ks : List (Layer σ)} {memo memo₁ memo₂ : Memo}
    (h₁ : Grown Ls memo memo₁) (h₂ : Grown Ks memo₁ memo₂) :
    Grown (Ls ++ Ks) memo memo₂ where
  keeps h := h₂.keeps (h₁.keeps h)
  holds L hL := by
    rcases List.mem_append.1 hL with hL | hL
    · exact h₂.isSome (h₁.holds L hL)
    · exact h₂.holds L hL
  adds {id} hnone hsome := by
    rcases hmid : memo₁.context? id with _ | c
    · rcases h₂.adds hmid hsome with ⟨L, hL, hM⟩
      exact ⟨L, List.mem_append_right _ hL, hM⟩
    · rcases h₁.adds hnone (Option.isSome_iff_exists.2 ⟨c, hmid⟩) with ⟨L, hL, hM⟩
      exact ⟨L, List.mem_append_left _ hL, hM⟩

end Grown

/-- Things that are no start and hand nothing out leave the tally as it is. -/
theorem Tally.append {R : Layer σ} {t s : List (Happening σ)} (h : Tally R t)
    (hs : starts s = []) : Tally R (t ++ s) where
  nodup := by
    rw [starts_append, hs, List.append_nil]
    exact h.nodup
  known {id key e env x} hmem := by
    rcases List.mem_append.1 hmem with hmem | hmem
    · exact h.known hmem
    · have hid : id ∈ starts s := mem_starts.2 ⟨key, e, env, x, hmem⟩
      rw [hs] at hid
      cases hid

/-- The effect of a layer that the memo does not hold has not been started before. -/
theorem Account.tally_started {R : Layer σ} {memo : Memo} {t : List (Happening σ)}
    (h : Account R memo t) {info : LayerInfo} {key : ServiceKey} {e : Effect σ}
    (hR : Within (.build info key e) R) (miss : memo.context? info.id = none)
    (env : Context) (x : Outcome) : Tally R (t ++ [.started info.id key e env x]) where
  nodup := by
    rw [starts_append]
    refine List.nodup_append.2 ⟨h.nodup, List.pairwise_singleton _ _, ?_⟩
    -- Had the effect been started before, its services would be in the memo.
    intro id hid id' hid' heq
    rcases List.mem_singleton.1 hid' with rfl
    have hsome := h.stored id hid
    rw [heq, miss] at hsome
    cases hsome
  known {id key' e' env' x'} hmem := by
    rcases List.mem_append.1 hmem with hmem | hmem
    · exact h.known hmem
    · cases List.mem_singleton.1 hmem
      exact ⟨info, rfl, hR⟩

/-- The account after the services of a layer are stored and handed out, if the effect
    of the layer, should it have one, has just succeeded with them. -/
theorem Account.store {R L : Layer σ} {memo : Memo} {t s : List (Happening σ)} {c : Context}
    (h : Account R memo t) (hR : R.Numbered) (hL : Within L R)
    (miss : memo.context? L.id = none)
    (inner : ∀ N ∈ L.children, (memo.context? N.id).isSome)
    (tally : Tally R (t ++ s)) (hstarts : ∀ id ∈ starts s, id = L.id)
    (hhanded : ∀ id c', Happening.handed id c' ∉ s)
    (hran : ∀ info key e, L = .build info key e →
      ∃ env v, .started info.id key e env (.success v) ∈ s ∧ c = Context.single key v) :
    Account R ((L.id, c.toValue) :: memo) (t ++ s ++ [.handed L.id c]) where
  toTally := tally.append rfl
  stored id hid := by
    rw [Memo.context?_cons]
    by_cases hLid : L.id = id
    · rw [if_pos hLid]
      rfl
    · rw [if_neg hLid]
      simp only [starts_append, List.mem_append] at hid
      rcases hid with (hid | hid) | hid
      · exact h.stored id hid
      · exact absurd (hstarts id hid).symm hLid
      · cases hid
  handed {id c'} hmem := by
    rw [Memo.context?_cons]
    simp only [List.mem_append, List.mem_singleton] at hmem
    rcases hmem with (hmem | hmem) | hmem
    · -- What was handed out before is not this layer, which the memo did not hold.
      have hsome := h.handed hmem
      have hne : L.id ≠ id := by
        intro heq
        rw [← heq, miss] at hsome
        cases hsome
      rw [if_neg hne]
      exact hsome
    · exact absurd hmem (hhanded id c')
    · cases hmem
      exact if_pos rfl
  given {id c'} hsome := by
    rw [Memo.context?_cons] at hsome
    by_cases hLid : L.id = id
    · rw [if_pos hLid] at hsome
      cases hsome
      rw [← hLid]
      exact List.mem_append_right _ List.mem_cons_self
    · rw [if_neg hLid] at hsome
      exact List.mem_append_left _ (List.mem_append_left _ (h.given hsome))
  ran {info key e c'} hM hsome := by
    rw [Memo.context?_cons] at hsome
    by_cases hLid : L.id = info.id
    · -- The number is that of the layer, so the layer is the effect in question.
      rw [if_pos hLid] at hsome
      cases hsome
      have hbuild := hR L (.build info key e) hL hM hLid
      rcases hran info key e hbuild with ⟨env, v, hmem, hc⟩
      exact ⟨env, v, List.mem_append_left _ (List.mem_append_right _ hmem), hc⟩
    · rw [if_neg hLid] at hsome
      rcases h.ran hM hsome with ⟨env, v, hmem, hc⟩
      exact ⟨env, v, List.mem_append_left _ (List.mem_append_left _ hmem), hc⟩
  closed {M N} hM hsome hN := by
    -- What the layer is put together from was in the memo before the layer is.
    have hbefore : (memo.context? N.id).isSome := by
      rw [Memo.context?_cons] at hsome
      by_cases hLid : L.id = M.id
      · have hLM := hR L M hL hM hLid
        exact inner N (hLM ▸ hN)
      · rw [if_neg hLid] at hsome
        exact h.closed hM hsome hN
    rw [Memo.context?_cons]
    by_cases hLN : L.id = N.id
    · rw [if_pos hLN]
      rfl
    · rw [if_neg hLN]
      exact hbefore

/-- How the memo has grown when the services of a layer are stored. -/
theorem Grown.store {R L : Layer σ} {memo memo₁ : Memo} (h : Grown L.children memo memo₁)
    (hR : R.Numbered) (hL : Within L R) (miss : memo.context? L.id = none) (c : Context) :
    memo₁.context? L.id = none ∧ Grown [L] memo ((L.id, c.toValue) :: memo₁) := by
  have hmiss : memo₁.context? L.id = none := by
    -- Whatever has been added takes part in a child, so its number is another one.
    rcases hlook : memo₁.context? L.id with _ | c'
    · rfl
    · rcases h.adds miss (Option.isSome_iff_exists.2 ⟨c', hlook⟩) with ⟨N, hN, M, hM, hid⟩
      exact absurd hid ((hR.within hL).id_ne hN hM)
  refine ⟨hmiss, ?_, ?_, ?_⟩
  · intro id c' hsome
    have hne : L.id ≠ id := by
      intro heq
      rw [← heq, miss] at hsome
      cases hsome
    rw [Memo.context?_cons, if_neg hne]
    exact h.keeps hsome
  · intro M hM
    rcases List.mem_singleton.1 hM with rfl
    rw [Memo.context?_cons, if_pos rfl]
    rfl
  · intro id hnone hsome
    by_cases hid : L.id = id
    · exact ⟨L, List.mem_cons_self, L, .self, hid⟩
    · rw [Memo.context?_cons, if_neg hid] at hsome
      rcases h.adds hnone hsome with ⟨N, hN, M, hM, hMid⟩
      exact ⟨L, List.mem_cons_self, M, .child hN hM, hMid⟩

/-- A layer that the memo holds is handed out once more. -/
theorem Account.reuse {R L : Layer σ} {memo : Memo} {t : List (Happening σ)} {c : Context}
    (h : Account R memo t) (hit : memo.context? L.id = some c) (names : List String) :
    Account R memo (t ++ [.reused names, .handed L.id c]) ∧ Grown [L] memo memo := by
  constructor
  · refine { toTally := h.toTally.append rfl, stored := ?_, handed := ?_, given := ?_,
             ran := ?_, closed := h.closed }
    · intro id hid
      rw [starts_append] at hid
      rcases List.mem_append.1 hid with hid | hid
      · exact h.stored id hid
      · cases hid
    · intro id c' hmem
      rcases List.mem_append.1 hmem with hmem | hmem
      · exact h.handed hmem
      -- What is handed out here is what the memo holds.
      · rcases List.mem_cons.1 hmem with hmem | hmem
        · cases hmem
        · cases List.mem_singleton.1 hmem
          exact hit
    · intro id c' hsome
      exact List.mem_append_left _ (h.given hsome)
    · intro info key e c' hM hsome
      rcases h.ran hM hsome with ⟨env, v, hmem, hc⟩
      exact ⟨env, v, List.mem_append_left _ hmem, hc⟩
  · refine ⟨fun h => h, ?_, ?_⟩
    · intro M hM
      rcases List.mem_singleton.1 hM with rfl
      rw [hit]
      rfl
    · intro id hnone hsome
      rw [hnone] at hsome
      cases hsome

section Accounting

variable {settings : Settings} {outside : Outside σ} {R : Layer σ}

/-- One building behind another accounts for the layers of both. -/
theorem accounts_then {Ls Ks : List (Layer σ)} {b : Building σ} {k : Context → Building σ}
    (hb : Accounts R Ls b) (hk : ∀ c, Accounts R Ks (k c)) :
    Accounts R (Ls ++ Ks) (.Then b k) := by
  intro memo t₀ env w t r w' h run
  cases run with
  | @ready _ _ _ t₁ c memo₁ w₁ t₂ r _ one two =>
      -- The second building goes on with the account that the first one leaves.
      have first := hb h one
      have second := hk c first.1 two
      cases r with
      | ready c' memo₂ =>
          rw [← List.append_assoc]
          exact ⟨second.1, first.2.append second.2⟩
      | stopped cause =>
          rw [← List.append_assoc]
          exact second
  | stopped one => exact hb h one

/-- To convert a failure starts nothing. -/
theorem accounts_converting {Ls : List (Layer σ)} {b : Building σ}
    (f : Value → Act σ Value) (hb : Accounts R Ls b) : Accounts R Ls (.Converting b f) := by
  intro memo t₀ env w t r w' h run
  cases run with
  | ready one => exact hb h one
  | fail one =>
      have tally := hb h one
      rw [← List.append_assoc]
      exact tally.append rfl
  | die one => exact hb h one

/-- A layer that is no effect keeps the account if its building keeps it for what the
    layer is put together from. -/
theorem accounts_whole (hR : R.Numbered) {L : Layer σ} {b : Building σ} (hL : Within L R)
    (hno : ∀ info key e, L ≠ .build info key e) (hb : Accounts R L.children b) :
    Accounts R [L] (.Remembering L.info b) := by
  intro memo t₀ env w t r w' h run
  cases run with
  | reused hit => exact h.reuse hit _
  | @kept _ _ _ t c memo₁ _ miss one =>
      have inner := hb h one
      have grown := inner.2.store hR hL miss c
      refine ⟨?_, grown.2⟩
      rw [← List.append_assoc]
      -- Since its parts are built, nothing more has happened for the layer itself.
      have stored := @Account.store _ R L memo₁ (t₀ ++ t) [] c inner.1 hR hL grown.1
        inner.2.holds (by rw [List.append_nil]; exact inner.1.toTally)
        (fun _ hid => by cases hid) (fun _ _ hmem => by cases hmem)
        (fun info key e heq => absurd heq (hno info key e))
      rwa [List.append_nil] at stored
  | stopped miss one => exact hb h one

/-- A layer that is an effect keeps the account: the effect is started if the memo does
    not hold the layer, and then it never was before. -/
theorem accounts_leaf (hR : R.Numbered) {info : LayerInfo} {key : ServiceKey} {e : Effect σ}
    (hL : Within (.build info key e) R) :
    Accounts R [.build info key e]
      (.Remembering info (.Runs settings outside info.id key e)) := by
  intro memo t₀ env w t r w' h run
  cases run with
  | reused hit => exact h.reuse (L := .build info key e) hit _
  | @kept _ _ _ t c memo₁ _ miss one =>
      cases one with
      | @ready _ _ _ v _ run =>
          -- An effect is put together from nothing, so the memo is the one from before.
          have grown := @Grown.store _ R (.build info key e) memo memo (.nothing memo) hR hL
            miss (Context.single key v)
          refine ⟨?_, grown.2⟩
          rw [← List.append_assoc]
          refine @Account.store _ R (.build info key e) memo t₀
            [.started info.id key e env (.success v)] _ h hR hL miss
            (fun _ hN => by cases hN) (h.tally_started hL miss env _) ?_ ?_ ?_
          · exact fun id hid => List.mem_singleton.1 hid
          · exact fun id c' hmem => by cases List.mem_singleton.1 hmem
          · rintro _ _ _ ⟨⟩
            exact ⟨env, v, List.mem_cons_self, rfl⟩
  | stopped miss one =>
      cases one with
      | stopped run => exact h.tally_started hL miss env _

/-- Every layer keeps the account. -/
theorem accounts_building (hR : R.Numbered) :
    Accounts R [R] (R.building settings outside .Remembering) := by
  -- One case for each way a building is put together; only leaves and whole layers look at the
  -- memo.
  refine building_induct settings outside .Remembering (R := R) (P := Accounts R)
    ?done ?next ?inside ?converting ?leaf ?whole R .self
  case done =>
      intro c memo t₀ env w t r w' h run
      cases run
      rw [List.append_nil]
      exact ⟨h, .nothing memo⟩
  case next => exact fun hb hk => accounts_then hb hk
  case inside =>
      intro _ b services hb memo t₀ env w t r w' h run
      exact hb h run
  case converting => exact fun f hb => accounts_converting f hb
  case leaf => exact fun info key e hL => accounts_leaf hR hL
  case whole => exact fun L hL hno hb => accounts_whole hR hL hno hb

end Accounting

/-- What a build keeps with regard to how often layers are built. -/
structure Once (L : Layer σ) (t : List (Happening σ)) (r : Finish) : Prop where
  /-- No effect of a layer was started twice, however the build finished. -/
  atMostOnce : (starts t).Nodup
  /-- Only effects of layers were started that take part. -/
  onlyParts : ∀ {id key e env x}, .started id key e env x ∈ t →
    ∃ info, info.id = id ∧ Within (.build info key e) L
  /-- If there are services in the end, every effect that takes part was started exactly
      once, and what it succeeded with is what was handed to everybody. -/
  exactlyOnce : ∀ {services memo}, r = .ready services memo →
    ∀ {info key e}, Within (.build info key e) L →
      (starts t).count info.id = 1 ∧
      ∃ env v, .started info.id key e env (.success v) ∈ t ∧
        ∀ {c}, .handed info.id c ∈ t → c = Context.single key v
  /-- If there are services in the end, every layer that takes part was handed out, and
      all who got it got the same services. -/
  oneForAll : ∀ {services memo}, r = .ready services memo →
    ∀ {M}, Within M L → ∃ c, .handed M.id c ∈ t ∧ ∀ {c'}, .handed M.id c' ∈ t → c' = c

/-- A build that starts from an empty memo and builds no layer twice. -/
def BuildsOnce (settings : Settings) (outside : Outside σ) (L : Layer σ) (env : Context)
    (w : World σ) (r : Finish) (w' : World σ) : Prop :=
  ∃ t, L.building settings outside .Remembering [] env w t r w' ∧
    Course settings outside w t w' ∧ L.Once t r

/-- Before anything has happened, an empty memo is accounted for. -/
theorem account_nil (R : Layer σ) : Account R [] [] where
  nodup := List.nodup_nil
  known h := by cases h
  stored _ h := by cases h
  handed h := by cases h
  given h := by cases h
  ran _ h := by cases h
  closed _ h := by cases h

/-- A memo that holds a layer holds all that takes part in it. -/
theorem Account.holds {R L M : Layer σ} {memo : Memo} {t : List (Happening σ)}
    (h : Account R memo t) (hM : Within M L) (hL : Within L R)
    (hsome : (memo.context? L.id).isSome) : (memo.context? M.id).isSome := by
  induction hM with
  | self => exact hsome
  | child mem _ ih => exact ih ((Within.ofChild mem).trans hL) (h.closed hL hsome mem)

section Builds

variable {settings : Settings} {outside : Outside σ} {L : Layer σ} {env : Context}
  {w w' : World σ} {x : Outcome}

/-- Every layer is built once, if it is built at all. -/
theorem buildsOnce_of_building (hL : L.Numbered) {t : List (Happening σ)} {r : Finish}
    (h : L.building settings outside .Remembering [] env w t r w') :
    L.BuildsOnce settings outside env w r w' := by
  refine ⟨t, h, course_building L h, ?_⟩
  have account := accounts_building hL (account_nil L) h
  cases r with
  | stopped cause =>
      exact ⟨account.nodup, account.known, fun heq => (by cases heq), fun heq => (by cases heq)⟩
  | ready services memo =>
      rcases account with ⟨account, grown⟩
      have held : ∀ {M}, Within M L → ∃ c, memo.context? M.id = some c := fun hM =>
        Option.isSome_iff_exists.1
          (account.holds hM .self (grown.holds L List.mem_cons_self))
      -- The memo only ever gets larger, so whatever was handed out it still holds.
      have same : ∀ {id c c'}, memo.context? id = some c → .handed id c' ∈ t → c' = c := by
        intro id c c' hc hmem
        have hc' := account.handed hmem
        rw [hc] at hc'
        exact (Option.some.inj hc').symm
      refine ⟨account.nodup, account.known, ?_, ?_⟩
      · intro _ _ _ info key e hM
        rcases held hM with ⟨c, hc⟩
        rcases account.ran hM hc with ⟨env', v, hmem, rfl⟩
        have hstart : info.id ∈ starts t := mem_starts.2 ⟨key, e, env', _, hmem⟩
        exact ⟨account.nodup.count.trans (if_pos hstart), env', v, hmem, same hc⟩
      · intro _ _ _ M hM
        rcases held hM with ⟨c, hc⟩
        exact ⟨c, account.given hc, same hc⟩

/-- However a layer has been made, every run of its build, on its own, for an effect that
    gets its services, or after another run of the same build, starts from an empty memo
    and builds no layer twice. If it succeeds, it has built every layer once. -/
theorem layers_build_once {made : List (Layer σ)} (h : Made made) (hL : L ∈ made) :
    (L.built.Ends settings outside env w x w' →
      ∃ r, L.BuildsOnce settings outside env w r w' ∧ x = r.exit) ∧
    (∀ (source : Effect σ) (into : Value → Act σ Value),
      (source.provideLayer L into).Ends settings outside env w x w' →
      ∃ r w₁, L.BuildsOnce settings outside env w r w₁ ∧
        match r with
        | .ready c _ => source.Ends settings outside (env.merge c) w₁ x w'
        | .stopped (.fail e) =>
          x = .ofCause (converted (w₁.guarded (into e)).1) ∧ w' = (w₁.guarded (into e)).2
        | .stopped (.die d) => x = .die d ∧ w' = w₁) ∧
    ((L.built.zipRight L.built).Ends settings outside env w x w' →
      ∃ r w₁, L.BuildsOnce settings outside env w r w₁ ∧
        match r with
        | .ready _ _ => ∃ r₂, L.BuildsOnce settings outside env w₁ r₂ w' ∧ x = r₂.exit
        | .stopped cause => x = .ofCause cause ∧ w' = w₁) := by
  have hnum := h.numbered hL
  refine ⟨?_, ?_, ?_⟩
  · intro hrun
    rcases (ends_built L).1 hrun with ⟨t, r, hb, hx⟩
    exact ⟨r, buildsOnce_of_building hnum hb, hx⟩
  · intro source into hrun
    rcases (ends_provideLayer source L into).1 hrun with ⟨t, r, w₁, hb, hx⟩
    exact ⟨r, w₁, buildsOnce_of_building hnum hb, hx⟩
  · intro hrun
    -- Two builds in one program are two runs, each with an empty memo of its own.
    rcases evaluates_flatMap_pure.1 (ends_iff_evaluates.1 hrun) with ⟨y, w₁, hfirst, hx⟩
    rcases (ends_built L).1 (ends_iff_evaluates.2 hfirst) with ⟨t, r, hb, rfl⟩
    refine ⟨r, w₁, buildsOnce_of_building hnum hb, ?_⟩
    cases r with
    | ready c memo =>
        rcases (ends_built L).1 (ends_iff_evaluates.2 hx) with ⟨t₂, r₂, hb₂, hx⟩
        exact ⟨r₂, buildsOnce_of_building hnum hb₂, hx⟩
    | stopped cause => cases cause <;> exact hx

end Builds

/-- Two copies of a service that counts how often it is built: it is built once, and both
    are copies of the same. -/
theorem sample_builds_once :
    Made (Sample.history Sample.counted) ∧
      ∃ r, (Sample.app Sample.counted).BuildsOnce ⟨.sync, false⟩ .nobody Context.empty
        ⟨0, 0, #[]⟩ r
        ⟨1, 0, #[.buildingLayer "Base", .buildingLayer "Left", .layerReused ["Base"],
          .buildingLayer "Right"]⟩ ∧
        r.exit = .success (Sample.both (.int 1) (.int 1)).toValue := by
  have made := Sample.made_history Sample.counted
  rcases (layers_build_once made List.mem_cons_self).1
    (ends_of_runSync Sample.runSync_app_counted (fun h => by cases h)) with ⟨r, hr, hx⟩
  exact ⟨made, r, hr, hx.symm⟩

end Layer

end EffectKernel
