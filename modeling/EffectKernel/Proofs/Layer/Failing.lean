import EffectKernel.Proofs.Layer.Aborting
import EffectKernel.Proofs.Rounds

/-!
# Failing Layers

What becomes of a build in which some effect does not succeed, and of an effect that would have got
the services. The first effect that does not succeed settles the build: no other one is started, and
its failure is handed to the functions at its site, or its defect is what the build ends in. The
effect that would have got the services is not run.

If this is tried again, it matters what is tried again. An attempt at an effect with its layer is a
whole build each time, and nothing of an earlier attempt is used. If only the effect is tried again,
the layer is built before the first attempt, and all attempts get the same services.

## Main definitions

* `calls`: The functions that failures were handed to.
* `Layer.Succeeds`: A build has succeeded.
* `Layer.Stops`, `Layer.Aborts`: An effect has not succeeded, and what becomes of the build then.
* `Layer.Supplies`: Something is run among the services of a layer.
* `Retried`: Something is tried again after each failure.
* `Layer.AbortsOnFailure`: The first effect that does not succeed settles the build.

## Theorems

* `ends_retry`: What an effect comes to that is tried again.
* `Layer.failing_layer_aborts`: The first effect that does not succeed settles the whole build.
-/

namespace EffectKernel

variable {σ : Type}

/-- The function that a failure was handed to, if one was. -/
def Happening.called? : Happening σ → Option (Value → Act σ Value)
  | .converted f _ => some f
  | _ => none

/-- The functions that failures were handed to, in order. -/
def calls (t : List (Happening σ)) : List (Value → Act σ Value) :=
  t.filterMap Happening.called?

@[simp] theorem calls_append (t₁ t₂ : List (Happening σ)) :
    calls (t₁ ++ t₂) = calls t₁ ++ calls t₂ :=
  List.filterMap_append

/-! ### Trying again -/

/-- Something is tried, and tried again after each failure while a schedule allows it. What it is
    that is tried takes one world to another. -/
inductive Retried (settings : Settings) (outside : Outside σ) (s : Schedule)
    (attempt : World σ → Outcome → World σ → Prop) :
    ScheduleState → UInt32 → World σ → Outcome → World σ → Prop
  /-- It has not failed. -/
  | enough {state number w x w'} (tried : attempt w x w') (noFailure : x.isFail = false) :
      Retried settings outside s attempt state number w x w'
  /-- It has failed, and the schedule is spent. -/
  | exhausted {state number w e w'} (tried : attempt w (.fail e) w')
      (spent : s.step state = .stop) :
      Retried settings outside s attempt state number w (.fail e)
        (w'.report (.scheduleExhausted number))
  /-- It has failed, and is tried again when the wait is over. -/
  | again {state number w e w₁ delay next w₂ x w'} (tried : attempt w (.fail e) w₁)
      (decision : s.step state = .again delay next)
      (passes : outside.Passes settings delay (w₁.report (.retrying number delay)) w₂)
      (rest : Retried settings outside s attempt next (saturatingSucc number) w₂ x w') :
      Retried settings outside s attempt state number w x w'

section Retrying

open Machine

variable {settings : Settings} {outside : Outside σ} {s : Schedule} {state : ScheduleState}
  {number : UInt32} {source : Effect σ} {env env' : Context} {w w' : World σ} {x : Outcome}

/-- A source that is tried again is judged by whether it has failed. -/
theorem judges_retry {verdict : Except Defect Bool} :
    Judges .retry none x w verdict w' ↔ verdict = .ok x.isFail ∧ w' = w := by
  constructor
  · intro judges
    -- Without a filter a failure asks for one more attempt, and nothing else does.
    cases judges with
    | failure _ _ failed =>
        rw [failed]
        exact ⟨rfl, rfl⟩
    | tested _ some => cases some
    | success repeating => cases repeating
    | otherwise noFailure =>
        rw [noFailure rfl]
        exact ⟨rfl, rfl⟩
  · rintro ⟨rfl, rfl⟩
    cases x with
    | fail e => exact .failure rfl rfl rfl
    | success v | die d => exact .otherwise (fun _ => rfl) nofun

/-- From any attempt on, an effect that is tried again goes through attempts. -/
theorem retried_of_completes {n : Nat} (run : Completes settings outside [] n
      ((Code.recurring ⟨source, s, state, .retry, none, number⟩).machine env []) w x env' w') :
    Retried settings outside s (source.Ends settings outside env) state number w x w' := by
  induction n using Nat.strongRecOn generalizing state number w with
  | ind n ih =>
    -- What is left behind an attempt is a shorter run of the same kind.
    rcases completes_source.1 run with ⟨n₁, n₂, y, w₁, rfl, first, second⟩
    have tried : source.Ends settings outside env w y w₁ := ⟨env, n₁, first⟩
    rcases completes_judged.1 second with ⟨rfl, rfl, settles⟩ |
      ⟨m, delay, next, w₂, w₃, rfl, judged, decision, passes, rest⟩
    · cases settles with
      | enough judged =>
          obtain ⟨same, rfl⟩ := judges_retry.1 judged
          exact .enough tried (Except.ok.inj same).symm
      | panic judged => cases (judges_retry.1 judged).1
      | exhausted judged spent =>
          obtain ⟨same, rfl⟩ := judges_retry.1 judged
          cases x with
          | fail e => exact .exhausted tried spent
          | success v | die d => cases same
    · obtain ⟨same, rfl⟩ := judges_retry.1 judged
      cases y with
      | fail e => exact .again tried decision passes (ih m (by omega) rest)
      | success v | die d => cases same

/-- Attempts are a run of an effect that is tried again. -/
theorem completes_of_retried
    (retried : Retried settings outside s (source.Ends settings outside env) state number w x w') :
    ∃ n, Completes settings outside [] n
      ((Code.recurring ⟨source, s, state, .retry, none, number⟩).machine env []) w x env w' := by
  -- An attempt puts back the services that it began among.
  have run {w x w'} (tried : source.Ends settings outside env w x w') :
      ∃ n, Completes settings outside [] n (Machine.start source env) w x env w' := by
    obtain ⟨env', n, run⟩ := tried
    obtain rfl := env_of_completes run
    exact ⟨n, run⟩
  induction retried with
  | @enough _ _ _ x w' tried noFailure =>
      obtain ⟨n, first⟩ := run tried
      have judged : Judges .retry none x w' (.ok false) w' :=
        judges_retry.2 ⟨congrArg Except.ok noFailure.symm, rfl⟩
      exact ⟨_, completes_source.2 ⟨n, 1, _, _, rfl, first,
        completes_judged.2 (.inl ⟨rfl, rfl, .enough judged⟩)⟩⟩
  | @exhausted _ _ _ e w' tried spent =>
      obtain ⟨n, first⟩ := run tried
      have judged : Judges .retry none (.fail e) w' (.ok true) w' := judges_retry.2 ⟨rfl, rfl⟩
      exact ⟨_, completes_source.2 ⟨n, 1, _, _, rfl, first,
        completes_judged.2 (.inl ⟨rfl, rfl, .exhausted judged spent⟩)⟩⟩
  | @again _ _ _ e w₁ _ _ _ _ _ tried decision passes rest ih =>
      obtain ⟨n, first⟩ := run tried
      obtain ⟨k, others⟩ := ih
      have judged : Judges .retry none (.fail e) w₁ (.ok true) w₁ := judges_retry.2 ⟨rfl, rfl⟩
      exact ⟨_, completes_source.2 ⟨n, k + 1, _, _, rfl, first, completes_judged.2
        (.inr ⟨k, _, _, _, _, rfl, judged, decision, passes, others⟩)⟩⟩

/-- What an effect comes to that is tried again: the schedule begins at its beginning, and attempts
    are counted from one. -/
theorem ends_retry :
    (source.retry s).Ends settings outside env w x w' ↔
      Retried settings outside s (source.Ends settings outside env) s.initial (countAt 1) w x
        w' := by
  have begun : Machine.step settings (Machine.start (source.retry s) env) w =
    (.next ((Code.recurring ⟨source, s, s.initial, .retry, none, countAt 1⟩).machine env []), w) :=
    rfl
  constructor
  · rintro ⟨env', n, run⟩
    rcases completes_next run not_handing_eval begun with ⟨k, rfl, rest⟩
    exact retried_of_completes rest
  · intro retried
    obtain ⟨n, rest⟩ := completes_of_retried retried
    exact ⟨env, n + 1, .step not_handing_eval (.next begun) rest⟩

end Retrying

namespace Layer

section Definitions

variable (settings : Settings) (outside : Outside σ) (L : Layer σ) (env : Context) (w : World σ)

/-- Everything has been done that a layer's plan says, and all effects have succeeded. -/
def Succeeds (came : LayerId → Value) (t : List (Happening σ)) (w' : World σ) : Prop :=
  PlanRun settings outside came env w L.chores t none w'

/-- Everything has been done that the plan says before a site, and the effect there has not
    succeeded. This is why, and what has happened when it has ended. -/
def Stops (site : Site σ) (t : List (Happening σ)) (cause : Cause Value) (w₁ : World σ) : Prop :=
  ∃ came before after t₀ w₀, L.chores = before ++ .start site :: after ∧
    PlanRun settings outside came env w before t₀ none w₀ ∧
    site.Ends settings outside came env w₀ (.ofCause cause) w₁ ∧
    t = t₀ ++ [site.started came env (.ofCause cause)]

/-- A build is given up at the first effect that does not succeed. -/
inductive Aborts : List (Happening σ) → Cause Value → World σ → Prop
  /-- A failure is handed to the functions at the site. -/
  | fail {site t e w₁ t' cause w'} (stops : Stops settings outside L env w site t (.fail e) w₁)
      (passed : PassedOn site.maps e w₁ t' cause w') : Aborts (t ++ t') cause w'
  /-- A defect is not. -/
  | die {site t d w'} (stops : Stops settings outside L env w site t (.die d) w') :
      Aborts t (.die d) w'

/-- Something is run among the services of a layer, which is built for it. If the build is given up,
    it is not run; a failure is handed to a function then, and a defect is not. -/
inductive Supplies (run : Context → World σ → Outcome → World σ → Prop)
    (into : Value → Act σ Value) : Outcome → World σ → Prop
  | ready {came t w₁ x w'} (succeeds : Succeeds settings outside L env w came t w₁)
      (runs : run (env.merge (L.services came)) w₁ x w') : Supplies run into x w'
  | fail {t e w₁ t' cause w'} (aborts : Aborts settings outside L env w t (.fail e) w₁)
      (passed : PassedOn [into] e w₁ t' cause w') : Supplies run into (.ofCause cause) w'
  | die {t d w'} (aborts : Aborts settings outside L env w t (.die d) w') :
      Supplies run into (.die d) w'

/-- The first effect that does not succeed settles the whole build of a layer. -/
structure AbortsOnFailure : Prop where
  /-- The order of the sites is fixed by the layer, and no effect has two of them. -/
  sites_nodup : ((sites L.chores).map Site.id).Nodup
  /-- The effects at the sites are those in the layer. -/
  mem_sites : ∀ id, id ∈ (sites L.chores).map Site.id ↔
    ∃ info key e, Within (.build info key e) L ∧ info.id = id
  /-- The functions at a site are those on one way from there to the root. -/
  hasSite : ∀ site ∈ sites L.chores, L.HasSite site
  /-- A build succeeds with the services if all effects do, or it is given up. -/
  built : ∀ x w', L.built.Ends settings outside env w x w' ↔
    (∃ came t, L.Succeeds settings outside env w came t w' ∧
      x = .success (L.services came).toValue) ∨
    ∃ t cause, L.Aborts settings outside env w t cause w' ∧ x = .ofCause cause
  /-- What happens in a build, apart from services that are handed out, is what the plan says. -/
  happens : ∀ t r w', L.building settings outside .Remembering [] env w t r w' →
    match r with
    | .ready c _ =>
      ∃ came, L.Succeeds settings outside env w came (told t) w' ∧ c = L.services came
    | .stopped cause => L.Aborts settings outside env w (told t) cause w'
  /-- In a build that succeeds each effect was started once, and no function was called. -/
  succeeds : ∀ came t w', L.Succeeds settings outside env w came t w' →
    starts t = (sites L.chores).map Site.id ∧ calls t = []
  /-- In a build that is given up the effects up to some site were started, in order, and no other
      one. Only functions of that site were called. -/
  aborts : ∀ t cause w', L.Aborts settings outside env w t cause w' →
    ∃ before site after, sites L.chores = before ++ site :: after ∧
      starts t = (before ++ [site]).map Site.id ∧ calls t <+: site.maps
  /-- A defect is what the build ends in, and no function is called. -/
  dies : ∀ site t d w', L.Stops settings outside env w site t (.die d) w' →
    L.built.Ends settings outside env w (.die d) w' ∧ calls t = []
  /-- A failure goes through the functions at its site, the innermost one first, if none of them
      panics; and the build ends in the failure that comes out. -/
  fails : ∀ site t e w₁, L.Stops settings outside env w site t (.fail e) w₁ →
    (∀ f ∈ site.maps, ∀ e (w : World σ), ∃ e' w', w.guarded (f e) = (.ok e', w')) →
    ∃ t' e' w', PassedOn site.maps e w₁ t' (.fail e') w' ∧ calls (t ++ t') = site.maps ∧
      L.built.Ends settings outside env w (.fail e') w'
  /-- An effect that would have got the services is not run then. -/
  provides : ∀ (source : Effect σ) (into : Value → Act σ Value) x w',
    (source.provideLayer L into).Ends settings outside env w x w' ↔
      L.Supplies settings outside env w (source.Ends settings outside) into x w'
  /-- Tried again together with the layer, every attempt is a whole build, as if there had been none
      before. -/
  retried : ∀ (source : Effect σ) (into : Value → Act σ Value) (s : Schedule) x w',
    ((source.provideLayer L into).retry s).Ends settings outside env w x w' ↔
      Retried settings outside s
        (fun w => L.Supplies settings outside env w (source.Ends settings outside) into)
        s.initial (countAt 1) w x w'
  /-- Tried again on its own, one build comes before all attempts. -/
  retriedInside : ∀ (source : Effect σ) (into : Value → Act σ Value) (s : Schedule) x w',
    ((source.retry s).provideLayer L into).Ends settings outside env w x w' ↔
      L.Supplies settings outside env w
        (fun env => Retried settings outside s (source.Ends settings outside env)
          s.initial (countAt 1)) into x w'

end Definitions

end Layer

/-! ### What has been started and called -/

section Accounts

variable {settings : Settings} {outside : Outside σ} {came : LayerId → Value} {env : Context}
  {w w' : World σ} {t : List (Happening σ)} {chores : List (Chore σ)} {cause : Cause Value}
  {maps : List (Value → Act σ Value)} {e : Value}

/-- Where nothing was given up, the effects at all sites were started, in order, and no function was
    called. -/
theorem PlanRun.starts_eq (run : PlanRun settings outside came env w chores t none w') :
    starts t = (Layer.sites chores).map Site.id ∧ calls t = [] := by
  generalize same : (none : Option (Cause Value)) = r at run
  induction run with
  | nothing => exact ⟨rfl, rfl⟩
  | reused rest ih => exact ih same
  | @started _ site _ _ _ _ _ ends rest ih =>
      obtain ⟨others, uncalled⟩ := ih same
      exact ⟨congrArg (site.id :: ·) others, uncalled⟩
  | stopped givesUp => cases same

/-- Where something was given up, there is a site at which this was. -/
theorem planRun_some_iff :
    PlanRun settings outside came env w chores t (some cause) w' ↔
      ∃ before site after t₀ w₀ t', chores = before ++ .start site :: after ∧
        PlanRun settings outside came env w before t₀ none w₀ ∧
        site.GivesUp settings outside came env w₀ t' cause w' ∧ t = t₀ ++ t' := by
  constructor
  · intro run
    -- The result is made a variable for the induction on the run: the chore that stops it is the
    -- last one begun.
    generalize same : some cause = r at run
    induction run with
    | nothing => cases same
    | @reused _ names _ _ _ _ rest ih =>
        obtain ⟨before, site, after, t₀, w₀, t', rfl, done, givesUp, rfl⟩ := ih same
        exact ⟨.reuse names :: before, site, after, _, w₀, t', rfl, .reused done, givesUp, rfl⟩
    | @started _ first _ _ _ _ _ ends rest ih =>
        obtain ⟨before, site, after, t₀, w₀, t', rfl, done, givesUp, rfl⟩ := ih same
        exact ⟨.start first :: before, site, after, _, w₀, t', rfl, .started ends done, givesUp,
          rfl⟩
    | @stopped _ site _ _ _ _ givesUp =>
        cases same
        exact ⟨[], site, _, [], _, _, rfl, .nothing, givesUp, rfl⟩
  · rintro ⟨before, site, after, t₀, w₀, t', rfl, done, givesUp, rfl⟩
    exact planRun_append.2 (.inl ⟨t₀, w₀, t', rfl, done, .stopped givesUp⟩)

/-- Functions start no effects. They are called in order, all of them unless one panics. -/
theorem PassedOn.calls_eq (passed : PassedOn maps e w t cause w') :
    starts t = [] ∧ calls t <+: maps ∧ ((∃ e', cause = .fail e') → calls t = maps) := by
  induction passed with
  | out => exact ⟨rfl, List.prefix_rfl, fun _ => rfl⟩
  | @next f _ _ _ _ _ _ _ _ call rest ih =>
      obtain ⟨unstarted, some, all⟩ := ih
      exact ⟨unstarted, (List.prefix_cons_inj f).2 some, fun fail => congrArg (f :: ·) (all fail)⟩
  | @panic f maps _ _ _ _ call =>
      exact ⟨rfl, (List.prefix_cons_inj f).2 List.nil_prefix, fun ⟨_, same⟩ => (by cases same)⟩

/-- Functions that do not panic make a failure of a failure. -/
theorem exists_passedOn
    (calm : ∀ f ∈ maps, ∀ e (w : World σ), ∃ e' w', w.guarded (f e) = (.ok e', w'))
    (e : Value) (w : World σ) : ∃ t e' w', PassedOn maps e w t (.fail e') w' := by
  induction maps generalizing e w with
  | nil => exact ⟨[], e, w, .out⟩
  | cons f maps ih =>
      obtain ⟨e₁, w₁, call⟩ := calm f List.mem_cons_self e w
      obtain ⟨t, e', w', rest⟩ := ih (fun g mem => calm g (List.mem_cons_of_mem _ mem)) e₁ w₁
      exact ⟨_, e', w', .next call rest⟩

end Accounts

namespace Layer

section Whole

variable {settings : Settings} {outside : Outside σ} {L : Layer σ} {env : Context}
  {w w' : World σ} {t : List (Happening σ)} {cause : Cause Value}

/-- The two ways to say that a build is given up. -/
theorem aborts_iff :
    L.Aborts settings outside env w t cause w' ↔
      ∃ came, PlanRun settings outside came env w L.chores t (some cause) w' := by
  -- A run of the plan that stops is one that stops at some site, and the site gives up by a failure
  -- or by a defect.
  simp only [planRun_some_iff, Site.givesUp_iff]
  constructor
  · rintro (⟨⟨came, before, after, t₀, w₀, order, done, ends, rfl⟩, passed⟩ |
      ⟨came, before, after, t₀, w₀, order, done, ends, rfl⟩)
    · rw [List.append_assoc]
      exact ⟨came, before, _, after, t₀, w₀, _, order, done, .inl ⟨_, _, _, ends, passed, rfl⟩, rfl⟩
    · exact ⟨came, before, _, after, t₀, w₀, _, order, done, .inr ⟨_, ends, rfl, rfl⟩, rfl⟩
  · rintro ⟨came, before, site, after, t₀, w₀, t', order, done,
      ⟨e, w₁, t₁, ends, passed, rfl⟩ | ⟨d, ends, rfl, rfl⟩, rfl⟩
    · have whole := Aborts.fail ⟨came, before, after, t₀, w₀, order, done, ends, rfl⟩ passed
      rwa [List.append_assoc] at whole
    · exact .die ⟨came, before, after, t₀, w₀, order, done, ends, rfl⟩

/-- Before anything has been built, an empty memo is right. -/
theorem accords_nil (R : Layer σ) (came : LayerId → Value) : Accords R came [] [] :=
  fun _ _ => rfl

/-- No effect is started twice in a build. -/
theorem starts_nodup (numbered : L.Numbered) {r : Finish}
    (run : L.building settings outside .Remembering [] env w t r w') : (starts t).Nodup := by
  have account := accounts_building numbered (account_nil L) run
  cases r with
  | ready c memo => exact account.1.nodup
  | stopped cause => exact account.nodup

variable (settings outside) in
/-- A layer does what its plan says, on its own. -/
theorem runsPlan_whole (numbered : L.Numbered) (came : LayerId → Value) :
    Building.RunsPlan settings outside L came L.plan (L.services came)
      (L.building settings outside .Remembering) :=
  runsPlan_building numbered L .self

/-- What happens in a build. -/
theorem happens_of_building (numbered : L.Numbered) {r : Finish} :
    L.building settings outside .Remembering [] env w t r w' →
      match r with
      | .ready c _ =>
        ∃ came, L.Succeeds settings outside env w came (told t) w' ∧ c = L.services came
      | .stopped cause => L.Aborts settings outside env w (told t) cause w' := by
  intro run
  -- No effect was started twice, so it can be known from the beginning what comes of them.
  obtain ⟨came, tells⟩ := exists_tells (starts_nodup numbered run)
  have whole := runsPlan_whole settings outside numbered came
  have done := whole.does (accords_nil L came) run tells
  cases r with
  | ready c memo => exact ⟨came, done, (whole.leaves (accords_nil L came) run tells).1⟩
  | stopped cause => exact aborts_iff.2 ⟨came, done⟩

/-- A build that succeeds. -/
theorem building_of_succeeds (numbered : L.Numbered) {came : LayerId → Value}
    (succeeds : L.Succeeds settings outside env w came t w') :
    ∃ t' memo, L.building settings outside .Remembering [] env w t' (.ready (L.services came) memo)
      w' ∧ told t' = t := by
  have whole := runsPlan_whole settings outside numbered came
  obtain ⟨t', r, run, rfl, ready⟩ := whole.can (accords_nil L came) succeeds
  cases r with
  | stopped cause => cases ready
  | ready c memo =>
      obtain ⟨rfl, -⟩ := whole.leaves (accords_nil L came) run (tells_told.1 succeeds.tells)
      exact ⟨t', memo, run, rfl⟩

/-- A build that is given up. -/
theorem building_of_aborts (numbered : L.Numbered)
    (aborts : L.Aborts settings outside env w t cause w') :
    ∃ t', L.building settings outside .Remembering [] env w t' (.stopped cause) w' ∧
      told t' = t := by
  obtain ⟨came, run⟩ := aborts_iff.1 aborts
  have whole := runsPlan_whole settings outside numbered came
  obtain ⟨t', r, run, rfl, stopped⟩ := whole.can (accords_nil L came) run
  cases r with
  | ready c memo => cases stopped
  | stopped cause' =>
      cases stopped
      exact ⟨t', run, rfl⟩

/-- Up to where a build is given up, the effects at the sites were started, in order. -/
theorem Stops.starts_eq {site : Site σ} (stops : L.Stops settings outside env w site t cause w') :
    (∃ before after, sites L.chores = before ++ site :: after ∧
      starts t = (before ++ [site]).map Site.id) ∧ calls t = [] := by
  obtain ⟨came, before, after, t₀, w₀, order, done, -, rfl⟩ := stops
  obtain ⟨earlier, uncalled⟩ := done.starts_eq
  refine ⟨⟨sites before, sites after, ?_, ?_⟩, ?_⟩
  · rw [order, sites, List.filterMap_append]
    rfl
  · rw [starts_append, earlier, List.map_append]
    rfl
  · rw [calls_append, uncalled]
    rfl

/-- Where a build is given up, the effects up to some site were started, and only functions of that
    site were called. -/
theorem Aborts.starts_eq (aborts : L.Aborts settings outside env w t cause w') :
    ∃ before site after, sites L.chores = before ++ site :: after ∧
      starts t = (before ++ [site]).map Site.id ∧ calls t <+: site.maps := by
  cases aborts with
  | @fail site t e w₁ t' _ _ stops passed =>
      -- The functions begin no effect, and up to the site no function is called.
      obtain ⟨⟨before, after, order, started⟩, uncalled⟩ := stops.starts_eq
      obtain ⟨unstarted, called, -⟩ := passed.calls_eq
      refine ⟨before, site, after, order, ?_, ?_⟩
      · rw [starts_append, started, unstarted, List.append_nil]
      · rwa [calls_append, uncalled]
  | @die site _ _ _ stops =>
      obtain ⟨⟨before, after, order, started⟩, uncalled⟩ := stops.starts_eq
      refine ⟨before, site, after, order, started, ?_⟩
      rw [uncalled]
      exact List.nil_prefix

/-- How a build ends. -/
theorem ends_built_iff (numbered : L.Numbered) {x : Outcome} :
    L.built.Ends settings outside env w x w' ↔
      (∃ came t, L.Succeeds settings outside env w came t w' ∧
        x = .success (L.services came).toValue) ∨
      ∃ t cause, L.Aborts settings outside env w t cause w' ∧ x = .ofCause cause := by
  rw [ends_built]
  constructor
  · rintro ⟨t, r, run, rfl⟩
    -- The build with its memo is the plan carried out once, and conversely.
    have happens := happens_of_building numbered run
    cases r with
    | ready c memo =>
        obtain ⟨came, succeeds, rfl⟩ := happens
        exact .inl ⟨came, told t, succeeds, rfl⟩
    | stopped cause => exact .inr ⟨told t, cause, happens, rfl⟩
  · rintro (⟨came, t, succeeds, rfl⟩ | ⟨t, cause, aborts, rfl⟩)
    · obtain ⟨t', memo, run, -⟩ := building_of_succeeds numbered succeeds
      exact ⟨t', _, run, rfl⟩
    · obtain ⟨t', run, -⟩ := building_of_aborts numbered aborts
      exact ⟨t', _, run, rfl⟩

/-- How an effect ends that gets the services of a layer. -/
theorem ends_provideLayer_iff (numbered : L.Numbered) {source : Effect σ}
    {into : Value → Act σ Value} {x : Outcome} :
    (source.provideLayer L into).Ends settings outside env w x w' ↔
      L.Supplies settings outside env w (source.Ends settings outside) into x w' := by
  rw [ends_provideLayer]
  constructor
  · rintro ⟨t, r, w₁, run, ends⟩
    have happens := happens_of_building numbered run
    cases r with
    | ready c memo =>
        obtain ⟨came, succeeds, rfl⟩ := happens
        exact .ready succeeds ends
    | stopped cause =>
        cases cause with
        | fail e =>
            -- The conversion of the whole is one more function behind those of the site.
            obtain ⟨rfl, rfl⟩ := ends
            exact .fail happens (passedOn_singleton.2 ⟨rfl, rfl, rfl⟩)
        | die d =>
            obtain ⟨rfl, rfl⟩ := ends
            exact .die happens
  · intro supplies
    cases supplies with
    | ready succeeds ends =>
        obtain ⟨t', memo, run, -⟩ := building_of_succeeds numbered succeeds
        exact ⟨t', _, _, run, ends⟩
    | fail aborts passed =>
        obtain ⟨t', run, -⟩ := building_of_aborts numbered aborts
        obtain ⟨-, rfl, rfl⟩ := passedOn_singleton.1 passed
        exact ⟨t', _, _, run, rfl, rfl⟩
    | die aborts =>
        obtain ⟨t', run, -⟩ := building_of_aborts numbered aborts
        exact ⟨t', _, _, run, rfl, rfl⟩

end Whole

/-- The first effect that does not succeed settles the whole build, however the layer has been made.

    Every effect that takes part has one site, and with it the functions on one way from there to
    the root; the order of the sites is fixed by the layer alone, and for a graph it is the order
    that was found for its layers. A build goes through them. It succeeds with the services if all
    effects do, and then each was started once and no function was called. Otherwise it is given up
    at the first site where the effect does not succeed: the effects up to there have been started,
    in order, and no other one. If that ended in a defect, so does the build, and no function was
    called. If it ended in a failure, this goes through the functions at the site, the innermost one
    first; and if none of them panics, exactly these were called, and the build ends in the failure
    that comes out.

    An effect that would have got the services is not run then, and a failure is converted. If such
    an effect is tried again together with its layer, every attempt is a whole build, as if there
    had been none before; if it is tried again on its own, one build comes before all attempts. -/
theorem failing_layer_aborts {made : List (Layer σ)} (h : Made made) {L : Layer σ} (hL : L ∈ made)
    (settings : Settings) (outside : Outside σ) (env : Context) (w : World σ) :
    L.AbortsOnFailure settings outside env w := by
  have numbered := h.numbered hL
  have built {x w'} := @ends_built_iff σ settings outside L env w w' numbered x
  obtain ⟨nodup, mem, hasSite⟩ := sites_exactly numbered
  exact {
    sites_nodup := nodup
    mem_sites := mem
    hasSite := hasSite
    built := fun x w' => built
    happens := fun t r w' => happens_of_building numbered
    succeeds := fun came t w' => PlanRun.starts_eq
    aborts := fun t cause w' aborts => aborts.starts_eq
    dies := fun site t d w' stops =>
      ⟨built.2 (.inr ⟨t, _, .die stops, rfl⟩), stops.starts_eq.2⟩
    fails := by
      intro site t e w₁ stops calm
      obtain ⟨t', e', w', passed⟩ := exists_passedOn calm e w₁
      refine ⟨t', e', w', passed, ?_, built.2 (.inr ⟨_, _, .fail stops passed, rfl⟩)⟩
      rw [calls_append, stops.starts_eq.2, passed.calls_eq.2.2 ⟨e', rfl⟩]
      rfl
    provides := fun source into x w' => ends_provideLayer_iff numbered
    retried := by
      intro source into s x w'
      -- What is tried is the effect with its layer, in whatever world an attempt begins.
      have attempt : (source.provideLayer L into).Ends settings outside env =
          fun w => L.Supplies settings outside env w (source.Ends settings outside) into := by
        funext w x w'
        exact propext (ends_provideLayer_iff numbered)
      rw [ends_retry, attempt]
    retriedInside := by
      intro source into s x w'
      have again : (source.retry s).Ends settings outside = fun env =>
          Retried settings outside s (source.Ends settings outside env) s.initial (countAt 1) := by
        funext env w x w'
        exact propext ends_retry
      rw [ends_provideLayer_iff numbered, again] }

namespace Sample

/-- Says where a failure has been. -/
def marked (place : String) (e : Value) : Act Nat Value :=
  pure (.list [.text place, e])

/-- Fails, and counts how often it has been run. -/
def failing : Effect Nat :=
  .exit (Act.update fun n => (.fail (.int 7), n + 1))

/-- A layer that fails, met in two places with another function around each of them. -/
def marking : Layer Nat :=
  (Layer.merge ⟨9, [leftKey, rightKey], []⟩
    (copy 3 leftKey ((base failing).mapFailure 1 (marked "left")))
    (copy 6 rightKey ((base failing).mapFailure 2 (marked "right")))).mapFailure 10
      (marked "around")

/-- The layer can be made, one step after the other. -/
theorem made_marking : ∃ made, Made made ∧ marking ∈ made := by
  -- The failing base, marked on two ways; both branches are merged, and the whole is marked once
  -- more.
  have base : Made [base failing] :=
    .effect .nothing (fresh_of_ids [] 0 rfl (by decide)) baseKey failing
  have one := base.mapFailure (fresh_of_ids [0] 1 rfl (by decide)) List.mem_cons_self
    (marked "left")
  have two := one.mapFailure (fresh_of_ids [1, 0] 2 rfl (by decide))
    (List.mem_of_getElem? (i := 1) rfl) (marked "right")
  have left := made_copy [2, 1, 0] 3 leftKey two (List.mem_of_getElem? (i := 1) rfl) rfl
    (by decide) (by decide) (by decide)
  have right := made_copy [5, 4, 3, 2, 1, 0] 6 rightKey left (List.mem_of_getElem? (i := 3) rfl) rfl
    (by decide) (by decide) (by decide)
  have merged := Made.merge right (fresh_of_ids [8, 7, 6, 5, 4, 3, 2, 1, 0] 9 rfl (by decide))
    (List.mem_of_getElem? (i := 3) rfl) List.mem_cons_self rfl
  exact ⟨_, merged.mapFailure (fresh_of_ids [9, 8, 7, 6, 5, 4, 3, 2, 1, 0] 10 rfl (by decide))
    List.mem_cons_self (marked "around"), List.mem_cons_self⟩

end Sample

/-- The layer is met on the left side first, so this is where its failure goes through functions. -/
theorem sample_failing_layer_aborts :
    ∃ made, Made made ∧ Sample.marking ∈ made ∧ ∃ site t t',
      Sample.marking.Stops ⟨.sync, false⟩ .nobody Context.empty ⟨0, 0, #[]⟩ site t (.fail (.int 7))
        ⟨1, 0, #[.buildingLayer "Base"]⟩ ∧
      starts t = [0] ∧ calls (t ++ t') = [Sample.marked "left", Sample.marked "around"] ∧
      Sample.marking.built.Ends ⟨.sync, false⟩ .nobody Context.empty ⟨0, 0, #[]⟩
        (.fail (.list [.text "around", .list [.text "left", .int 7]]))
        ⟨1, 0, #[.buildingLayer "Base"]⟩ := by
  obtain ⟨made, history, mem⟩ := Sample.made_marking
  have settled := failing_layer_aborts history mem ⟨.sync, false⟩ .nobody Context.empty ⟨0, 0, #[]⟩
  have run : runSync 10 false Sample.failing Context.empty ⟨0, 0, #[.buildingLayer "Base"]⟩ =
      some (.fail (.int 7), ⟨1, 0, #[.buildingLayer "Base"]⟩) := rfl
  let site : Site Nat :=
    ⟨0, Sample.baseKey, Sample.failing, [], [Sample.marked "left", Sample.marked "around"]⟩
  have stops : Sample.marking.Stops ⟨.sync, false⟩ .nobody Context.empty ⟨0, 0, #[]⟩ site
      [site.started (fun _ => .null) Context.empty (.fail (.int 7))] (.fail (.int 7))
      ⟨1, 0, #[.buildingLayer "Base"]⟩ :=
    ⟨fun _ => .null, [], _, [], _, rfl, .nothing, ends_of_runSync run nofun, rfl⟩
  have calm : ∀ f ∈ site.maps, ∀ e (w : World Nat), ∃ e' w', w.guarded (f e) = (.ok e', w') := by
    intro f mem e w
    simp only [site, List.mem_cons, List.not_mem_nil, or_false] at mem
    rcases mem with rfl | rfl
    · exact ⟨_, w, rfl⟩
    · exact ⟨_, w, rfl⟩
  obtain ⟨t', e', w', passed, called, built⟩ := settled.fails site _ _ _ stops calm
  -- Both functions are called, and then there is none left.
  obtain _ | ⟨⟨⟩, _ | ⟨⟨⟩, ⟨⟩⟩⟩ := passed
  exact ⟨made, history, mem, site, _, _, stops, rfl, called, built⟩

end Layer

end EffectKernel
