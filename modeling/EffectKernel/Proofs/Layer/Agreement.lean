import EffectKernel.Proofs.Layer.Afresh

/-!
# A Memo and None

A build with a memo takes what was built for a layer in one place and uses it in all
others. The plain construction builds the layer where it stands, and in another place
other services may stand around it, so the two need not agree. They do as soon as no
layer comes to different services in two of its places, and nothing weaker can be asked
of the places one by one: where a layer does come to different services, whoever gets it
second gets what was built for another place.

For layers of pure effects the two constructions are followed side by side. Whatever the
memo holds was built in some place, and there the plain construction comes to the same;
where a layer is met again, the plain construction builds it once more and comes to what
the memo holds. Both leave the state of the program alone up to the point where they
fail, so the functions that a failure is handed to on its way out find the same state
and do the same.

## Main definitions

* `Layer.Coherent`: A layer comes to the same services wherever it stands.
* `Layer.Backed`: What a memo holds is what a layer comes to where it stands.
* `Layer.Agrees`: Two buildings, one of them with a memo, finish alike.

## Theorems

* `Layer.agrees_building`: A layer with a memo and one without finish alike.
* `Layer.memo_agrees_with_plain`: The build of a coherent layer ends as without a memo.
* `Layer.memo_differs_from_plain`: Of an incoherent layer it need not.
-/

namespace EffectKernel

namespace Layer

variable {σ : Type}

/-- A layer comes to the same services wherever it stands, and so does every layer that
    takes part in it. -/
def Coherent (settings : Settings) (outside : Outside σ) (L : Layer σ) (env : Context) :
    Prop :=
  ∀ {M env₁ env₂ c}, L.Occurs settings outside env M env₁ →
    L.Occurs settings outside env M env₂ →
      M.Gives settings outside env₁ c → M.Gives settings outside env₂ c

section Following

variable (settings : Settings) (outside : Outside σ) (R : Layer σ) (start : Context)

/-- What a memo holds is what some layer comes to where it stands. -/
def Backed (memo : Memo) : Prop :=
  ∀ {id c}, memo.context? id = some c → ∃ M env, M.id = id ∧
    R.Occurs settings outside start M env ∧ M.Gives settings outside env c

/-- An effect is started where its layer stands. -/
def InPlace : Happening σ → Prop
  | .started id key e env _ => ∃ info, info.id = id ∧
      R.Occurs settings outside start (.build info key e) env
  | _ => True

/-- Two finishes are alike, and so are the states of the program they leave. -/
def Alike : Finish → World σ → Finish → World σ → Prop
  | .ready c memo, w, .ready c' _, w' =>
    c = c' ∧ w.store = w'.store ∧ Backed settings outside R start memo
  | .stopped cause, w, .stopped cause', w' => cause = cause' ∧ w.store = w'.store
  | _, _, _, _ => False

/-- Two buildings, the first of them with a memo, finish alike among some services: each
    does whatever the other does. The first one starts effects only where they stand. -/
def Agrees (env : Context) (b a : Building σ) : Prop :=
  ∀ ⦃memo memo₂ w w₂⦄, Backed settings outside R start memo → w.store = w₂.store →
    (∀ ⦃t r w'⦄, b memo env w t r w' → (∀ h ∈ t, InPlace settings outside R start h) ∧
      ∃ t₂ r₂ w₂', a memo₂ env w₂ t₂ r₂ w₂' ∧ Alike settings outside R start r w' r₂ w₂') ∧
    ∀ ⦃t₂ r₂ w₂'⦄, a memo₂ env w₂ t₂ r₂ w₂' →
      ∃ t r w', b memo env w t r w' ∧ Alike settings outside R start r w' r₂ w₂'

end Following

section Agreeing

variable {settings : Settings} {outside : Outside σ} {R : Layer σ} {start env : Context}
  {b a : Building σ}

namespace Alike

variable {c : Context} {memo : Memo} {cause : Cause Value} {r : Finish} {w w' : World σ}

/-- What is like a build that is ready is ready with the same services. -/
theorem ready_left (h : Alike settings outside R start (.ready c memo) w r w') :
    ∃ memo', r = .ready c memo' ∧ w.store = w'.store ∧
      Backed settings outside R start memo := by
  cases r with
  | ready c' memo' =>
      rcases h with ⟨rfl, hstore, hmemo⟩
      exact ⟨memo', rfl, hstore, hmemo⟩
  | stopped cause => cases h

theorem ready_right (h : Alike settings outside R start r w (.ready c memo) w') :
    ∃ memo', r = .ready c memo' ∧ w.store = w'.store ∧
      Backed settings outside R start memo' := by
  cases r with
  | ready c' memo' =>
      rcases h with ⟨rfl, hstore, hmemo⟩
      exact ⟨memo', rfl, hstore, hmemo⟩
  | stopped cause => cases h

/-- What is like a build that is given up is given up for the same reason. -/
theorem stopped_left (h : Alike settings outside R start (.stopped cause) w r w') :
    r = .stopped cause ∧ w.store = w'.store := by
  cases r with
  | ready c memo => cases h
  | stopped cause' =>
      rcases h with ⟨rfl, hstore⟩
      exact ⟨rfl, hstore⟩

theorem stopped_right (h : Alike settings outside R start r w (.stopped cause) w') :
    r = .stopped cause ∧ w.store = w'.store := by
  cases r with
  | ready c memo => cases h
  | stopped cause' =>
      rcases h with ⟨rfl, hstore⟩
      exact ⟨rfl, hstore⟩

/-- Finishes that are alike are one exit, and leave one state of the program. -/
theorem exit {r₂ : Finish} (h : Alike settings outside R start r w r₂ w') :
    r.exit = r₂.exit ∧ w.store = w'.store := by
  cases r with
  | ready c memo =>
      rcases h.ready_left with ⟨memo', rfl, hstore, -⟩
      exact ⟨rfl, hstore⟩
  | stopped cause =>
      rcases h.stopped_left with ⟨rfl, hstore⟩
      exact ⟨rfl, hstore⟩

end Alike

/-- A context agrees with itself. -/
theorem agrees_done (c : Context) :
    Agrees settings outside R start env (.Done c) (.Done c) := by
  intro memo memo₂ w w₂ hmemo hstore
  constructor
  · intro t r w' run
    cases run
    exact ⟨fun _ h => (by cases h), _, _, _, Building.Done.ready, rfl, hstore, hmemo⟩
  · intro t₂ r₂ w₂' run
    cases run
    exact ⟨_, _, _, Building.Done.ready, rfl, hstore, hmemo⟩

theorem agrees_inside (services : Context)
    (h : Agrees settings outside R start (env.merge services) b a) :
    Agrees settings outside R start env (.Inside b services) (.Inside a services) := by
  intro memo memo₂ w w₂ hmemo hstore
  exact h hmemo hstore

theorem inPlace_append {t₁ t₂ : List (Happening σ)}
    (h₁ : ∀ h ∈ t₁, InPlace settings outside R start h)
    (h₂ : ∀ h ∈ t₂, InPlace settings outside R start h) :
    ∀ h ∈ t₁ ++ t₂, InPlace settings outside R start h := by
  intro h hmem
  rcases List.mem_append.1 hmem with hmem | hmem
  · exact h₁ h hmem
  · exact h₂ h hmem

/-- Buildings one behind the other agree. The second one has to be looked at only for services that
    the first may come to. -/
theorem agrees_then {k k' : Context → Building σ}
    (h : Agrees settings outside R start env b a)
    (hk : ∀ c, a.Builds env c → Agrees settings outside R start env (k c) (k' c)) :
    Agrees settings outside R start env (.Then b k) (.Then a k') := by
  intro memo memo₂ w w₂ hmemo hstore
  constructor
  · -- The second part is only looked at where the first one has come to services, and the
    -- plain one has then come to the same.
    intro t r w' run
    cases run with
    | ready one two =>
        rcases (h hmemo hstore).1 one with ⟨hplace₁, t₁, r₁, w₁, run₁, halike⟩
        rcases halike.ready_left with ⟨memo', rfl, hstore₁, hmemo₁⟩
        rcases (hk _ ⟨_, _, _, _, _, run₁⟩ hmemo₁ hstore₁).1 two with
          ⟨hplace₂, t₂, r₂, w₂', run₂, halike₂⟩
        exact ⟨inPlace_append hplace₁ hplace₂, _, r₂, w₂', .ready run₁ run₂, halike₂⟩
    | stopped one =>
        rcases (h hmemo hstore).1 one with ⟨hplace, t₁, r₁, w₁, run₁, halike⟩
        rcases halike.stopped_left with ⟨rfl, -⟩
        exact ⟨hplace, t₁, _, w₁, .stopped run₁, halike⟩
  · intro t₂ r₂ w₂' run
    cases run with
    | ready one two =>
        rcases (h hmemo hstore).2 one with ⟨t₁, r₁, w₁, run₁, halike⟩
        rcases halike.ready_right with ⟨memo', rfl, hstore₁, hmemo₁⟩
        rcases (hk _ ⟨_, _, _, _, _, one⟩ hmemo₁ hstore₁).2 two with ⟨t, r, w', run₂, halike₂⟩
        exact ⟨_, r, w', .ready run₁ run₂, halike₂⟩
    | stopped one =>
        rcases (h hmemo hstore).2 one with ⟨t₁, r₁, w₁, run₁, halike⟩
        rcases halike.stopped_right with ⟨rfl, -⟩
        exact ⟨t₁, _, w₁, .stopped run₁, halike⟩

/-- What a function does that is handed a failure is decided by the state of the
    program. -/
theorem guarded_congr {α : Type} {w w₂ : World σ} (act : Act σ α) (h : w.store = w₂.store) :
    (w.guarded act).1 = (w₂.guarded act).1 ∧
      (w.guarded act).2.store = (w₂.guarded act).2.store := by
  unfold World.guarded
  rw [h]
  rcases act.run w₂.store with ⟨_ | _, _⟩ <;> exact ⟨rfl, rfl⟩

/-- The same failures are converted. -/
theorem agrees_converting (f : Value → Act σ Value)
    (h : Agrees settings outside R start env b a) :
    Agrees settings outside R start env (.Converting b f) (.Converting a f) := by
  intro memo memo₂ w w₂ hmemo hstore
  constructor
  · intro t r w' run
    cases run with
    | ready one =>
        rcases (h hmemo hstore).1 one with ⟨hplace, t₁, r₁, w₁, run₁, halike⟩
        rcases halike.ready_left with ⟨memo', rfl, -⟩
        exact ⟨hplace, t₁, _, w₁, .ready run₁, halike⟩
    | @fail _ _ _ t e w₃ one =>
        rcases (h hmemo hstore).1 one with ⟨hplace, t₁, r₁, w₁, run₁, halike⟩
        rcases halike.stopped_left with ⟨rfl, hstore₁⟩
        -- The function is called on equal stores, so it converts alike.
        have hcall := guarded_congr (f e) hstore₁
        refine ⟨inPlace_append hplace fun h hmem => ?_, _, _, _, .fail run₁,
          congrArg converted hcall.1, hcall.2⟩
        cases List.mem_singleton.1 hmem
        trivial
    | die one =>
        rcases (h hmemo hstore).1 one with ⟨hplace, t₁, r₁, w₁, run₁, halike⟩
        rcases halike.stopped_left with ⟨rfl, -⟩
        exact ⟨hplace, t₁, _, w₁, .die run₁, halike⟩
  · intro t₂ r₂ w₂' run
    cases run with
    | ready one =>
        rcases (h hmemo hstore).2 one with ⟨t₁, r₁, w₁, run₁, halike⟩
        rcases halike.ready_right with ⟨memo', rfl, -⟩
        exact ⟨t₁, _, w₁, .ready run₁, halike⟩
    | @fail _ _ _ t e w₃ one =>
        rcases (h hmemo hstore).2 one with ⟨t₁, r₁, w₁, run₁, halike⟩
        rcases halike.stopped_right with ⟨rfl, hstore₁⟩
        have hcall := guarded_congr (f e) hstore₁
        exact ⟨_, _, _, .fail run₁, congrArg converted hcall.1, hcall.2⟩
    | die one =>
        rcases (h hmemo hstore).2 one with ⟨t₁, r₁, w₁, run₁, halike⟩
        rcases halike.stopped_right with ⟨rfl, -⟩
        exact ⟨t₁, _, w₁, .die run₁, halike⟩

/-- A pure effect ends alike wherever the state of the program is the same. -/
theorem agrees_runs {info : LayerInfo} {key : ServiceKey} {e : Effect σ}
    (hpure : e.IsPure settings outside)
    (hplace : R.Occurs settings outside start (.build info key e) env) :
    Agrees settings outside R start env (.Runs settings outside info.id key e)
      (.Runs settings outside info.id key e) := by
  intro memo memo₂ w w₂ hmemo hstore
  -- Neither run changes the state of the program, so the two states stay the same.
  have same : ∀ {w' w₂' x y},
      Evaluates settings outside (.effect e) (.of env)
        (w.report (.buildingLayer key.name)) x w' →
      Evaluates settings outside (.effect e) (.of env)
        (w₂.report (.buildingLayer key.name)) y w₂' →
      w'.store = w₂'.store := by
    intro w' w₂' x y run run₂
    exact (hpure.keeps_store run).trans (hstore.trans (hpure.keeps_store run₂).symm)
  constructor
  · intro t r w' run
    refine ⟨?_, ?_⟩
    · intro h hmem
      cases run with
      | ready run =>
          cases List.mem_singleton.1 hmem
          exact ⟨info, rfl, hplace⟩
      | stopped run =>
          cases List.mem_singleton.1 hmem
          exact ⟨info, rfl, hplace⟩
    · cases run with
      | ready run =>
          rcases hpure.elsewhere run (w₂.report (.buildingLayer key.name)) with ⟨w₂', run₂⟩
          exact ⟨_, _, w₂', .ready run₂, rfl, same run run₂, hmemo⟩
      | stopped run =>
          rcases hpure.elsewhere run (w₂.report (.buildingLayer key.name)) with ⟨w₂', run₂⟩
          exact ⟨_, _, w₂', .stopped run₂, rfl, same run run₂⟩
  · intro t₂ r₂ w₂' run
    cases run with
    | ready run =>
        rcases hpure.elsewhere run (w.report (.buildingLayer key.name)) with ⟨w', run'⟩
        exact ⟨_, _, w', .ready run', rfl, same run' run, hmemo⟩
    | stopped run =>
        rcases hpure.elsewhere run (w.report (.buildingLayer key.name)) with ⟨w', run'⟩
        exact ⟨_, _, w', .stopped run', rfl, same run' run⟩

/-- What the memo holds for a layer is what the layer comes to in any of its places. -/
theorem gives_of_hit (hR : R.Numbered) (coherent : R.Coherent settings outside start)
    {L : Layer σ} {memo : Memo} {c : Context} (hmemo : Backed settings outside R start memo)
    (hplace : R.Occurs settings outside start L env) (hit : memo.context? L.id = some c) :
    L.Gives settings outside env c := by
  rcases hmemo hit with ⟨M, env', hid, hplace', hgives⟩
  have hML := hR M L hplace'.within hplace.within hid
  subst hML
  exact coherent hplace' hplace hgives

/-- A memo stays backed when what a layer has come to is stored for it. -/
theorem backed_store {L : Layer σ} {memo : Memo} {c : Context}
    (hmemo : Backed settings outside R start memo)
    (hplace : R.Occurs settings outside start L env)
    (hgives : L.Gives settings outside env c) :
    Backed settings outside R start ((L.id, c.toValue) :: memo) := by
  intro id c' hsome
  rw [Memo.context?_cons] at hsome
  by_cases hid : L.id = id
  · rw [if_pos hid] at hsome
    cases hsome
    exact ⟨L, env, hid, hplace, hgives⟩
  · rw [if_neg hid] at hsome
    exact hmemo hsome

/-- A layer that is taken from the memo has there what it would come to if it were built here. This
    is where all places of a layer have to agree. -/
theorem agrees_remembering (hR : R.Numbered) (coherent : R.Coherent settings outside start)
    {L : Layer σ} (pure : L.IsPure settings outside)
    (hplace : R.Occurs settings outside start L env)
    (h : Agrees settings outside R start env b (L.building settings outside Building.anew)) :
    Agrees settings outside R start env (.Remembering L.info b)
      (L.building settings outside Building.anew) := by
  intro memo memo₂ w w₂ hmemo hstore
  constructor
  · intro t r w' run
    cases run with
    | reused hit =>
        -- The plain construction builds the layer once more and comes to the same.
        have hgives := gives_of_hit hR coherent hmemo hplace hit
        rcases (steady_anew pure ((gives_iff_builds pure).1 hgives) memo₂ w₂).1 with
          ⟨t₂, w₂', run₂, hstore₂⟩
        refine ⟨fun e he => ?_, t₂, _, w₂', run₂, rfl, hstore.trans hstore₂.symm, hmemo⟩
        rcases List.mem_cons.1 he with rfl | he
        · trivial
        · cases List.mem_singleton.1 he
          trivial
    | kept miss one =>
        -- What is stored is what the plain construction comes to in this place.
        rcases (h hmemo hstore).1 one with ⟨hin, t₁, r₁, w₁, run₁, halike⟩
        rcases halike.ready_left with ⟨memo', rfl, hstore₁, hmemo₁⟩
        have hgives := (gives_iff_builds pure).2 ⟨_, _, _, _, _, run₁⟩
        refine ⟨inPlace_append hin fun e he => ?_, t₁, _, w₁, run₁, rfl, hstore₁,
          backed_store hmemo₁ hplace hgives⟩
        cases List.mem_singleton.1 he
        trivial
    | stopped miss one =>
        rcases (h hmemo hstore).1 one with ⟨hin, t₁, r₁, w₁, run₁, halike⟩
        rcases halike.stopped_left with ⟨rfl, hstore₁⟩
        exact ⟨hin, t₁, _, w₁, run₁, rfl, hstore₁⟩
  · intro t₂ r₂ w₂' run
    -- Whether the memo holds the layer is not up to the plain construction.
    rcases hlook : memo.context? L.id with _ | c
    · rcases (h hmemo hstore).2 run with ⟨t₁, r₁, w₁, run₁, halike⟩
      cases r₁ with
      | ready c memo₁ =>
          rcases halike.ready_left with ⟨memo', rfl, hstore₁, hmemo₁⟩
          have hgives := (gives_iff_builds pure).2 ⟨_, _, _, _, _, run⟩
          exact ⟨_, _, w₁, .kept hlook run₁, rfl, hstore₁, backed_store hmemo₁ hplace hgives⟩
      | stopped cause =>
          rcases halike.stopped_left with ⟨rfl, hstore₁⟩
          exact ⟨_, _, w₁, .stopped hlook run₁, rfl, hstore₁⟩
    · have hgives := gives_of_hit hR coherent hmemo hplace hlook
      rcases (steady_anew pure ((gives_iff_builds pure).1 hgives) memo₂ w₂).2 run with
        ⟨rfl, hstore₂⟩
      exact ⟨_, _, _, .reused hlook, rfl, hstore.trans hstore₂.symm, hmemo⟩

/-- Layers in a row with a memo and without one finish alike. -/
theorem agrees_freshEach {info : LayerInfo} {before : List (Layer σ)} {sofar : Context}
    (hgathers : Gathers settings outside env before sofar) {layers : List (Layer σ)}
    (hplace : R.Occurs settings outside start (.sequence info (before ++ layers)) env)
    (pure : ∀ M ∈ layers, M.IsPure settings outside)
    (inner : ∀ M ∈ layers, ∀ env, R.Occurs settings outside start M env →
      Agrees settings outside R start env (M.building settings outside .Remembering)
        (M.building settings outside Building.anew)) :
    Agrees settings outside R start env
      (freshEach settings outside .Remembering layers sofar)
      (freshEach settings outside Building.anew layers sofar) := by
  -- The layers before count as built in their places, which says where the next one stands.
  induction layers generalizing before sofar with
  | nil => exact agrees_done sofar
  | cons L rest ih =>
      have hL := inner L List.mem_cons_self _ (.part hplace (.item hgathers))
      refine agrees_then (agrees_inside sofar hL) fun next hnext => ?_
      have hgives := (gives_iff_builds (pure L List.mem_cons_self)).2 hnext
      refine ih (.further hgathers hgives) ?_ (fun M hM => pure M (List.mem_cons_of_mem _ hM))
        (fun M hM => inner M (List.mem_cons_of_mem _ hM))
      rwa [List.append_assoc]

/-- A layer with a memo and one without finish alike, wherever it stands. -/
theorem agrees_building (hR : R.Numbered) (coherent : R.Coherent settings outside start)
    (pure : R.IsPure settings outside) (L : Layer σ) (env : Context)
    (hplace : R.Occurs settings outside start L env) :
    Agrees settings outside R start env (L.building settings outside .Remembering)
      (L.building settings outside Building.anew) := by
  -- By the layers inside. What a supplier or a left side gives is the environment at which the next
  -- one occurs.
  induction L using Layer.induct generalizing env with
  | step L ih =>
      have pureL : L.IsPure settings outside := pure.within hplace.within
      refine agrees_remembering hR coherent pureL hplace ?_
      cases L with
      | build info key e => exact agrees_runs (pureL .self) hplace
      | context info c => exact agrees_done c
      | provide info consumer supplier keep =>
          have hmem : supplier ∈ (Layer.provide info consumer supplier keep).children :=
            mem_children_provide.2 (Or.inl rfl)
          have hsupplier := ih supplier hmem env (.part hplace .supplier)
          refine agrees_then hsupplier fun above habove => ?_
          have hgives := (gives_iff_builds (pureL.within (.ofChild hmem))).2 habove
          have hconsumer := agrees_inside above (ih consumer
            (mem_children_provide.2 (Or.inr rfl)) _ (.part hplace (.consumer hgives)))
          cases keep with
          | true => exact agrees_then hconsumer fun below _ => agrees_done _
          | false => exact hconsumer
      | merge info left right =>
          have hmem : left ∈ (Layer.merge info left right).children :=
            mem_children_merge.2 (Or.inl rfl)
          refine agrees_then (ih left hmem env (.part hplace .left)) fun first hfirst => ?_
          have hgives := (gives_iff_builds (pureL.within (.ofChild hmem))).2 hfirst
          exact agrees_then (ih right (mem_children_merge.2 (Or.inr rfl)) env
            (.part hplace (.right hgives))) fun second _ => agrees_done _
      | sequence info layers =>
          exact agrees_freshEach .nothing hplace (fun M hM => pureL.within (.ofChild hM)) ih
      | mapError info inner f =>
          exact agrees_converting f (ih inner List.mem_cons_self env (.part hplace .inner))

/-- The build of a layer that has been made from pure effects ends as it would without a
    memo, if the layer comes to the same services wherever it stands and so do all that
    take part in it. Every effect is then started among services that one of the places
    of its layer gives it. -/
theorem memo_agrees_with_plain {made : List (Layer σ)} (h : Made made) {L : Layer σ}
    (hL : L ∈ made) {env : Context} (pure : L.IsPure settings outside)
    (coherent : L.Coherent settings outside env) :
    (∀ w x store,
      (∃ w', L.built.Ends settings outside env w x w' ∧ w'.store = store) ↔
        ∃ w', L.afresh.Ends settings outside env w x w' ∧ w'.store = store) ∧
    ∀ w t r w', L.building settings outside .Remembering [] env w t r w' →
      ∀ {id key e env' x}, .started id key e env' x ∈ t → ∃ info, info.id = id ∧
        L.Occurs settings outside env (.build info key e) env' := by
  -- An empty memo is backed by nothing, as no layer is in it.
  have hempty : Backed settings outside L env [] := fun hnone => by cases hnone
  have agrees := fun w =>
    @agrees_building σ settings outside L env (h.numbered hL) coherent pure L env .here
      [] [] w w hempty rfl
  refine ⟨fun w x store => ⟨?_, ?_⟩, ?_⟩
  · rintro ⟨w', hrun, rfl⟩
    rcases (ends_built L).1 hrun with ⟨t, r, hb, rfl⟩
    rcases ((agrees w).1 hb).2 with ⟨t₂, r₂, w₂', hb₂, halike⟩
    have hsame := halike.exit
    exact ⟨w₂', ends_afresh.2 ⟨t₂, r₂, hb₂, hsame.1⟩, hsame.2.symm⟩
  · rintro ⟨w₂', hrun, rfl⟩
    rcases ends_afresh.1 hrun with ⟨t₂, r₂, hb₂, rfl⟩
    rcases (agrees w).2 hb₂ with ⟨t, r, w', hb, halike⟩
    have hsame := halike.exit
    exact ⟨w', (ends_built L).2 ⟨t, r, hb, hsame.1.symm⟩, hsame.2⟩
  · intro w t r w' hb id key e env' x hmem
    exact ((agrees w).1 hb).1 _ hmem

end Agreeing

namespace Sample

variable {settings : Settings} {outside : Outside σ} {e : Effect σ} {env env' : Context}
  {M : Layer σ}

/-- Where the parts of a copy stand: the supplier where the copy stands, and the reading
    effect among what the supplier comes to. -/
theorem stands_copy {id : LayerId} {key : ServiceKey} {supplier : Layer σ}
    (h : Stands settings outside (copy id key supplier) env M env') :
    (M = supplier ∧ env' = env) ∨
      (M = needy id key ∧ ∃ above, supplier.Gives settings outside env above ∧
        env' = env.merge above) := by
  cases h with
  | supplier => exact Or.inl ⟨rfl, rfl⟩
  | consumer gives => exact Or.inr ⟨rfl, _, gives, rfl⟩

/-- Where the layers stand that two copies of one service are made of. -/
theorem occurs_app (h : (app e).Occurs settings outside env M env') :
    (env' = env ∧ M ∈ [app e, copy 1 leftKey (base e), copy 4 rightKey (base e), base e]) ∨
      ∃ above, (base e).Gives settings outside env above ∧ env' = env.merge above ∧
        M ∈ [needy 1 leftKey, needy 4 rightKey] := by
  -- One way down from the whole: the parts of a copy other than the consumer are at the same
  -- environment.
  induction h with
  | here => exact Or.inl ⟨rfl, by simp⟩
  | @part M env₁ N env₂ _ stands ih =>
      rcases ih with ⟨rfl, hM⟩ | ⟨above, -, rfl, hM⟩
      · simp only [List.mem_cons, List.not_mem_nil, or_false] at hM
        rcases hM with rfl | rfl | rfl | rfl
        · cases stands with
          | left => exact Or.inl ⟨rfl, by simp⟩
          | right gives => exact Or.inl ⟨rfl, by simp⟩
        · rcases stands_copy stands with ⟨rfl, rfl⟩ | ⟨rfl, above, hgives, rfl⟩
          · exact Or.inl ⟨rfl, by simp⟩
          · exact Or.inr ⟨above, hgives, rfl, by simp⟩
        · rcases stands_copy stands with ⟨rfl, rfl⟩ | ⟨rfl, above, hgives, rfl⟩
          · exact Or.inl ⟨rfl, by simp⟩
          · exact Or.inr ⟨above, hgives, rfl, by simp⟩
        · cases stands.mem_children
      · simp only [List.mem_cons, List.not_mem_nil, or_false] at hM
        rcases hM with rfl | rfl <;> cases stands.mem_children

/-- Two copies of a service that is made by a pure effect are coherent: the service stands
    in the same place both times. -/
theorem coherent_app (hpure : e.IsPure settings outside) :
    (app e).Coherent settings outside env := by
  have pure : (base e).IsPure settings outside := by
    intro info key e' h
    rw [effect_of_within_base h]
    exact hpure
  have apart : ∀ {M : Layer σ},
      M ∈ [app e, copy 1 leftKey (base e), copy 4 rightKey (base e), base e] →
      M ∉ [needy 1 leftKey, needy 4 rightKey] := by
    intro M h h'
    have hid : M.id ∈ [7, 3, 6, 0] := List.mem_map_of_mem (f := Layer.id) h
    have hid' : M.id ∈ [2, 5] := List.mem_map_of_mem (f := Layer.id) h'
    simp only [List.mem_cons, List.not_mem_nil, or_false] at hid hid'
    rcases hid with hid | hid | hid | hid <;> rcases hid' with hid' | hid' <;>
      cases hid.symm.trans hid'
  -- A reading effect stands in one place only, and all else stands where the whole does.
  intro M env₁ env₂ c h₁ h₂ hgives
  rcases occurs_app h₁ with ⟨rfl, hM₁⟩ | ⟨above₁, habove₁, rfl, hM₁⟩ <;>
    rcases occurs_app h₂ with ⟨rfl, hM₂⟩ | ⟨above₂, habove₂, rfl, hM₂⟩
  · exact hgives
  · exact absurd hM₂ (apart hM₁)
  · exact absurd hM₁ (apart hM₂)
  · rwa [Gives.unique pure habove₂ habove₁]

end Sample

/-- Two copies of a service that is there once, with a memo and without. -/
theorem sample_memo_agrees_with_plain :
    Made (Sample.history (σ := Unit) (.succeed (.int 1))) ∧
    IsPure (σ := Unit) ⟨.sync, false⟩ .nobody (Sample.app (.succeed (.int 1))) ∧
    Coherent (σ := Unit) ⟨.sync, false⟩ .nobody (Sample.app (.succeed (.int 1)))
      Context.empty ∧
    (∃ w', (Sample.app (.succeed (.int 1))).built.Ends ⟨.sync, false⟩ .nobody Context.empty
      (⟨(), 0, #[]⟩ : World Unit) (.success (Sample.both (.int 1) (.int 1)).toValue) w') ∧
    ∃ w', (Sample.app (.succeed (.int 1))).afresh.Ends ⟨.sync, false⟩ .nobody Context.empty
      (⟨(), 0, #[]⟩ : World Unit) (.success (Sample.both (.int 1) (.int 1)).toValue) w' := by
  have made := Sample.made_history (σ := Unit) (.succeed (.int 1))
  have pure : IsPure (σ := Unit) ⟨.sync, false⟩ .nobody (Sample.app (.succeed (.int 1))) := by
    intro info key e h
    rcases Sample.effect_of_within h with rfl | ⟨rfl, -⟩
    · exact Effect.isPure_succeed _
    · exact Effect.isPure_service _
  have coherent : Coherent (σ := Unit) ⟨.sync, false⟩ .nobody
      (Sample.app (.succeed (.int 1))) Context.empty :=
    Sample.coherent_app (Effect.isPure_succeed _)
  -- The layers built with a memo are run, and what comes out is what a build without one comes to.
  have hrun : runSync 100 false (Sample.app (.succeed (.int 1))).built Context.empty
      (⟨(), 0, #[]⟩ : World Unit) =
      some (.success (Sample.both (.int 1) (.int 1)).toValue,
        ⟨(), 0, #[.buildingLayer "Base", .buildingLayer "Left", .layerReused ["Base"],
          .buildingLayer "Right"]⟩) := by
    rfl
  have hends := ends_of_runSync hrun (fun h => by cases h)
  have agrees := memo_agrees_with_plain made List.mem_cons_self pure coherent
  rcases (agrees.1 _ _ _).1 ⟨_, hends, rfl⟩ with ⟨w', hplain, -⟩
  exact ⟨made, pure, coherent, ⟨_, hends⟩, w', hplain⟩

namespace Sample

/-- The key of what the service is made from that two others read. -/
def sourceKey : ServiceKey := ⟨3, "Source"⟩

/-- The service that is read, made from a number that is fed to it. -/
def made (id : LayerId) (n : Int64) : Layer Unit :=
  feed (id + 1) (base (.service sourceKey)) (succeed id sourceKey (.int n)) false

/-- Two copies of one service, which stands among different numbers. -/
def apart : Layer Unit :=
  .merge ⟨11, [leftKey, rightKey], []⟩ (copy 1 leftKey (made 7 1)) (copy 4 rightKey (made 9 2))

/-- All layers that are made for it. -/
def apartHistory : List (Layer Unit) :=
  [apart, copy 4 rightKey (made 9 2), needy 4 rightKey,
    ofEffect 4 rightKey (.service baseKey), copy 1 leftKey (made 7 1), needy 1 leftKey,
    ofEffect 1 leftKey (.service baseKey), made 9 2, succeed 9 sourceKey (.int 2), made 7 1,
    succeed 7 sourceKey (.int 1), base (.service sourceKey)]

/-- The layers of the sample can be made. -/
theorem made_apartHistory : Made apartHistory := by
  -- One layer at a time, each with a number not given out before.
  have first : Made [(base (.service sourceKey) : Layer Unit)] :=
    .effect .nothing (fresh_of_ids [] 0 rfl (by decide)) baseKey _
  have one := Made.context first (fresh_of_ids [0] 7 rfl (by decide))
    (Context.single sourceKey (.int 1))
  have madeOne := Made.feed one (fresh_of_ids [7, 0] 8 rfl (by decide))
    (List.mem_of_getElem? (i := 1) rfl) List.mem_cons_self false
  have two := Made.context madeOne (fresh_of_ids [8, 7, 0] 9 rfl (by decide))
    (Context.single sourceKey (.int 2))
  have madeTwo := Made.feed two (fresh_of_ids [9, 8, 7, 0] 10 rfl (by decide))
    (List.mem_of_getElem? (i := 3) rfl) List.mem_cons_self false
  have left := made_copy [10, 9, 8, 7, 0] 1 leftKey madeTwo
    (List.mem_of_getElem? (i := 2) rfl) rfl (by decide) (by decide) (by decide)
  have right := made_copy [3, 2, 1, 10, 9, 8, 7, 0] 4 rightKey left
    (List.mem_of_getElem? (i := 3) rfl) rfl (by decide) (by decide) (by decide)
  exact Made.merge right (fresh_of_ids [6, 5, 4, 3, 2, 1, 10, 9, 8, 7, 0] 11 rfl (by decide))
    (List.mem_of_getElem? (i := 3) rfl) List.mem_cons_self rfl

/-- They do nothing but provide services. -/
theorem isPure_apart {settings : Settings} {outside : Outside Unit} :
    apart.IsPure settings outside := by
  -- A copy of the base reads its own source layer, and asking for a service is pure.
  have hmade : ∀ {id n info key e}, Within (.build info key e) (made id n) →
      e.IsPure settings outside := by
    intro id n info key e h
    cases h with
    | child mem h =>
        rcases mem_children_provide.1 mem with rfl | rfl
        · cases h with
          | child mem _ => cases mem
        · rw [effect_of_within_base h]
          exact Effect.isPure_service _
  intro info key e h
  cases h with
  | child mem h =>
      rcases mem_children_merge.1 mem with rfl | rfl <;>
        rcases effect_of_within_copy h with h | ⟨rfl, -⟩
      · exact hmade h
      · exact Effect.isPure_service _
      · exact hmade h
      · exact Effect.isPure_service _

end Sample

/-- Two copies of one service that is fed different numbers: with a memo both are copies
    of the first that was made, although all effects are pure, and without a memo they are
    not. -/
theorem memo_differs_from_plain :
    Made Sample.apartHistory ∧ Sample.apart ∈ Sample.apartHistory ∧
    Sample.apart.IsPure ⟨.sync, false⟩ .nobody ∧
    (∃ w', Sample.apart.built.Ends ⟨.sync, false⟩ .nobody Context.empty ⟨(), 0, #[]⟩
      (.success (Sample.both (.int 1) (.int 1)).toValue) w') ∧
    (∃ w', Sample.apart.afresh.Ends ⟨.sync, false⟩ .nobody Context.empty ⟨(), 0, #[]⟩
      (.success (Sample.both (.int 1) (.int 2)).toValue) w') ∧
    ¬ ∃ w', Sample.apart.afresh.Ends ⟨.sync, false⟩ .nobody Context.empty ⟨(), 0, #[]⟩
      (.success (Sample.both (.int 1) (.int 1)).toValue) w' := by
  have hbuilt : ∃ w', runSync 100 false Sample.apart.built Context.empty ⟨(), 0, #[]⟩ =
      some (.success (Sample.both (.int 1) (.int 1)).toValue, w') := ⟨_, rfl⟩
  have hafresh : ∃ w', runSync 100 false Sample.apart.afresh Context.empty ⟨(), 0, #[]⟩ =
      some (.success (Sample.both (.int 1) (.int 2)).toValue, w') := ⟨_, rfl⟩
  rcases hbuilt with ⟨w₁, hbuilt⟩
  rcases hafresh with ⟨w₂, hafresh⟩
  have hends := ends_of_runSync hafresh (fun h => by cases h)
  refine ⟨Sample.made_apartHistory, List.mem_cons_self, Sample.isPure_apart,
    ⟨w₁, ends_of_runSync hbuilt (fun h => by cases h)⟩, ⟨w₂, hends⟩, ?_⟩
  rintro ⟨w', hends'⟩
  -- The plain construction comes to one thing only, and the right copy tells them apart.
  have heq := Gives.unique Sample.isPure_apart ⟨_, _, hends⟩ ⟨_, _, hends'⟩
  have hright : some (Value.int 2) = some (Value.int 1) :=
    congrArg (fun c => Context.get? c Sample.rightKey) heq
  exact absurd (Value.int.inj (Option.some.inj hright)) (by decide)

end Layer

end EffectKernel
