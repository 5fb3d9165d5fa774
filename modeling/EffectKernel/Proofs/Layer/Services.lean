import EffectKernel.Proofs.Layer.Resolution
import EffectKernel.Proofs.Layer.Signature

/-!
# Services That Come Out

A layer that says what its parts say of themselves comes to what it says. What comes out
of a build is what the layer lists, and a build in which everything is around that the
layer wants never dies for want of a service, if the effects it runs do not.

The two belong together. What a part of a build finds around it is what was around the
whole, and on top of that what came out of other parts; so that it finds what it wants is
known only if that which came out is known. A part may also come out of the memo, which
has to be known to hold for every layer what that layer lists. No want is ever met by
accident: that a service is around which nobody asked for does no harm.

## Main definitions

* `DiesMissing`: An outcome that tells of a service that is not there.
* `Layer.Stocked`: A memo holds for every layer what the layer lists.
* `Layer.Declares`: The effects of a layer want no more than is declared for them.
* `Layer.Serves`: A building comes to what is said of it.

## Theorems

* `Layer.serves_building`: A signed layer comes to what it says.
* `Layer.signature_is_sound`: Every layer that can be made comes to what it says.
-/

namespace EffectKernel

/-- An outcome that tells of a service that is not there. -/
def DiesMissing (x : Outcome) : Prop :=
  ∃ d name, x = .die d ∧ d.kind = .missingService name

variable {σ : Type}

/-- A function that is handed a failure does not end in want of a service: if it panics,
    the defect is a panic. -/
theorem not_diesMissing_converted (w : World σ) (act : Act σ Value) :
    ¬ DiesMissing (.ofCause (converted (w.guarded act).1)) := by
  rintro ⟨d, name, heq, hkind⟩
  unfold World.guarded at heq
  rcases hrun : act.run w.store with ⟨p | e, store⟩
  · rw [hrun] at heq
    cases heq
    cases hkind
  · rw [hrun] at heq
    cases heq

namespace Layer

/-- A memo holds for every layer what the layer lists. -/
def Stocked (R : Layer σ) (memo : Memo) : Prop :=
  ∀ {M c}, Within M R → memo.context? M.id = some c → ∀ k, k ∈ c.keys ↔ k ∈ M.outputs

/-- A building comes to what is said of it: from a stocked memo it comes to a stocked memo
    and to exactly the services given, and if it stops where everything is around that it
    wants, then not in want of a service. -/
def Serves (R : Layer σ) (requires outputs : ServiceKey → Prop) (b : Building σ) : Prop :=
  ∀ ⦃memo env w t r w'⦄, Stocked R memo → b memo env w t r w' →
    match r with
    | .ready c memo' => Stocked R memo' ∧ ∀ k, k ∈ c.keys ↔ outputs k
    | .stopped cause => (∀ k, requires k → k ∈ env.keys) → ¬ DiesMissing (.ofCause cause)

/-- No effect of a layer dies for want of a service where there is what is declared for
    it. -/
def Declares (settings : Settings) (outside : Outside σ) (L : Layer σ) : Prop :=
  ∀ {info key e}, Within (.build info key e) L → ∀ {env w x w'},
    (∀ k ∈ info.requires, k ∈ env.keys) →
      Effect.Ends settings outside e env w x w' → ¬ DiesMissing x

section Serving

variable {R : Layer σ} {requires requires' outputs outputs' : ServiceKey → Prop}
  {b : Building σ}

/-- A building serves as well where there are more services. -/
theorem Serves.mono (h : Serves R requires outputs b) (hreq : ∀ k, requires k → requires' k)
    (hout : ∀ k, outputs k ↔ outputs' k) : Serves R requires' outputs' b := by
  intro memo env w t r w' hstock run
  have hb := h hstock run
  cases r with
  | ready c memo' => exact ⟨hb.1, fun k => (hb.2 k).trans (hout k)⟩
  | stopped cause => exact fun henv => hb fun k hk => henv k (hreq k hk)

/-- A context serves its keys. -/
theorem serves_done {c : Context} (h : ∀ k, k ∈ c.keys ↔ outputs k) :
    Serves R requires outputs (.Done c) := by
  intro memo env w t r w' hstock run
  cases run
  exact ⟨hstock, h⟩

/-- One building behind another serves what the second does. -/
theorem serves_then {next : Context → Building σ} (h : Serves R requires outputs b)
    (hnext : ∀ c : Context, (∀ k, k ∈ c.keys ↔ outputs k) →
      Serves R requires outputs' (next c)) :
    Serves R requires outputs' (.Then b next) := by
  intro memo env w t r w' hstock run
  cases run with
  | ready one two =>
      have first := h hstock one
      exact hnext _ first.2 first.1 two
  | stopped one => exact h hstock one

/-- What a building wants may be among the services that are put around it. -/
theorem serves_inside (services : Context) (h : Serves R requires outputs b)
    (hreq : ∀ k, requires k → requires' k ∨ k ∈ services.keys) :
    Serves R requires' outputs (.Inside b services) := by
  intro memo env w t r w' hstock run
  have hb := h hstock run
  cases r with
  | ready c memo' => exact hb
  | stopped cause =>
      refine fun henv => hb fun k hk => ?_
      rw [Context.mem_keys_merge]
      exact (hreq k hk).imp_left (henv k)

theorem serves_converting (f : Value → Act σ Value) (h : Serves R requires outputs b) :
    Serves R requires outputs (.Converting b f) := by
  intro memo env w t r w' hstock run
  cases run with
  | ready one => exact h hstock one
  | fail one => exact fun _ => not_diesMissing_converted _ _
  | die one => exact h hstock one

/-- A layer that is in the memo serves what it did when it was put there. -/
theorem serves_remembering {L : Layer σ} (hR : R.Numbered) (hL : Within L R)
    (h : Serves R (· ∈ L.requires) (· ∈ L.outputs) b) :
    Serves R (· ∈ L.requires) (· ∈ L.outputs) (.Remembering L.info b) := by
  intro memo env w t r w' hstock run
  cases run with
  | reused hit => exact ⟨hstock, hstock hL hit⟩
  | @kept _ _ _ _ c memo₁ _ miss one =>
      -- A layer with this number is this layer, so what is stored for it is what it lists.
      rcases h hstock one with ⟨hstock₁, hkeys⟩
      refine ⟨fun {M c'} hM hsome => ?_, hkeys⟩
      rw [Memo.context?_cons] at hsome
      by_cases hid : L.info.id = M.id
      · rw [if_pos hid] at hsome
        cases hsome
        rw [← hR L M hL hM hid]
        exact hkeys
      · rw [if_neg hid] at hsome
        exact hstock₁ hM hsome
  | stopped miss one => exact h hstock one

end Serving

section Signatures

variable {settings : Settings} {outside : Outside σ} {R : Layer σ}

/-- Layers in a row come to all that comes out of any of them. -/
theorem serves_freshEach {requires : List ServiceKey} {layers : List (Layer σ)}
    (inner : ∀ M ∈ layers, Serves R (· ∈ M.requires) (· ∈ M.outputs)
      (M.building settings outside .Remembering))
    {before : List (Layer σ)} (sofar : Context) (hfed : Fed requires before layers)
    (hsofar : ∀ k, k ∈ sofar.keys ↔ ∃ M ∈ before, k ∈ M.outputs) :
    Serves R (· ∈ requires) (fun k => ∃ M ∈ before ++ layers, k ∈ M.outputs)
      (freshEach settings outside .Remembering layers sofar) := by
  -- The services so far are those of the layers before, which is what `Fed` speaks of.
  induction layers generalizing before sofar with
  | nil =>
      rw [List.append_nil]
      exact serves_done hsofar
  | cons L rest ih =>
      have hL : Serves R (· ∈ requires) (· ∈ L.outputs) _ :=
        serves_inside sofar (inner L List.mem_cons_self)
          fun k hk => (hfed.1 k hk).imp_right (hsofar k).2
      refine serves_then hL fun c hc => ?_
      have hrest := ih (fun M hM => inner M (List.mem_cons_of_mem _ hM)) (sofar.merge c)
        hfed.2 fun k => by
          rw [Context.mem_keys_merge, hsofar, hc]
          simp only [List.mem_append, List.mem_singleton, or_and_right, exists_or,
            exists_eq_left]
      rwa [List.append_assoc] at hrest

/-- A signed layer comes to what it says, if its effects do not die for want of a service
    where there is what they declare. -/
theorem serves_building (hR : R.Numbered) (signed : ∀ M, Within M R → M.Signed)
    (declares : R.Declares settings outside) (L : Layer σ) (hL : Within L R) :
    Serves R (· ∈ L.requires) (· ∈ L.outputs) (L.building settings outside .Remembering) := by
  induction L using Layer.induct with
  | step L ih =>
      have inner : ∀ M ∈ L.children, Serves R (· ∈ M.requires) (· ∈ M.outputs)
          (M.building settings outside .Remembering) :=
        fun M hM => ih M hM ((Within.ofChild hM).trans hL)
      have hsigned := signed L hL
      refine serves_remembering hR hL ?_
      cases L with
      | build info key e =>
          intro memo env w t r w' hstock run
          cases run with
          | ready run =>
              exact ⟨hstock, fun k => Context.mem_keys_single.trans (hsigned k).symm⟩
          | stopped run =>
              exact fun henv => declares hL henv (ends_iff_evaluates.2 run)
      | context info c => exact serves_done fun k => (hsigned k).symm
      | provide info consumer supplier keep =>
          -- The supplier sees what is around the whole, the consumer its services as well.
          have hsupplier := (inner supplier (mem_children_provide.2 (Or.inl rfl))).mono
            hsigned.2.1 fun k => Iff.rfl
          refine serves_then hsupplier fun above habove => ?_
          have hconsumer : Serves R (· ∈ info.requires) (· ∈ consumer.outputs) _ :=
            serves_inside above (inner consumer (mem_children_provide.2 (Or.inr rfl)))
              fun k hk => (hsigned.2.2 k hk).imp_right (habove k).2
          cases keep with
          | true =>
              refine serves_then hconsumer fun below hbelow => serves_done fun k => ?_
              rw [Context.mem_keys_merge, habove, hbelow]
              show _ ↔ k ∈ info.outputs
              simpa using (hsigned.1 k).symm
          | false =>
              refine hconsumer.mono (fun k hk => hk) fun k => ?_
              show _ ↔ k ∈ info.outputs
              simpa using (hsigned.1 k).symm
      | merge info left right =>
          have hleft := (inner left (mem_children_merge.2 (Or.inl rfl))).mono
            hsigned.2.1 fun k => Iff.rfl
          have hright := (inner right (mem_children_merge.2 (Or.inr rfl))).mono
            hsigned.2.2 fun k => Iff.rfl
          refine serves_then hleft fun first hfirst => serves_then hright fun second hsecond =>
            serves_done fun k => ?_
          rw [Context.mem_keys_merge, hfirst, hsecond]
          exact (hsigned.1 k).symm
      | sequence info layers =>
          have heach := serves_freshEach inner Context.empty hsigned.2 fun k => by
            simp [Context.mem_keys]
          exact heach.mono (fun k hk => hk) fun k => (hsigned.1 k).symm
      | mapError info inner' f =>
          exact serves_converting f ((inner inner' List.mem_cons_self).mono hsigned.2
            fun k => (hsigned.1 k).symm)

/-- Every layer that can be made comes to what it says. If its effects do not die for want
    of a service where there is what they declare, then its build does not where there is
    what it wants; what comes out of a build that succeeds is what it lists; and it lists
    nothing twice. -/
theorem signature_is_sound {made : List (Layer σ)} (h : Made made) {L : Layer σ}
    (hL : L ∈ made) (declares : L.Declares settings outside) :
    (∀ env w x w', (∀ k ∈ L.requires, k ∈ env.keys) →
      L.built.Ends settings outside env w x w' → ¬ DiesMissing x) ∧
    (∀ env w v w', L.built.Ends settings outside env w (.success v) w' →
      ∃ c : Context, v = c.toValue ∧ ∀ k, k ∈ c.keys ↔ k ∈ L.outputs) ∧
    L.outputs.Nodup ∧ L.requires.Nodup := by
  have hserves := serves_building (h.numbered hL)
    (fun M hM => (h.signed M (h.within_mem hL hM)).1) declares L .self
  -- The empty memo hands out nothing, so nothing it hands out can be wrong.
  have hstock : Stocked L [] := fun _ hnone => by cases hnone
  refine ⟨?_, ?_, (h.signed L hL).2⟩
  · intro env w x w' henv hrun
    rcases (ends_built L).1 hrun with ⟨t, r, hb, rfl⟩
    cases r with
    | ready c memo =>
        rintro ⟨d, name, heq, -⟩
        cases heq
    | stopped cause => exact hserves hstock hb henv
  · intro env w v w' hrun
    rcases (ends_built L).1 hrun with ⟨t, r, hb, hx⟩
    cases r with
    | ready c memo => exact ⟨c, Exit.success.inj hx, (hserves hstock hb).2⟩
    | stopped cause => cases cause <;> cases hx

end Signatures

/-- Two copies of a service that counts how often it is built: whatever is around, their
    build does not die for want of a service, and on its own it comes to the copies. -/
theorem sample_signature_is_sound :
    Made (Sample.history Sample.counted) ∧
    (Sample.app Sample.counted).Declares ⟨.sync, false⟩ .nobody ∧
    (∀ env w x w', (Sample.app Sample.counted).built.Ends ⟨.sync, false⟩ .nobody env w x w' →
      ¬ DiesMissing x) ∧
    ∃ (c : Context) (w' : World Nat),
      runSync 100 false (Sample.app Sample.counted).built Context.empty ⟨0, 0, #[]⟩ =
        some (.success c.toValue, w') ∧
      ∀ k, k ∈ c.keys ↔ k ∈ [Sample.leftKey, Sample.rightKey] := by
  have made := Sample.made_history Sample.counted
  have declares : (Sample.app Sample.counted).Declares ⟨.sync, false⟩ .nobody := by
    rintro info key e hM env w x w' henv hrun ⟨d, name, rfl, hkind⟩
    rcases Sample.effect_of_within hM with rfl | ⟨rfl, hbase⟩
    · cases ends_iff_evaluates.1 hrun with
      | exit call => cases call
      | exitPanic call => cases call
      | refused mode later => cases later
      | asked mode asks => cases asks
    -- A layer that asks for the base declares it, so the service is there.
    · rcases Option.isSome_iff_exists.1 (Context.mem_keys.1 (henv _ hbase)) with ⟨v, hv⟩
      have hx := (evaluates_service.1 (ends_iff_evaluates.1 hrun)).1
      rw [Context.answer, hv] at hx
      cases hx
  have sound := signature_is_sound made List.mem_cons_self declares
  refine ⟨made, declares, fun env w x w' => sound.1 env w x w' (fun k hk => by cases hk), ?_⟩
  rcases sound.2.1 _ _ _ _
    (ends_of_runSync Sample.runSync_app_counted (fun h => by cases h)) with ⟨c, hc, hkeys⟩
  exact ⟨c, _, Sample.runSync_app_counted.trans (by rw [hc]), hkeys⟩

end Layer

end EffectKernel
