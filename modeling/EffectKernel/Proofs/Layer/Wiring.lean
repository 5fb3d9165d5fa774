import EffectKernel.Proofs.Layer.Once
import EffectKernel.Proofs.Layer.Signature

/-!
# Wiring by Hand

A graph of layers can be wired up without a graph. The layers are fed one into the next,
in the order in which the graph builds them, and each keeps what it is fed with: first
nothing is fed into the first of them, then that into the second, and so on. What comes
of this is as good as the graph. It lists the same services, it wants the same, and
when it is built the same effects are started, in the same order and among the same
services, and the build ends alike.

The two are not the same layer, and their builds do not keep the same memo. A chain has
links that the graph does not have, and what each of them comes to is kept under its own
number. No layer that was there before has such a number, so for the layers of the graph
the two memos hold the same, and a layer takes no notice of what a memo holds for layers
that have no part in it.

That the chain wants no more than the graph is where the order matters. A link wants what
its layer wants and the links above do not give, while the graph wants what no layer of
the set gives at all. In a good order the layers that give something stand above all who
want it, so this is the same.

## Main definitions

* `startings`: The starts of effects among what happens.
* `Layer.Builds`: A build that starts some effects and ends in an outcome.
* `Layer.Wired`: Layers that have been fed one into the next.
* `Memo.AgreeOn`, `Building.Mirrors`: Memos that hold the same for some layers, and
  buildings that do the same from such memos.

## Theorems

* `Layer.mirrors_building`: A layer only looks at what a memo holds for its own parts.
* `Layer.freshEach_append`: Layers in a row are built one row after another.
* `Layer.Wired.mirrors`: A chain does what its layers do in a row.
* `Layer.graph_is_wiring`: A graph and a chain of its layers can stand for each other.
-/

namespace EffectKernel

variable {σ : Type}

/-- The starts of effects among what happens, in order. -/
def startings (t : List (Happening σ)) : List (Happening σ) :=
  t.filter fun h => h.started?.isSome

@[simp] theorem startings_append (t₁ t₂ : List (Happening σ)) :
    startings (t₁ ++ t₂) = startings t₁ ++ startings t₂ :=
  List.filter_append t₁ t₂

/-- Memos that hold the same under certain numbers. -/
def Memo.AgreeOn (S : LayerId → Prop) (memo memo₂ : Memo) : Prop :=
  ∀ id, S id → memo.context? id = memo₂.context? id

/-- Finishes that differ at most in what the memo holds under other numbers. -/
def Finish.AgreeOn (S : LayerId → Prop) : Finish → Finish → Prop
  | .ready c memo, .ready c₂ memo₂ => c = c₂ ∧ memo.AgreeOn S memo₂
  | .stopped cause, .stopped cause₂ => cause = cause₂
  | _, _ => False

namespace Memo.AgreeOn

variable {S : LayerId → Prop} {memo memo₂ : Memo}

theorem refl (memo : Memo) : memo.AgreeOn S memo :=
  fun _ _ => rfl

theorem symm (h : memo.AgreeOn S memo₂) : memo₂.AgreeOn S memo :=
  fun id hid => (h id hid).symm

/-- What is stored for a layer is stored in both. -/
theorem cons (h : memo.AgreeOn S memo₂) (id : LayerId) (c : Context) :
    Memo.AgreeOn S ((id, c.toValue) :: memo) ((id, c.toValue) :: memo₂) := by
  intro other hother
  rw [Memo.context?_cons, Memo.context?_cons, h other hother]

/-- What is stored under another number makes no difference. -/
theorem cons_left (h : memo.AgreeOn S memo₂) {id : LayerId} (hid : ¬ S id) (c : Context) :
    Memo.AgreeOn S ((id, c.toValue) :: memo) memo₂ := by
  intro other hother
  have hne : id ≠ other := fun heq => hid (heq ▸ hother)
  rw [Memo.context?_cons, if_neg hne]
  exact h other hother

end Memo.AgreeOn

namespace Finish.AgreeOn

variable {S : LayerId → Prop} {c : Context} {memo : Memo} {cause : Cause Value} {r : Finish}

/-- What agrees with a build that has succeeded has succeeded with the same services. -/
theorem of_ready (h : Finish.AgreeOn S (.ready c memo) r) :
    ∃ memo₂, r = .ready c memo₂ ∧ memo.AgreeOn S memo₂ := by
  cases r with
  | ready c₂ memo₂ =>
      rcases h with ⟨rfl, hmemo⟩
      exact ⟨memo₂, rfl, hmemo⟩
  | stopped cause => cases h

/-- What agrees with a build that is given up is given up in the same way. -/
theorem of_stopped (h : Finish.AgreeOn S (.stopped cause) r) : r = .stopped cause := by
  cases r with
  | ready c memo => cases h
  | stopped cause₂ => rw [show cause = cause₂ from h]

theorem exit {r₂ : Finish} (h : Finish.AgreeOn S r r₂) : r.exit = r₂.exit := by
  cases r with
  | ready c memo =>
      rcases h.of_ready with ⟨memo₂, rfl, -⟩
      rfl
  | stopped cause => rw [h.of_stopped]

end Finish.AgreeOn

namespace Building

/-- Whatever the first building does from one memo, the second does from another: it
    starts the same effects, finishes with the same and leaves the same world. -/
def MirrorsFrom (S : LayerId → Prop) (memo memo₂ : Memo) (b a : Building σ) : Prop :=
  ∀ ⦃env w t r w'⦄, b memo env w t r w' →
    ∃ t₂ r₂, a memo₂ env w t₂ r₂ w' ∧ startings t₂ = startings t ∧ r.AgreeOn S r₂

/-- The second building does whatever the first one does, from any memos that hold the
    same under certain numbers. -/
def Mirrors (S : LayerId → Prop) (b a : Building σ) : Prop :=
  ∀ ⦃memo memo₂⦄, memo.AgreeOn S memo₂ → MirrorsFrom S memo memo₂ b a

/-- Parts that follow each other may be put together in either way. -/
theorem then_assoc (b : Building σ) (k k' : Context → Building σ) :
    Then (Then b k) k' = Then b fun c => Then (k c) k' := by
  funext memo env w t r w'
  refine propext ⟨fun h => ?_, fun h => ?_⟩
  · cases h with
    | ready one two =>
        -- Where the inner pair stopped, the outer one stops at the same place.
        cases one with
        | ready first second =>
            rw [List.append_assoc]
            exact .ready first (.ready second two)
    | stopped one =>
        cases one with
        | ready first second => exact .ready first (.stopped second)
        | stopped first => exact .stopped first
  · cases h with
    | ready first rest =>
        cases rest with
        | ready second two =>
            rw [← List.append_assoc]
            exact .ready (.ready first second) two
        | stopped second => exact .stopped (.ready first second)
    | stopped first => exact .stopped (.stopped first)

/-- A context that is there already only says how to go on. -/
theorem then_done (c : Context) (k : Context → Building σ) : Then (Done c) k = k c := by
  funext memo env w t r w'
  refine propext ⟨fun h => ?_, fun h => Then.ready Done.ready h⟩
  cases h with
  | ready one two =>
      cases one
      exact two
  | stopped one => cases one

section Mirroring

variable {S : LayerId → Prop} {memo memo₂ : Memo} {b a : Building σ}

/-- A context mirrors itself. -/
theorem mirrors_done (c : Context) : Mirrors S (Done c : Building σ) (Done c) := by
  intro memo memo₂ hmemo env w t r w' run
  cases run
  exact ⟨_, _, .ready, rfl, rfl, hmemo⟩

/-- So does an effect, in any world. -/
theorem mirrors_runs (settings : Settings) (outside : Outside σ) (id : LayerId)
    (key : ServiceKey) (e : Effect σ) :
    Mirrors S (Runs settings outside id key e) (Runs settings outside id key e) := by
  intro memo memo₂ hmemo env w t r w' run
  cases run with
  | ready run => exact ⟨_, _, .ready run, rfl, rfl, hmemo⟩
  | stopped run => exact ⟨_, _, .stopped run, rfl, rfl⟩

/-- Buildings one behind the other mirror those that each of them mirrors. -/
theorem mirrors_then {k k' : Context → Building σ} (h : MirrorsFrom S memo memo₂ b a)
    (hk : ∀ c, Mirrors S (k c) (k' c)) : MirrorsFrom S memo memo₂ (Then b k) (Then a k') := by
  intro env w t r w' run
  cases run with
  | ready one two =>
      rcases h one with ⟨t₁, r₁, one₁, hstart₁, hagree₁⟩
      rcases hagree₁.of_ready with ⟨memo₁, rfl, hmemo₁⟩
      rcases hk _ hmemo₁ two with ⟨t₂, r₂, two₂, hstart₂, hagree₂⟩
      refine ⟨_, r₂, .ready one₁ two₂, ?_, hagree₂⟩
      rw [startings_append, startings_append, hstart₁, hstart₂]
  | stopped one =>
      rcases h one with ⟨t₁, r₁, one₁, hstart₁, hagree₁⟩
      cases hagree₁.of_stopped
      exact ⟨t₁, _, .stopped one₁, hstart₁, rfl⟩

theorem mirrors_inside (services : Context) (h : Mirrors S b a) :
    Mirrors S (b.Inside services) (a.Inside services) := by
  intro memo memo₂ hmemo env w t r w' run
  exact h hmemo run

theorem mirrors_converting (f : Value → Act σ Value) (h : Mirrors S b a) :
    Mirrors S (Converting b f) (Converting a f) := by
  intro memo memo₂ hmemo env w t r w' run
  cases run with
  | ready one =>
      rcases h hmemo one with ⟨t₁, r₁, one₁, hstart₁, hagree₁⟩
      rcases hagree₁.of_ready with ⟨memo₁, rfl, hmemo₁⟩
      exact ⟨t₁, _, .ready one₁, hstart₁, rfl, hmemo₁⟩
  | fail one =>
      rcases h hmemo one with ⟨t₁, r₁, one₁, hstart₁, hagree₁⟩
      cases hagree₁.of_stopped
      refine ⟨_, _, .fail one₁, ?_, rfl⟩
      -- The function is called alike in both and starts nothing.
      rw [startings_append, startings_append, hstart₁]
  | die one =>
      rcases h hmemo one with ⟨t₁, r₁, one₁, hstart₁, hagree₁⟩
      cases hagree₁.of_stopped
      exact ⟨t₁, _, .die one₁, hstart₁, rfl⟩

/-- A layer with a number in the set is found in both memos or in none of them. -/
theorem mirrors_remembering {info : LayerInfo} (hid : S info.id) (h : Mirrors S b a) :
    Mirrors S (Remembering info b) (Remembering info a) := by
  intro memo memo₂ hmemo env w t r w' run
  -- The two memos agree on this number, so both reuse the layer or both build it.
  have same := hmemo info.id hid
  cases run with
  | reused hit => exact ⟨_, _, .reused (same ▸ hit), rfl, rfl, hmemo⟩
  | kept miss one =>
      rcases h hmemo one with ⟨t₁, r₁, one₁, hstart₁, hagree₁⟩
      rcases hagree₁.of_ready with ⟨memo₁, rfl, hmemo₁⟩
      refine ⟨_, _, .kept (same ▸ miss) one₁, ?_, rfl, hmemo₁.cons info.id _⟩
      rw [startings_append, startings_append, hstart₁]
  | stopped miss one =>
      rcases h hmemo one with ⟨t₁, r₁, one₁, hstart₁, hagree₁⟩
      cases hagree₁.of_stopped
      exact ⟨t₁, _, .stopped (same ▸ miss) one₁, hstart₁, rfl⟩

/-- What is kept under another number is no difference either, as long as the memo holds
    nothing under it. -/
theorem mirrors_kept {info : LayerInfo} (hid : ¬ S info.id)
    (miss : memo.context? info.id = none) (h : MirrorsFrom S memo memo₂ b a) :
    MirrorsFrom S memo memo₂ (Remembering info b) a := by
  intro env w t r w' run
  cases run with
  | reused hit =>
      rw [miss] at hit
      cases hit
  | kept _ one =>
      -- A layer outside of `S` is kept in one memo only, and nobody looks for it in the other.
      rcases h one with ⟨t₁, r₁, one₁, hstart₁, hagree₁⟩
      rcases hagree₁.of_ready with ⟨memo₁, rfl, hmemo₁⟩
      refine ⟨t₁, _, one₁, ?_, rfl, hmemo₁.cons_left hid _⟩
      rw [startings_append, hstart₁]
      exact (List.append_nil _).symm
  | stopped _ one => exact h one

/-- The other way round. -/
theorem mirrors_unkept {info : LayerInfo} (hid : ¬ S info.id)
    (miss : memo₂.context? info.id = none) (h : MirrorsFrom S memo memo₂ b a) :
    MirrorsFrom S memo memo₂ b (Remembering info a) := by
  intro env w t r w' run
  rcases h run with ⟨t₁, r₁, one₁, hstart₁, hagree₁⟩
  cases r with
  | ready c memo' =>
      rcases hagree₁.of_ready with ⟨memo₁, rfl, hmemo₁⟩
      refine ⟨_, _, .kept miss one₁, ?_, rfl, (hmemo₁.symm.cons_left hid _).symm⟩
      rw [startings_append, hstart₁]
      exact List.append_nil _
  | stopped cause =>
      cases hagree₁.of_stopped
      exact ⟨t₁, _, .stopped miss one₁, hstart₁, rfl⟩

end Mirroring

end Building

namespace Layer

/-- A build of a layer that starts these effects, in this order, ends in an outcome and
    leaves a world. -/
def Builds (settings : Settings) (outside : Outside σ) (L : Layer σ) (env : Context)
    (w : World σ) (started : List (Happening σ)) (x : Outcome) (w' : World σ) : Prop :=
  ∃ t r, L.building settings outside .Remembering [] env w t r w' ∧
    startings t = started ∧ x = r.exit

/-- Layers that have been fed one into the next, each of them keeping what it is fed
    with. The links have got numbers that no layer made before has. -/
inductive Wired (made : List (Layer σ)) : List (Layer σ) → Layer σ → Prop
  /-- At first there is nothing to be fed. -/
  | nothing {id} (fresh : ∀ M ∈ made, M.id ≠ id) : Wired made [] (empty id)
  /-- What there is so far is fed into one more layer. -/
  | further {id before L chain} (first : Wired made before chain)
      (fresh : ∀ M ∈ made, M.id ≠ id) : Wired made (before ++ [L]) (feed id L chain true)

section Buildings

variable {settings : Settings} {outside : Outside σ}

/-- A layer does the same from two memos that hold the same for all that takes part in
    it. -/
theorem mirrors_building {S : LayerId → Prop} {L : Layer σ}
    (parts : ∀ {M}, Within M L → S M.id) :
    (L.building settings outside .Remembering).Mirrors S
      (L.building settings outside .Remembering) :=
  building_induct settings outside .Remembering (P := fun _ b => b.Mirrors S b)
    (fun c => Building.mirrors_done c)
    (fun hb hk _ _ hmemo => Building.mirrors_then (hb hmemo) hk)
    (fun services hb => Building.mirrors_inside services hb)
    (fun f hb => Building.mirrors_converting f hb)
    (fun _ key e hM =>
      Building.mirrors_remembering (parts hM) (Building.mirrors_runs _ _ _ key e))
    (fun _ hM _ hb => Building.mirrors_remembering (parts hM) hb) L .self

/-- Layers in a row are built one row after another. -/
theorem freshEach_append {policy : LayerInfo → Building σ → Building σ}
    (layers rest : List (Layer σ)) (sofar : Context) :
    freshEach settings outside policy (layers ++ rest) sofar =
      .Then (freshEach settings outside policy layers sofar)
        (freshEach settings outside policy rest) := by
  induction layers generalizing sofar with
  | nil => exact (Building.then_done sofar _).symm
  | cons L others ih =>
      simp only [List.cons_append, freshEach, ih]
      exact (Building.then_assoc _ _ _).symm

/-- A chain does what its layers do in a row, and the other way round. -/
theorem Wired.mirrors {made layers : List (Layer σ)} {chain : Layer σ} (h : Made made)
    (wired : Wired made layers chain) (mem : ∀ L ∈ layers, L ∈ made) :
    (chain.building settings outside .Remembering).MirrorsFrom (fun id => ∃ M ∈ made, M.id = id)
      [] [] (freshEach settings outside .Remembering layers Context.empty) ∧
    (freshEach settings outside .Remembering layers Context.empty).MirrorsFrom
      (fun id => ∃ M ∈ made, M.id = id) [] [] (chain.building settings outside .Remembering) := by
  -- A link is looked up before anything is kept, so it is not in the memo.
  have off : ∀ {id}, (∀ M ∈ made, M.id ≠ id) → ¬ ∃ M ∈ made, M.id = id :=
    fun fresh ⟨M, hM, hid⟩ => fresh M hM hid
  induction wired with
  | @nothing id fresh =>
      have done := Building.mirrors_done (σ := σ) (S := fun id => ∃ M ∈ made, M.id = id)
        Context.empty (.refl [])
      exact ⟨Building.mirrors_kept (off fresh) rfl done,
        Building.mirrors_unkept (off fresh) rfl done⟩
  | @further id before L chain first fresh ih =>
      rcases ih fun M hM => mem M (List.mem_append_left _ hM) with ⟨forth, back⟩
      have hL : L ∈ made := mem L (List.mem_append_right _ List.mem_cons_self)
      have inner : (L.building settings outside .Remembering).Mirrors
          (fun id => ∃ M ∈ made, M.id = id) (L.building settings outside .Remembering) :=
        mirrors_building fun hM => ⟨_, h.within_mem hL hM, rfl⟩
      -- One more layer is the same part of a build in a row and at the end of a chain.
      have last : ∀ c, Building.Mirrors (fun id => ∃ M ∈ made, M.id = id)
          (freshEach settings outside .Remembering [L] c)
          (freshEach settings outside .Remembering [L] c) :=
        fun c _ _ hmemo => Building.mirrors_then (Building.mirrors_inside c inner hmemo)
          fun next => Building.mirrors_done (c.merge next)
      rw [freshEach_append]
      exact ⟨Building.mirrors_kept (off fresh) rfl (Building.mirrors_then forth last),
        Building.mirrors_unkept (off fresh) rfl (Building.mirrors_then back last)⟩

end Buildings

/-- A chain lists what its layers list. -/
theorem Wired.mem_outputs {made layers : List (Layer σ)} {chain : Layer σ}
    (wired : Wired made layers chain) {key : ServiceKey} :
    key ∈ chain.outputs ↔ ∃ L ∈ layers, key ∈ L.outputs := by
  induction wired with
  | nothing fresh =>
      constructor
      · intro h
        cases h
      · rintro ⟨L, hL, -⟩
        cases hL
  | @further id before L chain first fresh ih =>
      show key ∈ union chain.outputs L.outputs ↔ _
      rw [mem_union, ih]
      simp only [List.mem_append, List.mem_singleton, or_and_right, exists_or, exists_eq_left]

/-- The last layer is fed by those in front of it. -/
theorem fed_append {requires : List ServiceKey} {before layers : List (Layer σ)}
    {L : Layer σ} (h : Fed requires before (layers ++ [L])) :
    Fed requires before layers ∧
      ∀ key ∈ L.requires, key ∈ requires ∨ ∃ M ∈ before ++ layers, key ∈ M.outputs := by
  induction layers generalizing before with
  | nil =>
      rw [List.append_nil]
      exact ⟨trivial, h.1⟩
  | cons M rest ih =>
      rcases ih h.2 with ⟨hrest, hL⟩
      rw [List.append_assoc] at hL
      exact ⟨⟨h.1, hrest⟩, hL⟩

/-- A chain of layers that get what they want wants no more than the row as a whole. -/
theorem Wired.mem_of_requires {made layers : List (Layer σ)} {chain : Layer σ}
    (wired : Wired made layers chain) {requires : List ServiceKey}
    (fed : Fed requires [] layers) {key : ServiceKey} (hkey : key ∈ chain.requires) :
    key ∈ requires := by
  induction wired with
  | nothing fresh => cases hkey
  | @further id before L chain first fresh ih =>
      rcases fed_append fed with ⟨hbefore, hL⟩
      have hunion : key ∈ union chain.requires (difference L.requires chain.outputs) := hkey
      rcases mem_union.1 hunion with hchain | hdiff
      · exact ih hbefore hchain
      · rcases mem_difference.1 hdiff with ⟨hwant, hnot⟩
        exact (hL key hwant).resolve_right fun hout => hnot (first.mem_outputs.2 hout)

/-- A chain wants what one of its layers wants and none of them provides. -/
theorem Wired.requires_of_mem {made layers : List (Layer σ)} {chain : Layer σ}
    (wired : Wired made layers chain) {key : ServiceKey}
    (hwant : ∃ L ∈ layers, key ∈ L.requires) (hnot : ∀ L ∈ layers, key ∉ L.outputs) :
    key ∈ chain.requires := by
  induction wired with
  | nothing fresh =>
      rcases hwant with ⟨L, hL, -⟩
      cases hL
  | @further id before L chain first fresh ih =>
      have hbefore : ∀ M ∈ before, key ∉ M.outputs :=
        fun M hM => hnot M (List.mem_append_left _ hM)
      show key ∈ union chain.requires (difference L.requires chain.outputs)
      rcases hwant with ⟨M, hM, hkey⟩
      -- Wanted by an earlier layer it is required already; wanted by the last one it is so because
      -- nobody before provides it.
      rcases List.mem_append.1 hM with hM | hM
      · exact mem_union.2 (Or.inl (ih ⟨M, hM, hkey⟩ hbefore))
      · rcases List.mem_singleton.1 hM with rfl
        refine mem_union.2 (Or.inr (mem_difference.2 ⟨hkey, fun hout => ?_⟩))
        rcases first.mem_outputs.1 hout with ⟨N, hN, hNkey⟩
        exact hbefore N hN hNkey

/-- A graph of layers and a chain of the same layers, fed one into the next in the order
    in which the graph builds them, can stand for each other. They list the same services
    and want the same; from any services and any world their builds start the same effects,
    in the same order and among the same services, and they end in the same outcome and
    leave the same world. -/
theorem graph_is_wiring {settings : Settings} {outside : Outside σ} {made : List (Layer σ)}
    (h : Made made) {layers : List (Layer σ)} (mem : ∀ L ∈ layers, L ∈ made) {id : LayerId}
    {G chain : Layer σ} (ordered : graph? id layers = .ok G)
    (wired : Wired made G.children chain) :
    (∀ key, key ∈ G.outputs ↔ key ∈ chain.outputs) ∧
    (∀ key, key ∈ G.requires ↔ key ∈ chain.requires) ∧
    ∀ env w x w',
      (G.built.Ends settings outside env w x w' ↔ chain.built.Ends settings outside env w x w') ∧
      ∀ started, G.Builds settings outside env w started x w' ↔
        chain.Builds settings outside env w started x w' := by
  rcases graph?_eq_ok ordered with ⟨order, horder, rfl⟩
  have mirrors := @Wired.mirrors σ settings outside made _ chain h wired
    fun L hL => mem L ((mem_ordered horder).1 hL)
  -- The memo of a build is empty at first, so the graph itself is not in it.
  have builds : ∀ {env w started x w'},
      (Layer.sequence ⟨id, allOutputs layers, outerRequires layers⟩
        (order.filterMap fun i => layers[i]?)).Builds settings outside env w started x w' ↔
        chain.Builds settings outside env w started x w' := by
    intro env w started x w'
    constructor
    · rintro ⟨t, r, run, rfl, rfl⟩
      cases run with
      | reused hit => cases hit
      | kept miss one =>
          rcases mirrors.2 one with ⟨t₂, r₂, run₂, hstart, hagree⟩
          refine ⟨t₂, r₂, run₂, ?_, hagree.exit⟩
          rw [startings_append, hstart]
          exact (List.append_nil _).symm
      | stopped miss one =>
          rcases mirrors.2 one with ⟨t₂, r₂, run₂, hstart, hagree⟩
          exact ⟨t₂, r₂, run₂, hstart, hagree.exit⟩
    · rintro ⟨t, r, run, rfl, rfl⟩
      rcases mirrors.1 run with ⟨t₂, r₂, run₂, hstart, hagree⟩
      cases r₂ with
      | ready c memo =>
          refine ⟨_, _, .kept rfl run₂, ?_, hagree.exit⟩
          rw [startings_append, hstart]
          exact List.append_nil _
      | stopped cause => exact ⟨t₂, _, .stopped rfl run₂, hstart, hagree.exit⟩
  refine ⟨fun key => ?_, fun key => ⟨fun hkey => ?_, fun hkey => ?_⟩, fun env w x w' => ⟨?_, ?_⟩⟩
  · rw [wired.mem_outputs]
    show key ∈ allOutputs layers ↔ ∃ L ∈ order.filterMap (fun i => layers[i]?), key ∈ L.outputs
    rw [mem_allOutputs]
    simp only [mem_ordered horder]
  · rcases mem_outerRequires.1 hkey with ⟨L, hL, hwant, hnone⟩
    refine wired.requires_of_mem ⟨L, (mem_ordered horder).2 hL, hwant⟩ fun M hM hout => ?_
    have hfree := List.findIdx?_eq_none_iff.1 hnone M.node
      (List.mem_map_of_mem ((mem_ordered horder).1 hM))
    exact of_decide_eq_false hfree hout
  · exact wired.mem_of_requires (fed_of_ready (Graph.buildOrder_ready horder).1) hkey
  · rw [ends_built, ends_built]
    constructor
    · rintro ⟨t, r, run, hx⟩
      rcases builds.1 ⟨t, r, run, rfl, hx⟩ with ⟨t₂, r₂, run₂, -, hx₂⟩
      exact ⟨t₂, r₂, run₂, hx₂⟩
    · rintro ⟨t, r, run, hx⟩
      rcases builds.2 ⟨t, r, run, rfl, hx⟩ with ⟨t₂, r₂, run₂, -, hx₂⟩
      exact ⟨t₂, r₂, run₂, hx₂⟩
  · exact fun started => builds

/-- A service that counts how often it is built and one that reads it, which is listed in
    front: as a graph and wired by hand they come to the same. -/
theorem sample_graph_is_wiring :
    Made (Sample.history Sample.counted) ∧
    ∃ G : Layer Nat,
      graph? 8 [Sample.needy 1 Sample.leftKey, Sample.base Sample.counted] = .ok G ∧
      Wired (Sample.history Sample.counted) G.children
        (feed 11 (Sample.needy 1 Sample.leftKey)
          (feed 10 (Sample.base Sample.counted) (empty 9) true) true) ∧
      ∃ w', (feed 11 (Sample.needy 1 Sample.leftKey)
          (feed 10 (Sample.base Sample.counted) (empty 9) true) true).built.Ends
        ⟨.sync, false⟩ .nobody Context.empty ⟨0, 0, #[]⟩
        (.success ((Context.single Sample.baseKey (.int 1)).insert Sample.leftKey
          (.int 1)).toValue) w' := by
  have made := Sample.made_history Sample.counted
  have mem : ∀ L ∈ [Sample.needy 1 Sample.leftKey, Sample.base Sample.counted],
      L ∈ Sample.history Sample.counted :=
    fun _ => Sample.mem_history_of_two
  have hgraph : graph? 8 [Sample.needy 1 Sample.leftKey, Sample.base Sample.counted] =
      .ok (.sequence ⟨8, [Sample.leftKey, Sample.baseKey], []⟩
        [Sample.base Sample.counted, Sample.needy 1 Sample.leftKey]) := by
    rfl
  have fresh : ∀ id, id ∉ [7, 6, 5, 4, 3, 2, 1, 0] →
      ∀ M ∈ Sample.history Sample.counted, M.id ≠ id :=
    fun id hid => Sample.fresh_of_ids [7, 6, 5, 4, 3, 2, 1, 0] id rfl hid
  -- The chain lists the layers in the order the graph has found.
  have wired : Wired (Sample.history Sample.counted)
      [Sample.base Sample.counted, Sample.needy 1 Sample.leftKey]
      (feed 11 (Sample.needy 1 Sample.leftKey)
        (feed 10 (Sample.base Sample.counted) (empty 9) true) true) :=
    @Wired.further Nat _ 11 [Sample.base Sample.counted] _ _
      (@Wired.further Nat _ 10 [] _ _ (.nothing (fresh 9 (by decide))) (fresh 10 (by decide)))
      (fresh 11 (by decide))
  have hrun : runSync 100 false (Layer.sequence ⟨8, [Sample.leftKey, Sample.baseKey], []⟩
        [Sample.base Sample.counted, Sample.needy 1 Sample.leftKey]).built Context.empty
      ⟨0, 0, #[]⟩ =
      some (.success ((Context.single Sample.baseKey (.int 1)).insert Sample.leftKey
          (.int 1)).toValue,
        ⟨1, 0, #[.buildingLayer "Base", .buildingLayer "Left"]⟩) := by
    rfl
  have same := @graph_is_wiring Nat ⟨.sync, false⟩ .nobody _ made _ mem 8 _ _ hgraph wired
  exact ⟨made, _, hgraph, wired, _, (same.2.2 _ _ _ _).1.1
    (ends_of_runSync hrun fun h => by cases h)⟩

end Layer

end EffectKernel
