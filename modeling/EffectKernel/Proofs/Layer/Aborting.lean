import Mathlib.Logic.Function.Basic
import EffectKernel.Proofs.Layer.Once
import EffectKernel.Proofs.Layer.Reaching

/-!
# Builds That Are Given Up

A build does what its plan says, one thing after the other. As soon as an effect does not succeed,
the build is given up: nothing that the plan says behind it is done. A defect is what the build ends
in then, and a failure is handed to the functions of the site where the effect stands, from the
innermost one on, until there is none left or one of them panics.

A plan is a list, and a layer is a tree with a memo that goes through it, so that they come to the
same has to be said of every kind of building (`Building.RunsPlan`). What the effects have succeeded
with is taken as known from the beginning. Then it is known what comes out of every layer, wherever
it stands, and the memo is right if it holds that for what has been built. In a build that has
ended, no effect was started twice, so there is something that is known in this sense
(`exists_tells`).

## Main definitions

* `PassedOn`: A failure is handed to functions.
* `Site.GivesUp`: An effect does not succeed, and what becomes of that.
* `PlanRun`: A list of chores is carried out.
* `Building.RunsPlan`: A building does what a plan says.

## Theorems

* `planRun_append`, `planRun_inside`, `planRun_mapped`: How plans that are put together are carried
  out.
* `Layer.runsPlan_building`: A layer does what its plan says.
-/

namespace EffectKernel

variable {σ : Type}

namespace Site

/-- The services around a site. -/
def among (site : Site σ) (came : LayerId → Value) (env : Context) : Context :=
  site.around.foldr (fun Ls env => env.merge (Layer.together came Ls Context.empty)) env

/-- The effect of a site is started, and ends so. It is reported that it is started. -/
def Ends (settings : Settings) (outside : Outside σ) (came : LayerId → Value) (env : Context)
    (site : Site σ) (w : World σ) (x : Outcome) (w' : World σ) : Prop :=
  site.effect.Ends settings outside (site.among came env) (w.report (.buildingLayer site.key.name))
    x w'

/-- That the effect of a site is started, and how it ends. -/
def started (came : LayerId → Value) (env : Context) (site : Site σ) (x : Outcome) : Happening σ :=
  .started site.id site.key site.effect (site.among came env) x

end Site

/-- A failure is handed to functions one after the other. If one of them panics, this is a defect,
    and none behind it is called. -/
inductive PassedOn : List (Value → Act σ Value) → Value → World σ → List (Happening σ) →
    Cause Value → World σ → Prop
  | out {e w} : PassedOn [] e w [] (.fail e) w
  | next {f maps e w e₁ w₁ t cause w'} (call : w.guarded (f e) = (.ok e₁, w₁))
      (rest : PassedOn maps e₁ w₁ t cause w') :
      PassedOn (f :: maps) e w (.converted f e :: t) cause w'
  | panic {f maps e w d w'} (call : w.guarded (f e) = (.error d, w')) :
      PassedOn (f :: maps) e w [.converted f e] (.die d) w'

/-- The effect of a site does not succeed. A failure is handed to the functions of the site, and a
    defect to nobody. -/
inductive Site.GivesUp (settings : Settings) (outside : Outside σ) (came : LayerId → Value)
    (env : Context) (site : Site σ) (w : World σ) :
    List (Happening σ) → Cause Value → World σ → Prop
  | fail {e w₁ t cause w'} (ends : site.Ends settings outside came env w (.fail e) w₁)
      (passed : PassedOn site.maps e w₁ t cause w') :
      GivesUp settings outside came env site w (site.started came env (.fail e) :: t) cause w'
  | die {d w'} (ends : site.Ends settings outside came env w (.die d) w') :
      GivesUp settings outside came env site w [site.started came env (.die d)] (.die d) w'

/-- Chores are done one after the other, up to the first effect that does not succeed, if there is
    one. -/
inductive PlanRun (settings : Settings) (outside : Outside σ) (came : LayerId → Value)
    (env : Context) : World σ → List (Chore σ) → List (Happening σ) → Option (Cause Value) →
      World σ → Prop
  | nothing {w} : PlanRun settings outside came env w [] [] none w
  | reused {w names chores t r w'}
      (rest : PlanRun settings outside came env (w.report (.layerReused names)) chores t r w') :
      PlanRun settings outside came env w (.reuse names :: chores) (.reused names :: t) r w'
  | started {w site w₁ chores t r w'}
      (ends : site.Ends settings outside came env w (.success (came site.id)) w₁)
      (rest : PlanRun settings outside came env w₁ chores t r w') :
      PlanRun settings outside came env w (.start site :: chores)
        (site.started came env (.success (came site.id)) :: t) r w'
  | stopped {w site chores t cause w'}
      (givesUp : site.GivesUp settings outside came env w t cause w') :
      PlanRun settings outside came env w (.start site :: chores) t (some cause) w'

/-- What happens, except that services are handed out. -/
def told (t : List (Happening σ)) : List (Happening σ) :=
  t.filter fun
    | .handed _ _ => false
    | _ => true

/-- Effects have succeeded with what is known. -/
def Tells (came : LayerId → Value) (t : List (Happening σ)) : Prop :=
  ∀ id key e env v, .started id key e env (.success v) ∈ t → came id = v

/-- Why a part of a build has finished, if it has no services. -/
def Finish.cause? : Finish → Option (Cause Value)
  | .ready _ _ => none
  | .stopped cause => some cause

/-! ### How plans are carried out -/

section Carrying

variable {settings : Settings} {outside : Outside σ} {came : LayerId → Value} {env : Context}
  {w w' : World σ} {t : List (Happening σ)} {r : Option (Cause Value)} {cause : Cause Value}
  {chores rest : List (Chore σ)} {site : Site σ} {names : List String} {f : Value → Act σ Value}
  {maps : List (Value → Act σ Value)} {e : Value}

/-- Nothing is done if there is nothing to do. -/
theorem planRun_nil :
    PlanRun settings outside came env w [] t r w' ↔ t = [] ∧ r = none ∧ w' = w := by
  constructor
  · rintro ⟨⟩
    exact ⟨rfl, rfl, rfl⟩
  · rintro ⟨rfl, rfl, rfl⟩
    exact .nothing

/-- That a layer is used again is reported, and the other chores are done. -/
theorem planRun_reuse :
    PlanRun settings outside came env w (.reuse names :: chores) t r w' ↔
      ∃ t', t = .reused names :: t' ∧
        PlanRun settings outside came env (w.report (.layerReused names)) chores t' r w' := by
  constructor
  · rintro ⟨⟩
    exact ⟨_, rfl, ‹_›⟩
  · rintro ⟨t', rfl, rest⟩
    exact .reused rest

/-- A site comes first. Its effect succeeds with what is known and the other chores are done, or the
    build is given up here. -/
theorem planRun_start :
    PlanRun settings outside came env w (.start site :: chores) t r w' ↔
      (∃ w₁ t', site.Ends settings outside came env w (.success (came site.id)) w₁ ∧
        t = site.started came env (.success (came site.id)) :: t' ∧
        PlanRun settings outside came env w₁ chores t' r w') ∨
      ∃ cause, r = some cause ∧ site.GivesUp settings outside came env w t cause w' := by
  constructor
  · intro run
    cases run with
    | started ends rest => exact .inl ⟨_, _, ends, rfl, rest⟩
    | stopped givesUp => exact .inr ⟨_, rfl, givesUp⟩
  · rintro (⟨w₁, t', ends, rfl, rest⟩ | ⟨cause, rfl, givesUp⟩)
    · exact .started ends rest
    · exact .stopped givesUp

/-- Chores behind others are done if those have been, and what is given up in these is given up. -/
theorem planRun_append :
    PlanRun settings outside came env w (chores ++ rest) t r w' ↔
      (∃ t₁ w₁ t₂, t = t₁ ++ t₂ ∧ PlanRun settings outside came env w chores t₁ none w₁ ∧
        PlanRun settings outside came env w₁ rest t₂ r w') ∨
      ∃ cause, r = some cause ∧ PlanRun settings outside came env w chores t (some cause) w' := by
  -- Chore by chore: the first plan is done, and the second begins with what is left, or it stops in
  -- between.
  induction chores generalizing w t with
  | nil =>
      simp only [List.nil_append, planRun_nil, reduceCtorEq, false_and, and_false, exists_false,
        or_false, true_and]
      constructor
      · exact fun run => ⟨[], w, t, rfl, ⟨rfl, rfl⟩, run⟩
      · rintro ⟨_, _, t₂, rfl, ⟨rfl, rfl⟩, run⟩
        exact run
  | cons chore chores ih =>
      cases chore with
      | reuse names =>
          simp only [List.cons_append, planRun_reuse, ih]
          constructor
          · rintro ⟨_, rfl, ⟨t₁, w₁, t₂, rfl, first, second⟩ | ⟨cause, rfl, first⟩⟩
            · exact .inl ⟨_, w₁, t₂, rfl, ⟨t₁, rfl, first⟩, second⟩
            · exact .inr ⟨cause, rfl, _, rfl, first⟩
          · rintro (⟨_, w₁, t₂, rfl, ⟨t₁, rfl, first⟩, second⟩ | ⟨cause, rfl, t', rfl, first⟩)
            · exact ⟨_, rfl, .inl ⟨t₁, w₁, t₂, rfl, first, second⟩⟩
            · exact ⟨t', rfl, .inr ⟨cause, rfl, first⟩⟩
      | start site =>
          simp only [List.cons_append, planRun_start, ih]
          constructor
          · rintro (⟨w₂, _, ends, rfl, ⟨t₁, w₁, t₂, rfl, first, second⟩ | ⟨cause, rfl, first⟩⟩ |
              ⟨cause, rfl, givesUp⟩)
            · exact .inl ⟨_, w₁, t₂, rfl, .inl ⟨w₂, t₁, ends, rfl, first⟩, second⟩
            · exact .inr ⟨cause, rfl, .inl ⟨w₂, _, ends, rfl, first⟩⟩
            · exact .inr ⟨cause, rfl, .inr ⟨cause, rfl, givesUp⟩⟩
          · rintro (⟨_, w₁, t₂, rfl, ⟨w₂, t₁, ends, rfl, first⟩ | ⟨_, ⟨⟩, -⟩, second⟩ |
              ⟨cause, rfl, ⟨w₂, t₁, ends, rfl, first⟩ | ⟨_, ⟨⟩, givesUp⟩⟩)
            · exact .inl ⟨w₂, _, ends, rfl, .inl ⟨t₁, w₁, t₂, rfl, first, second⟩⟩
            · exact .inl ⟨w₂, t₁, ends, rfl, .inr ⟨cause, rfl, first⟩⟩
            · exact .inr ⟨cause, rfl, givesUp⟩

/-- The two ways in which an effect does not succeed. -/
theorem Site.givesUp_iff :
    site.GivesUp settings outside came env w t cause w' ↔
      (∃ e w₁ t', site.Ends settings outside came env w (.fail e) w₁ ∧
        PassedOn site.maps e w₁ t' cause w' ∧ t = site.started came env (.fail e) :: t') ∨
      ∃ d, site.Ends settings outside came env w (.die d) w' ∧
        t = [site.started came env (.die d)] ∧ cause = .die d := by
  constructor
  · rintro (⟨ends, passed⟩ | ⟨ends⟩)
    · exact .inl ⟨_, _, _, ends, passed, rfl⟩
    · exact .inr ⟨_, ends, rfl, rfl⟩
  · rintro (⟨e, w₁, t', ends, passed, rfl⟩ | ⟨d, ends, rfl, rfl⟩)
    · exact .fail ends passed
    · exact .die ends

/-- Chores with services around them are chores among these services. -/
theorem planRun_inside {Ls : List (Layer σ)} :
    PlanRun settings outside came env w (chores.map (.inside Ls)) t r w' ↔
      PlanRun settings outside came (env.merge (Layer.together came Ls Context.empty)) w chores t r
        w' := by
  induction chores generalizing w t with
  | nil => simp only [List.map_nil, planRun_nil]
  | cons chore chores ih =>
      cases chore with
      | reuse names => simp only [List.map_cons, Chore.inside, planRun_reuse, ih]
      | start site =>
          -- A site inside another layer sees that layer's services besides those around it.
          have among : ({ site with around := site.around ++ [Ls] } : Site σ).among came env =
              site.among came (env.merge (Layer.together came Ls Context.empty)) := by
            simp only [Site.among, List.foldr_append, List.foldr_cons, List.foldr_nil]
          simp only [List.map_cons, Chore.inside, planRun_start, ih, Site.givesUp_iff, Site.Ends,
            Site.started, among]

/-- What becomes of a failure that is handed to one function. -/
theorem passedOn_singleton :
    PassedOn [f] e w t cause w' ↔ t = [.converted f e] ∧
      cause = converted (w.guarded (f e)).1 ∧ w' = (w.guarded (f e)).2 := by
  -- The one function ends with an error, which is what is passed on, or panics.
  rcases call : w.guarded (f e) with ⟨d | e₁, w₁⟩
  · constructor
    · intro passed
      cases passed with
      | next call' rest =>
          rw [call] at call'
          cases call'
      | panic call' =>
          rw [call] at call'
          cases call'
          exact ⟨rfl, rfl, rfl⟩
    · rintro ⟨rfl, rfl, rfl⟩
      exact .panic call
  · constructor
    · intro passed
      cases passed with
      | next call' rest =>
          rw [call] at call'
          cases call'
          cases rest
          exact ⟨rfl, rfl, rfl⟩
      | panic call' =>
          rw [call] at call'
          cases call'
    · rintro ⟨rfl, rfl, rfl⟩
      exact .next call .out

/-- A failure comes to the last function if it is still one there. -/
theorem passedOn_concat :
    PassedOn (maps ++ [f]) e w t cause w' ↔
      (∃ e₁ t₁ w₁, PassedOn maps e w t₁ (.fail e₁) w₁ ∧ t = t₁ ++ [.converted f e₁] ∧
        cause = converted (w₁.guarded (f e₁)).1 ∧ w' = (w₁.guarded (f e₁)).2) ∨
      ∃ d, cause = .die d ∧ PassedOn maps e w t (.die d) w' := by
  -- The functions in front are applied first, and a panic in one of them leaves the last one out.
  induction maps generalizing e w t with
  | nil =>
      rw [List.nil_append, passedOn_singleton]
      constructor
      · rintro ⟨rfl, rfl, rfl⟩
        exact .inl ⟨e, [], w, .out, rfl, rfl, rfl⟩
      · rintro (⟨e₁, t₁, w₁, ⟨⟩, rfl, rfl, rfl⟩ | ⟨d, rfl, ⟨⟩⟩)
        exact ⟨rfl, rfl, rfl⟩
  | cons g maps ih =>
      constructor
      · rintro (_ | ⟨call, rest⟩ | call)
        · rcases ih.1 rest with ⟨e₁, t₁, w₁, passed, rfl, rfl, rfl⟩ | ⟨d, rfl, passed⟩
          · exact .inl ⟨e₁, _, w₁, .next call passed, rfl, rfl, rfl⟩
          · exact .inr ⟨d, rfl, .next call passed⟩
        · exact .inr ⟨_, rfl, .panic call⟩
      · rintro (⟨e₁, _, w₁, _ | ⟨call, rest⟩, rfl, rfl, rfl⟩ |
          ⟨d, rfl, _ | ⟨call, rest⟩ | call⟩)
        · exact .next call (ih.2 (.inl ⟨e₁, _, w₁, rest, rfl, rfl, rfl⟩))
        · exact .next call (ih.2 (.inr ⟨d, rfl, rest⟩))
        · exact .panic call

/-- What becomes of an effect that does not succeed, where one more function is around it. -/
theorem Site.givesUp_mapped :
    ({ site with maps := site.maps ++ [f] } : Site σ).GivesUp settings outside came env w t cause
        w' ↔
      (∃ e t₁ w₁, site.GivesUp settings outside came env w t₁ (.fail e) w₁ ∧
        t = t₁ ++ [.converted f e] ∧ cause = converted (w₁.guarded (f e)).1 ∧
        w' = (w₁.guarded (f e)).2) ∨
      ∃ d, cause = .die d ∧ site.GivesUp settings outside came env w t (.die d) w' := by
  -- The added function is the outermost, so it comes after what the site gave up with, unless that
  -- is a defect.
  constructor
  · rintro (⟨ends, passed⟩ | ⟨ends⟩)
    · rcases passedOn_concat.1 passed with ⟨e₁, t₁, w₁, inner, rfl, rfl, rfl⟩ | ⟨d, rfl, inner⟩
      · exact .inl ⟨e₁, _, w₁, .fail ends inner, rfl, rfl, rfl⟩
      · exact .inr ⟨d, rfl, .fail ends inner⟩
    · exact .inr ⟨_, rfl, .die ends⟩
  · rintro (⟨e, _, w₁, ⟨ends, passed⟩, rfl, rfl, rfl⟩ | ⟨d, rfl, ⟨ends, passed⟩ | ⟨ends⟩⟩)
    · exact .fail ends (passedOn_concat.2 (.inl ⟨e, _, w₁, passed, rfl, rfl, rfl⟩))
    · exact .fail ends (passedOn_concat.2 (.inr ⟨d, rfl, passed⟩))
    · exact .die ends

/-- Where one more function is around chores, it is handed the failure in the end, if there is
    one. -/
theorem planRun_mapped :
    PlanRun settings outside came env w (chores.map (.mapped f)) t r w' ↔
      (r = none ∧ PlanRun settings outside came env w chores t none w') ∨
      (∃ e t₁ w₁, PlanRun settings outside came env w chores t₁ (some (.fail e)) w₁ ∧
        t = t₁ ++ [.converted f e] ∧ r = some (converted (w₁.guarded (f e)).1) ∧
        w' = (w₁.guarded (f e)).2) ∨
      ∃ d, r = some (.die d) ∧ PlanRun settings outside came env w chores t (some (.die d)) w' := by
  induction chores generalizing w t with
  | nil =>
      simp only [List.map_nil, planRun_nil, reduceCtorEq, false_and, and_false, exists_false,
        or_false, true_and]
      exact ⟨fun ⟨a, b, c⟩ => ⟨b, a, c⟩, fun ⟨b, a, c⟩ => ⟨a, b, c⟩⟩
  | cons chore chores ih =>
      cases chore with
      | reuse names =>
          simp only [List.map_cons, Chore.mapped, planRun_reuse, ih]
          constructor
          · rintro ⟨_, rfl, ⟨rfl, run⟩ | ⟨e, t₁, w₁, run, rfl, rfl, rfl⟩ | ⟨d, rfl, run⟩⟩
            · exact .inl ⟨rfl, _, rfl, run⟩
            · exact .inr (.inl ⟨e, _, w₁, ⟨t₁, rfl, run⟩, rfl, rfl, rfl⟩)
            · exact .inr (.inr ⟨d, rfl, _, rfl, run⟩)
          · rintro (⟨rfl, t₁, rfl, run⟩ | ⟨e, _, w₁, ⟨t₁, rfl, run⟩, rfl, rfl, rfl⟩ |
              ⟨d, rfl, t₁, rfl, run⟩)
            · exact ⟨t₁, rfl, .inl ⟨rfl, run⟩⟩
            · exact ⟨_, rfl, .inr (.inl ⟨e, t₁, w₁, run, rfl, rfl, rfl⟩)⟩
            · exact ⟨t₁, rfl, .inr (.inr ⟨d, rfl, run⟩)⟩
      | start site =>
          -- The functions only concern the failure of a site, not how it ends.
          have ends (w x w') : ({ site with maps := site.maps ++ [f] } : Site σ).Ends settings
              outside came env w x w' ↔ site.Ends settings outside came env w x w' := Iff.rfl
          have started (x) : ({ site with maps := site.maps ++ [f] } : Site σ).started came env x =
              site.started came env x := rfl
          simp only [List.map_cons, Chore.mapped, planRun_start, ih, Site.givesUp_mapped, ends,
            started]
          constructor
          · rintro (⟨w₂, _, run, rfl, ⟨rfl, rest⟩ | ⟨e, t₁, w₁, rest, rfl, rfl, rfl⟩ |
              ⟨d, rfl, rest⟩⟩ | ⟨_, rfl, ⟨e, t₁, w₁, givesUp, rfl, rfl, rfl⟩ | ⟨d, rfl, givesUp⟩⟩)
            · exact .inl ⟨rfl, .inl ⟨w₂, _, run, rfl, rest⟩⟩
            · exact .inr (.inl ⟨e, _, w₁, .inl ⟨w₂, t₁, run, rfl, rest⟩, rfl, rfl, rfl⟩)
            · exact .inr (.inr ⟨d, rfl, .inl ⟨w₂, _, run, rfl, rest⟩⟩)
            · exact .inr (.inl ⟨e, t₁, w₁, .inr ⟨_, rfl, givesUp⟩, rfl, rfl, rfl⟩)
            · exact .inr (.inr ⟨d, rfl, .inr ⟨_, rfl, givesUp⟩⟩)
          · rintro (⟨rfl, ⟨w₂, t₁, run, rfl, rest⟩ | ⟨_, ⟨⟩, -⟩⟩ |
              ⟨e, _, w₁, ⟨w₂, t₁, run, rfl, rest⟩ | ⟨_, ⟨⟩, givesUp⟩, rfl, rfl, rfl⟩ |
              ⟨d, rfl, ⟨w₂, t₁, run, rfl, rest⟩ | ⟨_, ⟨⟩, givesUp⟩⟩)
            · exact .inl ⟨w₂, t₁, run, rfl, .inl ⟨rfl, rest⟩⟩
            · exact .inl ⟨w₂, _, run, rfl, .inr (.inl ⟨e, t₁, w₁, rest, rfl, rfl, rfl⟩)⟩
            · exact .inr ⟨_, rfl, .inl ⟨e, _, w₁, givesUp, rfl, rfl, rfl⟩⟩
            · exact .inl ⟨w₂, t₁, run, rfl, .inr (.inr ⟨d, rfl, rest⟩)⟩
            · exact .inr ⟨_, rfl, .inr ⟨d, rfl, givesUp⟩⟩

end Carrying

/-! ### What is told of a build -/

section Telling

variable {settings : Settings} {outside : Outside σ} {came : LayerId → Value} {env : Context}
  {w w' : World σ} {t t₁ t₂ : List (Happening σ)} {r : Option (Cause Value)}

@[simp] theorem told_append : told (t₁ ++ t₂) = told t₁ ++ told t₂ :=
  List.filter_append _ _

/-- What two lists of happenings tell is what each of them does. -/
theorem tells_append : Tells came (t₁ ++ t₂) ↔ Tells came t₁ ∧ Tells came t₂ := by
  constructor
  · exact fun tells => ⟨fun _ _ _ _ _ mem => tells _ _ _ _ _ (List.mem_append_left _ mem),
      fun _ _ _ _ _ mem => tells _ _ _ _ _ (List.mem_append_right _ mem)⟩
  · rintro ⟨first, second⟩ id key e env v mem
    exact (List.mem_append.1 mem).elim (first _ _ _ _ _) (second _ _ _ _ _)

/-- That services are handed out says nothing about what effects have succeeded with. -/
theorem tells_told : Tells came (told t) ↔ Tells came t :=
  ⟨fun tells _ _ _ _ _ mem => tells _ _ _ _ _ (List.mem_filter.2 ⟨mem, rfl⟩),
    fun tells _ _ _ _ _ mem => tells _ _ _ _ _ (List.mem_filter.1 mem).1⟩

/-- Functions tell nothing of effects, since they start none. -/
theorem PassedOn.tells {maps : List (Value → Act σ Value)} {e : Value} {cause : Cause Value}
    (passed : PassedOn maps e w t cause w') : Tells came t := by
  induction passed with
  | out => exact nofun
  | next call rest ih =>
      intro id key e env v mem
      rcases List.mem_cons.1 mem with same | mem
      · cases same
      · exact ih _ _ _ _ _ mem
  | panic call =>
      intro id key e env v mem
      cases List.mem_singleton.1 mem

/-- What has been carried out with something that is known was what is known. -/
theorem PlanRun.tells {chores : List (Chore σ)}
    (run : PlanRun settings outside came env w chores t r w') : Tells came t := by
  induction run with
  | nothing => exact nofun
  | reused rest ih =>
      intro id key e env v mem
      rcases List.mem_cons.1 mem with same | mem
      · cases same
      · exact ih _ _ _ _ _ mem
  | started ends rest ih =>
      intro id key e env v mem
      rcases List.mem_cons.1 mem with same | mem
      · cases same
        rfl
      · exact ih _ _ _ _ _ mem
  | stopped givesUp =>
      intro id key e env v mem
      cases givesUp with
      | fail ends passed =>
          rcases List.mem_cons.1 mem with same | mem
          · cases same
          · exact passed.tells _ _ _ _ _ mem
      | die ends => cases List.mem_singleton.1 mem

/-- Where no effect was started twice, it can be known what they have succeeded with. -/
theorem exists_tells (once : (starts t).Nodup) : ∃ came, Tells came t := by
  induction t with
  | nil => exact ⟨fun _ => .null, nofun⟩
  | cons happening t ih =>
      have others : (starts t).Nodup := once.sublist ((List.sublist_cons_self _ _).filterMap _)
      obtain ⟨came, tells⟩ := ih others
      by_cases success : ∃ id key e env v, happening = .started id key e env (.success v)
      · obtain ⟨id, key, e, env, v, rfl⟩ := success
        -- Nothing else is known of this layer, since its effect is not started any more.
        refine ⟨Function.update came id v, fun id' key' e' env' v' mem => ?_⟩
        rcases List.mem_cons.1 mem with same | later
        · cases same
          exact Function.update_self ..
        · have other : id' ≠ id := by
            intro same
            rw [same] at later
            exact (List.nodup_cons.1 once).1 (mem_starts.2 ⟨key', e', env', _, later⟩)
          rw [Function.update_of_ne other]
          exact tells _ _ _ _ _ later
      · refine ⟨came, fun id key e env v mem => ?_⟩
        rcases List.mem_cons.1 mem with same | mem
        · exact absurd ⟨id, key, e, env, v, same.symm⟩ success
        · exact tells _ _ _ _ _ mem

end Telling

/-! ### Buildings and plans -/

/-- A memo holds what comes out of all layers that have been built, and nothing else. -/
def Accords (R : Layer σ) (came : LayerId → Value) (built : List LayerId) (memo : Memo) : Prop :=
  ∀ M, Layer.Within M R →
    memo.context? M.id = if M.id ∈ built then some (M.services came) else none

/-- A building does what a plan says, and comes to some services if nothing goes wrong. -/
structure Building.RunsPlan (settings : Settings) (outside : Outside σ) (R : Layer σ)
    (came : LayerId → Value) (p : Plan σ) (c : Context) (b : Building σ) : Prop where
  /-- What happens is what the plan says. -/
  does : ∀ {memo built env w t r w'}, Accords R came built memo → b memo env w t r w' →
    Tells came t → PlanRun settings outside came env w (p built).1 (told t) r.cause? w'
  /-- What comes out are the services, and the memo holds what has been built. -/
  leaves : ∀ {memo built env w t c' memo' w'}, Accords R came built memo →
    b memo env w t (.ready c' memo') w' → Tells came t →
      c' = c ∧ Accords R came (p built).2 memo'
  /-- What the plan says can happen. -/
  can : ∀ {memo built env w t r w'}, Accords R came built memo →
    PlanRun settings outside came env w (p built).1 t r w' →
      ∃ t' r', b memo env w t' r' w' ∧ told t' = t ∧ r'.cause? = r

namespace Building

section RunsPlan

variable {settings : Settings} {outside : Outside σ} {R : Layer σ} {came : LayerId → Value}
  {p q : Plan σ} {c c' : Context} {b : Building σ}

/-- A context has nothing to do. -/
theorem runsPlan_done (c : Context) : RunsPlan settings outside R came .nothing c (.Done c) where
  does accords run tells := by
    cases run
    exact .nothing
  leaves accords run tells := by
    cases run
    exact ⟨rfl, accords⟩
  can accords run := by
    obtain ⟨rfl, rfl, rfl⟩ := planRun_nil.1 run
    exact ⟨[], _, .ready, rfl, rfl⟩

/-- An effect is one site, with nothing around it. -/
theorem runsPlan_runs (id : LayerId) (key : ServiceKey) (e : Effect σ) :
    RunsPlan settings outside R came (.start ⟨id, key, e, [], []⟩) (Context.single key (came id))
      (.Runs settings outside id key e) where
  does {memo built env w t r w'} accords run tells := by
    have ends {x} (run : Evaluates settings outside (.effect e) (.of env)
        (w.report (.buildingLayer key.name)) x w') :
        Site.Ends settings outside came env ⟨id, key, e, [], []⟩ w x w' := ends_iff_evaluates.2 run
    cases run with
    | @ready _ _ _ v _ run =>
        obtain rfl : came id = v := tells _ _ _ _ _ List.mem_cons_self
        exact .started (ends run) .nothing
    | @stopped _ _ _ cause _ run =>
        cases cause with
        | fail error => exact .stopped (.fail (ends run) .out)
        | die d => exact .stopped (.die (ends run))
  leaves accords run tells := by
    cases run with
    | @ready _ _ _ v _ run =>
        have same : came id = v := tells _ _ _ _ _ List.mem_cons_self
        exact ⟨congrArg _ same.symm, accords⟩
  can {memo built env w t r w'} accords run := by
    have evaluates {x w'} (ends : Site.Ends settings outside came env ⟨id, key, e, [], []⟩ w x w') :
        Evaluates settings outside (.effect e) (.of env) (w.report (.buildingLayer key.name)) x
          w' := ends_iff_evaluates.1 ends
    have stopped {cause w'} (ends : Site.Ends settings outside came env ⟨id, key, e, [], []⟩ w
        (.ofCause cause) w') : Runs settings outside id key e memo env w
          [.started id key e env (.ofCause cause)] (.stopped cause) w' := .stopped (evaluates ends)
    rcases planRun_start.1 run with ⟨w₁, t', ends, rfl, rest⟩ | ⟨cause, rfl, givesUp⟩
    · obtain ⟨rfl, rfl, rfl⟩ := planRun_nil.1 rest
      exact ⟨_, _, .ready (evaluates ends), rfl, rfl⟩
    · cases givesUp with
      | @fail error _ _ _ _ ends passed =>
          cases passed
          exact ⟨_, _, @stopped (.fail error) _ ends, rfl, rfl⟩
      | @die d _ ends => exact ⟨_, _, @stopped (.die d) _ ends, rfl, rfl⟩

/-- One building behind another does what the two plans say. If the first one is given up, the
    second is not begun. -/
theorem runsPlan_then {k : Context → Building σ} (first : RunsPlan settings outside R came p c b)
    (second : RunsPlan settings outside R came q c' (k c)) :
    RunsPlan settings outside R came (p.andThen q) c' (.Then b k) where
  does accords run tells := by
    refine planRun_append.2 ?_
    cases run with
    | ready one two =>
        obtain ⟨tells₁, tells₂⟩ := tells_append.1 tells
        obtain ⟨rfl, later⟩ := first.leaves accords one tells₁
        exact .inl ⟨_, _, _, told_append, first.does accords one tells₁,
          second.does later two tells₂⟩
    | stopped one => exact .inr ⟨_, rfl, first.does accords one tells⟩
  leaves accords run tells := by
    cases run with
    | ready one two =>
        obtain ⟨tells₁, tells₂⟩ := tells_append.1 tells
        obtain ⟨rfl, later⟩ := first.leaves accords one tells₁
        exact second.leaves later two tells₂
  can accords run := by
    rcases planRun_append.1 run with ⟨t₁, w₁, t₂, rfl, one, two⟩ | ⟨cause, rfl, one⟩
    · obtain ⟨t₁', r₁, one', rfl, ready⟩ := first.can accords one
      cases r₁ with
      | stopped cause => cases ready
      | ready c₁ memo₁ =>
          obtain ⟨rfl, later⟩ := first.leaves accords one' (tells_told.1 one.tells)
          obtain ⟨t₂', r₂, two', rfl, same⟩ := second.can later two
          exact ⟨_, r₂, .ready one' two', told_append, same⟩
    · obtain ⟨t', r', one', rfl, stopped⟩ := first.can accords one
      cases r' with
      | ready c₁ memo₁ => cases stopped
      | stopped cause' =>
          cases stopped
          exact ⟨t', _, .stopped one', rfl, rfl⟩

/-- A building among services does what the plan says among them. -/
theorem runsPlan_inside {services : Context} {Ls : List (Layer σ)}
    (same : Layer.together came Ls Context.empty = services)
    (inner : RunsPlan settings outside R came p c b) :
    RunsPlan settings outside R came (p.inside Ls) c (.Inside b services) where
  does accords run tells := by
    subst same
    exact planRun_inside.2 (inner.does accords run tells)
  leaves accords run tells := inner.leaves accords run tells
  can accords run := by
    subst same
    exact inner.can accords (planRun_inside.1 run)

/-- A failure goes through one more function, which stands outside of those at the site. -/
theorem runsPlan_converting (f : Value → Act σ Value)
    (inner : RunsPlan settings outside R came p c b) :
    RunsPlan settings outside R came (p.mapped f) c (.Converting b f) where
  does accords run tells := by
    refine planRun_mapped.2 ?_
    cases run with
    | ready one => exact .inl ⟨rfl, inner.does accords one tells⟩
    | fail one =>
        exact .inr (.inl ⟨_, _, _, inner.does accords one (tells_append.1 tells).1, told_append,
          rfl, rfl⟩)
    | die one => exact .inr (.inr ⟨_, rfl, inner.does accords one tells⟩)
  leaves accords run tells := by
    cases run with
    | ready one => exact inner.leaves accords one tells
  can accords run := by
    -- Done without stopping, stopped with a failure that is converted, or with a defect that is
    -- not.
    rcases planRun_mapped.1 run with ⟨rfl, one⟩ | ⟨e, t₁, w₁, one, rfl, rfl, rfl⟩ | ⟨d, rfl, one⟩
    · obtain ⟨t', r', one', rfl, ready⟩ := inner.can accords one
      cases r' with
      | ready c₁ memo₁ => exact ⟨t', _, .ready one', rfl, rfl⟩
      | stopped cause => cases ready
    · obtain ⟨t', r', one', rfl, stopped⟩ := inner.can accords one
      cases r' with
      | ready c₁ memo₁ => cases stopped
      | stopped cause =>
          cases stopped
          exact ⟨_, _, .fail one', told_append, rfl⟩
    · obtain ⟨t', r', one', rfl, stopped⟩ := inner.can accords one
      cases r' with
      | ready c₁ memo₁ => cases stopped
      | stopped cause =>
          cases stopped
          exact ⟨t', _, .die one', rfl, rfl⟩

/-- A layer that has been built is reused, and any other one is built and remembered. -/
theorem runsPlan_remembering {L : Layer σ} (numbered : R.Numbered) (within : L.Within R)
    (inner : RunsPlan settings outside R came p (L.services came) b) :
    RunsPlan settings outside R came (.once L.info p) (L.services came)
      (.Remembering L.info b) where
  does {memo built env w t r w'} accords run tells := by
    have held := accords L within
    rw [Plan.once]
    -- Reused if it is in the memo, built and kept if not; the plan decides by the same list.
    by_cases again : L.info.id ∈ built
    · rw [Layer.id, if_pos again] at held
      rw [if_pos again]
      cases run with
      | reused hit => exact .reused .nothing
      | kept miss one => cases held.symm.trans miss
      | stopped miss one => cases held.symm.trans miss
    · rw [Layer.id, if_neg again] at held
      rw [if_neg again]
      cases run with
      | reused hit => cases held.symm.trans hit
      | kept miss one =>
          rw [told_append, show told [.handed L.info.id _] = [] from rfl, List.append_nil]
          have done := inner.does accords one (tells_append.1 tells).1
          exact done
      | stopped miss one => exact inner.does accords one tells
  leaves {memo built env w t c' memo' w'} accords run tells := by
    have held := accords L within
    rw [Plan.once]
    by_cases again : L.info.id ∈ built
    · rw [Layer.id, if_pos again] at held
      rw [if_pos again]
      cases run with
      | reused hit => exact ⟨Option.some.inj (hit.symm.trans held), accords⟩
      | kept miss one => cases held.symm.trans miss
    · rw [Layer.id, if_neg again] at held
      rw [if_neg again]
      cases run with
      | reused hit => cases held.symm.trans hit
      | kept miss one =>
          obtain ⟨rfl, later⟩ := inner.leaves accords one (tells_append.1 tells).1
          refine ⟨rfl, fun M hM => ?_⟩
          rw [Memo.context?_cons]
          by_cases self : L.info.id = M.id
          · -- No other layer has this number.
            obtain rfl : L = M := numbered L M within hM self
            rw [if_pos self]
            exact (if_pos List.mem_cons_self).symm
          · rw [if_neg self, later M hM]
            have same : M.id ∈ L.info.id :: (p built).2 ↔ M.id ∈ (p built).2 :=
              List.mem_cons.trans (or_iff_right fun h => self h.symm)
            simp only [same]
  can {memo built env w t r w'} accords run := by
    have held := accords L within
    rw [Plan.once] at run
    by_cases again : L.info.id ∈ built
    · rw [Layer.id, if_pos again] at held
      rw [if_pos again] at run
      obtain ⟨t', rfl, rest⟩ := planRun_reuse.1 run
      obtain ⟨rfl, rfl, rfl⟩ := planRun_nil.1 rest
      exact ⟨_, _, .reused held, rfl, rfl⟩
    · rw [Layer.id, if_neg again] at held
      rw [if_neg again] at run
      obtain ⟨t', r', one, rfl, rfl⟩ := inner.can accords run
      cases r' with
      | ready c₁ memo₁ =>
          refine ⟨_, _, .kept held one, ?_, rfl⟩
          rw [told_append, show told [.handed L.info.id c₁] = [] from rfl, List.append_nil]
      | stopped cause => exact ⟨t', _, .stopped held one, rfl, rfl⟩

end RunsPlan

end Building

namespace Layer

section Building

variable {settings : Settings} {outside : Outside σ} {R : Layer σ} {came : LayerId → Value}

theorem Plan.andThen_nothing (p : Plan σ) : p.andThen .nothing = p := by
  funext built
  rw [Plan.andThen, Plan.nothing, List.append_nil]

/-- The services of a further layer are added last. -/
theorem together_append (before : List (Layer σ)) (L : Layer σ) (sofar : Context) :
    together came (before ++ [L]) sofar = (together came before sofar).merge (L.services came) := by
  induction before generalizing sofar with
  | nil => rfl
  | cons M before ih => exact ih _

theorem together_singleton (L : Layer σ) :
    together came [L] Context.empty = L.services came := by
  refine Context.ext_get? fun key => ?_
  rw [together, together, Context.get?_merge, Context.get?_empty, Option.or_none]

mutual
/-- A layer does what its plan says. -/
theorem runsPlan_building (numbered : R.Numbered) : ∀ L : Layer σ, L.Within R →
    Building.RunsPlan settings outside R came L.plan (L.services came)
      (L.building settings outside .Remembering)
  | .build info key e, within =>
      Building.runsPlan_remembering numbered within (Building.runsPlan_runs info.id key e)
  | .context info c, within =>
      Building.runsPlan_remembering numbered within (Building.runsPlan_done c)
  | .provide info consumer supplier keep, within => by
      have part {N : Layer σ} (mem : N ∈ (provide info consumer supplier keep).children) :=
        Within.ofPart mem within
      -- The supplier comes first, and the consumer sees its services.
      have first := runsPlan_building numbered supplier (part (mem_children_provide.2 (.inl rfl)))
      have second := runsPlan_building numbered consumer (part (mem_children_provide.2 (.inr rfl)))
      have below := Building.runsPlan_inside (together_singleton supplier) second
      refine Building.runsPlan_remembering numbered within ?_
      cases keep with
      | true =>
          have kept := Building.runsPlan_then
            (k := fun second => .Done ((supplier.services came).merge second)) below
            (Building.runsPlan_done _)
          rw [Plan.andThen_nothing] at kept
          exact Building.runsPlan_then first kept
      | false => exact Building.runsPlan_then first below
  | .merge info left right, within => by
      have part {N : Layer σ} (mem : N ∈ (merge info left right).children) :=
        Within.ofPart mem within
      have first := runsPlan_building numbered left (part (mem_children_merge.2 (.inl rfl)))
      have second := runsPlan_building numbered right (part (mem_children_merge.2 (.inr rfl)))
      have both := Building.runsPlan_then
        (k := fun two => .Done ((left.services came).merge two)) second (Building.runsPlan_done _)
      rw [Plan.andThen_nothing] at both
      exact Building.runsPlan_remembering numbered within (Building.runsPlan_then first both)
  | .sequence info layers, within =>
      Building.runsPlan_remembering numbered within (runsPlan_freshEach numbered layers
        (fun M mem => Within.ofPart (show M ∈ (sequence info layers).children from mem) within) [])
  | .mapError info inner f, within => by
      have inside : Within inner R :=
        Within.ofPart (show inner ∈ (mapError info inner f).children from List.mem_cons_self) within
      exact Building.runsPlan_remembering numbered within
        (Building.runsPlan_converting f (runsPlan_building numbered inner inside))

/-- Layers one after the other, each built with those before it. The recursion is on the layers that
    are still to come. -/
theorem runsPlan_freshEach (numbered : R.Numbered) : ∀ layers : List (Layer σ),
    (∀ L ∈ layers, L.Within R) → ∀ before : List (Layer σ),
      Building.RunsPlan settings outside R came (anewEach layers before)
        (together came layers (together came before Context.empty))
        (freshEach settings outside .Remembering layers (together came before Context.empty))
  | [], _, _ => Building.runsPlan_done _
  | L :: rest, within, before => by
      have first := runsPlan_building numbered L (within L List.mem_cons_self)
      have others := runsPlan_freshEach numbered rest
        (fun M mem => within M (List.mem_cons_of_mem _ mem)) (before ++ [L])
      rw [together_append] at others
      exact Building.runsPlan_then (Building.runsPlan_inside rfl first) others
end

end Building

end Layer

end EffectKernel
