import EffectKernel.Fiber.Turn
import EffectKernel.Proofs.ServicesAtEnd
import Mathlib.Data.List.Forall2

/-!
# Programs That Look Alike

Two programs look alike if nobody who runs them can tell which is which. They may be written
differently and take different steps, but they end in the same way after the same time, having
done the same to the state of the program, and whatever they ask for on the way, they ask for the
same things in the same order.

A likeness says which effects and which machines are held to look alike. It is upheld
(`Likeness.Upheld`) if machines that look alike, wherever they are and whatever the settings,
come after some steps of their own to the same end, to requests that look alike, or just to
machines that look alike again. Both have to take a step in the last case, so neither of them can
go on for ever while the other one stands still. Nothing is said of fibers or of the kernel here;
what two machines ask for is alike if both can go on alike with whatever the answer is.

What the functions of the programs give has to be compared, too. Functions are alike if from each
state they leave the same one and give things that are alike, or stop with the same panic
(`Gives`). A function that hears of a handle may do something with handles before it stops; from
there on the fiber dies, and so it does if the handle is used at once to tell it to
(`Registered`).

## Main definitions

* `Gives`: What functions that are alike give.
* `Signal.Alike`, `Registered`: What happens to handles.
* `Likeness`: Which effects and which machines are held to look alike.
* `Likeness.Meets`: Two machines come to something that is alike.
* `Likeness.UpheldOn`, `Likeness.Upheld`: Machines that look alike meet.

## Theorems

* `Likeness.Meets.after`: Two machines meet after some steps.
* `Likeness.Meets.surrounded`: They do so inside other machines and above frames.
* `Likeness.Upheld.symm`: Looking alike has no direction.
-/

namespace EffectKernel

/-- What functions on the state that are alike give when they are run from one state: things that
    are alike, or the same panic, or a panic and something that stands for it. -/
inductive Gives {σ α β : Type} (Like : α → β → Prop) (Death : Panic → β → Prop) :
    Except Panic α × σ → Except Panic β × σ → Prop where
  /-- Both give something. -/
  | ok {a b s} (alike : Like a b) : Gives Like Death (.ok a, s) (.ok b, s)
  /-- Both panic. -/
  | error {p s} : Gives Like Death (.error p, s) (.error p, s)
  /-- The panic of the one is a death in the other. -/
  | death {p b s} (death : Death p b) : Gives Like Death (.error p, s) (.ok b, s)

/-- What happens to a handle, where effects may be exchanged for others. -/
inductive Signal.Alike {σ : Type} (Like : Effect σ → Effect σ → Prop) :
    Signal σ → Signal σ → Prop where
  /-- The waiting effect ends. -/
  | complete {handle x} : Alike Like (.complete handle x) (.complete handle x)
  /-- The waiting effect goes on as another one. -/
  | resume {handle e e'} (alike : Like e e') : Alike Like (.resume handle e) (.resume handle e')
  /-- The handle is let go. -/
  | release {handle} : Alike Like (.release handle) (.release handle)
  /-- More happens later. -/
  | later {millis handle act act'}
      (alike : ∀ s, Gives (List.Forall₂ (Alike Like)) (fun _ _ => False) (act.run s) (act'.run s)) :
      Alike Like (.later millis handle act) (.later millis handle act')

/-- A function that hears of a handle does something with handles, and the fiber is to die there:
    since the function panics, sooner or later, or since it uses the handle for that. -/
inductive Fatal {σ : Type} (handle : Handle) (d : Defect) :
    List (Signal σ) → σ → Except Panic (List (Signal σ) × Option Panic) × σ → Prop where
  /-- It panics, and that is all. -/
  | atOnce {p s} (defect : d = .ofPanic p) : Fatal handle d [] s (.error p, s)
  /-- It does something before it panics. -/
  | later {signals p s} (defect : d = .ofPanic p) :
      Fatal handle d signals s (.ok (signals, some p), s)
  /-- It uses the handle to end the waiting effect so, and does something else. -/
  | used {signals s} :
      Fatal handle d signals s (.ok (.complete handle (.die d) :: signals, none), s)

/-- What functions that hear of a handle give, if they are alike. Unless the events are to be the
    same, it does not matter in which way they are fatal. -/
inductive Registered {σ : Type} (exact : Prop) (Like : Effect σ → Effect σ → Prop) :
    Except Panic (List (Signal σ) × Option Panic) × σ →
      Except Panic (List (Signal σ) × Option Panic) × σ → Handle → Prop where
  /-- Both do the same with handles and then panic, or do not. -/
  | same {signals signals' p s handle}
      (alike : List.Forall₂ (Signal.Alike Like) signals signals') :
      Registered exact Like (.ok (signals, p), s) (.ok (signals', p), s) handle
  /-- Both panic at once. -/
  | error {p s handle} : Registered exact Like (.error p, s) (.error p, s) handle
  /-- Both are fatal. -/
  | fatal {d signals signals' s r r' handle} (inexact : ¬ exact)
      (alike : List.Forall₂ (Signal.Alike Like) signals signals')
      (left : Fatal handle d signals s r) (right : Fatal handle d signals' s r') :
      Registered exact Like r r' handle

/-- Which effects and which machines are held to look alike, and whether they report the same
    events. -/
structure Likeness (σ : Type) where
  /-- The events are the same, too. -/
  exact : Prop
  /-- Effects that look alike. -/
  effects : Effect σ → Effect σ → Prop
  /-- Machines that look alike. -/
  machines : Machine σ → Machine σ → Prop

namespace Likeness

open Machine

variable {σ : Type} (L : Likeness σ)

/-- Two worlds that differ in the events at most. -/
structure Worlds (w w' : World σ) : Prop where
  /-- The state of the program is the same. -/
  store : w.store = w'.store
  /-- The time is the same. -/
  clock : w.clock = w'.clock
  /-- The events are the same, if they count. -/
  events : L.exact → w.events = w'.events

/-- Machines that wait and look alike, whatever they are to look at. -/
structure Points (point point' : Suspension σ) : Prop where
  /-- An outcome. -/
  unwind : ∀ x, L.machines (point.resume (.unwind x)) (point'.resume (.unwind x))
  /-- Effects that look alike. -/
  eval : ∀ {e e'}, L.effects e e' → L.machines (point.resume (.eval e)) (point'.resume (.eval e'))

/-- Effects that look alike when they are run among these services. -/
def Starts (env env' : Context) (e e' : Effect σ) : Prop :=
  L.machines (Machine.start e env) (Machine.start e' env')

/-- Requests that look alike, from where machines wait. -/
inductive Requests : Request σ → Suspension σ → Request σ → Suspension σ → Prop where
  | pause {span focus point focus' point'}
      (alike : L.machines (point.resume focus) (point'.resume focus')) :
      Requests (.pause span focus) point (.pause span focus') point'
  | giveWay {focus point focus' point'}
      (alike : L.machines (point.resume focus) (point'.resume focus')) :
      Requests (.giveWay focus) point (.giveWay focus') point'
  | listen {register point register' point'}
      (alike : ∀ handle s, Registered L.exact L.effects ((register handle).run s)
        ((register' handle).run s) handle)
      (points : L.Points point point') :
      Requests (.listen register) point (.listen register') point'
  | within {source limit point source' point'}
      (starts : L.Starts point.env point'.env source source') (points : L.Points point point') :
      Requests (.within source limit) point (.within source' limit) point'
  | gather {children collect point children' point'}
      (starts : List.Forall₂ (L.Starts point.env point'.env) children children')
      (points : L.Points point point') :
      Requests (.gather children collect) point (.gather children' collect) point'
  | compete {children point children' point'}
      (starts : List.Forall₂ (L.Starts point.env point'.env) children children')
      (points : L.Points point point') :
      Requests (.compete children) point (.compete children') point'

/-- Two machines come, after some steps of their own, to something that is alike. -/
inductive Meets (settings : Settings) (m : Machine σ) (w : World σ) (m' : Machine σ)
    (w' : World σ) : Prop where
  /-- Both end. -/
  | ended {n x env v n' env' v'} (left : Steps settings n m w ⟨.unwind x, env, []⟩ v)
      (right : Steps settings n' m' w' ⟨.unwind x, env', []⟩ v') (worlds : L.Worlds v v') :
      Meets settings m w m' w'
  /-- Both go on as machines that look alike. -/
  | ahead {n m₁ v n' m₁' v'} (left : Steps settings n m w m₁ v) (moves : 0 < n)
      (right : Steps settings n' m' w' m₁' v') (moves' : 0 < n') (alike : L.machines m₁ m₁')
      (worlds : L.Worlds v v') : Meets settings m w m' w'
  /-- Both ask for something. -/
  | asking {n m₁ v request point u n' m₁' v' request' point' u'}
      (left : Steps settings n m w m₁ v)
      (asks : m₁.step settings v = (.ask request point, u))
      (right : Steps settings n' m' w' m₁' v')
      (asks' : m₁'.step settings v' = (.ask request' point', u'))
      (alike : L.Requests request point request' point') (worlds : L.Worlds u u') :
      Meets settings m w m' w'

/-- Machines that look alike meet where runs have these settings, in worlds that do not differ. -/
def UpheldOn (settings : Settings) : Prop :=
  ∀ ⦃m w m' w'⦄, L.machines m m' → L.Worlds w w' → L.Meets settings m w m' w'

/-- Machines that look alike meet, in worlds that do not differ. -/
def Upheld : Prop :=
  ∀ ⦃settings m w m' w'⦄, L.machines m m' → L.Worlds w w' → L.Meets settings m w m' w'

/-- The same programs, seen from the other side. -/
def symm : Likeness σ :=
  ⟨L.exact, fun e e' => L.effects e' e, fun m m' => L.machines m' m⟩

variable {L}

section Meets

variable {settings : Settings} {m m₁ m' m₁' : Machine σ} {w v w' v' : World σ} {n n' : Nat}

/-- Two machines meet if they do so after some steps. -/
theorem Meets.after (meets : L.Meets settings m₁ v m₁' v') (left : Steps settings n m w m₁ v)
    (right : Steps settings n' m' w' m₁' v') : L.Meets settings m w m' w' := by
  cases meets with
  | ended left' right' worlds => exact .ended (left.trans left') (right.trans right') worlds
  | ahead left' moves right' moves' alike worlds =>
      exact .ahead (left.trans left') (Nat.add_pos_right _ moves) (right.trans right')
        (Nat.add_pos_right _ moves') alike worlds
  | asking left' asks right' asks' alike worlds =>
      exact .asking (left.trans left') asks (right.trans right') asks' alike worlds

/-- Two machines that take one step each to machines that look alike. -/
theorem Meets.one (left : m.step settings w = (.next m₁, v))
    (right : m'.step settings w' = (.next m₁', v')) (alike : L.machines m₁ m₁')
    (worlds : L.Worlds v v') : L.Meets settings m w m' w' :=
  .ahead (.one left) Nat.one_pos (.one right) Nat.one_pos alike worlds

section Surrounded

variable {around around' : Machine σ → Machine σ} {points points' : Suspension σ → Suspension σ}
  {home : Context}

/-- Requests that look alike do so where both machines are surrounded by more. -/
theorem Requests.surrounded {request request' : Request σ} {point point' : Suspension σ}
    (alike : L.Requests request point request' point') (left : Surrounds around points)
    (right : Surrounds around' points') (same : point'.home = home)
    (lift : ∀ {m m'}, m'.home = home → L.machines m m' → L.machines (around m) (around' m')) :
    L.Requests request (points point) request' (points' point') := by
  -- The machine that is resumed at a surrounded point is the surrounded machine resumed.
  have resumed {focus focus' : Focus σ}
      (alike : L.machines (point.resume focus) (point'.resume focus')) :
      L.machines ((points point).resume focus) ((points' point').resume focus') := by
    rw [left.resume, right.resume]
    exact lift ((point'.home_resume focus').trans same) alike
  have waiting (alike : L.Points point point') : L.Points (points point) (points' point') :=
    ⟨fun x => resumed (alike.unwind x), fun like => resumed (alike.eval like)⟩
  have starting {e e' : Effect σ} (starts : L.Starts point.env point'.env e e') :
      L.Starts (points point).env (points' point').env e e' := by
    rwa [left.env, right.env]
  cases alike with
  | pause alike => exact .pause (resumed alike)
  | giveWay alike => exact .giveWay (resumed alike)
  | listen alike among => exact .listen alike (waiting among)
  | within starts among => exact .within (starting starts) (waiting among)
  | gather starts among => exact .gather (starts.imp fun _ _ => starting) (waiting among)
  | compete starts among => exact .compete (starts.imp fun _ _ => starting) (waiting among)

/-- Two machines that meet do so where they are surrounded by more, if what is around them meets
    when they have ended. -/
theorem Meets.surrounded (meets : L.Meets settings m w m' w') (left : Surrounds around points)
    (right : Surrounds around' points')
    (lift : ∀ {m₁ m₁'}, m₁'.home = m'.home → L.machines m₁ m₁' →
      L.machines (around m₁) (around' m₁'))
    (ended : ∀ x env {v v'}, L.Worlds v v' →
      L.Meets settings (around ⟨.unwind x, env, []⟩) v (around' ⟨.unwind x, m'.home, []⟩) v') :
    L.Meets settings (around m) w (around' m') w' := by
  cases meets with
  | @ended _ x env _ _ env' _ run run' worlds =>
      -- Where the inner run has ended, its environment is the one it began with, and what is around
      -- goes on.
      have same : env' = m'.home := run'.home
      subst same
      exact (ended x env worlds).after (left.steps run) (right.steps run')
  | ahead run moves run' moves' alike worlds =>
      exact .ahead (left.steps run) moves (right.steps run') moves' (lift run'.home alike) worlds
  | asking run asks run' asks' alike worlds =>
      have same := (home_of_asks asks').trans run'.home
      exact .asking (left.steps run) (left.ask asks) (right.steps run') (right.ask asks')
        (alike.surrounded left right same lift) worlds

end Surrounded

end Meets

section Worlds

variable {w w' : World σ}

theorem Worlds.refl (w : World σ) : L.Worlds w w :=
  ⟨rfl, rfl, fun _ => rfl⟩

/-- Both report an event. -/
theorem Worlds.report (h : L.Worlds w w') (event : Event) :
    L.Worlds (w.report event) (w'.report event) :=
  ⟨h.store, h.clock, fun exact => congrArg (·.push event) (h.events exact)⟩

/-- Both get the same state of the program. -/
theorem Worlds.stored (h : L.Worlds w w') (s : σ) :
    L.Worlds { w with store := s } { w' with store := s } :=
  ⟨rfl, h.clock, h.events⟩

/-- The time of both is set. -/
theorem Worlds.timed (h : L.Worlds w w') (time : Nat) :
    L.Worlds { w with clock := time } { w' with clock := time } :=
  ⟨h.store, rfl, h.events⟩

/-- Only the first of them reports an event, which does not count. -/
theorem Worlds.reportLeft (h : L.Worlds w w') (inexact : ¬ L.exact) (event : Event) :
    L.Worlds (w.report event) w' :=
  ⟨h.store, h.clock, fun exact => absurd exact inexact⟩

/-- Only the second of them reports an event, which does not count. -/
theorem Worlds.reportRight (h : L.Worlds w w') (inexact : ¬ L.exact) (event : Event) :
    L.Worlds w (w'.report event) :=
  ⟨h.store, h.clock, fun exact => absurd exact inexact⟩

end Worlds

end Likeness

/-! ### The other side -/

section Symm

variable {σ : Type} {Like : Effect σ → Effect σ → Prop}

mutual
theorem Signal.Alike.symm {signal signal' : Signal σ} :
    Signal.Alike Like signal signal' → Signal.Alike (fun e e' => Like e' e) signal' signal
  | .complete => .complete
  | .resume alike => .resume alike
  | .release => .release
  | .later alike => .later fun s => Signal.alike_symm_gives (alike s)

theorem Signal.alike_symm_gives {r r' : Except Panic (List (Signal σ)) × σ} :
    Gives (List.Forall₂ (Signal.Alike Like)) (fun _ _ => False) r r' →
      Gives (List.Forall₂ (Signal.Alike fun e e' => Like e' e)) (fun _ _ => False) r' r
  | .ok alike => .ok (Signal.alike_symm_all alike)
  | .error => .error

theorem Signal.alike_symm_all {signals signals' : List (Signal σ)} :
    List.Forall₂ (Signal.Alike Like) signals signals' →
      List.Forall₂ (Signal.Alike fun e e' => Like e' e) signals' signals
  | .nil => .nil
  | .cons alike rest => .cons alike.symm (Signal.alike_symm_all rest)
end

theorem Registered.symm {exact : Prop} {handle : Handle}
    {r r' : Except Panic (List (Signal σ) × Option Panic) × σ}
    (h : Registered exact Like r r' handle) :
    Registered exact (fun e e' => Like e' e) r' r handle := by
  cases h with
  | same alike => exact .same (Signal.alike_symm_all alike)
  | error => exact .error
  | fatal inexact alike left right =>
      exact .fatal inexact (Signal.alike_symm_all alike) right left

end Symm

namespace Likeness

variable {σ : Type} {L : Likeness σ}

theorem Worlds.symm {w w' : World σ} (h : L.Worlds w w') : L.symm.Worlds w' w :=
  ⟨h.store.symm, h.clock.symm, fun exact => (h.events exact).symm⟩

theorem Points.symm {point point' : Suspension σ} (h : L.Points point point') :
    L.symm.Points point' point :=
  ⟨h.unwind, h.eval⟩

theorem Requests.symm {request request' : Request σ} {point point' : Suspension σ}
    (h : L.Requests request point request' point') :
    L.symm.Requests request' point' request point := by
  cases h with
  | pause alike => exact .pause alike
  | giveWay alike => exact .giveWay alike
  | listen alike points => exact .listen (fun handle s => (alike handle s).symm) points.symm
  | within starts points => exact .within starts points.symm
  | gather starts points => exact .gather starts.flip points.symm
  | compete starts points => exact .compete starts.flip points.symm

/-- Looking alike has no direction. -/
theorem UpheldOn.symm {settings : Settings} (upheld : L.UpheldOn settings) :
    L.symm.UpheldOn settings := by
  intro m w m' w' alike worlds
  cases upheld alike worlds.symm with
  | ended left right worlds => exact .ended right left worlds.symm
  | ahead left moves right moves' alike worlds =>
      exact .ahead right moves' left moves alike worlds.symm
  | asking left asks right asks' alike worlds =>
      exact .asking right asks' left asks alike.symm worlds.symm

theorem Upheld.on (upheld : L.Upheld) (settings : Settings) : L.UpheldOn settings :=
  @upheld settings

theorem Upheld.symm (upheld : L.Upheld) : L.symm.Upheld :=
  fun settings => (upheld.on settings).symm

end Likeness

end EffectKernel
