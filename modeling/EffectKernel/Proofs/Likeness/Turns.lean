import EffectKernel.Proofs.Joining
import EffectKernel.Proofs.Likeness.Kernels

/-!
# Turns That Look Alike

Fibers that look alike have turns that look alike. If a turn of the one comes to its end, then so
does a turn of the other, perhaps after more steps: both end with the same outcome, or both wait
as fibers that look alike, and they leave kernels that look alike (`Likeness.turn_answered`).

The proof is by induction on the steps of the first turn. A machine that has its turn meets the
other one, and each of the three ways to meet uses up steps, so what is left of the turn is
shorter.

What machines ask for is granted in the same way, but for one thing: if a function that hears of a
handle is fatal, one fiber may be dying already, where the other one still has to find out by
taking from the handle what was put there. The handle then is gone on both sides.

## Main definitions

* `Fiber.Skips`: A fiber goes on as another one in so many steps of its turn.
* `Likeness.Answered`: The end of a turn is that of a fiber that looks alike.

## Theorems

* `Likeness.Requests.granted`: What is granted goes on alike.
* `Likeness.turn_answered`: Fibers that look alike have turns that look alike.
-/

namespace EffectKernel

open Machine

variable {σ : Type}

namespace Fiber

variable {settings : Settings} {path : Path} {n : Nat} {m m₁ : Machine σ} {w₁ : World σ}
  {fiber fiber₁ : Fiber σ} {k k₁ : Kernel σ}

/-- A fiber goes on as another one in so many steps of its turn. -/
def Skips (settings : Settings) (path : Path) (n : Nat) (fiber : Fiber σ) (k : Kernel σ)
    (fiber₁ : Fiber σ) (k₁ : Kernel σ) : Prop :=
  ∀ fuel, turn settings (fuel + n) path fiber k = turn settings fuel path fiber₁ k₁

theorem Skips.continues (h : Skips settings path n fiber k fiber₁ k₁) :
    Continues settings path fiber k fiber₁ k₁ :=
  ⟨0, n, fun fuel _ => h fuel⟩

/-- The machine takes steps. -/
theorem skips_steps (run : Steps settings n m k.world m₁ w₁) :
    Skips settings path n (.ready m) k (.ready m₁) { k with world := w₁ } := by
  generalize hw : k.world = w at run
  induction run generalizing k with
  | none =>
      subst hw
      exact fun _ => rfl
  | more step _ ih =>
      subst hw
      intro fuel
      have rest := ih (k := { k with world := _ }) rfl fuel
      rw [← Nat.add_assoc, turn, step]
      exact rest

/-- A turn that has too few steps for those of the machine. -/
theorem turn_short (run : Steps settings n m k.world m₁ w₁) {fuel : Nat} (few : fuel ≤ n) :
    ∃ k', turn settings fuel path (.ready m) k = (.exhausted, k') := by
  generalize hw : k.world = w at run
  induction run generalizing k fuel with
  | none =>
      rw [Nat.le_zero.1 few]
      exact ⟨k, rfl⟩
  | more step _ ih =>
      subst hw
      cases fuel with
      | zero => exact ⟨k, rfl⟩
      | succ fuel =>
          rw [turn, step]
          exact ih (Nat.le_of_succ_le_succ few) rfl

/-- The machine gets what it asks for, unless that is that others have their turn. -/
theorem skips_ask {request : Request σ} {point : Suspension σ}
    (asks : m.step settings k.world = (.ask request point, w₁))
    (stays : ∀ focus, request ≠ .giveWay focus) :
    Skips settings path 1 (.ready m) k
      (({ k with world := w₁ } : Kernel σ).grant path request point).1
      (({ k with world := w₁ } : Kernel σ).grant path request point).2 := by
  intro fuel
  rw [turn, asks]
  cases request with
  | giveWay focus => exact absurd rfl (stays focus)
  | _ => rfl

section Inner

variable {settings : Settings} {path : Path} {k k₁ : Kernel σ}
  {point : Suspension σ} {x : Outcome} {limit : Duration} {deadline : Nat}
  {inner inner₁ : Fiber σ}

/-- A fiber with a limit goes on when the fiber inside it has ended. -/
theorem Continues.limited (turns : inner.Turns settings path k (.ended x) k₁) :
    Continues settings path (.limited limit deadline inner point) k
      (.ready (point.resume (.unwind (inTime x)))) k₁ := by
  rcases turns with ⟨least, turns⟩
  exact ⟨least, 1, fun fuel hfuel => by rw [turn, turns fuel hfuel]⟩

/-- A fiber with a limit goes on when the fiber inside it waits and the limit has come. -/
theorem Continues.timedOut (turns : inner.Turns settings path k (.waiting inner₁) k₁)
    (due : deadline ≤ k₁.now) :
    Continues settings path (.limited limit deadline inner point) k
      (.ready (point.resume (.unwind (.success (Value.ofOption none)))))
      ((k₁.leaveAll inner₁.handles).report (.timedOut limit)) := by
  rcases turns with ⟨least, turns⟩
  exact ⟨least, 1, fun fuel hfuel => by simp only [turn, turns fuel hfuel, if_pos due]⟩

/-- A fiber with a limit waits while the fiber inside it does and the limit has not come. -/
theorem Turns.limited (turns : inner.Turns settings path k (.waiting inner₁) k₁)
    (early : ¬ deadline ≤ k₁.now) :
    Turns settings path (.limited limit deadline inner point) k
      (.waiting (.limited limit deadline inner₁ point)) k₁ := by
  rcases turns with ⟨least, turns⟩
  refine exists_enough_of_succ least fun fuel hfuel => ?_
  simp only [turn, turns fuel hfuel, if_neg early]

end Inner

end Fiber

/-- A kernel and the same after nobody waits any more for a handle that has been used up, whatever
    has been reported meanwhile. -/
structure Kernel.Settled (handle : Handle) (k k' : Kernel σ) : Prop where
  /-- Nothing changes but slots and events. -/
  same : ∃ slots events, k' =
    { k with slots := slots, world := { k.world with events := events } }
  /-- Other handles are as they were. -/
  others : ∀ other, other ≠ handle → k'.slot? other = k.slot? other
  /-- The handle is of no use. -/
  gone : k'.slot? handle = none ∨ k'.slot? handle = some .abandoned

namespace Kernel

variable {handle : Handle} {k k' : Kernel σ}

theorem settled_close (k : Kernel σ) (handle : Handle) : k.Settled handle (k.closeSlot handle) :=
  ⟨⟨_, _, rfl⟩, (k.reslotted_closeSlot handle).2, .inl (k.slot?_closeSlot_self handle)⟩

theorem settled_leave (k : Kernel σ) (handle : Handle) : k.Settled handle (k.leave handle) := by
  unfold leave
  split
  · exact ⟨⟨_, _, rfl⟩, (k.reslotted_setSlot handle _).2, .inr (k.slot?_setSlot_self handle _)⟩
  · exact k.settled_close handle

theorem Settled.of_report {event : Event} (h : (k.report event).Settled handle k') :
    k.Settled handle k' := by
  rcases h.same with ⟨slots, events, rfl⟩
  exact ⟨⟨slots, events, rfl⟩, h.others, h.gone⟩

end Kernel

namespace Likeness

variable {L : Likeness σ} {settings : Settings} {path : Path} {k k' k₁ k₁' : Kernel σ}
  {handle : Handle}

namespace Kernels

/-- Somebody has just been told of a handle. -/
theorem told (h : L.Kernels none k k') (idle : Slot.Idle (k.slot? handle))
    (idle' : Slot.Idle (k'.slot? handle)) : L.Kernels (some handle) k k' := by
  refine { h with slots := fun i => ⟨fun own => ?_, fun _ => (h.slots i).other (by simp)⟩ }
  cases own
  exact ⟨idle, idle'⟩

/-- The one who was told of the handle has no use for it any more. -/
theorem settled (h : L.Kernels (some handle) k k') (inexact : ¬ L.exact)
    (left : k.Settled handle k₁) (right : k'.Settled handle k₁') : L.Kernels none k₁ k₁' := by
  have slots : ∀ i, L.Slots (k₁.slot? i) (k₁'.slot? i) := by
    intro i
    by_cases hi : i = handle
    · subst hi
      -- Settled, the handle is gone on each side or kept there as abandoned, which gives four
      -- cases.
      rcases left.gone with left | left <;> rcases right.gone with right | right <;>
        rw [left, right]
      · exact .none
      · exact .holdsRight inexact
      · exact .holdsLeft inexact
      · exact .abandoned
    · rw [left.others i hi, right.others i hi]
      exact (h.slots i).other fun heq => hi (Option.some.inj heq).symm
  rcases left.same with ⟨_, _, rfl⟩
  rcases right.same with ⟨_, _, rfl⟩
  exact ⟨⟨h.worlds.store, h.worlds.clock, fun exact => absurd exact inexact⟩, h.woken,
    fun i => .of_ne (by simp) (slots i), h.tasks, h.callbacks, h.calls, h.fresh⟩

/-- One of them obeys the signal to use the handle that somebody has just been told of. -/
theorem useLeft (h : L.Kernels (some handle) k k') (r : Resumption σ) :
    L.Kernels (some handle) (k.use handle r) k' := by
  rcases (h.slots handle).idle rfl with ⟨idle, idle'⟩
  rcases Kernel.use_idle idle r with ⟨left, idle⟩
  exact h.reslot left (.refl handle k') ⟨fun _ => ⟨idle, idle'⟩, fun other => absurd rfl other⟩

theorem useRight (h : L.Kernels (some handle) k k') (r : Resumption σ) :
    L.Kernels (some handle) k (k'.use handle r) := by
  rcases (h.slots handle).idle rfl with ⟨idle, idle'⟩
  rcases Kernel.use_idle idle' r with ⟨right, idle'⟩
  exact h.reslot (.refl handle k) right ⟨fun _ => ⟨idle, idle'⟩, fun other => absurd rfl other⟩

end Kernels

end Likeness

/-- The kernel when a function has been told of a new handle and has changed the state of the
    program. -/
def Kernel.telling (k : Kernel σ) (s : σ) : Kernel σ :=
  { k.openSlot.2 with world := { k.world with store := s } }

theorem Kernel.slot?_telling (k : Kernel σ) (s : σ) :
    (k.telling s).slot? k.fresh = some (.waiting []) :=
  k.draw.2.slot?_setSlot_self k.fresh _

/-- The function is told of a new handle. -/
theorem Kernel.grant_listen (k : Kernel σ) (path : Path)
    (register : Handle → Act σ (List (Signal σ) × Option Panic)) (point : Suspension σ) :
    k.grant path (.listen register) point =
      match (register k.fresh).run k.world.store with
      | (.ok (signals, none), s) => (.listening k.fresh point, (k.telling s).signalAll signals)
      | (.ok (signals, some p), s) =>
        (.ready (point.resume (.unwind (.die (.ofPanic p)))),
          (((k.telling s).signalAll signals).report (.panicCaptured (.ofPanic p))).leave k.fresh)
      | (.error p, s) =>
        (.ready (point.resume (.unwind (.die (.ofPanic p)))),
          ((k.telling s).report (.panicCaptured (.ofPanic p))).leave k.fresh) := by
  have guarded : k.openSlot.2.world.guarded (register k.openSlot.1) =
      k.world.guarded (register k.fresh) := rfl
  unfold grant
  dsimp only
  rw [guarded]
  unfold World.guarded
  -- It returns, panics after some signals, or panics at once.
  rcases (register k.fresh).run k.world.store with ⟨_ | ⟨signals, _ | p⟩, s⟩ <;> rfl

/-- When a function is fatal, the fiber comes to die. Before that, whatever it has done with handles
    is done, and its own handle may have been used. -/
theorem Fatal.granted {k : Kernel σ}
    {register : Handle → Act σ (List (Signal σ) × Option Panic)} {d : Defect}
    {signals : List (Signal σ)} {s : σ}
    (fatal : Fatal k.fresh d signals s ((register k.fresh).run k.world.store))
    (settings : Settings) (path : Path) (point : Suspension σ) :
    ∃ n armed k', n ≤ 1 ∧ Fiber.Skips settings path n
        (k.grant path (.listen register) point).1 (k.grant path (.listen register) point).2
        (.ready (point.resume (.unwind (.die d)))) k' ∧
      (armed = k.telling s ∨ ∃ r, armed = (k.telling s).use k.fresh r) ∧
      (armed.signalAll signals).Settled k.fresh k' := by
  rw [k.grant_listen]
  generalize (register k.fresh).run k.world.store = result at fatal
  cases fatal with
  | atOnce defect =>
      subst defect
      exact ⟨0, _, _, Nat.zero_le 1, fun _ => rfl, .inl rfl, (Kernel.settled_leave _ _).of_report⟩
  | later defect =>
      subst defect
      exact ⟨0, _, _, Nat.zero_le 1, fun _ => rfl, .inl rfl, (Kernel.settled_leave _ _).of_report⟩
  | used =>
      -- The fiber takes from the handle what has been put there.
      have filled : ((k.telling s).use k.fresh (.outcome (.die d))).slot? k.fresh =
          some (.filled (.outcome (.die d))) := by
        unfold Kernel.use
        rw [k.slot?_telling]
        exact Kernel.slot?_setSlot_self _ _ _
      have kept := Kernel.slot?_signalAll_filled filled signals
      refine ⟨1, _, _, Nat.le_refl 1, fun fuel => ?_, .inr ⟨.outcome (.die d), rfl⟩,
        Kernel.settled_close _ _⟩
      change Fiber.turn settings (fuel + 1) path (.listening k.fresh point)
        (((k.telling s).use k.fresh (.outcome (.die d))).signalAll signals) = _
      rw [Fiber.turn]
      unfold Kernel.collect?
      rw [kept]
      rfl

namespace Likeness

/-- The end of a turn of one fiber is that of a turn of another one, which looks alike. -/
inductive Answered (L : Likeness σ) (settings : Settings) (path : Path) (f' : Fiber σ)
    (k' : Kernel σ) : Turn σ × Kernel σ → Prop where
  /-- The steps were too few to tell. -/
  | exhausted {k₁} : Answered L settings path f' k' (.exhausted, k₁)
  | ended {x k₁ k₁'} (turns : f'.Turns settings path k' (.ended x) k₁')
      (kernels : L.Kernels none k₁ k₁') : Answered L settings path f' k' (.ended x, k₁)
  | waiting {g g' k₁ k₁'} (turns : f'.Turns settings path k' (.waiting g') k₁')
      (alike : L.Fibers g g') (kernels : L.Kernels none k₁ k₁') :
      Answered L settings path f' k' (.waiting g, k₁)

/-- The end of the turns of fibers side by side is that of the turns of others, which look
    alike. -/
inductive AnsweredEach (L : Likeness σ) (settings : Settings) (path : Path) (join : Join)
    (children' : List (FiberId × Nat × Fiber σ)) (waiting gaveWay count : Nat)
    (k' : Kernel σ) : JoinTurn σ × Kernel σ → Prop where
  /-- The steps were too few to tell. -/
  | exhausted {k₁} :
      AnsweredEach L settings path join children' waiting gaveWay count k' (.exhausted, k₁)
  | ended {x k₁ k₁'}
      (turns : Fiber.TurnsEach settings path join children' waiting gaveWay count k' (.ended x) k₁')
      (kernels : L.Kernels none k₁ k₁') :
      AnsweredEach L settings path join children' waiting gaveWay count k' (.ended x, k₁)
  | waiting {join₁ left left' k₁ k₁'}
      (turns : Fiber.TurnsEach settings path join children' waiting gaveWay count k'
        (.waiting join₁ left') k₁')
      (alike : L.Children left left') (kernels : L.Kernels none k₁ k₁') :
      AnsweredEach L settings path join children' waiting gaveWay count k' (.waiting join₁ left, k₁)

/-- Two fibers go on, the first after a step at most, as fibers that look alike. -/
def Granted (L : Likeness σ) (settings : Settings) (path : Path) (p p' : Fiber σ × Kernel σ) :
    Prop :=
  ∃ n n' f f' k₁ k₁', n ≤ 1 ∧ Fiber.Skips settings path n p.1 p.2 f k₁ ∧
    Fiber.Skips settings path n' p'.1 p'.2 f' k₁' ∧ L.Fibers f f' ∧ L.Kernels none k₁ k₁'

variable {L : Likeness σ} {settings : Settings} {path : Path} {k k' k₁ k₁' : Kernel σ}

theorem Kernels.telling (h : L.Kernels none k k') (s : σ) :
    L.Kernels none (k.telling s) (k'.telling s) := by
  have number : k'.telling s = { k'.draw.2.setSlot k.fresh (.waiting []) with
      world := { k'.world with store := s } } := by
    rw [h.fresh]
    rfl
  have opened : L.Kernels none (k.draw.2.setSlot k.fresh (.waiting []))
      (k'.draw.2.setSlot k.fresh (.waiting [])) :=
    h.draw.2.setSlot (.of_ne (by simp) .waiting)
  rw [number]
  exact opened.world (h.worlds.stored s)

theorem Granted.atOnce {p p' : Fiber σ × Kernel σ} (fibers : L.Fibers p.1 p'.1)
    (kernels : L.Kernels none p.2 p'.2) : L.Granted settings path p p' :=
  ⟨0, 0, _, _, _, _, Nat.zero_le 1, fun _ => rfl, fun _ => rfl, fibers, kernels⟩

/-- What is granted goes on alike. -/
theorem Requests.granted {request request' : Request σ} {point point' : Suspension σ}
    (alike : L.Requests request point request' point')
    (stays : ∀ focus, request ≠ .giveWay focus) (h : L.Kernels none k k') (settings : Settings)
    (path : Path) :
    L.Granted settings path (k.grant path request point) (k'.grant path request' point') := by
  cases alike with
  | giveWay => exact absurd rfl (stays _)
  | pause alike =>
      refine .atOnce ?_ h
      change L.Fibers (.asleep (Kernel.wakeTime k.now _) _) (.asleep (Kernel.wakeTime k'.now _) _)
      rw [h.now]
      exact .asleep alike
  | within starts points =>
      refine .atOnce ?_ h
      change L.Fibers (.limited _ (Kernel.wakeTime k.now _) _ _)
        (.limited _ (Kernel.wakeTime k'.now _) _ _)
      rw [h.now]
      exact .limited (.ready starts) points
  | gather starts points =>
      rcases h.enlist starts 0 with ⟨children, kernels⟩
      refine .atOnce ?_ kernels
      change L.Fibers (.joining (.gather (List.length _) _ _) _ _)
        (.joining (.gather (List.length _) _ _) _ _)
      rw [starts.length_eq]
      exact .joining children points
  | compete starts points =>
      rcases h.enlist starts 0 with ⟨children, kernels⟩
      exact .atOnce (.joining children points) kernels
  | @listen register _ register' _ alike points =>
      have registered := alike k.fresh k.world.store
      generalize hresult : (register k.fresh).run k.world.store = result at registered
      generalize hresult' : (register' k.fresh).run k.world.store = result' at registered
      have left := k.grant_listen path register point
      have right := k'.grant_listen path register' point'
      rw [hresult] at left
      rw [← h.fresh, ← h.worlds.store, hresult'] at right
      cases registered with
      | @same signals signals' p s _ alike =>
          have obeyed := (h.telling s).signalAll alike
          cases p with
          | none =>
              rw [left, right]
              exact .atOnce (.listening points) obeyed
          | some p =>
              rw [left, right]
              exact .atOnce (.ready (points.unwind _)) ((obeyed.report _).leave _)
      | @error p s =>
          rw [left, right]
          exact .atOnce (.ready (points.unwind _)) (((h.telling s).report _).leave _)
      | @fatal d signals signals' s _ _ _ inexact alike fatal fatal' =>
          rw [← hresult] at fatal
          rw [← hresult', h.fresh, h.worlds.store] at fatal'
          rcases fatal.granted settings path point with
            ⟨n, armed, k₁, short, skips, arms, settled⟩
          rcases fatal'.granted settings path point' with
            ⟨n', armed', k₁', -, skips', arms', settled'⟩
          rw [← h.fresh] at arms' settled'
          -- Whether one of them has used the handle shows nowhere else.
          have told : L.Kernels (some k.fresh) (k.telling s) (k'.telling s) := by
            refine (h.telling s).told ?_ ?_
            · exact (k.slot?_telling s) ▸ .waiting
            · rw [h.fresh]
              exact (k'.slot?_telling s) ▸ .waiting
          have armed : L.Kernels (some k.fresh) armed armed' := by
            rcases arms with rfl | ⟨r, rfl⟩ <;> rcases arms' with rfl | ⟨r', rfl⟩
            · exact told
            · exact told.useRight r'
            · exact told.useLeft r
            · exact (told.useLeft r).useRight r'
          exact ⟨n, n', _, _, k₁, k₁', short, skips, skips', .ready (points.unwind _),
            (armed.signalAll alike).settled inexact settled settled'⟩

theorem Answered.after {f f' : Fiber σ} {r : Turn σ × Kernel σ}
    (answered : L.Answered settings path f' k₁' r)
    (first : f.Continues settings path k' f' k₁') : L.Answered settings path f k' r := by
  cases answered with
  | exhausted => exact .exhausted
  | ended turns kernels => exact .ended (first.turns turns) kernels
  | waiting turns alike kernels => exact .waiting (first.turns turns) alike kernels

theorem AnsweredEach.after {join join₁ : Join} {children children₁ : List (FiberId × Nat × Fiber σ)}
    {waiting gaveWay count waiting₁ gaveWay₁ count₁ : Nat} {r : JoinTurn σ × Kernel σ}
    (answered : L.AnsweredEach settings path join₁ children₁ waiting₁ gaveWay₁ count₁ k₁' r)
    (first : ∀ {r k₂}, Fiber.TurnsEach settings path join₁ children₁ waiting₁ gaveWay₁ count₁ k₁' r
      k₂ → Fiber.TurnsEach settings path join children waiting gaveWay count k' r k₂) :
    L.AnsweredEach settings path join children waiting gaveWay count k' r := by
  cases answered with
  | exhausted => exact .exhausted
  | ended turns kernels => exact .ended (first turns) kernels
  | waiting turns alike kernels => exact .waiting (first turns) alike kernels

/-- Fibers that look alike have turns that look alike, if the first has so many steps. -/
def TurnsAlike (L : Likeness σ) (fuel : Nat) : Prop :=
  ∀ settings path {f f' k k'}, L.Fibers f f' → L.Kernels none k k' →
    L.Answered settings path f' k' (f.turn settings fuel path k)

/-- So do fibers side by side. -/
def EachAlike (L : Likeness σ) (fuel : Nat) : Prop :=
  ∀ settings path join waiting gaveWay count {children children' k k'},
    L.Children children children' → L.Kernels none k k' →
    L.AnsweredEach settings path join children' waiting gaveWay count k'
      (Fiber.turnEach settings fuel path join children waiting gaveWay count k)

section Induction

variable {fuel : Nat}

/-- Machines that meet have turns that look alike. -/
theorem Meets.answered {m m' : Machine σ} (before : ∀ less < fuel, L.TurnsAlike less)
    (meets : L.Meets settings m k.world m' k'.world) (h : L.Kernels none k k') :
    L.Answered settings path (.ready m') k' (Fiber.turn settings fuel path (.ready m) k) := by
  -- The steps that the first machine takes are taken off the turn.
  have enough : ∀ {n m₁ v}, Steps settings n m k.world m₁ v →
      (∀ rest, fuel = rest + 1 + n → L.Answered settings path (.ready m') k'
        (Fiber.turn settings (rest + 1) path (.ready m₁) { k with world := v })) →
      L.Answered settings path (.ready m') k' (Fiber.turn settings fuel path (.ready m) k) := by
    intro n m₁ v run rest
    rcases Nat.lt_or_ge n fuel with more | few
    · rcases Nat.exists_eq_add_of_lt more with ⟨fuel, rfl⟩
      have same : n + fuel + 1 = fuel + 1 + n := by omega
      rw [same, Fiber.skips_steps run]
      exact rest fuel same
    · have short : ∃ k₁, Fiber.turn settings fuel path (.ready m) k = (.exhausted, k₁) :=
        Fiber.turn_short run few
      rcases short with ⟨k₁, short⟩
      rw [short]
      exact .exhausted
  cases meets with
  | ended left right worlds =>
      refine enough left fun rest _ => ?_
      rw [Fiber.turn]
      exact .ended ((Fiber.skips_steps right).continues.turns (Fiber.turns_done _ _))
        (h.world worlds)
  | ahead left moves right moves' alike worlds =>
      refine enough left fun rest heq => ?_
      exact (before (rest + 1) (by omega) _ _ (.ready alike) (h.world worlds)).after
        (Fiber.skips_steps right).continues
  | @asking n m₁ v request point u n' m₁' v' request' point' u' left asks right asks' alike
      worlds =>
      refine enough left fun rest heq => ?_
      refine Answered.after ?_ (Fiber.skips_steps right).continues
      by_cases gives : ∃ focus, request = .giveWay focus
      · rcases gives with ⟨focus, rfl⟩
        cases alike with
        | giveWay alike =>
            rw [Fiber.turn, asks]
            refine .waiting (.one fun fuel => ?_) (.yielded alike) ((h.world worlds).wake path)
            rw [Fiber.turn, asks']
            rfl
      · have stays : ∀ focus, request ≠ .giveWay focus := fun focus heq => gives ⟨focus, heq⟩
        have stays' : ∀ focus, request' ≠ .giveWay focus := by
          rintro focus rfl
          cases alike
          exact stays _ rfl
        rcases alike.granted stays (h.world worlds) settings path with
          ⟨j, j', f, f', k₁, k₁', short, skips, skips', fibers, kernels⟩
        rw [Fiber.skips_ask (k := { k with world := v }) asks stays rest]
        refine Answered.after ?_
          (Fiber.skips_ask (k := { k' with world := v' }) asks' stays').continues
        refine Answered.after ?_ skips'.continues
        rcases Nat.lt_or_ge rest j with few | more
        · rw [show rest = 0 by omega]
          exact .exhausted
        · rcases Nat.exists_eq_add_of_le' more with ⟨rest, rfl⟩
          rw [skips]
          exact before rest (by omega) _ _ fibers kernels

/-- Fibers side by side that look alike have turns that look alike. -/
theorem turnEach_answered (one : L.TurnsAlike fuel) (each : L.EachAlike fuel) :
    L.EachAlike (fuel + 1) := by
  intro settings path join waiting gaveWay count children children' k k' alike h
  rw [Fiber.turnEach]
  rcases h.firstWoken? alike with ⟨left, right⟩ | ⟨id, position, f, f', left, right, fibers⟩
  · rw [left]
    cases alike with
    | nil => exact .ended (.none _ _ _ _) h
    | cons alike others =>
        exact .waiting (.quiet right (List.cons_ne_nil _ _)) (.cons alike others) h
  · rw [left]
    dsimp only
    -- The same child has its turn on both sides, and what it comes to decides the rest of the
    -- round.
    have answered := one settings (id :: path) fibers (h.unwake id)
    generalize Fiber.turn settings fuel (id :: path) f (k.unwake id) = result at answered ⊢
    cases answered with
    | exhausted => exact .exhausted
    | @ended x k₁ k₁' turns kernels =>
        dsimp only
        cases absorb : join.absorb position x with
        | left y =>
            have others := (alike.withoutChild id).handles
            refine .ended (.decided right turns absorb) ?_
            rw [others]
            exact kernels.leaveAll _
        | right join' =>
            have others := alike.withoutChild id
            have rest := each settings path join' 0 0 (withoutChild id children).length others
              kernels
            refine rest.after fun turns' => ?_
            rw [others.length] at turns'
            exact .more right turns absorb turns'
    | @waiting g g' k₁ k₁' turns same kernels =>
        dsimp only
        have others := alike.withChild id same
        rw [kernels.isWoken id]
        by_cases enough : 2 ≤ (if k₁'.isWoken id then gaveWay + 1 else gaveWay) ∨
          waiting + 1 = count
        · rw [if_pos enough]
          exact .waiting (.enough right turns enough) others (kernels.wake path)
        · rw [if_neg enough]
          exact (each _ _ _ _ _ _ others kernels).after fun turns' =>
            .waits right turns enough turns'

/-- Fibers that look alike have turns that look alike. -/
theorem turn_answered_succ (upheld : L.Upheld) (before : ∀ less < fuel + 1, L.TurnsAlike less)
    (each : L.EachAlike fuel) : L.TurnsAlike (fuel + 1) := by
  intro settings path f f' k k' alike h
  have one : L.TurnsAlike fuel := before fuel (Nat.lt_succ_self fuel)
  -- A fiber and its counterpart are of the same kind, so their turns take the same case.
  cases alike with
  | ready alike => exact (upheld alike h.worlds).answered before h
  | @asleep wake m m' alike =>
      rw [Fiber.turn]
      split
      · next due =>
          refine (one _ _ (.ready alike) h).after (.one fun fuel => ?_)
          rw [h.now] at due
          rw [Fiber.turn, if_pos due]
      · next early =>
          refine .waiting (.one fun fuel => ?_) (.asleep alike) h
          rw [h.now] at early
          rw [Fiber.turn, if_neg early]
  | yielded alike =>
      rw [Fiber.turn]
      exact (one _ _ (.ready alike) h).after (.one fun fuel => by rw [Fiber.turn])
  | @listening handle point point' points =>
      rw [Fiber.turn]
      rcases h.collect? handle with
        ⟨left, right⟩ | ⟨focus, focus', k₁, k₁', left, right, kernels, machines⟩
      · rw [left]
        refine .waiting (.one fun fuel => ?_) (.listening points)
          (h.setSlot (.of_ne (by simp) .waiting))
        rw [Fiber.turn, right]
      · rw [left]
        refine (one _ _ (.ready (machines points)) kernels).after (.one fun fuel => ?_)
        rw [Fiber.turn, right]
  | @limited limit deadline inner point inner' point' alike points =>
      rw [Fiber.turn]
      have answered := one settings path alike h
      generalize Fiber.turn settings fuel path inner k = result at answered ⊢
      cases answered with
      | exhausted => exact .exhausted
      | ended turns kernels =>
          exact (one _ _ (.ready (points.unwind _)) kernels).after (.limited turns)
      | @waiting g g' k₁ k₁' turns same kernels =>
          dsimp only
          split
          · next due =>
              rw [kernels.now] at due
              rw [same.handles]
              exact (one _ _ (.ready (points.unwind _)) ((kernels.leaveAll _).report _)).after
                (.timedOut turns due)
          · next early =>
              rw [kernels.now] at early
              exact .waiting (.limited turns early) (.limited same points) kernels
  | @joining join children point children' point' alike points =>
      rw [Fiber.turn]
      have answered := each settings path join 0 0 children.length alike h
      rw [alike.length] at answered ⊢
      generalize Fiber.turnEach settings fuel path join children 0 0 children'.length k = result
        at answered ⊢
      cases answered with
      | exhausted => exact .exhausted
      | ended turns kernels =>
          exact (one _ _ (.ready (points.unwind _)) kernels).after (.joined turns)
      | waiting turns same kernels => exact .waiting (.joining turns) (.joining same points) kernels

end Induction

/-- Fibers that look alike have turns that look alike, alone or side by side. -/
theorem turn_answered (upheld : L.Upheld) (fuel : Nat) : L.TurnsAlike fuel ∧ L.EachAlike fuel := by
  induction fuel using Nat.strong_induction_on with
  | _ fuel ih =>
      cases fuel with
      | zero => exact ⟨fun _ _ _ _ _ _ _ _ => .exhausted, fun _ _ _ _ _ _ _ _ _ _ _ _ => .exhausted⟩
      | succ fuel =>
          rcases ih fuel (Nat.lt_succ_self fuel) with ⟨one, each⟩
          exact ⟨turn_answered_succ upheld (fun less h => (ih less h).1) each,
            turnEach_answered one each⟩

end Likeness

end EffectKernel
