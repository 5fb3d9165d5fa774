import EffectKernel.Fiber.Drive
import EffectKernel.Proofs.RelyGuarantee
import EffectKernel.Proofs.Likeness

/-!
# Kernels That Look Alike

A likeness of machines is one of fibers, tasks and kernels, too. Fibers look alike if they wait for
the same and go on as machines that look alike; kernels, if they have given out the same numbers
and woken the same fibers in the same order, and if what is behind a handle is alike in both. Where
the events do not count, it does not matter whether a handle is still held for a fiber that has
gone, since nobody but the holder could tell, and the holder is not told.

What the kernel does for fibers that look alike it does in both. There is one place where it does
not, and that is when the function that hears of a handle is fatal. While its signals are obeyed,
the handle that it has heard of is its own (`Likeness.Kernels`): it has been used or let go in
ways that may differ, but nobody waits for it yet, so it makes no difference to anything else, and
when the fiber is about to die the handle is gone.

## Main definitions

* `Likeness.Slots`: What is behind a handle, alike.
* `Likeness.Fibers`, `Likeness.Tasks`, `Likeness.Kernels`: Fibers, tasks and kernels that look
  alike.

## Theorems

* `Likeness.Kernels.signalAll`: Both kernels obey signals.
* `Likeness.Kernels.leaveAll`: In both kernels, fibers go away.
* `Likeness.Kernels.enlist`: In both kernels, effects are to run side by side.
-/

namespace EffectKernel

/-- A slot that has been opened and for which nobody waits yet. -/
inductive Slot.Idle {σ : Type} : Option (Slot σ) → Prop where
  /-- Nothing has happened. -/
  | waiting : Idle (some (.waiting []))
  /-- The handle has been used. -/
  | filled {resumption} : Idle (some (.filled resumption))
  /-- The handle has been let go. -/
  | released : Idle (some .released)

/-- Both tell to go on in the same way. -/
inductive Resumption.Alike {σ : Type} (Like : Effect σ → Effect σ → Prop) :
    Resumption σ → Resumption σ → Prop where
  /-- With an outcome. -/
  | outcome {x} : Alike Like (.outcome x) (.outcome x)
  /-- With effects that are alike. -/
  | effect {e e'} (alike : Like e e') : Alike Like (.effect e) (.effect e')

/-- A kernel and the same with something else behind a handle. -/
def Kernel.Reslotted {σ : Type} (handle : Handle) (k k' : Kernel σ) : Prop :=
  (∃ slots, k' = { k with slots := slots }) ∧
    ∀ other, other ≠ handle → k'.slot? other = k.slot? other

namespace Likeness

variable {σ : Type} (L : Likeness σ)

/-- What is behind a handle, alike. -/
inductive Slots : Option (Slot σ) → Option (Slot σ) → Prop where
  | none : Slots none none
  | waiting {path} : Slots (some (.waiting path)) (some (.waiting path))
  | filled {r r'} (alike : Resumption.Alike L.effects r r') :
      Slots (some (.filled r)) (some (.filled r'))
  | released : Slots (some .released) (some .released)
  | abandoned : Slots (some .abandoned) (some .abandoned)
  /-- The holder has no use for the handle, and only one of the kernels knows of it. -/
  | holdsLeft (inexact : ¬ L.exact) : Slots (some .abandoned) .none
  | holdsRight (inexact : ¬ L.exact) : Slots .none (some .abandoned)

mutual
/-- Fibers that look alike. -/
inductive Fibers : Fiber σ → Fiber σ → Prop where
  | ready {m m'} (alike : L.machines m m') : Fibers (.ready m) (.ready m')
  | asleep {wake m m'} (alike : L.machines m m') : Fibers (.asleep wake m) (.asleep wake m')
  | yielded {m m'} (alike : L.machines m m') : Fibers (.yielded m) (.yielded m')
  | listening {handle point point'} (points : L.Points point point') :
      Fibers (.listening handle point) (.listening handle point')
  | limited {limit deadline inner point inner' point'} (alike : Fibers inner inner')
      (points : L.Points point point') :
      Fibers (.limited limit deadline inner point) (.limited limit deadline inner' point')
  | joining {join children point children' point'} (alike : Children children children')
      (points : L.Points point point') :
      Fibers (.joining join children point) (.joining join children' point')

/-- Fibers side by side that look alike. -/
inductive Children : List (FiberId × Nat × Fiber σ) → List (FiberId × Nat × Fiber σ) → Prop where
  | nil : Children [] []
  | cons {id position f f' rest rest'} (alike : Fibers f f') (others : Children rest rest') :
      Children ((id, position, f) :: rest) ((id, position, f') :: rest')
end

/-- What tasks do, alike. -/
inductive Works : Work σ → Work σ → Prop where
  | run {started settings f f'} (alike : L.Fibers f f') :
      Works (.run started settings f) (.run started settings f')
  | errand {due handle act act'}
      (alike : ∀ s, Gives (List.Forall₂ (Signal.Alike L.effects)) (fun _ _ => False) (act.run s)
        (act'.run s)) :
      Works (.errand due handle act) (.errand due handle act')

/-- Tasks that look alike. -/
structure Tasks (task task' : Task σ) : Prop where
  id : task.id = task'.id
  work : L.Works task.work task'.work
  cancelled : task.cancelled = task'.cancelled

/-- What is behind a handle in two kernels that look alike, perhaps with one handle that somebody
    has just been told of. -/
structure SlotsAt (own : Option Handle) (handle : Handle) (slot slot' : Option (Slot σ)) :
    Prop where
  idle : own = some handle → Slot.Idle slot ∧ Slot.Idle slot'
  other : own ≠ some handle → L.Slots slot slot'

/-- Kernels that look alike, perhaps but for one handle that somebody has just been told of. -/
structure Kernels (own : Option Handle) (k k' : Kernel σ) : Prop where
  worlds : L.Worlds k.world k'.world
  woken : k.woken = k'.woken
  slots : ∀ handle, L.SlotsAt own handle (k.slot? handle) (k'.slot? handle)
  tasks : List.Forall₂ L.Tasks k.tasks k'.tasks
  callbacks : k.callbacks = k'.callbacks
  calls : k.calls = k'.calls
  fresh : k.fresh = k'.fresh

variable {L}

section Fibers

mutual
theorem Fibers.handles {f f' : Fiber σ} : L.Fibers f f' → f.handles = f'.handles
  | .ready _ => rfl
  | .asleep _ => rfl
  | .yielded _ => rfl
  | .listening _ => rfl
  | .limited alike _ => by
      unfold Fiber.handles
      exact alike.handles
  | .joining alike _ => by
      unfold Fiber.handles
      exact alike.handles

theorem Children.handles {children children' : List (FiberId × Nat × Fiber σ)} :
    L.Children children children' → Fiber.handlesEach children = Fiber.handlesEach children'
  | .nil => rfl
  | .cons alike others => by
      unfold Fiber.handlesEach
      rw [alike.handles, others.handles]
end

mutual
theorem Fibers.nextWake {f f' : Fiber σ} : L.Fibers f f' → f.nextWake = f'.nextWake
  | .ready _ => rfl
  | .asleep _ => rfl
  | .yielded _ => rfl
  | .listening _ => rfl
  | .limited alike _ => by
      unfold Fiber.nextWake
      rw [alike.nextWake]
  | .joining alike _ => by
      unfold Fiber.nextWake
      exact alike.nextWake

theorem Children.nextWake {children children' : List (FiberId × Nat × Fiber σ)} :
    L.Children children children' → Fiber.nextWakeEach children = Fiber.nextWakeEach children'
  | .nil => rfl
  | .cons alike others => by
      unfold Fiber.nextWakeEach
      rw [alike.nextWake, others.nextWake]
end

mutual
theorem Fibers.dueAt (now : Nat) (path : Path) {f f' : Fiber σ} :
    L.Fibers f f' → f.dueAt now path = f'.dueAt now path
  | .ready _ => rfl
  | .asleep _ => rfl
  | .yielded _ => rfl
  | .listening _ => rfl
  | .limited alike _ => by
      unfold Fiber.dueAt
      rw [alike.dueAt now path]
  | .joining alike _ => by
      unfold Fiber.dueAt
      exact alike.dueAt now path

theorem Children.dueAt (now : Nat) (path : Path)
    {children children' : List (FiberId × Nat × Fiber σ)} :
    L.Children children children' →
      Fiber.dueAtEach now path children = Fiber.dueAtEach now path children'
  | .nil => rfl
  | .cons alike others => by
      unfold Fiber.dueAtEach
      rw [alike.dueAt now (_ :: path), others.dueAt now path]
end

variable {children children' : List (FiberId × Nat × Fiber σ)} {id : FiberId}

theorem Children.length (h : L.Children children children') :
    children.length = children'.length := by
  induction children generalizing children' with
  | nil =>
      cases h
      rfl
  | cons _ _ ih =>
      cases h with
      | cons _ others => exact congrArg (· + 1) (ih others)

/-- Lists of children stay alike when the same child is taken out of both. -/
theorem Children.withoutChild (h : L.Children children children') (id : FiberId) :
    L.Children (withoutChild id children) (withoutChild id children') := by
  induction children generalizing children' with
  | nil =>
      cases h
      exact .nil
  | cons _ _ ih =>
      cases h with
      | @cons i _ _ _ _ _ alike others =>
          unfold EffectKernel.withoutChild at ih ⊢
          rw [List.filter_cons, List.filter_cons]
          dsimp only
          split
          · exact .cons alike (ih others)
          · exact ih others

/-- Lists of children stay alike when the same child is replaced by fibers that look alike. -/
theorem Children.withChild {f f' : Fiber σ} (h : L.Children children children') (id : FiberId)
    (alike : L.Fibers f f') :
    L.Children (withChild id f children) (withChild id f' children') := by
  induction children generalizing children' with
  | nil =>
      cases h
      exact .nil
  | cons _ _ ih =>
      cases h with
      | @cons i _ _ _ _ _ same others =>
          unfold EffectKernel.withChild at ih ⊢
          rw [List.map_cons, List.map_cons]
          dsimp only
          split
          · exact .cons alike (ih others)
          · exact .cons same (ih others)

/-- The fiber with a number, in both. -/
theorem Children.find? (h : L.Children children children') (id : FiberId) :
    (children.find? (·.1 == id) = none ∧ children'.find? (·.1 == id) = none) ∨
      ∃ i position f f', children.find? (·.1 == id) = some (i, position, f) ∧
        children'.find? (·.1 == id) = some (i, position, f') ∧ L.Fibers f f' := by
  induction children generalizing children' with
  | nil =>
      cases h
      exact .inl ⟨rfl, rfl⟩
  | cons _ _ ih =>
      cases h with
      | @cons i position f f' _ _ alike others =>
          rw [List.find?_cons, List.find?_cons]
          dsimp only
          split
          · exact .inr ⟨i, position, f, f', rfl, rfl, alike⟩
          · exact ih others

end Fibers

/-- Behind a handle that is not owned by one side alone, slots that look alike will do. -/
theorem SlotsAt.of_ne {own : Option Handle} {handle : Handle} {slot slot' : Option (Slot σ)}
    (other : own ≠ some handle) (alike : L.Slots slot slot') :
    L.SlotsAt own handle slot slot' :=
  ⟨fun h => absurd h other, fun _ => alike⟩

end Likeness

namespace Kernel

variable {σ : Type} {handle : Handle} {k : Kernel σ}

theorem Reslotted.refl (handle : Handle) (k : Kernel σ) : k.Reslotted handle k :=
  ⟨⟨k.slots, rfl⟩, fun _ _ => rfl⟩

theorem reslotted_setSlot (k : Kernel σ) (handle : Handle) (slot : Slot σ) :
    k.Reslotted handle (k.setSlot handle slot) :=
  ⟨⟨_, rfl⟩, fun other h => by rw [slot?_setSlot, if_neg h]⟩

theorem reslotted_closeSlot (k : Kernel σ) (handle : Handle) :
    k.Reslotted handle (k.closeSlot handle) :=
  ⟨⟨_, rfl⟩, fun other h => by rw [slot?_closeSlot, if_neg h]⟩

/-- The first of some effects that are to run side by side, and the others. -/
theorem enlist_cons (env : Context) (effect : Effect σ) (rest : List (Effect σ)) (position : Nat)
    (k : Kernel σ) : enlist env (effect :: rest) position k =
      ((k.fresh, position, .ready (Machine.start effect env)) ::
          (enlist env rest (position + 1) (k.draw.2.wakeOne k.fresh)).1,
        (enlist env rest (position + 1) (k.draw.2.wakeOne k.fresh)).2) :=
  rfl

theorem slot?_setSlot_self (k : Kernel σ) (handle : Handle) (slot : Slot σ) :
    (k.setSlot handle slot).slot? handle = some slot := by
  rw [slot?_setSlot, if_pos rfl]

theorem slot?_closeSlot_self (k : Kernel σ) (handle : Handle) :
    (k.closeSlot handle).slot? handle = none := by
  rw [slot?_closeSlot, if_pos rfl]

/-- The use of a handle that nobody waits for yet. -/
theorem use_idle (idle : Slot.Idle (k.slot? handle)) (r : Resumption σ) :
    k.Reslotted handle (k.use handle r) ∧ Slot.Idle ((k.use handle r).slot? handle) := by
  generalize hslot : k.slot? handle = slot at idle
  unfold use
  cases idle with
  | waiting =>
      rw [hslot]
      exact ⟨k.reslotted_setSlot handle _, (k.slot?_setSlot_self handle _).symm ▸ .filled⟩
  | filled =>
      rw [hslot]
      exact ⟨.refl handle k, hslot.symm ▸ .filled⟩
  | released =>
      rw [hslot]
      exact ⟨.refl handle k, hslot.symm ▸ .released⟩

/-- A handle is let go that nobody waits for yet. -/
theorem release_idle (idle : Slot.Idle (k.slot? handle)) :
    k.Reslotted handle (k.release handle) ∧ Slot.Idle ((k.release handle).slot? handle) := by
  generalize hslot : k.slot? handle = slot at idle
  unfold release
  cases idle with
  | waiting =>
      rw [hslot]
      exact ⟨k.reslotted_setSlot handle _, (k.slot?_setSlot_self handle _).symm ▸ .released⟩
  | filled =>
      rw [hslot]
      exact ⟨.refl handle k, hslot.symm ▸ .filled⟩
  | released =>
      rw [hslot]
      exact ⟨.refl handle k, hslot.symm ▸ .released⟩

/-- A handle that has been used stays so, whatever else is done with it. -/
theorem slot?_signal_filled {r : Resumption σ} (filled : k.slot? handle = some (.filled r))
    (signal : Signal σ) : (k.signal signal).slot? handle = some (.filled r) := by
  -- A filled slot keeps its content, whoever uses a handle.
  have used : ∀ h r', (k.use h r').slot? handle = some (.filled r) := by
    intro h r'
    by_cases heq : handle = h
    · subst heq
      unfold use
      rw [filled]
      exact filled
    · rw [slot?_use k r' fun h => heq h.symm, filled]
  cases signal with
  | complete h x => exact used h _
  | resume h e => exact used h _
  | release h =>
      by_cases heq : handle = h
      · subst heq
        rw [signal]
        unfold release
        rw [filled]
        exact filled
      · rw [signal, slot?_release k fun h => heq h.symm, filled]
  | later millis h act =>
      rw [signal]
      exact (slot?_wakeOne _ _ _).trans filled

theorem slot?_signalAll_filled {r : Resumption σ} (filled : k.slot? handle = some (.filled r))
    (signals : List (Signal σ)) : (k.signalAll signals).slot? handle = some (.filled r) := by
  unfold signalAll
  induction signals generalizing k with
  | nil => exact filled
  | cons signal rest ih => exact ih (slot?_signal_filled filled signal)

end Kernel

namespace Likeness

variable {σ : Type} {L : Likeness σ} {own : Option Handle} {k k' k₁ k₁' : Kernel σ}
  {handle : Handle}

namespace Kernels

/-- Another world for both. -/
theorem world {w w' : World σ} (h : L.Kernels own k k') (worlds : L.Worlds w w') :
    L.Kernels own { k with world := w } { k' with world := w' } :=
  ⟨worlds, h.woken, h.slots, h.tasks, h.callbacks, h.calls, h.fresh⟩

theorem now (h : L.Kernels own k k') : k.now = k'.now :=
  h.worlds.clock

theorem report (h : L.Kernels own k k') (event : Event) :
    L.Kernels own (k.report event) (k'.report event) :=
  h.world (h.worlds.report event)

theorem modifyStore (h : L.Kernels own k k') (f : σ → σ) :
    L.Kernels own (k.modifyStore f) (k'.modifyStore f) := by
  unfold Kernel.modifyStore
  rw [h.worlds.store]
  exact h.world (h.worlds.stored _)

/-- Another queue for both. -/
theorem requeue (h : L.Kernels own k k') (woken : List FiberId) :
    L.Kernels own { k with woken := woken } { k' with woken := woken } :=
  ⟨h.worlds, rfl, h.slots, h.tasks, h.callbacks, h.calls, h.fresh⟩

theorem wakeOne (h : L.Kernels own k k') (id : FiberId) :
    L.Kernels own (k.wakeOne id) (k'.wakeOne id) := by
  rw [k.wakeOne_enqueue, k'.wakeOne_enqueue, h.woken]
  exact h.requeue _

theorem wake (h : L.Kernels own k k') (path : Path) :
    L.Kernels own (k.wake path) (k'.wake path) := by
  rw [k.wake_enqueue, k'.wake_enqueue, h.woken]
  exact h.requeue _

theorem unwake (h : L.Kernels own k k') (id : FiberId) :
    L.Kernels own (k.unwake id) (k'.unwake id) := by
  unfold Kernel.unwake
  rw [h.woken]
  exact h.requeue _

theorem isWoken (h : L.Kernels own k k') (id : FiberId) : k.isWoken id = k'.isWoken id :=
  congrArg (·.contains id) h.woken

theorem draw (h : L.Kernels own k k') :
    k.draw.1 = k'.draw.1 ∧ L.Kernels own k.draw.2 k'.draw.2 :=
  ⟨h.fresh, h.worlds, h.woken, h.slots, h.tasks, h.callbacks, h.calls,
    congrArg (· + 1) h.fresh⟩

/-- Something else behind a handle, in both. -/
theorem reslot (h : L.Kernels own k k') (left : k.Reslotted handle k₁)
    (right : k'.Reslotted handle k₁')
    (alike : L.SlotsAt own handle (k₁.slot? handle) (k₁'.slot? handle)) :
    L.Kernels own k₁ k₁' := by
  have slots : ∀ i, L.SlotsAt own i (k₁.slot? i) (k₁'.slot? i) := by
    intro i
    by_cases hi : i = handle
    · exact hi ▸ alike
    · rw [left.2 i hi, right.2 i hi]
      exact h.slots i
  rcases left.1 with ⟨s, rfl⟩
  rcases right.1 with ⟨s', rfl⟩
  exact ⟨h.worlds, h.woken, slots, h.tasks, h.callbacks, h.calls, h.fresh⟩

theorem setSlot (h : L.Kernels own k k') {slot slot' : Slot σ}
    (alike : L.SlotsAt own handle (some slot) (some slot')) :
    L.Kernels own (k.setSlot handle slot) (k'.setSlot handle slot') :=
  h.reslot (k.reslotted_setSlot handle slot) (k'.reslotted_setSlot handle slot')
    (by rwa [k.slot?_setSlot_self, k'.slot?_setSlot_self])

theorem closeSlot (h : L.Kernels own k k') (other : own ≠ some handle) :
    L.Kernels own (k.closeSlot handle) (k'.closeSlot handle) :=
  h.reslot (k.reslotted_closeSlot handle) (k'.reslotted_closeSlot handle)
    (by rw [k.slot?_closeSlot_self, k'.slot?_closeSlot_self]; exact .of_ne other .none)

/-- What the holder of a handle has no use for is not missed. -/
theorem close_left (h : L.Kernels own k k') (other : own ≠ some handle)
    (gone : k'.slot? handle = none) : L.Kernels own (k.closeSlot handle) k' :=
  h.reslot (k.reslotted_closeSlot handle) (.refl handle k')
    (by rw [k.slot?_closeSlot_self, gone]; exact .of_ne other .none)

/-- What only the right kernel still knows of may be closed there. -/
theorem close_right (h : L.Kernels own k k') (other : own ≠ some handle)
    (gone : k.slot? handle = none) : L.Kernels own k (k'.closeSlot handle) :=
  h.reslot (.refl handle k) (k'.reslotted_closeSlot handle)
    (by rw [k'.slot?_closeSlot_self, gone]; exact .of_ne other .none)

/-- In both, the holder uses a handle. -/
theorem use (h : L.Kernels own k k') {r r' : Resumption σ}
    (alike : Resumption.Alike L.effects r r') :
    L.Kernels own (k.use handle r) (k'.use handle r') := by
  by_cases hown : own = some handle
  · rcases (h.slots handle).idle hown with ⟨idle, idle'⟩
    rcases Kernel.use_idle idle r with ⟨left, idle⟩
    rcases Kernel.use_idle idle' r' with ⟨right, idle'⟩
    exact h.reslot left right ⟨fun _ => ⟨idle, idle'⟩, fun other => absurd hown other⟩
  · have slots := (h.slots handle).other hown
    unfold Kernel.use
    -- The slots correspond. Where only one side still holds an abandoned slot, it is closed on that
    -- side alone.
    generalize hslot : k.slot? handle = slot at slots ⊢
    generalize hslot' : k'.slot? handle = slot' at slots ⊢
    cases slots with
    | none | filled | released => exact h
    | waiting => exact (h.setSlot (.of_ne hown (.filled alike))).wake _
    | abandoned => exact (h.closeSlot hown).report _
    | holdsLeft inexact =>
        have closed := h.close_left hown hslot'
        exact closed.world (closed.worlds.reportLeft inexact _)
    | holdsRight inexact =>
        have closed := h.close_right hown hslot
        exact closed.world (closed.worlds.reportRight inexact _)

/-- In both, the holder lets a handle go. -/
theorem release (h : L.Kernels own k k') (handle : Handle) :
    L.Kernels own (k.release handle) (k'.release handle) := by
  by_cases hown : own = some handle
  · rcases (h.slots handle).idle hown with ⟨idle, idle'⟩
    rcases Kernel.release_idle idle with ⟨left, idle⟩
    rcases Kernel.release_idle idle' with ⟨right, idle'⟩
    exact h.reslot left right ⟨fun _ => ⟨idle, idle'⟩, fun other => absurd hown other⟩
  · have slots := (h.slots handle).other hown
    unfold Kernel.release
    generalize hslot : k.slot? handle = slot at slots ⊢
    generalize hslot' : k'.slot? handle = slot' at slots ⊢
    cases slots with
    | none | filled | released => exact h
    | waiting => exact (h.setSlot (.of_ne hown .released)).wake _
    | abandoned => exact h.closeSlot hown
    | holdsLeft => exact h.close_left hown hslot'
    | holdsRight => exact h.close_right hown hslot

/-- In both, the fiber that waits for a handle goes away. -/
theorem leave (h : L.Kernels none k k') (handle : Handle) :
    L.Kernels none (k.leave handle) (k'.leave handle) := by
  have other : none ≠ some handle := Option.some_ne_none handle |>.symm
  have slots := (h.slots handle).other other
  unfold Kernel.leave
  generalize hslot : k.slot? handle = slot at slots ⊢
  generalize hslot' : k'.slot? handle = slot' at slots ⊢
  cases slots with
  | waiting => exact h.setSlot (.of_ne other .abandoned)
  | none | filled | released | abandoned | holdsLeft | holdsRight => exact h.closeSlot other

theorem leaveAll (h : L.Kernels none k k') (handles : List Handle) :
    L.Kernels none (k.leaveAll handles) (k'.leaveAll handles) := by
  unfold Kernel.leaveAll
  induction handles generalizing k k' with
  | nil => exact h
  | cons handle rest ih => exact ih (h.leave handle)

/-- Both get a task. -/
theorem addTask (h : L.Kernels own k k') {work work' : Work σ} (alike : L.Works work work') :
    L.Kernels own (k.addTask work).2 (k'.addTask work').2 := by
  have added : L.Kernels own { k.draw.2 with tasks := k.tasks ++ [⟨k.fresh, work, false⟩] }
      { k'.draw.2 with tasks := k'.tasks ++ [⟨k'.fresh, work', false⟩] } :=
    { h.draw.2 with
      tasks := List.rel_append h.tasks (.cons ⟨h.fresh, alike, rfl⟩ .nil) }
  have number : (k'.addTask work').2 =
      Kernel.wakeOne { k'.draw.2 with tasks := k'.tasks ++ [⟨k'.fresh, work', false⟩] } k.fresh :=
    congrArg (Kernel.wakeOne _) h.fresh.symm
  rw [number]
  exact added.wakeOne k.fresh

/-- Both obey a signal. -/
theorem signal (h : L.Kernels own k k') {signal signal' : Signal σ}
    (alike : Signal.Alike L.effects signal signal') :
    L.Kernels own (k.signal signal) (k'.signal signal') := by
  cases alike with
  | complete => exact h.use .outcome
  | resume alike => exact h.use (.effect alike)
  | release => exact h.release _
  | later alike =>
      rw [Kernel.signal, Kernel.signal, h.now]
      exact h.addTask (.errand alike)

/-- Both obey signals. -/
theorem signalAll (h : L.Kernels own k k') {signals signals' : List (Signal σ)}
    (alike : List.Forall₂ (Signal.Alike L.effects) signals signals') :
    L.Kernels own (k.signalAll signals) (k'.signalAll signals') := by
  unfold Kernel.signalAll
  induction alike generalizing k k' with
  | nil => exact h
  | cons first _ ih => exact ih (h.signal first)

/-- In both, effects are to run side by side. -/
theorem enlist {env env' : Context} {effects effects' : List (Effect σ)}
    (starts : List.Forall₂ (L.Starts env env') effects effects') (position : Nat)
    (h : L.Kernels own k k') :
    L.Children (Kernel.enlist env effects position k).1
        (Kernel.enlist env' effects' position k').1 ∧
      L.Kernels own (Kernel.enlist env effects position k).2
        (Kernel.enlist env' effects' position k').2 := by
  induction starts generalizing position k k' with
  | nil => exact ⟨.nil, h⟩
  | cons first _ ih =>
      rcases ih (position + 1) (h.draw.2.wakeOne k.fresh) with ⟨children, kernels⟩
      rw [Kernel.enlist_cons, Kernel.enlist_cons, ← h.fresh]
      exact ⟨.cons (.ready first) children, kernels⟩

/-- The first in the queue among fibers side by side, in both. -/
theorem firstWoken? (h : L.Kernels own k k') {children children' : List (FiberId × Nat × Fiber σ)}
    (alike : L.Children children children') :
    (k.firstWoken? children = none ∧ k'.firstWoken? children' = none) ∨
      ∃ id position f f', k.firstWoken? children = some (id, position, f) ∧
        k'.firstWoken? children' = some (id, position, f') ∧ L.Fibers f f' := by
  unfold Kernel.firstWoken?
  -- Both queues are the same, so the first child in the queue has the same number.
  rw [h.woken]
  induction k'.woken with
  | nil => exact .inl ⟨rfl, rfl⟩
  | cons id rest ih =>
      rw [List.findSome?_cons, List.findSome?_cons]
      rcases alike.find? id with ⟨left, right⟩ | ⟨i, position, f, f', left, right, fibers⟩
      · rw [left, right]
        exact ih
      · rw [left, right]
        exact .inr ⟨i, position, f, f', rfl, rfl, fibers⟩

/-- What fibers that wait for a handle go on with, in both. -/
theorem collect? (h : L.Kernels none k k') (handle : Handle) :
    (k.collect? handle = none ∧ k'.collect? handle = none) ∨
      ∃ focus focus' k₁ k₁', k.collect? handle = some (focus, k₁) ∧
        k'.collect? handle = some (focus', k₁') ∧ L.Kernels none k₁ k₁' ∧
        ∀ {point point'}, L.Points point point' →
          L.machines (point.resume focus) (point'.resume focus') := by
  have other : none ≠ some handle := Option.some_ne_none handle |>.symm
  have slots := (h.slots handle).other other
  unfold Kernel.collect?
  -- Slots that correspond are collected alike; the two kinds of leftover slots hold nothing.
  generalize k.slot? handle = slot at slots ⊢
  generalize k'.slot? handle = slot' at slots ⊢
  cases slots with
  | none | waiting | abandoned | holdsLeft | holdsRight => exact .inl ⟨rfl, rfl⟩
  | filled alike =>
      cases alike with
      | outcome =>
          exact .inr ⟨_, _, _, _, rfl, rfl, h.closeSlot other, fun points => points.unwind _⟩
      | effect alike =>
          exact .inr ⟨_, _, _, _, rfl, rfl, h.closeSlot other, fun points => points.eval alike⟩
  | released =>
      exact .inr ⟨_, _, _, _, rfl, rfl, (h.closeSlot other).report _,
        fun points => points.unwind _⟩

end Kernels

end Likeness

end EffectKernel
