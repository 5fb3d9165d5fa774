import EffectKernel.Proofs.History

/-!
# Handles

An effect that waits for a handle has two ends that know nothing of each other. The holder
uses the handle, or lets it go, at any time: inside the function that the handle is given to,
while the fiber waits, or long after the fiber has gone. The fiber goes on, or goes away
because it is cancelled, its time is over or another one was faster; or it never comes to
wait, because the function panics.

The phases of a handle say where the two ends stand, and what takes a handle from one phase
to another (`Phase.Next`). While the fiber waits the first thing that the holder does is what
counts. The fiber goes on with exactly that, among the services and frames where the effect
was. Whatever way the fiber takes it takes once, for there is no way back.

In every history the marks about a handle follow the phases, and what is in the kernel shows
the phase (`Phase.Stands`): as long as the fiber waits there is one place in the whole scene
where somebody waits for the handle, and afterwards there is none.

## Main definitions

* `Phase`, `Phase.Next`, `Phase.Runs`: Where the two ends of a handle stand.
* `Fiber.places`, `Scene.places`: Where somebody waits for a handle.
* `Phase.Stands`: What is in the kernel, by phase.
* `Phase.Shows`: What the two ends see, by phase.

## Theorems

* `Fiber.Move.stands`: A step of a fiber keeps to the phases.
* `Scene.Happens.stands`, `Scene.History.stands`: So do deeds and histories.
* `handles_count_once`: Whatever the two ends do and when, the effect ends in one way.
-/

namespace EffectKernel

variable {σ : Type}

namespace Mark

/-- The handle that something happens to. -/
def handle : Mark σ → Handle
  | .opened h _ => h
  | .used h _ => h
  | .released h => h
  | .panicked h _ => h
  | .resumed h _ => h
  | .left h => h

/-- The holder does something. -/
def IsHolders : Mark σ → Prop
  | .used _ _ => True
  | .released _ => True
  | _ => False

/-- The fiber that waited does so no longer. -/
def settles (handle : Handle) : Mark σ → Bool
  | .panicked h _ => h == handle
  | .resumed h _ => h == handle
  | .left h => h == handle
  | _ => false

/-- What the holder does takes nothing from the fiber. -/
theorem settles_of_isHolders {mark : Mark σ} (holders : mark.IsHolders) (handle : Handle) :
    mark.settles handle = false := by
  cases mark <;> first | rfl | cases holders

/-- A mark at another handle settles nothing. -/
theorem settles_of_ne {mark : Mark σ} {handle : Handle} (other : mark.handle ≠ handle) :
    mark.settles handle = false := by
  cases mark <;> first | rfl | exact beq_eq_false_iff_ne.2 other

end Mark

/-- Where the two ends of a handle stand. -/
inductive Phase (σ : Type) where
  /-- It has not been given out. -/
  | unborn
  /-- A fiber waits for it at a point; what it is to go on with, once the holder has done
      something. -/
  | waiting (point : Suspension σ) (got : Option (Focus σ))
  /-- The fiber has gone on. -/
  | ended
  /-- The fiber has gone away; whether somebody still has the handle in hand. -/
  | gone (held : Bool)

namespace Phase

/-- Whether the holder has not used the handle yet and still has it in hand. -/
def IsUnsettled : Phase σ → Prop
  | .waiting _ none => True
  | .gone true => True
  | _ => False

/-- What happens to the two ends of a handle. -/
inductive Next (handle : Handle) : Phase σ → Mark σ → Phase σ → Prop where
  /-- The handle is given out. -/
  | opened {point} : Next handle .unborn (.opened handle point) (.waiting point none)
  /-- The holder uses it, while the fiber waits. -/
  | used {point r} :
      Next handle (.waiting point none) (.used handle r) (.waiting point (some r.focus))
  /-- The holder lets it go, while the fiber waits. -/
  | released {point} :
      Next handle (.waiting point none) (.released handle)
        (.waiting point (some (.unwind (.die .resumeDropped))))
  /-- The fiber goes on with what it has got. -/
  | resumed {point focus} :
      Next handle (.waiting point (some focus)) (.resumed handle (point.resume focus)) .ended
  /-- The function that the handle was given to panics, and the fiber dies of it. -/
  | panicked {point got d} :
      Next handle (.waiting point got) (.panicked handle (point.resume (.unwind (.die d))))
        (.gone got.isNone)
  /-- The fiber goes away. -/
  | left {point got} :
      Next handle (.waiting point got) (.left handle) (.gone got.isNone)
  /-- The holder uses the handle, or lets it go, after the fiber has gone. -/
  | late {mark} (holders : mark.IsHolders) (about : mark.handle = handle) :
      Next handle (.gone true) mark (.gone false)
  /-- What the holder does makes no difference. -/
  | idle {phase mark} (holders : mark.IsHolders) (about : mark.handle = handle)
      (idle : ¬phase.IsUnsettled) : Next handle phase mark phase
  /-- Something happens to another handle. -/
  | other {phase mark} (other : mark.handle ≠ handle) : Next handle phase mark phase

/-- What happens to the two ends of a handle, one after the other. -/
inductive Runs (handle : Handle) : Phase σ → List (Mark σ) → Phase σ → Prop where
  /-- Nothing. -/
  | none {phase} : Runs handle phase [] phase
  /-- Something, and more after it. -/
  | more {phase phase₁ phase' mark marks} (first : Next handle phase mark phase₁)
      (rest : Runs handle phase₁ marks phase') : Runs handle phase (mark :: marks) phase'

variable {handle : Handle} {phase phase₁ phase' : Phase σ} {mark : Mark σ}
  {marks marks' : List (Mark σ)}

theorem Runs.one (next : Next handle phase mark phase') : Runs handle phase [mark] phase' :=
  .more next .none

theorem Runs.trans (first : Runs handle phase marks phase₁)
    (rest : Runs handle phase₁ marks' phase') : Runs handle phase (marks ++ marks') phase' := by
  induction first with
  | none => exact rest
  | more next _ ih => exact .more next (ih rest)

/-- A fiber that waited is no longer there. -/
def Settled : Phase σ → Prop
  | .ended => True
  | .gone _ => True
  | _ => False

/-- What settles a handle. -/
theorem Next.settles (next : Next handle phase mark phase') :
    (mark.settles handle = true ∧ ¬phase.Settled ∧ phase'.Settled) ∨
      (mark.settles handle = false ∧ (phase.Settled → phase'.Settled)) := by
  cases next with
  | opened => exact .inr ⟨rfl, fun h => h⟩
  | used => exact .inr ⟨rfl, fun h => h⟩
  | released => exact .inr ⟨rfl, fun h => h⟩
  | resumed => exact .inl ⟨beq_self_eq_true handle, fun h => h, trivial⟩
  | panicked => exact .inl ⟨beq_self_eq_true handle, fun h => h, trivial⟩
  | left => exact .inl ⟨beq_self_eq_true handle, fun h => h, trivial⟩
  | late holders _ => exact .inr ⟨Mark.settles_of_isHolders holders handle, fun h => h⟩
  | idle holders _ _ => exact .inr ⟨Mark.settles_of_isHolders holders handle, fun h => h⟩
  | other other => exact .inr ⟨Mark.settles_of_ne other, fun h => h⟩

/-- A handle that is settled is not settled again. -/
theorem Runs.settled (runs : Runs handle phase marks phase') (settled : phase.Settled) :
    marks.countP (·.settles handle) = 0 := by
  induction runs with
  | none => rfl
  | more next _ ih =>
      rcases next.settles with ⟨-, unsettled, -⟩ | ⟨no, keeps⟩
      · exact absurd settled unsettled
      · rw [List.countP_cons_of_neg (by simp [no])]
        exact ih (keeps settled)

/-- A handle is settled once at most. -/
theorem Runs.settles_once (runs : Runs handle phase marks phase') :
    marks.countP (·.settles handle) ≤ 1 := by
  induction runs with
  | none => exact Nat.zero_le 1
  | more next rest ih =>
      rcases next.settles with ⟨yes, -, settled⟩ | ⟨no, -⟩
      · refine Nat.le_of_eq ?_
        rw [List.countP_cons_of_pos yes, rest.settled settled]
      · rw [List.countP_cons_of_neg (by simp [no])]
        exact ih

end Phase

/-- A place where a fiber waits. -/
structure Place (σ : Type) where
  /-- The fiber's path. -/
  path : Path
  /-- Where its machine waits. -/
  point : Suspension σ

namespace Fiber

mutual
/-- The places where somebody in a fiber waits for a handle. -/
def places (handle : Handle) (path : Path) : Fiber σ → List (Place σ)
  | .ready _ => []
  | .asleep _ _ => []
  | .yielded _ => []
  | .listening h point => if h = handle then [⟨path, point⟩] else []
  | .limited _ _ inner _ => inner.places handle path
  | .joining _ children _ => placesEach handle path children

/-- The places where somebody in fibers side by side waits for a handle. -/
def placesEach (handle : Handle) (path : Path) :
    List (FiberId × Nat × Fiber σ) → List (Place σ)
  | [] => []
  | (id, _, child) :: rest => child.places handle (id :: path) ++ placesEach handle path rest
end

mutual
/-- Fibers side by side have different numbers, everywhere in a fiber. -/
def Apart : Fiber σ → Prop
  | .limited _ _ inner _ => inner.Apart
  | .joining _ children _ => (children.map (·.1)).Nodup ∧ ApartEach children
  | _ => True

/-- Fibers side by side have different numbers, everywhere in some fibers. -/
def ApartEach : List (FiberId × Nat × Fiber σ) → Prop
  | [] => True
  | (_, _, child) :: rest => child.Apart ∧ ApartEach rest
end

mutual
/-- There are as many places as the handle occurs among the handles. -/
theorem count_handles (handle : Handle) (path : Path) :
    (fiber : Fiber σ) → fiber.handles.count handle = (fiber.places handle path).length
  | .ready _ => rfl
  | .asleep _ _ => rfl
  | .yielded _ => rfl
  | .listening h point => by
      unfold handles places
      -- The fiber waits on this handle or on another one, and in one place only.
      by_cases heq : h = handle
      · subst heq
        simp
      · simp [heq]
  | .limited _ _ inner _ => by
      unfold handles places
      exact count_handles handle path inner
  | .joining _ children _ => by
      unfold handles places
      exact count_handlesEach handle path children

/-- The same for fibers side by side. -/
theorem count_handlesEach (handle : Handle) (path : Path) :
    (children : List (FiberId × Nat × Fiber σ)) →
      (handlesEach children).count handle = (placesEach handle path children).length
  | [] => rfl
  | (id, _, child) :: rest => by
      unfold handlesEach placesEach
      rw [List.count_append, List.length_append, count_handles handle (id :: path) child,
        count_handlesEach handle path rest]
end

theorem placesEach_append (handle : Handle) (path : Path)
    (front back : List (FiberId × Nat × Fiber σ)) :
    placesEach handle path (front ++ back) =
      placesEach handle path front ++ placesEach handle path back := by
  induction front with
  | nil => rfl
  | cons child rest ih =>
      rcases child with ⟨id, position, child⟩
      simp only [List.cons_append, placesEach, ih, List.append_assoc]

theorem apartEach_append {front back : List (FiberId × Nat × Fiber σ)} :
    ApartEach (front ++ back) ↔ ApartEach front ∧ ApartEach back := by
  induction front with
  | nil => exact ⟨fun h => ⟨trivial, h⟩, fun h => h.2⟩
  | cons child rest ih =>
      rcases child with ⟨id, position, child⟩
      simp only [List.cons_append, ApartEach, ih, and_assoc]

end Fiber

/-- What is behind a handle that a fiber at a path waits for, by what it has got. -/
def Slot.Holds (path : Path) : Option (Focus σ) → Option (Slot σ) → Prop
  | none, some (.waiting waiter) => waiter = [] ∨ waiter = path
  | some focus, some (.filled r) => focus = r.focus
  | some focus, some .released => focus = .unwind (.die .resumeDropped)
  | _, _ => False

/-- Who waits for a handle and what is behind it, by phase. -/
def Phase.Stands (handle : Handle) (places : List (Place σ)) (k : Kernel σ) : Phase σ → Prop
  | .unborn => places = [] ∧ k.slot? handle = none
  | .waiting point got =>
    handle < k.fresh ∧
      ∃ path, places = [⟨path, point⟩] ∧ Slot.Holds path got (k.slot? handle)
  | .ended => handle < k.fresh ∧ places = [] ∧ k.slot? handle = none
  | .gone held =>
    handle < k.fresh ∧ places = [] ∧ k.slot? handle = if held then some .abandoned else none

/-- Some marks take a handle from a phase to the one that can be seen afterwards. -/
def Phase.Leads (handle : Handle) (phase : Phase σ) (marks : List (Mark σ))
    (places : List (Place σ)) (k : Kernel σ) : Prop :=
  ∃ phase', phase.Runs handle marks phase' ∧ phase'.Stands handle places k

namespace Phase

variable {handle h : Handle} {places : List (Place σ)} {k k₁ k' : Kernel σ} {phase : Phase σ}
  {marks marks' : List (Mark σ)}

/-- Where neither the slot nor anybody who waits changes. -/
theorem Stands.congr (stands : phase.Stands handle places k)
    (slot : k'.slot? handle = k.slot? handle) (fresh : k.fresh ≤ k'.fresh) :
    phase.Stands handle places k' := by
  cases phase with
  | unborn => exact ⟨stands.1, slot.trans stands.2⟩
  | waiting point got =>
      rcases stands with ⟨low, path, hplaces, holds⟩
      exact ⟨Nat.lt_of_lt_of_le low fresh, path, hplaces, slot ▸ holds⟩
  | ended => exact ⟨Nat.lt_of_lt_of_le stands.1 fresh, stands.2.1, slot.trans stands.2.2⟩
  | gone held => exact ⟨Nat.lt_of_lt_of_le stands.1 fresh, stands.2.1, slot.trans stands.2.2⟩

/-- Nothing happens. -/
theorem Stands.leads (stands : phase.Stands handle places k) :
    phase.Leads handle [] places k :=
  ⟨phase, .none, stands⟩

/-- Something happens to another handle. -/
theorem Stands.leads_other {mark : Mark σ} (stands : phase.Stands handle places k)
    (other : mark.handle ≠ handle) : phase.Leads handle [mark] places k :=
  ⟨phase, .one (.other other), stands⟩

/-- Where neither the slot nor anybody who waits changes afterwards. -/
theorem Leads.congr {places' : List (Place σ)} (leads : phase.Leads handle marks places k)
    (same : places' = places) (slot : k'.slot? handle = k.slot? handle)
    (fresh : k.fresh ≤ k'.fresh) : phase.Leads handle marks places' k' := by
  rcases leads with ⟨phase', runs, stands⟩
  subst same
  exact ⟨phase', runs, stands.congr slot fresh⟩

/-- One thing after another. -/
theorem Leads.trans {places' : List (Place σ)} (first : phase.Leads handle marks places k)
    (rest : ∀ {phase₁ : Phase σ}, phase₁.Stands handle places k →
      phase₁.Leads handle marks' places' k') :
    phase.Leads handle (marks ++ marks') places' k' := by
  rcases first with ⟨phase₁, runs, stands⟩
  rcases rest stands with ⟨phase', runs', stands'⟩
  exact ⟨phase', runs.trans runs', stands'⟩

/-- Where somebody waits the handle is in the waiting phase. -/
theorem Stands.waiting_of_mem {place : Place σ} {front back : List (Place σ)}
    (stands : phase.Stands handle (front ++ place :: back) k) :
    front = [] ∧ back = [] ∧ ∃ got, phase = .waiting place.point got ∧
      handle < k.fresh ∧ Slot.Holds place.path got (k.slot? handle) := by
  have some : front ++ place :: back ≠ [] := by simp
  -- Only a waiting handle has a place, and exactly one.
  cases phase with
  | unborn => exact absurd stands.1 some
  | ended => exact absurd stands.2.1 some
  | gone held => exact absurd stands.2.1 some
  | waiting point got =>
      rcases stands with ⟨low, path, hplaces, holds⟩
      rcases List.append_eq_cons_iff.1 hplaces with ⟨rfl, heq⟩ | ⟨rest, rfl, heq⟩
      · rcases List.cons_eq_cons.1 heq with ⟨rfl, rfl⟩
        exact ⟨rfl, rfl, got, rfl, low, holds⟩
      · cases rest <;> cases heq

end Phase

namespace Kernel

variable {handle h : Handle} {places : List (Place σ)} {k : Kernel σ} {phase : Phase σ}

/-- What the holder does has an effect only where the fiber waits for it or has gone. -/
theorem leads_holder {k' : Kernel σ} {mark : Mark σ} {focus : Focus σ}
    (stands : phase.Stands handle places k) (slot : Slot σ) (holders : mark.IsHolders)
    (about : mark.handle = handle)
    (next : ∀ point, Phase.Next handle (.waiting point none) mark
      (.waiting point (some focus)))
    (holds : ∀ path, Slot.Holds path (some focus) (some slot)) (fresh : k.fresh ≤ k'.fresh)
    (waiting : ∀ waiter, k.slot? handle = some (.waiting waiter) → k'.slot? handle = some slot)
    (abandoned : k.slot? handle = some .abandoned → k'.slot? handle = none)
    (idle : (∀ waiter, k.slot? handle ≠ some (.waiting waiter)) →
      k.slot? handle ≠ some .abandoned → k' = k) :
    phase.Leads handle [mark] places k' := by
  -- Where it makes no difference nothing is done.
  have ignored : ¬phase.IsUnsettled → k' = k → phase.Leads handle [mark] places k' := by
    rintro unheeded rfl
    exact ⟨phase, .one (.idle holders about unheeded), stands⟩
  cases phase with
  | unborn =>
      have hslot := stands.2
      exact ignored (fun h => h) (idle (by simp [hslot]) (by simp [hslot]))
  | ended =>
      have hslot := stands.2.2
      exact ignored (fun h => h) (idle (by simp [hslot]) (by simp [hslot]))
  | gone held =>
      rcases stands with ⟨low, hplaces, hslot⟩
      cases held with
      | false => exact ignored (fun h => h) (idle (by simp [hslot]) (by simp [hslot]))
      | true =>
          exact ⟨_, .one (.late holders about), Nat.lt_of_lt_of_le low fresh, hplaces,
            abandoned hslot⟩
  | waiting point got =>
      rcases stands with ⟨low, path, hplaces, hholds⟩
      cases got with
      | none =>
          rcases hslot : k.slot? handle with _ | waiter | _ | _ | _
          · exact (hslot ▸ hholds : Slot.Holds path none none).elim
          · exact ⟨_, .one (next point), Nat.lt_of_lt_of_le low fresh, path, hplaces,
              waiting waiter hslot ▸ holds path⟩
          all_goals
            rw [hslot] at hholds
            exact hholds.elim
      | some focus' =>
          refine ignored (fun h => h) (idle (fun waiter hslot => ?_) fun hslot => ?_)
          all_goals
            rw [hslot] at hholds
            exact hholds.elim

/-- The holder uses a handle. -/
theorem leads_use (stands : phase.Stands handle places k) (h : Handle) (r : Resumption σ) :
    phase.Leads handle [.used h r] places (k.use h r) := by
  -- On the handle itself the slot decides: a waiting fiber is woken with the result, an abandoned
  -- slot is closed, and in any other case nothing changes.
  by_cases other : h = handle
  · subst other
    refine leads_holder stands (.filled r) trivial rfl (fun _ => .used) (fun _ => rfl)
      (k.grows_use h r).fresh (fun waiter hslot => ?_) (fun hslot => ?_) fun hwaiting hgone => ?_
    · rw [use, hslot]
      exact (slot?_wake _ waiter h).trans ((slot?_setSlot k h _ h).trans (if_pos rfl))
    · rw [use, hslot]
      exact (slot?_closeSlot k h h).trans (if_pos rfl)
    · unfold use
      split
      · next waiter hslot => exact absurd hslot (hwaiting waiter)
      · next hslot => exact absurd hslot hgone
      · rfl
  · exact (stands.congr (k.slot?_use r other) (k.grows_use h r).fresh).leads_other other

/-- The holder lets a handle go. -/
theorem leads_release (stands : phase.Stands handle places k) (h : Handle) :
    phase.Leads handle [.released h] places (k.release h) := by
  -- The same three cases as for a use; a waiting fiber finds the slot released.
  by_cases other : h = handle
  · subst other
    refine leads_holder stands .released trivial rfl (fun _ => .released)
      (fun _ => rfl) (k.grows_release h).fresh (fun waiter hslot => ?_) (fun hslot => ?_)
      fun hwaiting hgone => ?_
    · rw [release, hslot]
      exact (slot?_wake _ waiter h).trans ((slot?_setSlot k h _ h).trans (if_pos rfl))
    · rw [release, hslot]
      exact (slot?_closeSlot k h h).trans (if_pos rfl)
    · unfold release
      split
      · next waiter hslot => exact absurd hslot (hwaiting waiter)
      · next hslot => exact absurd hslot hgone
      · rfl
  · exact (stands.congr (k.slot?_release other) (k.grows_release h).fresh).leads_other other

/-- A task is added, which changes nothing about handles. -/
theorem slot?_addTask (k : Kernel σ) (work : Work σ) (handle : Handle) :
    (k.addTask work).2.slot? handle = k.slot? handle :=
  slot?_wakeOne { k with
    tasks := k.tasks ++ [⟨k.fresh, work, false⟩], fresh := k.fresh + 1 } k.fresh handle

/-- Holders do something with their handles. -/
theorem leads_signal (stands : phase.Stands handle places k) (signal : Signal σ) :
    phase.Leads handle signal.marks places (k.signal signal) := by
  cases signal with
  | complete h x => exact leads_use stands h _
  | resume h e => exact leads_use stands h _
  | release h => exact leads_release stands h
  | later millis h act =>
      have fresh := (k.grows_signal (.later millis h act)).fresh
      exact (stands.congr (k.slot?_addTask _ handle) fresh).leads

/-- Signals one after the other. -/
theorem leads_signalAll (stands : phase.Stands handle places k) (signals : List (Signal σ)) :
    phase.Leads handle (signals.flatMap Signal.marks) places (k.signalAll signals) := by
  unfold signalAll
  induction signals generalizing k phase with
  | nil => exact stands.leads
  | cons signal rest ih =>
      rw [List.flatMap_cons]
      exact (leads_signal stands signal).trans ih

/-- The fiber that waits for a handle goes away, after a mark that says so. -/
theorem leads_leave {place : Place σ} {front back : List (Place σ)}
    (stands : phase.Stands handle (front ++ place :: back) k) (mark : Mark σ)
    (next : ∀ got, Phase.Next handle (.waiting place.point got) mark
      (.gone got.isNone)) :
    front = [] ∧ back = [] ∧ phase.Leads handle [mark] [] (k.leave handle) := by
  rcases stands.waiting_of_mem with ⟨hfront, hback, got, rfl, low, holds⟩
  refine ⟨hfront, hback, _, .one (next got), Nat.lt_of_lt_of_le low (k.grows_leave _).fresh, rfl,
    ?_⟩
  -- Unsettled, the slot is kept for the holder of the handle; settled, nobody needs it any more and
  -- it is closed.
  rcases hslot : k.slot? handle with _ | waiter | _ | _ | _
  · rw [hslot] at holds
    cases got <;> exact holds.elim
  · rw [hslot] at holds
    cases got with
    | some focus => exact holds.elim
    | none =>
        rw [leave, hslot]
        exact (slot?_setSlot k handle _ handle).trans (if_pos rfl)
  all_goals
    rw [hslot] at holds
    cases got with
    | none => exact holds.elim
    | some focus =>
        rw [leave, hslot]
        exact (slot?_closeSlot k handle handle).trans (if_pos rfl)

/-- Everybody in a fiber, or in fibers side by side, goes away. -/
theorem leads_leaveAll {handles : List Handle} {front inner back : List (Place σ)}
    (count : handles.count handle = inner.length)
    (stands : phase.Stands handle (front ++ inner ++ back) k) :
    phase.Leads handle (handles.map .left) (front ++ back) (k.leaveAll handles) := by
  induction handles generalizing k phase inner front back with
  | nil =>
      have hinner : inner = [] := List.eq_nil_of_length_eq_zero count.symm
      subst hinner
      rw [List.append_nil] at stands
      exact stands.leads
  | cons h rest ih =>
      -- Leaving this handle takes away the one place it has, and leaving another one does not touch
      -- it.
      have one : phase.Leads handle [.left h] (front ++ (if h = handle then [] else inner) ++ back)
          (k.leave h) ∧ rest.count handle = (if h = handle then [] else inner).length := by
        by_cases other : h = handle
        · subst other
          cases inner with
          | nil =>
              rw [List.count_cons_self] at count
              cases count
          | cons place inner =>
              rw [List.append_assoc, List.cons_append] at stands
              rcases leads_leave stands (.left h) fun got => .left with
                ⟨rfl, hback, leads⟩
              rcases List.append_eq_nil_iff.1 hback with ⟨rfl, rfl⟩
              rw [List.count_cons_self] at count
              rw [if_pos rfl]
              exact ⟨leads, Nat.succ.inj count⟩
        · rw [if_neg other]
          rw [List.count_cons_of_ne other] at count
          have stands' := stands.congr (k.slot?_leave other) (k.grows_leave h).fresh
          exact ⟨stands'.leads_other other, count⟩
      exact one.1.trans (ih one.2)

/-- A handle is given out, and perhaps the world changes. -/
theorem leads_opened {front back : List (Place σ)} (stands : phase.Stands handle (front ++ back) k)
    (path : Path) (point : Suspension σ) (w : World σ) :
    phase.Leads handle [.opened k.fresh point]
      (front ++ (Fiber.listening k.fresh point).places handle path ++ back)
      { k.openSlot.2 with world := w } := by
  have slot : ({ k.openSlot.2 with world := w } : Kernel σ).slot? handle =
      if handle = k.fresh then some (.waiting []) else k.slot? handle :=
    slot?_setSlot k.draw.2 k.fresh (.waiting []) handle
  by_cases other : k.fresh = handle
  · subst other
    rw [if_pos rfl] at slot
    cases phase with
    | unborn =>
        rcases List.append_eq_nil_iff.1 stands.1 with ⟨rfl, rfl⟩
        refine ⟨_, .one .opened, Nat.lt_succ_self _, path, ?_, ?_⟩
        · simp [Fiber.places]
        · rw [slot]
          exact .inl rfl
    -- All others have been given out before.
    | _ => exact absurd stands.1 (Nat.lt_irrefl _)
  · rw [if_neg (Ne.symm other)] at slot
    rw [Fiber.places, if_neg other, List.append_nil]
    exact (stands.congr slot (Nat.le_succ _)).leads_other other

/-- The fiber dies where it would have waited. -/
theorem leads_panicked {front back : List (Place σ)} {path : Path} {h : Handle}
    {point : Suspension σ} (d : Defect)
    (stands : phase.Stands handle
      (front ++ (Fiber.listening h point).places handle path ++ back) k) :
    phase.Leads handle [.panicked h (point.resume (.unwind (.die d)))] (front ++ back)
      (k.leave h) := by
  by_cases other : h = handle
  · subst other
    rw [Fiber.places, if_pos rfl, List.append_assoc] at stands
    let mark : Mark σ := .panicked h (point.resume (.unwind (.die d)))
    rcases leads_leave stands mark fun got => .panicked with ⟨rfl, rfl, leads⟩
    exact leads
  · rw [Fiber.places, if_neg other, List.append_nil] at stands
    exact (stands.congr (k.slot?_leave other) (k.grows_leave h).fresh).leads_other other

/-- Fibers that are numbered have not begun. -/
theorem enlist_children (env : Context) (effects : List (Effect σ)) (position : Nat)
    (k : Kernel σ) (handle : Handle) (path : Path) :
    Fiber.placesEach handle path (enlist env effects position k).1 = [] ∧
      (enlist env effects position k).2.slot? handle = k.slot? handle := by
  induction effects generalizing position k with
  | nil => exact ⟨rfl, rfl⟩
  | cons e rest ih =>
      rcases ih (position + 1) (k.draw.2.wakeOne k.fresh) with ⟨hplaces, hslot⟩
      exact ⟨hplaces, hslot.trans (slot?_wakeOne _ _ _)⟩

/-- A machine gets what it asks for. -/
theorem leads_grant {front back : List (Place σ)} (stands : phase.Stands handle (front ++ back) k)
    (path : Path) (request : Request σ) (point : Suspension σ) :
    phase.Leads handle (k.grantMarks request point)
      (front ++ (k.grant path request point).1.places handle path ++ back)
      (k.grant path request point).2 := by
  have stays : phase.Stands handle (front ++ [] ++ back) k := by
    rwa [List.append_nil]
  -- Children that have only been enlisted wait on nothing yet.
  have enlisted : ∀ children : List (Effect σ), phase.Leads handle []
      (front ++ Fiber.placesEach handle path (enlist point.env children 0 k).1 ++ back)
      (enlist point.env children 0 k).2 := by
    intro children
    rcases enlist_children point.env children 0 k handle path with ⟨hplaces, hslot⟩
    rw [hplaces]
    exact (stays.congr hslot (grows_enlist point.env children 0 k).fresh).leads
  cases request with
  | pause span focus => exact stays.leads
  | giveWay focus => exact (stays.congr (k.slot?_wake path handle) (k.grows_wake path).fresh).leads
  | within source limit => exact stays.leads
  | gather children collect => exact enlisted children
  | compete children => exact enlisted children
  -- A new handle is opened before `register` is called. The call may settle it at once, and a panic
  -- settles it with the defect.
  | listen register =>
      have opened := leads_opened stands path point
      have hopen : k.openSlot.1 = k.fresh := rfl
      have hworld : k.openSlot.2.world = k.world := rfl
      simp only [grantMarks, grant, hopen, hworld]
      rcases k.world.guarded (register k.fresh) with ⟨d | ⟨signals, _ | p⟩, w⟩
      · exact (opened w).trans fun stands => by
          simpa [Fiber.places] using leads_panicked d stands
      · exact (opened w).trans fun stands => leads_signalAll stands signals
      · refine (opened w).trans fun stands =>
          (leads_signalAll stands signals).trans fun stands => ?_
        have reported : Phase.Stands handle _ (Kernel.report _ (.panicCaptured (.ofPanic p))) _ :=
          stands.congr rfl (Nat.le_refl _)
        simpa [Fiber.places] using leads_panicked (.ofPanic p) reported

/-- Fibers are given different numbers. -/
theorem enlist_apart (env : Context) (effects : List (Effect σ)) (position : Nat)
    (k : Kernel σ) :
    (enlist env effects position k).1.map (·.1) = List.range' k.fresh effects.length ∧
      Fiber.ApartEach (enlist env effects position k).1 := by
  induction effects generalizing position k with
  | nil => exact ⟨rfl, trivial⟩
  | cons e rest ih =>
      -- Each child draws one number, and waking it draws none.
      have fresh : (k.draw.2.wakeOne k.fresh).fresh = k.fresh + 1 := by
        rcases k.draw.2.wakeOne_eq k.fresh with ⟨woken, heq⟩
        rw [heq]
        rfl
      rcases ih (position + 1) (k.draw.2.wakeOne k.fresh) with ⟨hids, hapart⟩
      rw [fresh] at hids
      refine ⟨?_, trivial, hapart⟩
      rw [List.length_cons, List.range'_succ, ← hids]
      rfl

/-- When a fiber goes on there is nothing left behind its handle. -/
theorem slot?_collect? {k' : Kernel σ} {focus : Focus σ}
    (found : k.collect? h = some (focus, k')) (handle : Handle) :
    k'.slot? handle = if handle = h then none else k.slot? handle := by
  unfold collect? at found
  split at found
  · cases found
    exact slot?_closeSlot k h handle
  · cases found
    exact slot?_closeSlot k h handle
  · cases found

/-- What a fiber goes on with is what it has got. -/
theorem collect?_of_holds {path : Path} {got : Option (Focus σ)}
    (holds : Slot.Holds path got (k.slot? handle)) : (k.collect? handle).map (·.1) = got := by
  unfold collect?
  rcases hslot : k.slot? handle with _ | waiter | (x | e) | _ | _
  all_goals
    rw [hslot] at holds
    cases got with
    | none => first | rfl | exact holds.elim
    | some focus => first | exact congrArg some (Eq.symm holds) | exact holds.elim

end Kernel

namespace Fiber

variable {settings : Settings} {path : Path} {fiber fiber' : Fiber σ} {k k' : Kernel σ}
  {marks : List (Mark σ)} {handle : Handle} {phase : Phase σ}

/-- A step keeps the numbers of fibers side by side apart. -/
theorem Move.apart (move : Move settings path fiber k marks fiber' k') (apart : fiber.Apart) :
    fiber'.Apart := by
  -- A move gives numbers to new children, puts a moved child back in its place, or takes one out.
  induction move with
  | @ask path m request point k w _ =>
      cases request with
      | gather children collect =>
          rcases Kernel.enlist_apart point.env children 0 { k with world := w } with ⟨ids, each⟩
          refine ⟨?_, each⟩
          rw [ids]
          exact List.nodup_range'
      | compete children =>
          rcases Kernel.enlist_apart point.env children 0 { k with world := w } with ⟨ids, each⟩
          refine ⟨?_, each⟩
          rw [ids]
          exact List.nodup_range'
      | listen register =>
          simp only [Kernel.grant]
          split <;> trivial
      | _ => trivial
  | within _ ih => exact ih apart
  | @child path join children id position child child' point k k' marks mem _ ih =>
      rcases split_children apart.1 mem with ⟨front, back, rfl, hwith, -⟩
      rcases apart with ⟨ids, each⟩
      rw [hwith]
      refine ⟨by rw [List.map_append] at ids ⊢; exact ids, ?_⟩
      rcases apartEach_append.1 each with ⟨hfront, hchild, hback⟩
      exact apartEach_append.2 ⟨hfront, ih hchild, hback⟩
  | @absorb path join join' children id position x env' point k mem _ =>
      rcases split_children apart.1 mem with ⟨front, back, rfl, -, hwithout⟩
      rcases apart with ⟨ids, each⟩
      rw [hwithout]
      rcases apartEach_append.1 each with ⟨hfront, -, hback⟩
      refine ⟨?_, apartEach_append.2 ⟨hfront, hback⟩⟩
      exact ids.sublist (((List.sublist_cons_self _ back).append_left front).map _)
  | queue => exact apart
  | _ => trivial

/-- A step keeps to the phases of a handle, whoever else may wait elsewhere. -/
theorem Move.stands (move : Move settings path fiber k marks fiber' k') (apart : fiber.Apart)
    {front back : List (Place σ)}
    (stands : phase.Stands handle (front ++ fiber.places handle path ++ back) k) :
    phase.Leads handle marks (front ++ fiber'.places handle path ++ back) k' := by
  induction move generalizing front back phase with
  | step => exact (stands.congr rfl (Nat.le_refl _)).leads
  | @ask path m request point k w _ =>
      have stays : phase.Stands handle (front ++ back) { k with world := w } := by
        rw [places, List.append_nil] at stands
        exact stands.congr rfl (Nat.le_refl _)
      exact Kernel.leads_grant stays path request point
  | rise => exact stands.leads
  | goOn => exact stands.leads
  | @collect path h point focus k k' found =>
      have fresh := (Kernel.grows_collect? found).fresh
      by_cases other : h = handle
      · subst other
        rw [places, if_pos rfl, List.append_assoc] at stands
        rcases stands.waiting_of_mem with ⟨rfl, rfl, got, rfl, low, holds⟩
        -- What it goes on with is what it has got.
        have hgot := Kernel.collect?_of_holds holds
        rw [found] at hgot
        cases hgot
        have hslot := (Kernel.slot?_collect? found h).trans (if_pos rfl)
        exact ⟨_, .one .resumed, Nat.lt_of_lt_of_le low fresh, rfl, hslot⟩
      · rw [places, if_neg other] at stands
        have hslot := (Kernel.slot?_collect? found handle).trans (if_neg (Ne.symm other))
        exact (stands.congr hslot fresh).leads_other other
  | @look path h point k waits =>
      by_cases other : h = handle
      · subst other
        rw [places, if_pos rfl, List.append_assoc] at stands ⊢
        rcases stands.waiting_of_mem with ⟨rfl, rfl, got, rfl, low, holds⟩
        have hgot := Kernel.collect?_of_holds holds
        rw [waits] at hgot
        cases hgot
        have hslot := (k.slot?_setSlot h (.waiting path) h).trans (if_pos rfl)
        exact ⟨_, .none, low, path, rfl, hslot ▸ .inr rfl⟩
      · have hslot := (k.slot?_setSlot h (.waiting path) handle).trans (if_neg (Ne.symm other))
        exact (stands.congr hslot (Nat.le_refl _)).leads
  | within _ ih => exact ih apart stands
  | inTime => exact stands.leads
  | @expire path limit deadline inner point k due =>
      have left := Kernel.leads_leaveAll (count_handles handle path inner) stands
      rcases left with ⟨phase', runs, stands'⟩
      refine ⟨phase', runs, ?_⟩
      rw [places, List.append_nil]
      exact stands'.congr rfl (Nat.le_refl _)
  | @child path join children id position child child' point k k' marks mem _ ih =>
      rcases split_children apart.1 mem with ⟨first, last, rfl, hwith, -⟩
      have hchild := (apartEach_append.1 apart.2).2.1
      simp only [places, hwith, placesEach_append, placesEach] at stands ⊢
      -- The others are elsewhere.
      have inside : phase.Stands handle ((front ++ placesEach handle path first) ++
          child.places handle (id :: path) ++ (placesEach handle path last ++ back)) k := by
        simpa only [List.append_assoc] using stands
      simpa only [List.append_assoc] using ih hchild inside
  | @absorb path join join' children id position x env' point k mem _ =>
      rcases split_children apart.1 mem with ⟨first, last, rfl, -, hwithout⟩
      simp only [places, hwithout, placesEach_append, placesEach, List.nil_append] at stands ⊢
      exact stands.leads
  | @decide path join children id position x y env' point k mem _ =>
      rcases split_children apart.1 mem with ⟨first, last, rfl, -, hwithout⟩
      have none : placesEach handle path (first ++ (id, position, .ready ⟨.unwind x, env', []⟩) ::
          last) = placesEach handle path (first ++ last) := by
        simp only [placesEach_append, placesEach, places, List.nil_append]
      rw [places, none] at stands
      rw [hwithout, places, List.append_nil]
      exact Kernel.leads_leaveAll (count_handlesEach handle path _) stands
  | gathered => exact stands.leads
  | queue => exact (stands.congr rfl (Nat.le_refl _)).leads

/-- So do steps one after the other. -/
theorem Moves.stands (moves : Moves settings path fiber k marks fiber' k') (apart : fiber.Apart)
    {front back : List (Place σ)}
    (stands : phase.Stands handle (front ++ fiber.places handle path ++ back) k) :
    phase.Leads handle marks (front ++ fiber'.places handle path ++ back) k' := by
  induction moves generalizing phase with
  | none => exact stands.leads
  | more move _ ih => exact (move.stands apart stands).trans (ih (move.apart apart))

/-- Steps keep the handles that a fiber waits for apart. -/
theorem Moves.apart (moves : Moves settings path fiber k marks fiber' k')
    (apart : fiber.Apart) : fiber'.Apart := by
  induction moves with
  | none => exact apart
  | more move _ ih => exact ih (move.apart apart)

end Fiber

/-- The places where somebody in a task waits for a handle. -/
def Task.places (handle : Handle) (task : Task σ) : List (Place σ) :=
  match task.work with
  | .run _ _ fiber => fiber.places handle [task.id]
  | .errand _ _ _ => []

/-- In a task, fibers side by side have different numbers. -/
def Task.Apart (task : Task σ) : Prop :=
  match task.work with
  | .run _ _ fiber => fiber.Apart
  | .errand _ _ _ => True

/-- The places where somebody waits for a handle. -/
def Scene.places (handle : Handle) (s : Scene σ) : List (Place σ) :=
  s.kernel.tasks.flatMap (Task.places handle) ++
    s.callers.flatMap fun caller => caller.fiber.places handle [caller.id]

namespace Kernel

variable {handle : Handle} {k k' : Kernel σ} {task task' : Task σ} {id : TaskId}

/-- Tasks, and the fibers in them, have different numbers. -/
structure Proper (k : Kernel σ) : Prop where
  /-- Tasks have different numbers. -/
  ids : (k.tasks.map (·.id)).Nodup
  /-- The numbers have been given out. -/
  given : ∀ task ∈ k.tasks, task.id < k.fresh
  /-- So it is inside them. -/
  apart : ∀ task ∈ k.tasks, task.Apart

/-- A task waits for a handle as often as it has places at it. -/
theorem count_task (handle : Handle) (task : Task σ) :
    task.work.handles.count handle = (task.places handle).length := by
  rcases task with ⟨id, _ | _, _⟩
  · exact Fiber.count_handles handle [id] _
  · rfl

/-- A task that begins waits for no handle. -/
theorem places_of_begins (begins : task.work.Begins) (handle : Handle) :
    task.places handle = [] ∧ task.Apart := by
  rcases task with ⟨id, ⟨_, _, _ | _⟩ | _, _⟩
  all_goals first | exact ⟨rfl, trivial⟩ | exact begins.elim

/-- What a step does to the kernel moves nobody in the other tasks. -/
theorem Grows.places (grows : k.Grows k') (handle : Handle) :
    k'.tasks.flatMap (Task.places handle) = k.tasks.flatMap (Task.places handle) := by
  rcases grows.tasks with ⟨more, htasks, -, hmore⟩
  have none : more.flatMap (Task.places handle) = [] :=
    List.flatMap_eq_nil_iff.2 fun task htask => (places_of_begins (hmore task htask).2.2 handle).1
  rw [htasks, List.flatMap_append, none, List.append_nil]

/-- What a step does to the kernel keeps it proper. -/
theorem Grows.proper (grows : k.Grows k') (proper : k.Proper) : k'.Proper := by
  rcases grows.tasks with ⟨more, htasks, hids, hmore⟩
  refine ⟨?_, fun task htask => ?_, fun task htask => ?_⟩
  · rw [htasks, List.map_append]
    -- Tasks that were added have numbers given out later than those of the old ones.
    refine List.Nodup.append proper.ids hids fun id hid hid' => ?_
    rcases List.mem_map.1 hid with ⟨task, htask, rfl⟩
    rcases List.mem_map.1 hid' with ⟨task', htask', heq⟩
    have before := proper.given task htask
    have after := (hmore task' htask').1
    rw [heq] at after
    exact Nat.not_le_of_lt before after
  · rw [htasks] at htask
    rcases List.mem_append.1 htask with h | h
    · exact Nat.lt_of_lt_of_le (proper.given task h) grows.fresh
    · exact (hmore task h).2.1
  · rw [htasks] at htask
    rcases List.mem_append.1 htask with h | h
    · exact proper.apart task h
    · exact (places_of_begins (hmore task h).2.2 0).2

/-- What is the case where a task is, and where it is changed or dropped. -/
theorem Proper.split (proper : k.Proper) (there : k.task? id = some task) (handle : Handle) :
    ∃ front back,
      k.tasks.flatMap (Task.places handle) = front ++ task.places handle ++ back ∧
      (∀ task', task'.id = id → (k.setTask task').tasks.flatMap (Task.places handle) =
        front ++ task'.places handle ++ back) ∧
      (k.dropTask id).tasks.flatMap (Task.places handle) = front ++ back := by
  -- Numbers are distinct, so the task splits the list at one place; setting and dropping act there.
  rcases split_of_find? proper.ids there with ⟨front, back, hsplit, hwith, hwithout⟩
  refine ⟨front.flatMap (Task.places handle), back.flatMap (Task.places handle), ?_,
    fun task' hid => ?_, ?_⟩
  · simp [hsplit]
  · have hset : (k.setTask task').tasks = front ++ task' :: back := by
      rw [← hwith fun _ => task', ← hid]
      rfl
    simp [hset]
  · have hdrop : (k.dropTask id).tasks = front ++ back := hwithout
    simp [hdrop]

/-- A task may be exchanged for what has become of it. -/
theorem Proper.setTask (proper : k.Proper) (there : k.task? task.id = some task')
    (apart : task.Apart) : (k.setTask task).Proper := by
  rcases split_of_find? proper.ids there with ⟨front, back, hsplit, hwith, -⟩
  -- The task set has the number of the one it replaces.
  have hset : (k.setTask task).tasks = front ++ task :: back := hwith fun _ => task
  have hid := id_of_task? there
  rcases proper with ⟨ids, given, each⟩
  rw [hsplit] at ids given each
  refine ⟨?_, fun t ht => ?_, fun t ht => ?_⟩
  · rw [hset]
    rw [List.map_append, List.map_cons] at ids ⊢
    rwa [← hid]
  · show t.id < k.fresh
    rw [hset] at ht
    rcases List.mem_append.1 ht with h | h
    · exact given t (List.mem_append_left _ h)
    · rcases List.mem_cons.1 h with rfl | h
      · exact hid ▸ given task' (List.mem_append_right _ List.mem_cons_self)
      · exact given t (List.mem_append_right _ (List.mem_cons_of_mem _ h))
  · rw [hset] at ht
    rcases List.mem_append.1 ht with h | h
    · exact each t (List.mem_append_left _ h)
    · rcases List.mem_cons.1 h with rfl | h
      · exact apart
      · exact each t (List.mem_append_right _ (List.mem_cons_of_mem _ h))

theorem Proper.dropTask (proper : k.Proper) (id : TaskId) : (k.dropTask id).Proper :=
  ⟨proper.ids.sublist (List.filter_sublist.map _),
    fun t ht => proper.given t (List.mem_filter.1 ht).1,
    fun t ht => proper.apart t (List.mem_filter.1 ht).1⟩

/-- Where the tasks are the same. -/
theorem Proper.congr (proper : k.Proper) (tasks : k'.tasks = k.tasks)
    (fresh : k.fresh ≤ k'.fresh) : k'.Proper := by
  rcases proper with ⟨ids, given, apart⟩
  exact ⟨tasks ▸ ids, fun t ht => Nat.lt_of_lt_of_le (given t (tasks ▸ ht)) fresh,
    fun t ht => apart t (tasks ▸ ht)⟩

end Kernel

/-- Everything in a scene has a number of its own. -/
structure Scene.Proper (s : Scene σ) : Prop where
  /-- Tasks have different numbers. -/
  kernel : s.kernel.Proper
  /-- So have fibers side by side that callers run. -/
  callers : ∀ caller ∈ s.callers, caller.fiber.Apart

namespace Scene

variable {handle : Handle} {s s' : Scene σ} {deed : Deed σ} {deeds : List (Deed σ)}
  {phase : Phase σ}

/-- The fiber of a task takes some steps. -/
theorem leads_moves {k k₁ : Kernel σ} {id : TaskId} {started cancelled : Bool}
    {settings : Settings} {fiber fiber' : Fiber σ} {marks : List (Mark σ)}
    {elsewhere : List (Place σ)} (proper : k.Proper)
    (there : k.task? id = some ⟨id, .run started settings fiber, cancelled⟩)
    (moves : Fiber.Moves settings [id] fiber k marks fiber' k₁)
    (stands : phase.Stands handle (k.tasks.flatMap (Task.places handle) ++ elsewhere) k) :
    let k' := k₁.setTask ⟨id, .run true settings fiber', cancelled⟩
    phase.Leads handle marks (k'.tasks.flatMap (Task.places handle) ++ elsewhere) k' ∧
      k'.Proper := by
  have apart : fiber.Apart := proper.apart _ (List.mem_of_find?_eq_some there)
  have grows := moves.grows
  have there₁ := grows.task? there
  have proper₁ := grows.proper proper
  -- The place of the task among the others is the same afterwards.
  rcases proper₁.split there₁ handle with ⟨front, back, hall, hset, -⟩
  rw [grows.places] at hall
  rw [hall] at stands
  have begun : phase.Stands handle
      (front ++ fiber.places handle [id] ++ (back ++ elsewhere)) k := by
    rwa [← List.append_assoc]
  refine ⟨(moves.stands apart begun).congr ?_ rfl (Nat.le_refl _),
    proper₁.setTask there₁ (moves.apart apart)⟩
  rw [hset _ rfl, List.append_assoc, List.append_assoc, List.append_assoc]
  rfl

/-- The fiber of a task has ended. -/
theorem leads_ends {k : Kernel σ} {id : TaskId} {settings : Settings} {x : Outcome}
    {env : Context} {cancelled : Bool} {elsewhere : List (Place σ)} (proper : k.Proper)
    (there : k.task? id =
      some ⟨id, .run true settings (.ready ⟨.unwind x, env, []⟩), cancelled⟩)
    (stands : phase.Stands handle (k.tasks.flatMap (Task.places handle) ++ elsewhere) k) :
    let k' := k.finishTask id x
    phase.Leads handle [] (k'.tasks.flatMap (Task.places handle) ++ elsewhere) k' ∧
      k'.Proper := by
  rcases (k.report (.fiberCompleted x.isSuccess)).deliver_eq id x with
    ⟨store, callbacks, calls, heq⟩
  rcases proper.split there handle with ⟨front, back, hall, -, hdrop⟩
  -- A fiber that ends waits on nothing, so no place is lost with its task.
  have without : (k.dropTask id).tasks.flatMap (Task.places handle) =
      k.tasks.flatMap (Task.places handle) := by
    rw [hdrop, hall]
    exact (congrArg (· ++ back) (List.append_nil front)).symm
  unfold Kernel.finishTask
  rw [heq]
  exact ⟨stands.leads.congr (congrArg (· ++ elsewhere) without) rfl (Nat.le_refl _),
    (proper.dropTask id).congr rfl (Nat.le_refl _)⟩

/-- A task that waits for no handle goes away, after something has been done with handles. -/
theorem leads_errand {k k₁ : Kernel σ} {id : TaskId} {due : Nat} {h : Handle}
    {act : Act σ (List (Signal σ))} {marks : List (Mark σ)} {elsewhere : List (Place σ)}
    (proper : k.Proper) (there : k.task? id = some ⟨id, .errand due h act, false⟩)
    (grows : k.Grows k₁)
    (leads : phase.Leads handle marks (k.tasks.flatMap (Task.places handle) ++ elsewhere) k₁) :
    phase.Leads handle marks
        ((k₁.dropTask id).tasks.flatMap (Task.places handle) ++ elsewhere) (k₁.dropTask id) ∧
      (k₁.dropTask id).Proper := by
  have proper₁ := grows.proper proper
  rcases proper₁.split (grows.task? there) handle with ⟨front, back, hall, -, hdrop⟩
  refine ⟨leads.congr ?_ rfl (Nat.le_refl _), proper₁.dropTask id⟩
  rw [hdrop, ← grows.places, hall]
  exact congrArg (· ++ back ++ elsewhere) (List.append_nil front).symm

/-- A task that has been told to stop goes away, and with it everybody in it who waits. -/
theorem leads_vanishes {k : Kernel σ} {id : TaskId} {work : Work σ} {elsewhere : List (Place σ)}
    (proper : k.Proper) (there : k.task? id = some ⟨id, work, true⟩)
    (stands : phase.Stands handle (k.tasks.flatMap (Task.places handle) ++ elsewhere) k) :
    let k' := (k.leaveAll work.handles).dropTask id
    phase.Leads handle (work.handles.map .left)
        (k'.tasks.flatMap (Task.places handle) ++ elsewhere) k' ∧ k'.Proper := by
  have grows := k.grows_leaveAll work.handles
  have proper₁ := grows.proper proper
  rcases proper₁.split (grows.task? there) handle with ⟨front, back, hall, -, hdrop⟩
  have begun : phase.Stands handle
      (front ++ Task.places handle ⟨id, work, true⟩ ++ (back ++ elsewhere)) k := by
    rwa [← List.append_assoc, ← hall, grows.places]
  -- The task's places are left one by one, and without them the task can be dropped.
  have led := Kernel.leads_leaveAll (Kernel.count_task handle ⟨id, work, true⟩) begun
  refine ⟨led.congr ?_ rfl (Nat.le_refl _), proper₁.dropTask id⟩
  rw [← List.append_assoc, ← hdrop]

/-- A task is told to stop. -/
theorem leads_abort {k : Kernel σ} (id : TaskId) {elsewhere : List (Place σ)} (proper : k.Proper)
    (stands : phase.Stands handle (k.tasks.flatMap (Task.places handle) ++ elsewhere) k) :
    phase.Leads handle [] ((k.abort id).tasks.flatMap (Task.places handle) ++ elsewhere)
        (k.abort id) ∧ (k.abort id).Proper := by
  unfold Kernel.abort
  rcases there : k.task? id with _ | task
  · exact ⟨stands.leads, proper⟩
  · have hid := Kernel.id_of_task? there
    subst hid
    rcases proper.split there handle with ⟨front, back, hall, hset, -⟩
    have apart : task.Apart := proper.apart task (List.mem_of_find?_eq_some there)
    -- Only the flag of the task is set, so its places are as before.
    have same := (hset { task with cancelled := true } rfl).trans hall.symm
    have woken := (k.setTask { task with cancelled := true }).grows_wakeOne task.id
    have slot := (k.setTask { task with cancelled := true }).slot?_wakeOne task.id handle
    refine ⟨stands.leads.congr ?_ slot woken.fresh, woken.proper (proper.setTask there apart)⟩
    exact congrArg (· ++ elsewhere) ((woken.places handle).trans same)

/-- Something is done that gives nobody a place and takes none away. -/
theorem leads_grows {k k' : Kernel σ} {marks : List (Mark σ)} {elsewhere : List (Place σ)}
    (proper : k.Proper) (grows : k.Grows k')
    (leads : phase.Leads handle marks (k.tasks.flatMap (Task.places handle) ++ elsewhere) k') :
    phase.Leads handle marks (k'.tasks.flatMap (Task.places handle) ++ elsewhere) k' ∧
      k'.Proper :=
  ⟨leads.congr (congrArg (· ++ elsewhere) (grows.places handle)) rfl (Nat.le_refl _),
    grows.proper proper⟩

/-- A fiber is started, or its callback is called at once. -/
theorem leads_runAsync {k : Kernel σ} (inRuntime : Bool) (settings : Settings) (effect : Effect σ)
    (env : Context) (onExit : Outcome → σ → σ) {elsewhere : List (Place σ)} (proper : k.Proper)
    (stands : phase.Stands handle (k.tasks.flatMap (Task.places handle) ++ elsewhere) k) :
    let k' := (k.runAsync inRuntime settings effect env onExit).2
    phase.Leads handle [] (k'.tasks.flatMap (Task.places handle) ++ elsewhere) k' ∧
      k'.Proper := by
  cases inRuntime with
  | true =>
      -- The fiber started here has not done anything yet, so it waits on nothing.
      have begins : (Work.run false settings (.ready (.start effect env)) : Work σ).Begins :=
        trivial
      have led := leads_grows proper (k.grows_addTask begins)
        (stands.congr (k.slot?_addTask _ handle) (k.grows_addTask begins).fresh).leads
      exact ⟨led.1.congr rfl rfl (Nat.le_refl _), led.2.congr rfl (Nat.le_refl _)⟩
  | false =>
      rcases ({ k.draw.2 with callbacks := (k.fresh, onExit) :: k.callbacks } :
        Kernel σ).deliver_eq k.fresh (.die .outsideRuntime) with ⟨store, callbacks, calls, heq⟩
      have same : (k.runAsync false settings effect env onExit).2 = _ := heq
      rw [same]
      exact ⟨stands.leads.congr rfl rfl (Nat.le_succ _), proper.congr rfl (Nat.le_succ _)⟩

/-- The places of a caller among the others. -/
theorem places_caller (handle : Handle) (k : Kernel σ) (before after : List (Caller σ))
    (id : FiberId) (settings : Settings) (fiber : Fiber σ) (polls : List TaskId) :
    (⟨k, before ++ ⟨id, settings, fiber⟩ :: after, polls⟩ : Scene σ).places handle =
      k.tasks.flatMap (Task.places handle) ++
          (before.flatMap fun caller => caller.fiber.places handle [caller.id]) ++
        fiber.places handle [id] ++
        after.flatMap fun caller => caller.fiber.places handle [caller.id] := by
  simp [places]

/-- Who waits for a handle when one of the callers is set apart. -/
theorem places_without (handle : Handle) (k : Kernel σ) (before after : List (Caller σ))
    (polls : List TaskId) :
    (⟨k, before ++ after, polls⟩ : Scene σ).places handle =
      k.tasks.flatMap (Task.places handle) ++
          (before.flatMap fun caller => caller.fiber.places handle [caller.id]) ++
        after.flatMap fun caller => caller.fiber.places handle [caller.id] := by
  simp [places]

/-- A deed keeps to the phases of a handle. -/
theorem Happens.stands (happens : s.Happens deed s') (proper : s.Proper)
    (stands : phase.Stands handle (s.places handle) s.kernel) :
    phase.Leads handle deed.marks (s'.places handle) s'.kernel ∧ s'.Proper := by
  -- Most deeds leave the callers alone, and polls are in nobody's way.
  have alone {k k' : Kernel σ} {callers : List (Caller σ)} {polls polls' : List TaskId}
      {marks : List (Mark σ)} (proper : (⟨k, callers, polls⟩ : Scene σ).Proper)
      (led : phase.Leads handle marks (k'.tasks.flatMap (Task.places handle) ++
        callers.flatMap fun caller => caller.fiber.places handle [caller.id]) k' ∧ k'.Proper) :
      phase.Leads handle marks ((⟨k', callers, polls'⟩ : Scene σ).places handle) k' ∧
        (⟨k', callers, polls'⟩ : Scene σ).Proper :=
    ⟨led.1, led.2, proper.callers⟩
  have others {before after : List (Caller σ)} {caller gone : Caller σ}
      (h : caller ∈ before ++ after) : caller ∈ before ++ gone :: after :=
    ((List.sublist_cons_self _ _).append_left _).mem h
  cases happens with
  | @polls k _ _ _ started =>
      have reports : k.Grows (if started then k else k.report .fiberStarted) := by
        split
        · exact .refl k
        · exact k.grows_report _
      exact alone proper (leads_grows proper.kernel reports
        (stands.congr (by split <;> rfl) reports.fresh).leads)
  | moves there _ moves => exact alone proper (leads_moves proper.kernel there moves stands)
  | rests => exact alone proper ⟨stands.leads, proper.kernel⟩
  | completes there => exact alone proper (leads_ends proper.kernel there stands)
  | vanishes there => exact alone proper (leads_vanishes proper.kernel there stands)
  | @errand k callers polls id due h act signals store there run =>
      have touched : k.Grows (k.modifyStore fun _ => store) := k.grows_world _
      have begun : phase.Stands handle _ (k.modifyStore fun _ => store) :=
        stands.congr rfl touched.fresh
      exact alone proper (leads_errand proper.kernel there
        (touched.trans (Kernel.grows_signalAll _ signals)) (Kernel.leads_signalAll begun signals))
  | @errandPanics k callers polls id due h act p store there run =>
      have touched : k.Grows (k.modifyStore fun _ => store) := k.grows_world _
      have begun : phase.Stands handle _ (k.modifyStore fun _ => store) :=
        stands.congr rfl touched.fresh
      exact alone proper (leads_errand proper.kernel there
        (touched.trans (Kernel.grows_release _ h)) (Kernel.leads_release begun h))
  | aborts id => exact alone proper (leads_abort id proper.kernel stands)
  | @interrupts k callers polls id =>
      rcases k.deliver_eq id (.die .interrupted) with ⟨store, callbacks, calls, heq⟩
      have same : k.interrupt id = _ := heq
      rw [same]
      exact ⟨stands.leads.congr rfl rfl (Nat.le_refl _), proper.kernel.congr rfl (Nat.le_refl _),
        proper.callers⟩
  | drops => exact ⟨stands.leads, proper⟩
  | joins => exact ⟨stands.leads, proper⟩
  | signals signal =>
      exact alone proper (leads_grows proper.kernel (Kernel.grows_signal _ signal)
        (Kernel.leads_signal stands signal))
  | starts inRuntime settings effect env onExit =>
      exact alone proper (leads_runAsync inRuntime settings effect env onExit proper.kernel stands)
  | @calls k callers polls settings effect env =>
      have grows := k.grows_draw.trans (Kernel.grows_wakeOne _ k.fresh)
      have led := leads_grows proper.kernel grows
        (stands.congr (k.draw.2.slot?_wakeOne k.fresh handle) grows.fresh).leads
      refine ⟨led.1.congr ?_ rfl (Nat.le_refl _), led.2, fun caller hcaller => ?_⟩
      · simp [places, Fiber.places]
      · rcases List.mem_append.1 hcaller with h | h
        · exact proper.callers caller h
        · cases List.mem_singleton.1 h
          trivial
  | @callerMoves k before after polls id settings fiber marks fiber' k' moves =>
      have apart := proper.callers _ (List.mem_append_right before List.mem_cons_self)
      rw [places_caller] at stands
      refine ⟨(moves.stands apart stands).congr ?_ rfl (Nat.le_refl _),
        moves.grows.proper proper.kernel, fun caller hcaller => ?_⟩
      · rw [places_caller, moves.grows.places]
      · rcases List.mem_append.1 hcaller with h | h
        · exact proper.callers caller (List.mem_append_left _ h)
        · rcases List.mem_cons.1 h with rfl | h
          · exact moves.apart apart
          · exact proper.callers caller (List.mem_append_right _ (List.mem_cons_of_mem _ h))
  | @callerEnds k before after polls id settings x env =>
      rw [places_caller] at stands
      refine ⟨stands.leads.congr ?_ rfl (Nat.le_refl _), proper.kernel, fun caller hcaller => ?_⟩
      · rw [places_without]
        exact (congrArg (· ++ _) (List.append_nil _)).symm
      · exact proper.callers caller (others hcaller)
  | @callerLeaves k before after polls id settings fiber =>
      have grows := k.grows_leaveAll fiber.handles
      rw [places_caller] at stands
      have led := Kernel.leads_leaveAll (fiber.count_handles handle [id]) stands
      refine ⟨led.congr ?_ rfl (Nat.le_refl _), grows.proper proper.kernel,
        fun caller hcaller => ?_⟩
      · rw [places_without, grows.places]
      · exact proper.callers caller (others hcaller)
  | touches f =>
      exact alone proper (leads_grows proper.kernel (Kernel.grows_world _ _)
        (stands.congr rfl (Nat.le_refl _)).leads)
  | elapses clock =>
      exact alone proper (leads_grows proper.kernel (Kernel.grows_world _ _)
        (stands.congr rfl (Nat.le_refl _)).leads)
  | queues woken =>
      exact alone proper (leads_grows proper.kernel (.of_eq rfl rfl rfl rfl)
        (stands.congr rfl (Nat.le_refl _)).leads)

/-- A history keeps to the phases of a handle. -/
theorem History.stands (history : s.History deeds s') (proper : s.Proper)
    (stands : phase.Stands handle (s.places handle) s.kernel) :
    phase.Leads handle (deeds.flatMap Deed.marks) (s'.places handle) s'.kernel ∧ s'.Proper := by
  induction history with
  | none => exact ⟨stands.leads, proper⟩
  | more _ last ih =>
      rw [List.flatMap_append, List.flatMap_singleton]
      rcases ih with ⟨⟨phase₁, runs, stands₁⟩, proper₁⟩
      rcases last.stands proper₁ stands₁ with ⟨⟨phase', runs', stands'⟩, proper'⟩
      exact ⟨⟨phase', runs.trans runs', stands'⟩, proper'⟩

end Scene

namespace Kernel

variable {handle : Handle} {k k' : Kernel σ}

/-- Nothing is different but what is behind a handle, and there may be a notice. -/
def Aside (handle : Handle) (notice : Event) (k k' : Kernel σ) : Prop :=
  (∀ other, other ≠ handle → k'.slot? other = k.slot? other) ∧
    ∃ slots events,
      k' = { k with slots := slots, world := { k.world with events := events } } ∧
        (events = k.world.events ∨ events = k.world.events.push notice)

/-- To close the slot of a handle changes nothing behind any other one. -/
theorem aside_closeSlot (k : Kernel σ) (handle : Handle) (notice : Event) :
    k.Aside handle notice (k.closeSlot handle) ∧
      k.Aside handle notice ((k.closeSlot handle).report notice) := by
  have slot : ∀ other, other ≠ handle → (k.closeSlot handle).slot? other = k.slot? other :=
    fun other ne => (k.slot?_closeSlot handle other).trans (if_neg ne)
  exact ⟨⟨slot, _, _, rfl, .inl rfl⟩, slot, _, _, rfl, .inr rfl⟩

/-- Who is on a path that is woken is in the queue. -/
theorem mem_woken_wake {path : Path} {id : FiberId} (k : Kernel σ) (mem : id ∈ path) :
    id ∈ (k.wake path).woken := by
  -- Waking somebody else takes nobody out of the queue, so once the number is in it stays in.
  have keeps : ∀ (k : Kernel σ) (i : FiberId), id ∈ k.woken → id ∈ (k.wakeOne i).woken := by
    intro k i h
    unfold wakeOne
    split
    · exact h
    · exact List.mem_append_left _ h
  have adds : ∀ k : Kernel σ, id ∈ (k.wakeOne id).woken := by
    intro k
    unfold wakeOne
    split
    · next h => exact h
    · exact List.mem_append_right _ (List.mem_singleton.2 rfl)
  have stays : ∀ (path : Path) (k : Kernel σ), id ∈ k.woken → id ∈ (k.wake path).woken := by
    intro path
    induction path with
    | nil => exact fun k h => h
    | cons i rest ih => exact fun k h => ih _ (keeps k i h)
  unfold wake at *
  induction path generalizing k with
  | nil => cases mem
  | cons i rest ih =>
      rcases List.mem_cons.1 mem with rfl | h
      · exact stays rest _ (adds k)
      · exact ih _ h

end Kernel

/-- What the two ends of a handle see. As long as the fiber waits the handle does not say that
    nobody waits. A turn of the fiber goes on with what it has got, at its place; if it has
    got nothing it waits, and whatever the holder then does wakes everybody on its path. When
    the fiber has gone on the handle is of no use. When the fiber has gone away the handle
    says so, and using it or letting it go changes nothing. -/
def Phase.Shows (handle : Handle) (k : Kernel σ) : Phase σ → Prop
  | .unborn => True
  | .waiting point none =>
    k.isAbandoned handle = false ∧ ∀ settings fuel path,
      Fiber.turn settings (fuel + 1) path (.listening handle point) k =
          (.waiting (.listening handle point), k.setSlot handle (.waiting path)) ∧
        ∀ id ∈ path, ∀ r, id ∈ ((k.setSlot handle (.waiting path)).use handle r).woken ∧
          id ∈ ((k.setSlot handle (.waiting path)).release handle).woken
  | .waiting point (some focus) =>
    k.isAbandoned handle = false ∧ ∃ k', k.Aside handle .resumeDropped k' ∧
      ∀ settings fuel path,
        Fiber.turn settings (fuel + 1) path (.listening handle point) k =
          Fiber.turn settings fuel path (.ready (point.resume focus)) k'
  | .ended => ∀ r, k.use handle r = k ∧ k.release handle = k
  | .gone held =>
    k.isAbandoned handle = held ∧
      ∀ r, k.Aside handle .resumedTooLate (k.use handle r) ∧
        k.Aside handle .resumedTooLate (k.release handle)

/-- What is in the kernel is what the two ends see. -/
theorem Phase.Stands.shows {handle : Handle} {places : List (Place σ)} {k : Kernel σ}
    {phase : Phase σ} (stands : phase.Stands handle places k) : phase.Shows handle k := by
  cases phase with
  | unborn => trivial
  | ended =>
      have hslot := stands.2.2
      exact fun r => ⟨by rw [Kernel.use, hslot], by rw [Kernel.release, hslot]⟩
  | gone held =>
      have hslot := stands.2.2
      cases held with
      | false =>
          have same : k.Aside handle .resumedTooLate k := ⟨fun _ _ => rfl, _, _, rfl, .inl rfl⟩
          simp only [Bool.false_eq_true, if_false] at hslot
          refine ⟨by rw [Kernel.isAbandoned, hslot], fun r => ⟨?_, ?_⟩⟩
          · rw [Kernel.use, hslot]
            exact same
          · rw [Kernel.release, hslot]
            exact same
      | true =>
          rw [if_pos rfl] at hslot
          rcases k.aside_closeSlot handle .resumedTooLate with ⟨closed, noticed⟩
          refine ⟨by rw [Kernel.isAbandoned, hslot], fun r => ⟨?_, ?_⟩⟩
          · rw [Kernel.use, hslot]
            exact noticed
          · rw [Kernel.release, hslot]
            exact closed
  | waiting point got =>
      rcases stands with ⟨-, path, -, holds⟩
      have collected := Kernel.collect?_of_holds holds
      have awaited : k.isAbandoned handle = false := by
        rcases hslot : k.slot? handle with _ | _ | _ | _ | _
        all_goals
          rw [Kernel.isAbandoned, hslot]
        rw [hslot] at holds
        cases got <;> exact holds.elim
      -- With nothing settled the waiting fiber stays where it is and a use or a release wakes it;
      -- settled, it collects what was stored.
      cases got with
      | none =>
          have nothing := Option.map_eq_none_iff.1 collected
          refine ⟨awaited, fun settings fuel path => ⟨?_, fun id mem r => ?_⟩⟩
          · rw [Fiber.turn, nothing]
          · have slot := (k.slot?_setSlot handle (.waiting path) handle).trans (if_pos rfl)
            rw [Kernel.use, Kernel.release, slot]
            exact ⟨Kernel.mem_woken_wake _ mem, Kernel.mem_woken_wake _ mem⟩
      | some focus =>
          rcases Option.map_eq_some_iff.1 collected with ⟨⟨focus', k'⟩, found, rfl⟩
          refine ⟨awaited, k', ?_, fun settings fuel path => by rw [Fiber.turn, found]⟩
          unfold Kernel.collect? at found
          rcases k.aside_closeSlot handle .resumeDropped with ⟨closed, noticed⟩
          split at found
          · cases found
            exact closed
          · cases found
            exact noticed
          · cases found

/-- What comes of an effect that hands out a handle: the fiber waits for it, unless the function
    panics, and then the fiber dies of that there and then, whatever the function has done. -/
def Kernel.Registers (path : Path) (register : Handle → Act σ (List (Signal σ) × Option Panic))
    (point : Suspension σ) (k : Kernel σ) : Prop :=
  let marks := k.grantMarks (.listen register) point
  let fiber := (k.grant path (.listen register) point).1
  marks.head? = some (.opened k.fresh point) ∧
    match ((register k.fresh).run k.world.store).1 with
    | .ok (_, none) => fiber = .listening k.fresh point
    | .ok (_, some p) =>
      fiber = .ready (point.resume (.unwind (.die (.ofPanic p)))) ∧
        marks.getLast? = some (.panicked k.fresh (point.resume (.unwind (.die (.ofPanic p)))))
    | .error p =>
      fiber = .ready (point.resume (.unwind (.die (.ofPanic p)))) ∧
        marks.getLast? = some (.panicked k.fresh (point.resume (.unwind (.die (.ofPanic p)))))

/-- Whatever a function does to register a handle, panics included. -/
theorem Kernel.registers (path : Path)
    (register : Handle → Act σ (List (Signal σ) × Option Panic)) (point : Suspension σ)
    (k : Kernel σ) : k.Registers path register point := by
  have hopen : k.openSlot.1 = k.fresh := rfl
  have hworld : k.openSlot.2.world = k.world := rfl
  unfold Registers
  simp only [grantMarks, grant, hopen, hworld, World.guarded]
  rcases (register k.fresh).run k.world.store with ⟨p | ⟨signals, _ | p⟩, store⟩
  · exact ⟨rfl, rfl, rfl⟩
  · exact ⟨rfl, rfl⟩
  · refine ⟨rfl, rfl, ?_⟩
    rw [← List.cons_append, List.getLast?_concat]

/-- An effect that hands out a handle ends in one way, in every history from the beginning of
    time. What has happened to the handle follows the phases: only what the holder does first
    while the fiber waits counts, the fiber goes on with exactly that and where the effect was,
    it dies if the function panics, and it never goes on twice. Where the two ends stand can be
    seen in the kernel, and the two ends see it. -/
theorem handles_count_once {store : σ} {deeds : List (Deed σ)} {s : Scene σ}
    (history : (⟨Kernel.start store, [], []⟩ : Scene σ).History deeds s) (handle : Handle) :
    (∃ phase, Phase.Runs handle .unborn (deeds.flatMap Deed.marks) phase ∧
      phase.Stands handle (s.places handle) s.kernel ∧ phase.Shows handle s.kernel) ∧
    (deeds.flatMap Deed.marks).countP (·.settles handle) ≤ 1 ∧
    ∀ path register point, s.kernel.Registers path register point := by
  have proper : (⟨Kernel.start store, [], []⟩ : Scene σ).Proper :=
    ⟨⟨.nil, fun _ h => (by cases h), fun _ h => (by cases h)⟩, fun _ h => (by cases h)⟩
  have unborn : (Phase.unborn : Phase σ).Stands handle
      ((⟨Kernel.start store, [], []⟩ : Scene σ).places handle) (Kernel.start store) := ⟨rfl, rfl⟩
  rcases history.stands proper unborn with ⟨⟨phase, runs, stands⟩, -⟩
  exact ⟨⟨phase, runs, stands, stands.shows⟩, runs.settles_once,
    fun path register point => s.kernel.registers path register point⟩

namespace Sample

/-- Waits for a handle that is kept somewhere. -/
def patient : Effect Nat :=
  .callback fun _ => pure ([], none)

/-- A fiber that has been told to stop while it waited, with a handle that is used too late. -/
def tooLate : List (Deed Nat) :=
  [.elsewhere [], .polled 1, .moved 1 [.opened 2 ⟨[], Context.empty, []⟩], .rested 1, .aborted 1,
    .vanished 1 [2], .elsewhere [.used 2 (.outcome (.success .null))]]

end Sample

/-- A fiber is cancelled while it waits for a handle, and then the handle is used. The fiber is
    not there any more, and the handle is of no use now. -/
theorem late_use_changes_nothing : ∃ s : Scene Nat,
    (⟨Kernel.start 0, [], []⟩ : Scene Nat).History Sample.tooLate s ∧
    (∃ phase, Phase.Runs 2 .unborn (Sample.tooLate.flatMap Deed.marks) phase ∧
      phase.Stands 2 (s.places 2) s.kernel ∧ phase.Shows 2 s.kernel) ∧
    s.places 2 = [] ∧ s.kernel.world.store = 0 ∧ s.kernel.isAbandoned 2 = false := by
  let settings : Settings := ⟨.async, true⟩
  let started := ((Kernel.start 0).runAsync true settings Sample.patient Context.empty
    fun _ n => n).2
  let begun := started.report .fiberStarted
  have step : (Machine.start Sample.patient Context.empty).step settings begun.world =
      (.ask (.listen fun _ => pure ([], none)) ⟨[], Context.empty, []⟩, begun.world) := rfl
  have asked : Fiber.Move settings [1] (.ready (.start Sample.patient Context.empty)) begun
      [.opened 2 ⟨[], Context.empty, []⟩] (.listening 2 ⟨[], Context.empty, []⟩) begun.openSlot.2 :=
    Fiber.Move.ask step
  -- The fiber waits, is aborted and vanishes; the completion comes after all of that.
  have history : (⟨Kernel.start 0, [], []⟩ : Scene Nat).History Sample.tooLate _ :=
    Scene.History.none
      |>.more (.starts true settings Sample.patient Context.empty fun _ n => n)
      |>.more (.polls (show started.task? 1 = _ from rfl) List.not_mem_nil)
      |>.more (.moves (show Kernel.task? _ 1 = _ from rfl) List.mem_cons_self (.one asked))
      |>.more (.rests (show Kernel.task? _ 1 = _ from rfl) List.mem_cons_self)
      |>.more (.aborts 1)
      |>.more (.vanishes (show Kernel.task? _ 1 = _ from rfl) (by decide))
      |>.more (.signals (.complete 2 (.success .null)))
  exact ⟨_, history, (handles_count_once history 2).1, rfl, rfl, rfl⟩

end EffectKernel
