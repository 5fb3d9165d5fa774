import EffectKernel.Proofs.RelyGuarantee
import EffectKernel.Proofs.Turns

/-!
# Courses

How a fiber goes that does nothing but take steps and sleep. What its machine does depends on the
state of the program only as far as something is known about it that the others leave alone. Then
it is a matter of the machine alone when the fiber sleeps and until when, and when and how it ends;
wherever the fiber is and whatever others do meanwhile, it goes just like that.

## Main definitions

* `Machine.Course`: What a machine does from one nap to the next, up to its end.

## Theorems

* `Machine.Course.soon`: A machine does not end before it has begun.
* `FiberPlace.attains_asleep`: A fiber sleeps, whatever others do meanwhile.
* `Machine.Course.attainsInTurn`: A fiber takes its course.
* `Effect.takes_of_course`: An effect goes as its course says, wherever it is run.
-/

namespace EffectKernel

variable {σ : Type}

/-- The course of a machine that does nothing but take steps and sleep, from a point in time on and
    with something known about the state of the program, as far as it is looked at. -/
inductive Machine.Course (settings : Settings) (contract : StoreContract σ) (horizon : Nat) :
    (σ → Prop) → Nat → Machine σ → Timing → Prop where
  /-- The machine has come to the end. -/
  | done {knows : σ → Prop} {now : Nat} {x : Outcome} {env : Context} {prompt : Bool} :
      Course settings contract horizon knows now ⟨.unwind x, env, []⟩ ⟨some (now, x), prompt⟩
  /-- It takes a step. -/
  | step {knows knows' : σ → Prop} {now : Nat} {m m' : Machine σ} {timing : Timing}
      (next : ∀ w : World σ, knows w.store → w.clock = now → ∃ w',
        m.step settings w = (.next m', w') ∧ w'.clock = now ∧ contract.guarantee w.store w'.store ∧
          knows' w'.store)
      (rest : Course settings contract horizon knows' now m' timing) :
      Course settings contract horizon knows now m timing
  /-- It sleeps, and the others leave alone what is known. -/
  | sleep {knows : σ → Prop} {now : Nat} {m : Machine σ} {span : Duration} {focus : Focus σ}
      {point : Suspension σ} {ends : Option (Nat × Outcome)}
      (asks : ∀ w : World σ, m.step settings w = (.ask (.pause span focus) point, w))
      (long : span.isZero = false) (keeps : ∀ a b, knows a → contract.rely a b → knows b)
      (rest : Course settings contract horizon knows (Kernel.wakeTime now span) (point.resume focus)
        ⟨ends, false⟩) :
      Course settings contract horizon knows now m ⟨ends, false⟩
  /-- It sleeps for longer than it is looked at. -/
  | late {knows : σ → Prop} {now : Nat} {m : Machine σ} {span : Duration} {focus : Focus σ}
      {point : Suspension σ} {ends : Option (Nat × Outcome)}
      (asks : ∀ w : World σ, m.step settings w = (.ask (.pause span focus) point, w))
      (long : span.isZero = false) (beyond : horizon < Kernel.wakeTime now span)
      (later : ∀ t x, ends = some (t, x) → horizon < t) :
      Course settings contract horizon knows now m ⟨ends, false⟩

namespace Machine.Course

variable {settings : Settings} {contract : StoreContract σ} {horizon now : Nat} {knows : σ → Prop}
  {m : Machine σ} {timing : Timing}

/-- A machine does not end before it has begun. -/
theorem soon (course : Course settings contract horizon knows now m timing) {t : Nat} {x : Outcome}
    (ends : timing.ends = some (t, x)) : now ≤ t ∨ horizon < t := by
  induction course with
  | done =>
      cases ends
      exact .inl (Nat.le_refl _)
  | step _ _ ih => exact ih ends
  | @sleep _ now _ span _ _ _ _ long _ _ ih =>
      have := Kernel.lt_wakeTime now long
      rcases ih ends with h | h
      · exact .inl (by omega)
      · exact .inr h
  | late _ _ _ later => exact .inr (later t x ends)

end Machine.Course

namespace FiberPlace

variable {p : FiberPlace σ} {aim : Aim σ} {n wake : Nat} {m : Machine σ} {k : Kernel σ}

/-- Nothing belongs to nobody. -/
theorem tasksOf_false (k : Kernel σ) : k.tasksOf (fun _ => false) = [] :=
  List.filter_eq_nil_iff.2 fun _ _ h => by cases h

/-- Nothing is left of a fiber, and so it attains whatever it is to attain. -/
theorem attains_none (p : FiberPlace σ) (aim : Aim σ) (n : Nat) (k : Kernel σ) :
    p.Attains aim (n + 1) (fun _ => false) none k := by
  refine ⟨⟨nofun, fun task htask => ?_⟩, fun k' _ _ => ⟨?_, nofun, fun task htask => ?_⟩⟩
  · rw [tasksOf_false] at htask
    cases htask
  · rintro - time (⟨_, ⟨⟩, -⟩ | ⟨task, htask, -⟩)
    rw [tasksOf_false] at htask
    cases htask
  · rw [tasksOf_false] at htask
    cases htask

/-- A fiber that sleeps is in the queue as soon as its time has come, and not before. -/
theorem woken_asleep {k' : Kernel σ} (asleep : k.now < wake ∧ p.id ∉ k.woken)
    (meanwhile : p.Meanwhile (fun _ => false) (some (.asleep wake m)) k k') :
    k'.now < wake ∧ p.id ∉ k'.woken ∨ k'.now = wake ∧ p.id ∈ k'.woken := by
  rcases meanwhile.time with ⟨still, same⟩ | ⟨-, -, within, woken⟩
  · rw [still]
    exact .inl ⟨asleep.1, fun h => asleep.2 ((mem_woken_congr same (owns_id _)).1 h)⟩
  -- The clock has moved on, at most to the wake-up: before it nothing of the fiber is due, at it
  -- the fiber is.
  · rcases Nat.lt_or_eq_of_le (within wake (.inl ⟨_, rfl, rfl⟩)) with before | come
    · have none : p.dues (fun _ => false) (some (.asleep wake m)) k k'.now = [] := by
        unfold dues
        rw [tasksOf_false]
        simp [Fiber.dueAt, Nat.not_le.2 before]
      rw [none] at woken
      refine .inl ⟨before, fun h => ?_⟩
      have : p.id ∈ k'.woken.filter (p.owns fun _ => false) :=
        List.mem_filter.2 ⟨h, owns_id _⟩
      rw [woken] at this
      cases this
    · have mem : p.id ∈ (enqueueAll [] (p.dues (fun _ => false) (some (.asleep wake m)) k
          k'.now)).filter (p.owns fun _ => false) := by
        refine List.mem_filter.2 ⟨mem_enqueueAll.2 (.inr (List.mem_append_left _ ?_)), owns_id _⟩
        simp [Fiber.dueAt, come, path]
      rw [← woken] at mem
      exact .inr ⟨come, (List.mem_filter.1 mem).1⟩

/-- A fiber sleeps until its time has come, whatever others do meanwhile. -/
theorem attains_asleep {knows : σ → Prop} (knows_store : knows k.world.store)
    (keeps : ∀ a b, knows a → p.contract.rely a b → knows b)
    (asleep : k.now < wake ∧ p.id ∉ k.woken)
    (onTime : ∀ t, aim.due = some t → wake ≤ t ∨ aim.horizon < t)
    (wakes : ∀ k' : Kernel σ, wake ≤ aim.horizon → k'.now = wake → knows k'.world.store →
      p.AttainsInTurn aim (p.Attains aim n) (fun _ => false) (.asleep wake m) (k'.unwake p.id)) :
    p.Attains aim (n + 1) (fun _ => false) (some (.asleep wake m)) k := by
  -- A sleeping fiber without errands has one wake-up only.
  have only : ∀ {k : Kernel σ} {t}, Wakes (fun _ => false) (some (.asleep wake m)) k t →
      t = wake := by
    rintro k t (⟨_, ⟨⟩, h⟩ | ⟨task, htask, -⟩)
    · cases h
      rfl
    · rw [tasksOf_false] at htask
      cases htask
  refine ⟨⟨fun f hf h hh => ?_, fun task htask => ?_⟩, fun k' meanwhile within =>
    ⟨fun quiet t ht => ?_, fun f hf => ?_, fun task htask => ?_⟩⟩
  · cases hf
    cases hh
  · rw [tasksOf_false] at htask
    cases htask
  · cases only ht
    rcases woken_asleep asleep meanwhile with ⟨before, -⟩ | ⟨-, woken⟩
    · exact before
    · exact absurd woken (quiet.1 rfl)
  · cases hf
    have hle : k'.now ≤ wake := (woken_asleep asleep meanwhile).elim (fun h => Nat.le_of_lt h.1)
      fun h => Nat.le_of_eq h.1
    refine ⟨fun t hdue => ?_, fun woken => ?_⟩
    · rcases onTime t hdue with sooner | beyond
      · exact ⟨Nat.le_trans hle sooner, fun _ _ => ⟨wake, .inl ⟨_, rfl, rfl⟩, sooner⟩⟩
      · exact ⟨Nat.le_of_lt (Nat.lt_of_le_of_lt within beyond), fun _ h =>
          absurd beyond (Nat.not_lt.2 h)⟩
    -- Having been woken, it has slept until its wake-up.
    · rcases woken_asleep asleep meanwhile with ⟨-, h⟩ | ⟨come, -⟩
      · exact absurd woken h
      · exact wakes k' (come ▸ within) come (keeps _ _ knows_store meanwhile.store)
  · rw [tasksOf_false] at htask
    cases htask

end FiberPlace

namespace Machine.Course

variable {contract : StoreContract σ} {horizon now : Nat} {knows : σ → Prop} {m : Machine σ}
  {timing : Timing} {settings : Settings}

/-- A machine that asks to sleep waits for a point in time. -/
theorem turns_sleep {path : Path} {span : Duration} {focus : Focus σ} {point : Suspension σ}
    {k : Kernel σ}
    (asks : m.step settings k.world = (.ask (.pause span focus) point, k.world))
    (long : span.isZero = false) :
    Fiber.Turns settings path (.ready m) k
      (.waiting (.asleep (Kernel.wakeTime k.now span) (point.resume focus))) k := by
  have sleeps : Fiber.Continues settings path (.ready m) k
      (.asleep (Kernel.wakeTime k.now span) (point.resume focus)) k := .one fun fuel => by
    rw [Fiber.turn, asks]
    rfl
  refine sleeps.turns (.one fun fuel => ?_)
  rw [Fiber.turn, if_neg (Nat.not_le.2 (Kernel.lt_wakeTime k.now long))]

/-- In a turn a fiber first goes on as another one. -/
theorem attainsInTurn_of_continues {p : FiberPlace σ} {f f' : Fiber σ} {k k' : Kernel σ}
    {next : (Nat → Bool) → Option (Fiber σ) → Kernel σ → Prop} {mine mine' : Nat → Bool}
    (first : f.Continues p.settings p.path k f' k') (behaves : p.Behaves mine mine' k k')
    (rest : p.AttainsInTurn (timing.aim horizon) next mine' f' k') :
    p.AttainsInTurn (timing.aim horizon) next mine f k := by
  rcases rest with ⟨prompt, f₂, mine₂, k₂, turns, behaves', found⟩ |
    ⟨x, mine₂, k₂, turns, behaves', found⟩
  · exact .inl ⟨prompt, f₂, mine₂, k₂, first.turns turns, behaves.trans behaves', found⟩
  · exact .inr ⟨x, mine₂, k₂, first.turns turns, behaves.trans behaves', found⟩

/-- A fiber takes its course in a limited number of turns. -/
theorem attainsInTurn (course : Course settings contract horizon knows now m timing) :
    ∃ n, ∀ id around (k : Kernel σ), id ∉ k.woken → knows k.world.store → k.now = now →
      FiberPlace.AttainsInTurn ⟨settings, id, around, contract⟩ (timing.aim horizon)
        (FiberPlace.Attains ⟨settings, id, around, contract⟩ (timing.aim horizon) (n + 1))
        (fun _ => false) (.ready m) k := by
  induction course with
  | @done _ now x env _ =>
      refine ⟨0, fun id around k _ _ hnow => .inr ⟨x, _, k, Fiber.turns_done x env, .refl _ k, ?_,
        FiberPlace.attains_none _ _ _ k⟩⟩
      rw [hnow]
  | @step knows knows' now m m' timing next rest ih =>
      rcases ih with ⟨n, ih⟩
      refine ⟨n, fun id around k hid hknows hnow => ?_⟩
      rcases next k.world hknows hnow with ⟨w, step, clock, did, hknows'⟩
      exact attainsInTurn_of_continues (Fiber.continues_next step)
        (FiberPlace.behaves_world (clock.trans hnow.symm) did _)
        (ih id around { k with world := w } hid hknows' clock)
  | @sleep knows now m span focus point ends asks long keeps rest ih =>
      rcases ih with ⟨n, ih⟩
      refine ⟨n + 1, fun id around k hid hknows hnow => ?_⟩
      subst hnow
      have asleep := Kernel.lt_wakeTime k.now long
      refine .inl ⟨rfl, _, _, k, turns_sleep (asks k.world) long, .refl _ k,
        FiberPlace.attains_asleep hknows keeps ⟨asleep, hid⟩ (fun t due => ?_)
          fun k' _ come hknows' => ?_⟩
      · rcases Option.map_eq_some_iff.1 due with ⟨⟨t, x⟩, hends, rfl⟩
        exact rest.soon hends
      · refine attainsInTurn_of_continues (.one fun fuel => ?_) (.refl _ _)
          (ih id around (k'.unwake id) (by simp [Kernel.unwake]) hknows' come)
        rw [Fiber.turn]
        exact if_pos (Nat.le_of_eq come.symm)
  | @late knows now m span focus point ends asks long beyond later =>
      refine ⟨0, fun id around k hid hknows hnow => ?_⟩
      subst hnow
      have asleep := Kernel.lt_wakeTime k.now long
      -- Nothing has to be known about the state of the program when it is not looked at any more.
      have keeps : ∀ a b, True → contract.rely a b → True := fun _ _ _ _ => trivial
      refine .inl ⟨rfl, _, _, k, turns_sleep (asks k.world) long, .refl _ k,
        FiberPlace.attains_asleep trivial keeps ⟨asleep, hid⟩ (fun t due => ?_)
          fun k' within => absurd beyond (Nat.not_lt.2 within)⟩
      rcases Option.map_eq_some_iff.1 due with ⟨⟨t, x⟩, hends, rfl⟩
      exact .inr (later t x hends)

end Machine.Course

/-- An effect goes as its course says, wherever it is run. What is known about the state of the
    program at first is where the others may take it. -/
theorem Effect.takes_of_course {effect : Effect σ} {settings : Settings}
    {contract : StoreContract σ}
    {env : Context} {store : σ} {now horizon : Nat} {timing : Timing}
    (course : Machine.Course settings contract horizon (contract.rely store) now
      (.start effect env) timing) :
    effect.Takes settings contract env store now horizon timing := by
  rcases course.attainsInTurn with ⟨n, attainsInTurn⟩
  refine ⟨n + 2, fun id around k valid woken hstore hnow => ?_⟩
  -- It waits for its first turn, so time stands still until then.
  have still : ∀ {k'}, FiberPlace.Meanwhile ⟨settings, id, around, contract⟩ (fun _ => false)
      (some (.ready (.start effect env))) k k' → k'.now = now ∧ id ∈ k'.woken := by
    intro k' meanwhile
    rcases meanwhile.time with ⟨still, same⟩ | ⟨-, quiet, -⟩
    · exact ⟨still.trans hnow, (FiberPlace.mem_woken_congr same (FiberPlace.owns_id _)).2 woken⟩
    · exact absurd woken (quiet.1 rfl)
  refine ⟨⟨fun f hf h hh => ?_, fun task htask => ?_⟩, fun k' meanwhile within =>
    ⟨fun quiet => absurd (still meanwhile).2 (quiet.1 rfl), fun f hf => ?_, fun task htask => ?_⟩⟩
  · cases hf
    cases hh
  · rw [FiberPlace.tasksOf_false] at htask
    cases htask
  · cases hf
    rcases still meanwhile with ⟨hnow', woken'⟩
    refine ⟨fun t due => ⟨?_, fun quiet => absurd woken' (quiet.1 rfl)⟩, fun _ => ?_⟩
    · rcases Option.map_eq_some_iff.1 due with ⟨⟨t, x⟩, hends, rfl⟩
      rcases course.soon hends with sooner | beyond
      · exact hnow' ▸ sooner
      · exact Nat.le_of_lt (Nat.lt_of_le_of_lt within beyond)
    · exact attainsInTurn id around (k'.unwake id) (by simp [Kernel.unwake])
        (hstore ▸ meanwhile.store) hnow'
  · rw [FiberPlace.tasksOf_false] at htask
    cases htask

section Acts

variable {settings : Settings} {contract : StoreContract σ} {env : Context} {store : σ}
  {now horizon : Nat} {act : Act σ Outcome} {x : Outcome}

/-- A machine that acts and ends, wherever the act ends as it should whatever the others have done
    to the state of the program. -/
theorem Machine.Course.acts (ends : ∀ s, contract.rely store s → (act.run s).1 = .ok x)
    (guarantee : ∀ s, contract.rely store s → contract.guarantee s (act.run s).2) (prompt : Bool) :
    Course settings contract horizon (contract.rely store) now ⟨.eval (.exit act), env, []⟩
      ⟨some (now, x), prompt⟩ := by
  have last : Course settings contract horizon (fun _ => True) now ⟨.unwind x, env, []⟩
      ⟨some (now, x), prompt⟩ := .done
  refine last.step fun w knows clock =>
    ⟨{ w with store := (act.run w.store).2 }, ?_, clock, guarantee _ knows, trivial⟩
  have run : act.run w.store = (.ok x, (act.run w.store).2) := Prod.ext (ends _ knows) rfl
  simp only [Machine.step, Machine.stepAt, Machine.evalStep, World.guarded]
  rw [run]

/-- An effect that acts and ends. -/
theorem Effect.takes_act (ends : ∀ s, contract.rely store s → (act.run s).1 = .ok x)
    (guarantee : ∀ s, contract.rely store s → contract.guarantee s (act.run s).2) :
    (Effect.exit act).Takes settings contract env store now horizon ⟨some (now, x), true⟩ :=
  takes_of_course (.acts ends guarantee true)

/-- An effect that sleeps for a while, then acts and ends. -/
theorem Effect.takes_nap {span : Duration} (async : settings.mode = .async)
    (honors : settings.honorDelays = true) (long : span.isZero = false)
    (ends : ∀ s, contract.rely store s → (act.run s).1 = .ok x)
    (guarantee : ∀ s, contract.rely store s → contract.guarantee s (act.run s).2) :
    (Effect.flatMap (.sleep span) fun _ => pure (.exit act)).Takes settings contract env store now
      horizon ⟨some (Kernel.wakeTime now span, x), false⟩ := by
  let frame : Frame σ := .flatMap fun _ => pure (.exit act)
  have asks : ∀ w : World σ, (⟨.eval (.sleep span), env, [frame]⟩ : Machine σ).step settings w =
      (.ask (.pause span (.unwind (.success .null))) ⟨[], env, [frame]⟩, w) := fun w => by
    simp [Machine.step, Machine.stepAt, Machine.evalStep, Machine.paused, async, honors, long]
  -- Read backwards: the effect behind the sleep ends in one step, the sleep comes before it, and
  -- the first step pushes the frame.
  have awake : Machine.Course settings contract horizon (contract.rely store)
      (Kernel.wakeTime now span) ⟨.unwind (.success .null), env, [frame]⟩
      ⟨some (Kernel.wakeTime now span, x), false⟩ :=
    (Machine.Course.acts ends guarantee false).step fun w knows clock =>
      ⟨w, rfl, clock, contract.guarantee_refl _, knows⟩
  have asleep := awake.sleep asks long fun _ _ knows rely => contract.rely_trans knows rely
  exact takes_of_course (asleep.step fun w knows clock =>
    ⟨w, rfl, clock, contract.guarantee_refl _, knows⟩)

end Acts

end EffectKernel
