import EffectKernel.Effect.Again
import EffectKernel.Effect.Construct
import EffectKernel.Effect.Generator
import EffectKernel.Proofs.Limits

/-!
# Timeouts

An effect with a limit of time goes on as if it had none, as long as the clock stands before the
deadline. That is the first whole millisecond at which the limit is over, as for everybody else who
waits for a point in time. When the clock gets to the deadline while the effect waits, it is looked
at once more, and first. If it ends in that look, it has ended in time. Otherwise it is given up:
everybody in it goes away, however deep, the handles that they wait for are left, and nothing goes
on but what comes after the effect.

An effect alone might not be looked at when the clock gets to the deadline, since nobody in it is
woken then. Such a look is in vain, and nothing is different after it. If somebody is woken, the
effect alone is looked at too, and it is the same look. But it is only one. An effect that gives way
in it is given up, although alone it might have ended at the deadline (`timeout_not_exact`).

## Main definitions

* `Fiber.EndsBy`: A fiber ends before a point in time, or in the look at it when time gets there.
* `Fiber.GivenUp`: A fiber still waits after that look.

## Theorems

* `Fiber.PollEnds.endsBy_or_givenUp`: A fiber that ends has ended by then, or it is given up.
* `Fiber.endsBy_or_givenUp_of_limited`: One of these has happened to a fiber that had a limit.
* `timeout_in_virtual_time`: What an effect with a limit of time comes to.
-/

namespace EffectKernel

open Machine

variable {σ : Type}

/-- Nobody waits for a handle after all who have gone away have left theirs. -/
theorem Kernel.slot?_leaveAll_of_mem {handles : List Handle} {h : Handle} (mem : h ∈ handles)
    (k : Kernel σ) :
    (k.leaveAll handles).slot? h = none ∨ (k.leaveAll handles).slot? h = some .abandoned := by
  -- Leaving a handle closes its slot or marks it abandoned, and does not touch any other slot.
  have leaves : ∀ (k : Kernel σ) (other : Handle),
      (other = h ∨ k.slot? h = none ∨ k.slot? h = some .abandoned) →
      (k.leave other).slot? h = none ∨ (k.leave other).slot? h = some .abandoned := by
    intro k other gone
    rw [Kernel.leave]
    split
    · rw [Kernel.slot?_setSlot]
      split
      · exact .inr rfl
      · next ne => exact gone.resolve_left (Ne.symm ne)
    · rw [Kernel.slot?_closeSlot]
      split
      · exact .inl rfl
      · next ne => exact gone.resolve_left (Ne.symm ne)
  have stays : ∀ (handles : List Handle) (k : Kernel σ),
      (k.slot? h = none ∨ k.slot? h = some .abandoned) →
      (k.leaveAll handles).slot? h = none ∨ (k.leaveAll handles).slot? h = some .abandoned := by
    intro handles
    induction handles with
    | nil => exact fun _ gone => gone
    | cons other rest ih => exact fun k gone => ih (k.leave other) (leaves k other (.inr gone))
  induction handles generalizing k with
  | nil => cases mem
  | cons other rest ih =>
      rcases List.mem_cons.1 mem with rfl | mem
      · exact stays rest _ (leaves k h (.inl rfl))
      · exact ih mem (k.leave other)

namespace Fiber

/-- A fiber in its turn ends before a point in time, or in the look at it when time gets there. -/
inductive EndsBy (settings : Settings) (observe : Nat → σ → σ) (id : FiberId) (limit : Nat)
    (f : Fiber σ) (k : Kernel σ) (x : Outcome) (k' : Kernel σ) : Prop where
  /-- It ends before. -/
  | before (ends : EndsBefore settings observe id limit f k x k')
  /-- It ends in that look. -/
  | last {f₁ k₁} (meets : Meets settings observe id limit f k f₁ k₁)
      (turns : Turns settings [id] f₁ k₁ (.ended x) k')

/-- A fiber in its turn is given up at a point in time, since it still waits after the look at it
    when time gets there. -/
inductive GivenUp (settings : Settings) (observe : Nat → σ → σ) (id : FiberId) (limit : Nat)
    (f : Fiber σ) (k : Kernel σ) (f' : Fiber σ) (k' : Kernel σ) : Prop where
  /-- Time gets there, and after the look it still waits. -/
  | intro {f₁ k₁} (meets : Meets settings observe id limit f k f₁ k₁)
      (turns : Turns settings [id] f₁ k₁ (.waiting f') k')

section Alone

variable {settings : Settings} {observe : Nat → σ → σ} {id : FiberId} {limit : Nat}
  {f f₁ f' : Fiber σ} {k k₁ k' : Kernel σ} {x : Outcome}

/-- A fiber for which nothing has happened when time gets to a point is given up. -/
theorem Meets.givenUp (meets : Meets settings observe id limit f k f₁ k₁)
    (idle : f₁.Idle [id] k₁) : ∃ k', GivenUp settings observe id limit f k f₁ k' := by
  obtain ⟨k', vain, -⟩ := Idle.turns settings f₁ idle
  exact ⟨k', meets, vain⟩

/-- What has ended by a point in time has ended, and not after it. -/
theorem EndsBy.pollEnds (ends : EndsBy settings observe id limit f k x k')
    (async : settings.mode = .async) (separate : f.Separate id k) :
    PollEnds settings observe id f k x k' ∧ k'.now ≤ limit := by
  cases ends with
  | before ends => exact ⟨ends.pollEnds, Nat.le_of_lt (ends.now async)⟩
  | last meets turns =>
      refine ⟨?_, Nat.le_of_eq ((turns.now async (by simp)).trans meets.now)⟩
      rcases meets.own_or_idle async separate with own | idle
      · exact (own x k').2 (.ended turns)
      · obtain ⟨k₂, vain, -⟩ := Idle.turns settings _ idle
        cases (Turns.unique vain turns).1

/-- A fiber is given up at the point in time, and does not end before it. -/
theorem GivenUp.now (givenUp : GivenUp settings observe id limit f k f' k')
    (async : settings.mode = .async) (separate : f.Separate id k) :
    k'.now = limit ∧ ∀ x k₁, PollEnds settings observe id f k x k₁ → limit ≤ k₁.now := by
  obtain ⟨meets, turns⟩ := givenUp
  exact ⟨(turns.now async (by simp)).trans meets.now,
    fun x k₁ polls => meets.le async separate polls⟩

/-- A fiber that ends has ended by a point in time, or it is given up then. -/
theorem PollEnds.endsBy_or_givenUp (polls : PollEnds settings observe id f k x k')
    (async : settings.mode = .async) (separate : f.Separate id k) (now : k.now ≤ limit) :
    EndsBy settings observe id limit f k x k' ∨
      ∃ f₁ k₁, GivenUp settings observe id limit f k f₁ k₁ := by
  rcases polls.ends_or_meets async separate now with ends | ⟨f₁, k₁, meets⟩
  · exact .inl (.before ends)
  · rcases meets.own_or_idle async separate with own | idle
    · rcases (own x k').1 polls with ended | ⟨waits, _, _⟩
      · exact .inl (.last meets ended)
      · exact .inr ⟨_, _, meets, waits⟩
    · obtain ⟨k₂, givenUp⟩ := meets.givenUp idle
      exact .inr ⟨_, _, givenUp⟩

end Alone

/-! ### With a limit -/

section Limited

variable {settings : Settings} {observe : Nat → σ → σ} {id : FiberId} {path : Path} {limit : Nat}
  {d : Duration} {env : Context} {base : List (Frame σ)} {point : Suspension σ} {e : Effect σ}
  {f f₁ f' : Fiber σ} {k k₁ k₂ k' : Kernel σ} {x y : Outcome} {turn : Turn σ}

/-- A fiber that has ended by its limit goes on from how it has ended. -/
theorem EndsBy.limited (ends : EndsBy settings observe id limit f k x k₁)
    (async : settings.mode = .async) :
    PollEnds settings observe id (.limited d limit f point) k y k' ↔
      PollEnds settings observe id (.ready (point.resume (.unwind (inTime x)))) k₁ y k' := by
  cases ends with
  | before ends => exact ends.limited async
  | last meets turns => exact (meets.limited async).trans (Continues.limited turns).pollEnds_iff

/-- A fiber that is given up at its limit goes on with nothing, and everybody in it goes away. -/
theorem GivenUp.limited (givenUp : GivenUp settings observe id limit f k f' k₁)
    (async : settings.mode = .async) :
    PollEnds settings observe id (.limited d limit f point) k y k' ↔
      PollEnds settings observe id
        (.ready (point.resume (.unwind (.success (Value.ofOption none)))))
        ((k₁.leaveAll f'.handles).report (.timedOut d)) y k' := by
  obtain ⟨meets, turns⟩ := givenUp
  have due : limit ≤ k₁.now := Nat.le_of_eq ((turns.now async (by simp)).trans meets.now).symm
  exact (meets.limited async).trans (Continues.timedOut turns due).pollEnds_iff

/-- In a turn of a fiber with a limit, the one inside it has its turn. -/
theorem turns_of_limited (turns : Turns settings path (.limited d limit f point) k turn k')
    (complete : turn ≠ .exhausted) :
    ∃ r k₁, Turns settings path f k r k₁ ∧ r ≠ .exhausted := by
  obtain ⟨least, turns⟩ := turns
  have turned := turns (least + 1) (Nat.le_succ _)
  rw [Fiber.turn] at turned
  rcases inside : Fiber.turn settings least path f k with ⟨r, k₁⟩
  refine ⟨r, k₁, turns_of_turn inside ?_, ?_⟩
  all_goals
    rintro rfl
    rw [inside] at turned
    cases turned
    exact complete rfl

/-- If a fiber with a limit has ended, then the look at the one inside it at the limit has come to
    an end. -/
theorem Meets.endsBy_or_givenUp (meets : Meets settings observe id limit f k f₁ k₁)
    (async : settings.mode = .async)
    (polls : PollEnds settings observe id (.limited d limit f point) k y k') :
    (∃ x k₁, EndsBy settings observe id limit f k x k₁) ∨
      ∃ f' k₁, GivenUp settings observe id limit f k f' k₁ := by
  have look : ∃ r k₂, Turns settings [id] f₁ k₁ r k₂ ∧ r ≠ .exhausted := by
    rcases (meets.limited async).1 polls with turns | ⟨turns, _, _⟩
    · exact turns_of_limited turns (by simp)
    · exact turns_of_limited turns (by simp)
  obtain ⟨r, k₂, turns, complete⟩ := look
  cases r with
  | ended x => exact .inl ⟨x, k₂, .last meets turns⟩
  | waiting f' => exact .inr ⟨f', k₂, meets, turns⟩
  | exhausted => exact absurd rfl complete

/-- What happens between two looks at a fiber with a limit happens without the limit too, or nothing
    else would happen before the limit. -/
theorem UpToDate.round_of_limited (upToDate : f.UpToDate id k) (early : k.now < limit)
    (round : k.Round observe (.fiber settings id (.limited d limit f point)) k') :
    (k.Round observe (.fiber settings id f) k' ∧ k'.now < limit) ∨
      ∃ fuel k₁, k.runBatch fuel Kernel.batchSize = some k₁ ∧
        k₁.isBusy (.fiber settings id f) = false ∧
        ∀ time, k₁.nextWake (.fiber settings id f) = some time → limit ≤ time := by
  cases round with
  | busy batch busy => exact .inl ⟨.busy batch busy, (upToDate.runBatch batch).2 ▸ early⟩
  | @idle fuel k₁ time batch idle next =>
      have alone : k₁.isBusy (.fiber settings id f) = false := idle
      rw [nextWake_limited] at next
      rw [advance_eq]
      -- A wake-up before the deadline is the inner fiber's own; otherwise it is the deadline, and
      -- the inner fiber has none before it.
      rcases Nat.lt_or_ge time limit with early | late
      · have own : k₁.nextWake (.fiber settings id f) = some time := by
          cases found : k₁.nextWake (.fiber settings id f) with
          | none =>
              rw [found] at next
              cases next
              exact absurd early (Nat.lt_irrefl _)
          | some t =>
              rw [found, earlier, Option.some.injEq] at next
              rw [Option.some.injEq]
              omega
        have round : k.Round observe (.fiber settings id f) _ := .idle batch alone own
        rw [advance_eq] at round
        rw [dueAt, if_neg (Nat.not_le_of_lt early), List.append_nil]
        exact .inl ⟨round, early⟩
      · refine .inr ⟨fuel, k₁, batch, alone, fun t found => ?_⟩
        rw [found, earlier, Option.some.injEq] at next
        omega

/-- Before the limit, a turn of a fiber with a limit is one of the fiber inside it, or that one ends
    in it. -/
theorem turns_of_limited_early (turns : Turns settings path (.limited d limit f point) k turn k')
    (complete : turn ≠ .exhausted) (async : settings.mode = .async) (early : k.now < limit) :
    (∃ x k₁, Turns settings path f k (.ended x) k₁) ∨
      ∃ f₁, turn = .waiting (.limited d limit f₁ point) ∧
        Turns settings path f k (.waiting f₁) k' := by
  obtain ⟨r, k₁, inside, whole⟩ := turns_of_limited turns complete
  cases r with
  | ended x => exact .inl ⟨x, k₁, inside⟩
  -- A turn takes no time, so the deadline has not passed within it.
  | waiting f₁ =>
      have before : ¬limit ≤ k₁.now := by
        rw [inside.now async whole]
        exact Nat.not_le_of_lt early
      obtain ⟨same, rfl⟩ := Turns.unique turns (inside.limited before)
      exact .inr ⟨f₁, same, inside⟩
  | exhausted => exact absurd rfl whole

/-- If a fiber with a limit ends that has come to wait, then the one inside it has ended by the
    limit, or it is given up then. -/
theorem Waits.endsBy_or_givenUp (waits : Waits settings observe id limit f k f₁ k₁)
    (async : settings.mode = .async) (separate : f.Separate id k)
    (later : RoundEnds settings observe id (.limited d limit f₁ point) k₁ y k')
    (whole : PollEnds settings observe id (.limited d limit f point) k y k') :
    (∃ x k₁, EndsBy settings observe id limit f k x k₁) ∨
      ∃ f' k₁, GivenUp settings observe id limit f k f' k₁ := by
  obtain ⟨k₂, round, rounds, drives⟩ := later
  -- Round by round before the deadline the inner fiber does what it does alone; the run ends with
  -- the first round in which it ends, or which reaches the deadline.
  induction rounds generalizing f₁ k₁ k₂ with
  | zero =>
      obtain ⟨fuel, run⟩ := drives
      cases run
  | succ rounds ih =>
      have upToDate := waits.upToDate async separate
      rcases upToDate.1.round_of_limited upToDate.2 round with
        ⟨round, early⟩ | ⟨_, _, batch, idle, next⟩
      · have endsNow : ∀ {x k₁}, k₂.isWoken id = true →
            Turns settings [id] f₁ (k₂.unwake id) (.ended x) k₁ →
            ∃ x k₁, EndsBy settings observe id limit f k x k₁ := fun woken turns =>
          ⟨_, _, .before (.looked waits round early woken turns)⟩
        rcases driveEndsIn_succ.1 drives with ⟨woken, ended | ⟨f₃, k₃, k₄, turns, round', rest⟩⟩ |
          ⟨away, k₃, round', rest⟩
        · rcases turns_of_limited_early ended (by simp) async early with ⟨_, _, inside⟩ | ⟨_, ⟨⟩, _⟩
          exact .inl (endsNow woken inside)
        · rcases turns_of_limited_early turns (by simp) async early with
            ⟨_, _, inside⟩ | ⟨_, ⟨⟩, inside⟩
          · exact .inl (endsNow woken inside)
          · exact ih (.looked waits round early woken inside) k₄ round' rest
        · exact ih (.passed waits round early away) k₃ round' rest
      · exact (Meets.later waits batch idle next).endsBy_or_givenUp async whole

/-- If a fiber with a limit ends, then the one inside it has ended by the limit, or it is given up
    then. -/
theorem endsBy_or_givenUp_of_limited (async : settings.mode = .async) (separate : f.Separate id k)
    (now : k.now ≤ limit)
    (polls : PollEnds settings observe id (.limited d limit f point) k y k') :
    (∃ x k₁, EndsBy settings observe id limit f k x k₁) ∨
      ∃ f' k₁, GivenUp settings observe id limit f k f' k₁ := by
  -- At the deadline the fiber is looked at once more; before it a turn ends it or leaves it
  -- waiting.
  rcases Nat.eq_or_lt_of_le now with same | early
  · exact (Meets.already same).endsBy_or_givenUp async polls
  · rcases polls with ended | ⟨turns, round, later⟩
    · rcases turns_of_limited_early ended (by simp) async early with ⟨_, _, inside⟩ | ⟨_, ⟨⟩, _⟩
      exact .inl ⟨_, _, .before (.turned early inside)⟩
    · have whole := PollEnds.waits turns round later
      rcases turns_of_limited_early turns (by simp) async early with
        ⟨_, _, inside⟩ | ⟨_, ⟨⟩, inside⟩
      · exact .inl ⟨_, _, .before (.turned early inside)⟩
      · exact (Waits.turned early inside).endsBy_or_givenUp async separate ⟨_, round, later⟩ whole

/-- What comes after a limit hands on what it has got. -/
theorem continues_finished (x : Outcome) :
    Continues settings path
      (.ready ⟨.unwind x, env, .flatMap (fun finished => pure (Effect.succeed finished)) :: base⟩) k
      (.ready ⟨.unwind x, env, base⟩) k := by
  cases x with
  | success v =>
      have told : Continues settings path (.ready ⟨.unwind (.success v), env,
          .flatMap (fun finished => pure (Effect.succeed finished)) :: base⟩) k
          (.ready ⟨.eval (Effect.succeed v), env, base⟩) k := continues_next rfl
      exact told.trans (continues_next rfl)
  | fail e => exact continues_next rfl
  | die d => exact continues_next rfl

/-- An effect with a limit of time is begun inside the limit. -/
theorem continues_within (async : settings.mode = .async) (e : Effect σ) :
    Continues settings path (.ready ⟨.eval (e.within d), env, base⟩) k
      (.limited d (Kernel.wakeTime k.now d) (.ready (.start e env))
        ⟨[], env, .flatMap (fun finished => pure (Effect.succeed finished)) :: base⟩) k := by
  have begun : Continues settings path (.ready ⟨.eval (e.within d), env, base⟩) k
      (.ready ⟨.eval (.timeout e d), env,
        .flatMap (fun finished => pure (Effect.succeed finished)) :: base⟩) k := continues_next rfl
  have asks : ∀ stack, Machine.step settings ⟨.eval (.timeout e d), env, stack⟩ k.world =
      (.ask (.within e d) ⟨[], env, stack⟩, k.world) := fun stack => by
    simp only [step, stepAt, evalStep, async]
  exact begun.trans (.one fun fuel => by rw [Fiber.turn, asks]; rfl)

end Limited

end Fiber

open EffectKernel.Fiber

/-- What an effect with a limit of time comes to in a run that is not on the spot, whatever it is,
    whatever the frames beneath it and whoever else runs. The deadline is the first whole
    millisecond at which the limit is over.

    An effect that alone ends before the deadline goes on from how it has ended, then and there. If
    it does not end by the deadline it is given up at the deadline, and only nothing is left to go
    on from: all that it has done is what alone it does by then, and nobody waits for any of its
    handles. What alone ends at the deadline ends in time if it ends in the one look at it that is
    due then, and otherwise it is given up as well. An effect for which nothing happens when time
    gets to the deadline is given up too, also if it never ends; and nothing else is come to. -/
theorem timeout_in_virtual_time (e : Effect σ) (d : Duration) (env : Context)
    (base : List (Frame σ)) (settings : Settings) (async : settings.mode = .async)
    (observe : Nat → σ → σ) (id : FiberId) (k : Kernel σ)
    (separate : (Fiber.ready (.start e env)).Separate id k)
    (limit : Nat) (deadline : limit = Kernel.wakeTime k.now d) :
    (∀ x k₁, PollEnds settings observe id (.ready (.start e env)) k x k₁ →
      (k₁.now < limit → EndsBy settings observe id limit (.ready (.start e env)) k x k₁) ∧
      (limit < k₁.now →
        ∃ f k₂, GivenUp settings observe id limit (.ready (.start e env)) k f k₂) ∧
      (EndsBy settings observe id limit (.ready (.start e env)) k x k₁ ∨
        ∃ f k₂, GivenUp settings observe id limit (.ready (.start e env)) k f k₂)) ∧
    (∀ x k₁, EndsBy settings observe id limit (.ready (.start e env)) k x k₁ →
      PollEnds settings observe id (.ready (.start e env)) k x k₁ ∧
      k₁.now ≤ limit ∧
      ∀ y k', PollEnds settings observe id (.ready ⟨.eval (e.within d), env, base⟩) k y k' ↔
        PollEnds settings observe id (.ready ⟨.unwind (inTime x), env, base⟩) k₁ y k') ∧
    (∀ f k₂, GivenUp settings observe id limit (.ready (.start e env)) k f k₂ →
      k₂.now = limit ∧
      (∀ x k₁, PollEnds settings observe id (.ready (.start e env)) k x k₁ → limit ≤ k₁.now) ∧
      (k₂.leaveAll f.handles).world = k₂.world ∧
      (∀ h ∈ f.handles, (k₂.leaveAll f.handles).slot? h = none ∨
        (k₂.leaveAll f.handles).slot? h = some .abandoned) ∧
      ∀ y k', PollEnds settings observe id (.ready ⟨.eval (e.within d), env, base⟩) k y k' ↔
        PollEnds settings observe id (.ready ⟨.unwind (.success (Value.ofOption none)), env, base⟩)
          ((k₂.leaveAll f.handles).report (.timedOut d)) y k') ∧
    (∀ f k₁, Meets settings observe id limit (.ready (.start e env)) k f k₁ → f.Idle [id] k₁ →
      ∃ k₂, GivenUp settings observe id limit (.ready (.start e env)) k f k₂) ∧
    ∀ y k', PollEnds settings observe id (.ready ⟨.eval (e.within d), env, base⟩) k y k' →
      (∃ x k₁, EndsBy settings observe id limit (.ready (.start e env)) k x k₁) ∨
      ∃ f k₂, GivenUp settings observe id limit (.ready (.start e env)) k f k₂ := by
  subst deadline
  -- The first step pushes the frame and sets the deadline.
  have begun : ∀ y k', PollEnds settings observe id
    (.ready ⟨.eval (e.within d), env, base⟩) k y k' ↔
      PollEnds settings observe id (.limited d (Kernel.wakeTime k.now d) (.ready (.start e env))
        ⟨[], env, .flatMap (fun finished => pure (Effect.succeed finished)) :: base⟩) k y k' :=
    fun y k' => (continues_within async e).pollEnds_iff
  have late : k.now ≤ Kernel.wakeTime k.now d := Kernel.le_wakeTime _ _
  refine ⟨fun x k₁ polls => ?_, fun x k₁ ends => ?_, fun f k₂ givenUp => ?_,
    fun f k₁ meets idle => meets.givenUp idle, fun y k' polls => ?_⟩
  · have either := polls.endsBy_or_givenUp async separate late
    refine ⟨fun early => ?_, fun after => ?_, either⟩
    · refine either.resolve_right fun ⟨f, k₂, givenUp⟩ => ?_
      exact Nat.not_lt_of_le ((givenUp.now async separate).2 x k₁ polls) early
    · exact either.resolve_left fun ends => Nat.not_lt_of_le (ends.pollEnds async separate).2 after
  · have alone := ends.pollEnds async separate
    exact ⟨alone.1, alone.2, fun y k' =>
      (begun y k').trans ((ends.limited async).trans (continues_finished _).pollEnds_iff)⟩
  · have time := givenUp.now async separate
    obtain ⟨slots, left⟩ := k₂.leaveAll_eq f.handles
    exact ⟨time.1, time.2, by rw [left], fun h mem => k₂.slot?_leaveAll_of_mem mem,
      fun y k' => (begun y k').trans ((givenUp.limited async).trans
        (continues_finished _).pollEnds_iff)⟩
  · exact endsBy_or_givenUp_of_limited async separate late ((begun y k').1 polls)

namespace Sample

/-- Sleeps for five milliseconds. -/
def slumber : Effect Nat :=
  .sleep (Duration.ofMillis 5)

/-- Sleeps for five milliseconds, gives way and then ends. -/
def lingering : Effect Nat :=
  .generator fun cx => pure (cx.bind slumber fun _ =>
    pure (.giveWay (pure (.done (.success (.text "after"))))))

end Sample

/-- Who sleeps for five milliseconds and may take three has got nothing after three. -/
theorem slumber_times_out : ∃ w, w.clock = 3000000 ∧
    (Sample.slumber.within (Duration.ofMillis 3)).EndsIn ⟨.async, true⟩ .empty (Kernel.start 0)
      (.success (Value.ofOption none)) w := by
  have away : 1 ∉ (Kernel.start 0).woken := List.not_mem_nil
  have separate : (Fiber.ready (.start Sample.slumber .empty)).Separate 1 (Kernel.start 0).draw.2 :=
    (Kernel.orderly_start 0).separate _
  have run : Sample.slumber.EndsIn ⟨.async, true⟩ .empty (Kernel.start 0) (.success .null)
      ⟨0, 5000000, #[]⟩ := ⟨5, rfl⟩
  obtain ⟨k₁, alone, world⟩ := (endsIn_iff_pollEnds rfl away).1 run
  have law := timeout_in_virtual_time Sample.slumber (Duration.ofMillis 3) .empty [] ⟨.async, true⟩
    rfl (fun _ s => s) 1 (Kernel.start 0).draw.2 separate 3000000 rfl
  -- Alone the nap would take until 5 ms, past the deadline.
  have late : 3000000 < k₁.now := by
    rw [Kernel.now, world]
    decide
  obtain ⟨f, k₂, givenUp⟩ := (law.1 _ k₁ alone).2.1 late
  obtain ⟨time, -, left, -, polls⟩ := law.2.2.1 f k₂ givenUp
  refine ⟨_, ?_, (endsIn_iff_pollEnds rfl away).2 ⟨_, (polls _ _).2 (.ended (turns_done _ _)), rfl⟩⟩
  exact (congrArg World.clock left).trans time

/-- A limit is not exact. Who gives way at the deadline and then ends at once has not taken longer
    than allowed, and yet nothing is got. And a limit is over at a whole millisecond only. -/
theorem timeout_not_exact :
    (¬∀ x w, Sample.lingering.EndsIn ⟨.async, true⟩ .empty (Kernel.start 0) x w →
      w.clock ≤ (Duration.ofMillis 5).nanos →
      ∃ w', (Sample.lingering.within (Duration.ofMillis 5)).EndsIn ⟨.async, true⟩ .empty
        (Kernel.start 0) (inTime x) w' ∧ w'.clock = w.clock) ∧
    ¬∀ w, (Sample.slumber.within (Duration.ofNanos 1)).EndsIn ⟨.async, true⟩ .empty
      (Kernel.start 0) (.success (Value.ofOption none)) w → w.clock = 1 := by
  have away : 1 ∉ (Kernel.start 0).woken := List.not_mem_nil
  refine ⟨fun claim => ?_, fun claim => ?_⟩
  · have alone : Sample.lingering.EndsIn ⟨.async, true⟩ .empty (Kernel.start 0)
        (.success (.text "after")) ⟨0, 5000000, #[]⟩ := ⟨9, rfl⟩
    have run : ((Sample.lingering.within (Duration.ofMillis 5)).run? ⟨.async, true⟩ 9 .empty
        (Kernel.start 0)).map (·.1) = some (.success (Value.ofOption none)) := rfl
    obtain ⟨⟨_, w⟩, limited, rfl⟩ := Option.map_eq_some_iff.1 run
    obtain ⟨w', other, -⟩ := claim _ _ alone (Nat.le_refl _)
    -- Runs are unique, and this one has given up where the claim says it ends in time.
    obtain ⟨k₁, polls, -⟩ := (endsIn_iff_pollEnds rfl away).1 ⟨9, limited⟩
    obtain ⟨k₂, goes', -⟩ := (endsIn_iff_pollEnds rfl away).1 other
    cases (polls.unique goes').1
  · have run : ((Sample.slumber.within (Duration.ofNanos 1)).run? ⟨.async, true⟩ 9 .empty
        (Kernel.start 0)).map (·.1) = some (.success (Value.ofOption none)) := rfl
    -- A timer rounds up to whole milliseconds, so nothing happens after one nanosecond.
    have late : ((Sample.slumber.within (Duration.ofNanos 1)).run? ⟨.async, true⟩ 9 .empty
        (Kernel.start 0)).map (·.2.clock) = some 1000000 := by decide +kernel
    obtain ⟨⟨_, w⟩, limited, rfl⟩ := Option.map_eq_some_iff.1 run
    rw [limited, Option.map_some, Option.some.injEq] at late
    have exact : w.clock = 1 := claim w ⟨9, limited⟩
    rw [late] at exact
    cases exact

end EffectKernel
