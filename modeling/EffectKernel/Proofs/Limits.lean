import EffectKernel.Proofs.Wakeups

/-!
# Limits

A fiber with a limit of time, next to the same fiber without it. Up to a point in time, a fiber is
known by where it has come to wait (`Fiber.Waits`), and either it ends before (`Fiber.EndsBefore`),
or the clock gets to that point while it waits (`Fiber.Meets`). As long as the clock stands before
the limit, a limit changes nothing: the one inside has the same turns, and between two looks the
same happens. At the limit there is one difference. The fiber with the limit is woken and looked at
then, in any case; without the limit it is so only if something has happened for it. But if nothing
has, then the look is in vain (`Fiber.Meets.own_or_idle`).

## Main definitions

* `Fiber.Waits`: Where a fiber has come to wait, before a point in time.
* `Fiber.EndsBefore`: A fiber ends before a point in time.
* `Fiber.Meets`: Time gets to a point while a fiber waits.

## Theorems

* `Fiber.Separate.pollEnds`: Time does not go backwards until a fiber ends, and it still
  has its place then.
* `Fiber.endsIn_iff_pollEnds`: A run is a turn of a fiber and what comes later.
* `Fiber.PollEnds.ends_or_meets`: A fiber that ends has done so before a point, or time gets there.
* `Fiber.Meets.own_or_idle`: The look when time gets there is the fiber's own, or in vain.
* `Fiber.EndsBefore.limited`, `Fiber.Meets.limited`: The same with a limit.
-/

namespace EffectKernel

variable {σ : Type}

namespace Kernel

section Round

variable {observe : Nat → σ → σ} {await : Await σ} {k k₁ k₂ : Kernel σ}

/-- There is only one way in which tasks have their turns. -/
theorem runBatch_unique {fuel fuel' n : Nat} (batch : k.runBatch fuel n = some k₁)
    (other : k.runBatch fuel' n = some k₂) : k₁ = k₂ := by
  have first := runBatch_more batch (Nat.le_max_left fuel fuel')
  have second := runBatch_more other (Nat.le_max_right fuel fuel')
  exact Option.some.inj (first.symm.trans second)

/-- There is only one thing that can happen between two looks. -/
theorem Round.unique (round : k.Round observe await k₁) (other : k.Round observe await k₂) :
    k₁ = k₂ := by
  -- The batch decides what is busy, and the next wake-up is determined by the kernel.
  cases round with
  | busy batch busy =>
      cases other with
      | busy batch' _ => exact runBatch_unique batch batch'
      | idle batch' idle _ =>
          rw [← runBatch_unique batch batch', busy] at idle
          cases idle
  | idle batch idle next =>
      cases other with
      | busy batch' busy =>
          rw [← runBatch_unique batch batch', idle] at busy
          cases busy
      | idle batch' _ next' =>
          obtain rfl := runBatch_unique batch batch'
          obtain rfl := Option.some.inj (next.symm.trans next')
          rfl

end Round

end Kernel

namespace Fiber

/-- A fiber that waits comes to an outcome after a round. -/
def RoundEnds (settings : Settings) (observe : Nat → σ → σ) (id : FiberId) (f : Fiber σ)
    (k : Kernel σ) (x : Outcome) (k' : Kernel σ) : Prop :=
  ∃ k₁, k.Round observe (.fiber settings id f) k₁ ∧ DriveEnds settings observe id f k₁ x k'

/-- A fiber in its turn has come to wait, and from then on has been looked at, all of it before a
    point in time. -/
inductive Waits (settings : Settings) (observe : Nat → σ → σ) (id : FiberId) (limit : Nat)
    (f : Fiber σ) (k : Kernel σ) : Fiber σ → Kernel σ → Prop where
  /-- It has come to wait in this turn. -/
  | turned {f₁ k₁} (early : k.now < limit) (turns : Turns settings [id] f k (.waiting f₁) k₁) :
      Waits settings observe id limit f k f₁ k₁
  /-- It has been woken, and still waits after another turn. -/
  | looked {f₁ k₁ k₂ f₂ k₃} (before : Waits settings observe id limit f k f₁ k₁)
      (round : k₁.Round observe (.fiber settings id f₁) k₂) (early : k₂.now < limit)
      (woken : k₂.isWoken id = true)
      (turns : Turns settings [id] f₁ (k₂.unwake id) (.waiting f₂) k₃) :
      Waits settings observe id limit f k f₂ k₃
  /-- It has not been woken. -/
  | passed {f₁ k₁ k₂} (before : Waits settings observe id limit f k f₁ k₁)
      (round : k₁.Round observe (.fiber settings id f₁) k₂) (early : k₂.now < limit)
      (away : k₂.isWoken id = false) : Waits settings observe id limit f k f₁ k₂

/-- A fiber in its turn ends before a point in time. -/
inductive EndsBefore (settings : Settings) (observe : Nat → σ → σ) (id : FiberId) (limit : Nat)
    (f : Fiber σ) (k : Kernel σ) (x : Outcome) (k' : Kernel σ) : Prop where
  /-- It ends in this turn. -/
  | turned (early : k.now < limit) (turns : Turns settings [id] f k (.ended x) k')
  /-- It has come to wait, is woken, and ends. -/
  | looked {f₁ k₁ k₂} (before : Waits settings observe id limit f k f₁ k₁)
      (round : k₁.Round observe (.fiber settings id f₁) k₂) (early : k₂.now < limit)
      (woken : k₂.isWoken id = true) (turns : Turns settings [id] f₁ (k₂.unwake id) (.ended x) k')

/-- Time gets to a point while a fiber waits: how the fiber waits then, and the kernel with the
    clock at that point in which it would be looked at. It has been so when the turn began, or
    nobody can run and nobody has to be woken before. -/
inductive Meets (settings : Settings) (observe : Nat → σ → σ) (id : FiberId) (limit : Nat)
    (f : Fiber σ) (k : Kernel σ) : Fiber σ → Kernel σ → Prop where
  /-- It is that time already. -/
  | already (now : k.now = limit) : Meets settings observe id limit f k f k
  /-- Nobody can run before. -/
  | later {f₁ k₁ fuel k₂} (waits : Waits settings observe id limit f k f₁ k₁)
      (batch : k₁.runBatch fuel Kernel.batchSize = some k₂)
      (idle : k₂.isBusy (.fiber settings id f₁) = false)
      (next : ∀ time, k₂.nextWake (.fiber settings id f₁) = some time → limit ≤ time) :
      Meets settings observe id limit f k f₁
        (((k₂.modifyStore (observe k₂.now)).advance (.fiber settings id f₁) limit).unwake id)

section Alone

variable {settings : Settings} {observe : Nat → σ → σ} {id : FiberId} {limit : Nat}
  {f f₁ f₂ : Fiber σ} {k k₁ k₂ k' : Kernel σ} {x y : Outcome}

/-- A turn takes no time. -/
theorem Turns.now (async : settings.mode = .async) {path : Path} {turn : Turn σ}
    (turns : Turns settings path f k turn k') (complete : turn ≠ .exhausted) : k'.now = k.now := by
  obtain ⟨least, turns⟩ := turns
  have turned := turns least (Nat.le_refl _)
  cases turn with
  | ended x =>
      obtain ⟨m, changes⟩ := turn_changes_ended async turned
      exact changes.now
  | waiting f' => exact (turn_changes async turned).now
  | exhausted => exact absurd rfl complete

/-- Where a fiber goes that has come to wait in its turn. -/
theorem Turns.pollEnds_iff (turns : Turns settings [id] f k (.waiting f₁) k₁) :
    PollEnds settings observe id f k x k' ↔ RoundEnds settings observe id f₁ k₁ x k' := by
  constructor
  · rintro (ended | ⟨waits, round, later⟩)
    · cases (Turns.unique ended turns).1
    · obtain ⟨⟨⟩, rfl⟩ := Turns.unique waits turns
      exact ⟨_, round, later⟩
  · rintro ⟨k₂, round, later⟩
    exact .waits turns round later

theorem Turns.pollEnds_ended_iff (turns : Turns settings [id] f k (.ended y) k₁) :
    PollEnds settings observe id f k x k' ↔ x = y ∧ k' = k₁ := by
  constructor
  · rintro (ended | ⟨waits, _, _⟩)
    · obtain ⟨⟨⟩, rfl⟩ := Turns.unique ended turns
      exact ⟨rfl, rfl⟩
    · cases (Turns.unique waits turns).1
  · rintro ⟨rfl, rfl⟩
    exact .ended turns

/-- Where a fiber goes that has been woken in a round. -/
theorem roundEnds_woken (round : k.Round observe (.fiber settings id f) k₁)
    (woken : k₁.isWoken id = true) :
    RoundEnds settings observe id f k x k' ↔
      PollEnds settings observe id f (k₁.unwake id) x k' := by
  constructor
  · rintro ⟨k₂, other, drives⟩
    obtain rfl := round.unique other
    rcases driveEnds_iff.1 drives with ⟨-, polls⟩ | ⟨away, -⟩
    · exact polls
    · rw [woken] at away
      cases away
  · exact fun polls => ⟨k₁, round, driveEnds_iff.2 (.inl ⟨woken, polls⟩)⟩

/-- Where a fiber goes that has not been woken in a round. -/
theorem roundEnds_away (round : k.Round observe (.fiber settings id f) k₁)
    (away : k₁.isWoken id = false) :
    RoundEnds settings observe id f k x k' ↔ RoundEnds settings observe id f k₁ x k' := by
  constructor
  · rintro ⟨k₂, other, drives⟩
    obtain rfl := round.unique other
    rcases driveEnds_iff.1 drives with ⟨woken, -⟩ | ⟨-, later⟩
    · rw [away] at woken
      cases woken
    · exact later
  · exact fun later => ⟨k₁, round, driveEnds_iff.2 (.inr ⟨away, later⟩)⟩

/-- What a fiber comes to is what it comes to from where it has come to wait. -/
theorem Waits.pollEnds_iff (waits : Waits settings observe id limit f k f₁ k₁) :
    PollEnds settings observe id f k x k' ↔ RoundEnds settings observe id f₁ k₁ x k' := by
  induction waits with
  | turned _ turns => exact turns.pollEnds_iff
  | looked _ round _ woken turns ih => rw [ih, roundEnds_woken round woken, turns.pollEnds_iff]
  | passed _ round _ away ih => rw [ih, roundEnds_away round away]

/-- A fiber that waits misses nothing. -/
theorem Waits.upToDate (waits : Waits settings observe id limit f k f₁ k₁)
    (async : settings.mode = .async) (separate : f.Separate id k) :
    f₁.UpToDate id k₁ ∧ k₁.now < limit := by
  induction waits with
  | turned early turns =>
      have after := separate.turn async turns
      exact ⟨after.1, after.2 ▸ early⟩
  | looked _ round early _ turns ih =>
      have after := ((ih.1.round round).1.toSeparate.queue _).turn async turns
      exact ⟨after.1, after.2.symm ▸ early⟩
  | passed _ round early _ ih => exact ⟨(ih.1.round round).1, early⟩

/-- A fiber that has ended still has its place, whatever is to come then. -/
theorem Separate.ended (separate : f.Separate id k) (async : settings.mode = .async)
    (turns : Turns settings [id] f k (.ended x) k') :
    (∀ m : Machine σ, (Fiber.ready m).Separate id k') ∧ k'.now = k.now := by
  obtain ⟨least, turns⟩ := turns
  obtain ⟨m, changes⟩ := turn_changes_ended async (turns least (Nat.le_refl _))
  exact ⟨fun m' => (separate.changes changes).ready m', changes.now⟩

/-- Time does not go backwards until a fiber that waits has ended, and it still has its
    place then. -/
theorem UpToDate.driveEnds (upToDate : f.UpToDate id k) (async : settings.mode = .async)
    (drives : DriveEnds settings observe id f k x k') :
    k.now ≤ k'.now ∧ ∀ m : Machine σ, (Fiber.ready m).Separate id k' := by
  obtain ⟨rounds, drives⟩ := drives
  induction rounds generalizing f k with
  | zero =>
      obtain ⟨fuel, run⟩ := drives
      cases run
  | succ rounds ih =>
      rcases driveEndsIn_succ.1 drives with ⟨-, ended | ⟨f₁, k₁, k₂, turns, round, rest⟩⟩ |
        ⟨-, k₂, round, rest⟩
      -- A turn takes no time, and between rounds time only goes forward.
      · have after := (upToDate.toSeparate.queue _).ended async ended
        exact ⟨Nat.le_of_eq after.2.symm, after.1⟩
      · have after := (upToDate.toSeparate.queue _).turn async turns
        have later := after.1.round round
        have last := ih later.1 rest
        exact ⟨Nat.le_trans (Nat.le_trans (Nat.le_of_eq after.2.symm) later.2) last.1, last.2⟩
      · have later := upToDate.round round
        have last := ih later.1 rest
        exact ⟨Nat.le_trans later.2 last.1, last.2⟩

/-- So it is from the midst of a turn. -/
theorem Separate.pollEnds (separate : f.Separate id k) (async : settings.mode = .async)
    (polls : PollEnds settings observe id f k x k') :
    k.now ≤ k'.now ∧ ∀ m : Machine σ, (Fiber.ready m).Separate id k' := by
  rcases polls with ended | ⟨turns, round, later⟩
  · have after := separate.ended async ended
    exact ⟨Nat.le_of_eq after.2.symm, after.1⟩
  · have after := separate.turn async turns
    have later' := after.1.round round
    have last := later'.1.driveEnds async later
    exact ⟨Nat.le_trans (Nat.le_trans (Nat.le_of_eq after.2.symm) later'.2) last.1, last.2⟩

/-- When a fiber has ended that sat, another one may come. -/
theorem Separate.orderly (separate : f.Separate id k) (async : settings.mode = .async)
    (polls : PollEnds settings observe id f k x k') : k'.Orderly :=
  Kernel.orderly_of_separate ((separate.pollEnds async polls).2 ⟨.unwind x, .empty, []⟩)

/-- A fiber that the caller waits for comes to one outcome. -/
theorem DriveEnds.unique (drives : DriveEnds settings observe id f k x k')
    (other : DriveEnds settings observe id f k y k₁) : x = y ∧ k' = k₁ := by
  obtain ⟨rounds, fuel, run⟩ := drives
  obtain ⟨rounds', fuel', run'⟩ := other
  have first := Kernel.drive_more run (Nat.le_max_left fuel fuel') (Nat.le_max_left rounds rounds')
  have second :=
    Kernel.drive_more run' (Nat.le_max_right fuel fuel') (Nat.le_max_right rounds rounds')
  cases first.symm.trans second
  exact ⟨rfl, rfl⟩

/-- A fiber that is put in the queue has its turn when it is looked at. -/
theorem driveEnds_wakeOne (away : id ∉ k.woken) :
    DriveEnds settings observe id f (k.wakeOne id) x k' ↔
      PollEnds settings observe id f k x k' := by
  have queue : k.wakeOne id = { k with woken := k.woken ++ [id] } := if_neg away
  have woken : (k.wakeOne id).isWoken id = true := by
    rw [queue]
    simp [Kernel.isWoken]
  -- Put at the end of the queue and taken out again: the queue is as before.
  have turn : (k.wakeOne id).unwake id = k := by
    rw [queue, Kernel.unwake]
    have others : (k.woken ++ [id]).filter (· != id) = k.woken := by
      rw [List.filter_append, List.filter_cons_of_neg (by simp), List.filter_nil, List.append_nil]
      exact List.filter_eq_self.2 fun i mem => bne_iff_ne.2 fun same => away (same ▸ mem)
    simp only [others]
  rw [driveEnds_iff, turn]
  simp [woken]

/-- A poll that ends has one outcome and leaves one kernel. -/
theorem PollEnds.unique (polls : PollEnds settings observe id f k x k')
    (other : PollEnds settings observe id f k y k₁) : x = y ∧ k' = k₁ := by
  rcases polls with ended | ⟨turns, round, later⟩
  · obtain ⟨rfl, rfl⟩ := ended.pollEnds_ended_iff.1 other
    exact ⟨rfl, rfl⟩
  · obtain ⟨k₂, round', later'⟩ := turns.pollEnds_iff.1 other
    obtain rfl := round.unique round'
    exact later.unique later'

/-- A run in a fiber of the caller's own, which nobody observes, is one turn of the fiber and what
    comes later. -/
theorem endsIn_iff_pollEnds {e : Effect σ} {env : Context} {w : World σ}
    (async : settings.mode = .async) (away : k.fresh ∉ k.woken) :
    e.EndsIn settings env k x w ↔ ∃ k', PollEnds settings (fun _ s => s) k.fresh
      (.ready (.start e env)) k.draw.2 x k' ∧ k'.world = w := by
  -- A run begins with its fiber queued, which is the poll without the queue.
  have queued : ∀ k', DriveEnds settings (fun _ s => s) k.fresh (.ready (.start e env))
      (k.draw.2.wakeOne k.fresh) x k' ↔ PollEnds settings (fun _ s => s) k.fresh
        (.ready (.start e env)) k.draw.2 x k' := fun _ => driveEnds_wakeOne (k := k.draw.2) away
  simp only [← queued, Effect.EndsIn, Effect.run?, async, Option.map_eq_some_iff, Prod.mk.injEq,
    Prod.exists, Kernel.runExit]
  constructor
  · rintro ⟨fuel, y, k', run, rfl, rfl⟩
    refine ⟨k', ⟨fuel, fuel, ?_⟩, rfl⟩
    split at run
    · next driven => cases run; exact driven
    · cases run
  · rintro ⟨k', ⟨rounds, fuel, run⟩, rfl⟩
    have enough :=
      Kernel.drive_more run (Nat.le_max_left fuel rounds) (Nat.le_max_right fuel rounds)
    refine ⟨max fuel rounds, x, k', ?_, rfl, rfl⟩
    simp only [Kernel.draw] at enough ⊢
    rw [enough]

theorem EndsBefore.pollEnds (ends : EndsBefore settings observe id limit f k x k') :
    PollEnds settings observe id f k x k' := by
  cases ends with
  | turned _ turns => exact .ended turns
  | looked before round _ woken turns =>
      exact before.pollEnds_iff.2 ((roundEnds_woken round woken).2 (.ended turns))

/-- When it is looked at later, a fiber that waits has ended before a point in time, or time has got
    to that point. -/
theorem Waits.ends_or_meets (waits : Waits settings observe id limit f k f₁ k₁)
    (async : settings.mode = .async) (separate : f.Separate id k)
    (later : RoundEnds settings observe id f₁ k₁ x k') :
    EndsBefore settings observe id limit f k x k' ∨
      ∃ f₂ k₂, Meets settings observe id limit f k f₂ k₂ := by
  obtain ⟨k₂, round, rounds, drives⟩ := later
  induction rounds generalizing f₁ k₁ k₂ with
  | zero =>
      obtain ⟨fuel, run⟩ := drives
      cases run
  | succ rounds ih =>
      have upToDate := waits.upToDate async separate
      by_cases early : k₂.now < limit
      · rcases driveEndsIn_succ.1 drives with ⟨woken, ended | ⟨f₃, k₃, k₄, turns, round', rest⟩⟩ |
          ⟨away, k₃, round', rest⟩
        · exact .inl (.looked waits round early woken ended)
        · exact ih (.looked waits round early woken turns) k₄ round' rest
        · exact ih (.passed waits round early away) k₃ round' rest
      · -- The clock has moved, and gone to this point or farther.
        cases round with
        | busy batch _ => exact absurd ((upToDate.1.runBatch batch).2 ▸ upToDate.2) early
        | @idle _ _ time batch idle next =>
            rw [advance_eq] at early
            refine .inr ⟨_, _, .later waits batch idle fun t found => ?_⟩
            rw [next] at found
            cases found
            exact Nat.le_of_not_lt early

/-- A poll that ends does so before a point in time, or that point is reached on the way. -/
theorem PollEnds.ends_or_meets (polls : PollEnds settings observe id f k x k')
    (async : settings.mode = .async) (separate : f.Separate id k) (now : k.now ≤ limit) :
    EndsBefore settings observe id limit f k x k' ∨
      ∃ f₂ k₂, Meets settings observe id limit f k f₂ k₂ := by
  rcases Nat.eq_or_lt_of_le now with same | early
  · exact .inr ⟨f, k, .already same⟩
  · rcases polls with ended | ⟨turns, round, later⟩
    · exact .inl (.turned early ended)
    · exact (Waits.turned early turns).ends_or_meets async separate ⟨_, round, later⟩

/-- A fiber that ends before a point in time does so before it. -/
theorem EndsBefore.now (ends : EndsBefore settings observe id limit f k x k')
    (async : settings.mode = .async) : k'.now < limit := by
  cases ends with
  | turned early turns => exact turns.now async (by simp) ▸ early
  | looked _ _ early _ turns => exact turns.now async (by simp) ▸ early

/-- The point in time that is met is the time of the kernel. -/
theorem Meets.now (meets : Meets settings observe id limit f k f₁ k₁) : k₁.now = limit := by
  cases meets with
  | already now => exact now
  | later => rw [advance_eq]; rfl

/-- When time gets to a point while a fiber waits, the fiber does not end before. -/
theorem Meets.le (meets : Meets settings observe id limit f k f₁ k₁)
    (async : settings.mode = .async) (separate : f.Separate id k)
    (polls : PollEnds settings observe id f k x k') : limit ≤ k'.now := by
  cases meets with
  | already now => exact now ▸ (separate.pollEnds async polls).1
  | later waits batch idle next =>
      obtain ⟨k₃, round, later⟩ := waits.pollEnds_iff.1 polls
      -- The round cannot have been a busy one, so the clock went to the next wake-up, which is no
      -- earlier.
      have after := ((waits.upToDate async separate).1.round round).1.driveEnds async later
      cases round with
      | busy batch' busy =>
          rw [Kernel.runBatch_unique batch' batch, idle] at busy
          cases busy
      | @idle _ _ time batch' _ found =>
          obtain rfl := Kernel.runBatch_unique batch' batch
          rw [advance_eq] at after
          exact Nat.le_trans (next time found) after.1

/-- The look at a fiber when time has got to a point is one that it would have had anyway, or it is
    in vain. -/
theorem Meets.own_or_idle (meets : Meets settings observe id limit f k f₁ k₁)
    (async : settings.mode = .async) (separate : f.Separate id k) :
    (∀ x k', PollEnds settings observe id f k x k' ↔ PollEnds settings observe id f₁ k₁ x k') ∨
      f₁.Idle [id] k₁ := by
  cases meets with
  | already now => exact .inl fun _ _ => Iff.rfl
  | @later _ k₁ _ k₂ waits batch idle next =>
      have before := ((waits.upToDate async separate).1.runBatch batch).1.modifyStore
        (observe k₂.now)
      have away : id ∉ k₂.woken := not_mem_of_isBusy idle
      have upToDate := before.advance away next
      -- Its own wake-up may fall on this very point in time; then it is up to the fiber whether it
      -- is woken by it.
      by_cases own : k₂.nextWake (.fiber settings id f₁) = some limit
      · have round : k₁.Round observe (.fiber settings id f₁) _ := .idle batch idle own
        by_cases woken : Kernel.isWoken
            ((k₂.modifyStore (observe k₂.now)).advance (.fiber settings id f₁) limit) id = true
        · exact .inl fun x k' => waits.pollEnds_iff.trans (roundEnds_woken round woken)
        · refine .inr (idle_unwake id (upToDate.woken_or_idle.resolve_left fun mem => woken ?_))
          simpa [Kernel.isWoken] using mem
      · have due : f₁.dueAt limit [id] = [] := dueAt_eq_nil f₁ fun t wake => by
          obtain ⟨least, found, le⟩ := nextWake_le (k := k₂) (.inl wake)
          have bound := next least found
          have other : least ≠ limit := fun same => own (same ▸ found)
          omega
        exact .inr (idle_unwake id
          (upToDate.woken_or_idle.resolve_left (before.not_mem_advance due (.inl rfl))))

end Alone

section Limited

variable {settings : Settings} {observe : Nat → σ → σ} {id : FiberId} {limit : Nat}
  {d : Duration} {point : Suspension σ} {f f₁ f₂ : Fiber σ} {k k₁ k₂ k' : Kernel σ}
  {x y : Outcome}

/-- The next point in time, if there is a limit. -/
theorem nextWake_limited (k : Kernel σ) :
    k.nextWake (.fiber settings id (.limited d limit f point)) =
      earlier (k.nextWake (.fiber settings id f)) (some limit) := by
  have comm : ∀ a b c : Option Nat, earlier (earlier a b) c = earlier (earlier a c) b := by
    intro a b c
    cases a <;> cases b <;> cases c <;> simp only [earlier, Option.some.injEq] <;> omega
  unfold Kernel.nextWake
  rw [Await.nextWake, Await.nextWake, nextWake]
  generalize f.nextWake = first
  induction k.tasks generalizing first with
  | nil => rfl
  | cons task rest ih => rw [List.foldl_cons, List.foldl_cons, comm, ih]

/-- Before the limit, the same happens between two looks. -/
theorem round_limited (round : k.Round observe (.fiber settings id f) k')
    (early : k'.now < limit) :
    k.Round observe (.fiber settings id (.limited d limit f point)) k' := by
  cases round with
  | busy batch busy => exact .busy batch busy
  | @idle _ k₁ time batch idle next =>
      have before : time < limit := by
        rw [advance_eq] at early
        exact early
      -- Before the deadline nothing but the inner fiber is due.
      have same : (k₁.modifyStore (observe k₁.now)).advance (.fiber settings id f) time =
          (k₁.modifyStore (observe k₁.now)).advance
            (.fiber settings id (.limited d limit f point)) time := by
        rw [advance_eq, advance_eq, dueAt, if_neg (Nat.not_le_of_lt before), List.append_nil]
      rw [same]
      refine .idle batch idle ?_
      rw [nextWake_limited, next, earlier, Nat.min_eq_left (Nat.le_of_lt before)]

/-- Before the limit, a fiber waits as it would without it. -/
theorem Waits.limited (waits : Waits settings observe id limit f k f₁ k₁)
    (async : settings.mode = .async) :
    Waits settings observe id limit (.limited d limit f point) k (.limited d limit f₁ point)
      k₁ := by
  have turned : ∀ {f k f₁ k₁}, k.now < limit → Turns settings [id] f k (.waiting f₁) k₁ →
      Turns settings [id] (.limited d limit f point) k
        (.waiting (.limited d limit f₁ point)) k₁ := fun early turns =>
    turns.limited (by rw [turns.now async (by simp)]; exact Nat.not_le_of_lt early)
  induction waits with
  | turned early turns => exact .turned early (turned early turns)
  | looked _ round early woken turns ih =>
      exact .looked ih (round_limited round early) early woken (turned early turns)
  | passed _ round early away ih => exact .passed ih (round_limited round early) early away

/-- A fiber that ends before its limit does so as it would without it, and then it goes on. -/
theorem EndsBefore.limited (ends : EndsBefore settings observe id limit f k x k₁)
    (async : settings.mode = .async) :
    PollEnds settings observe id (.limited d limit f point) k y k' ↔
      PollEnds settings observe id (.ready (point.resume (.unwind (inTime x)))) k₁ y k' := by
  cases ends with
  | turned _ turns => exact (Continues.limited turns).pollEnds_iff
  | looked before round early woken turns =>
      rw [(before.limited async).pollEnds_iff, roundEnds_woken (round_limited round early) woken]
      exact (Continues.limited turns).pollEnds_iff

/-- When time has got to the limit, the fiber is looked at. -/
theorem Meets.limited (meets : Meets settings observe id limit f k f₁ k₁)
    (async : settings.mode = .async) :
    PollEnds settings observe id (.limited d limit f point) k y k' ↔
      PollEnds settings observe id (.limited d limit f₁ point) k₁ y k' := by
  cases meets with
  | already now => exact Iff.rfl
  | @later _ k₁ _ k₂ waits batch idle next =>
      -- The clock goes to the deadline, since the inner fiber has no wake-up before it.
      have round : k₁.Round observe (.fiber settings id (.limited d limit f₁ point))
          ((k₂.modifyStore (observe k₂.now)).advance
            (.fiber settings id (.limited d limit f₁ point)) limit) := by
        refine .idle batch idle ?_
        rw [nextWake_limited]
        cases found : k₂.nextWake (.fiber settings id f₁) with
        | none => rfl
        | some time => rw [earlier, Nat.min_eq_right (next time found)]
      have woken : Kernel.isWoken ((k₂.modifyStore (observe k₂.now)).advance
          (.fiber settings id (.limited d limit f₁ point)) limit) id = true := by
        rw [advance_eq, dueAt, if_pos (Nat.le_refl _)]
        simp [Kernel.isWoken, mem_enqueueAll]
      have same : Kernel.unwake ((k₂.modifyStore (observe k₂.now)).advance
            (.fiber settings id (.limited d limit f₁ point)) limit) id =
          Kernel.unwake ((k₂.modifyStore (observe k₂.now)).advance (.fiber settings id f₁) limit)
            id := by
        rw [advance_eq, advance_eq, dueAt, if_pos (Nat.le_refl _), Kernel.unwake, Kernel.unwake]
        simp [filter_enqueueAll]
      rw [← same]
      exact (waits.limited async).pollEnds_iff.trans (roundEnds_woken round woken)

end Limited

end Fiber

end EffectKernel
