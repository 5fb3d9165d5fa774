import EffectKernel.Effect.Many
import EffectKernel.Proofs.Attending
import EffectKernel.Proofs.Courses
import EffectKernel.Proofs.Parallel
import Mathlib.Data.Finset.Lattice.Fold
import Mathlib.Data.Finset.Max
import Mathlib.Data.Prod.Lex
import Mathlib.Order.Lattice.Nat

/-!
# All and the First

What becomes of children that run side by side and do not influence each other. Each of them has a
time at which it ends, if it ever does, and an outcome; and that is all that counts. The order in
which they end is the order of these times. If two of them end at the same time, neither of them
ever waits, and then the one in front comes first.

To collect the values of all is to wait for the last of them, unless one does not succeed: then the
first of those is what the whole comes to, then and there. To keep the first success is the same
with failures and successes exchanged, but when all fail, it is the last failure that is left.

Whoever decides the whole without ever waiting does so before those behind it have had a turn. So
nothing has to be known about them: they could do anything if they were begun.

## Main definitions

* `Timing.decides`, `Begun`: Who decides the whole, and who is begun at all.
* `Independent`: Children that do not influence each other.
* `Earliest`: The first of those that decide the whole.
* `Effect.EndsAt`: An effect ends at a point in time, wherever it is run.

## Theorems

* `Effect.ComesTo.flatMap`: What an effect comes to that goes on from the value of another one.
* `Independent.exists_earliest`: If anybody decides the whole, somebody is the first.
* `allPar_by_completion`: What the values of all children come to.
* `race_by_completion`: What the first success comes to.
-/

namespace EffectKernel

variable {σ : Type}

/-! ### After the Node -/

/-- The outcome with the ends of children, if these are what it holds, as a list of values. -/
def Outcome.gathered : Outcome → Outcome
  | .success v =>
    match Outcome.listOf? v with
    | some ends =>
      match ends.mapM Either.right? with
      | some values => .success (.list values)
      | none => .die (.typeMismatch "a successful outcome")
    | none => .die (.typeMismatch "the ends of children")
  | .fail e => .fail e
  | .die d => .die d

/-- Children that all succeeded have values. -/
theorem Outcome.gathered_toList (values : List Value) :
    Outcome.gathered (.success (Outcome.toList (values.map .right))) =
      .success (.list values) := by
  simp only [Outcome.gathered, Outcome.listOf?_toList, Either.mapM_right?_map_right]

/-- The machine that waits, with one more frame to hand its outcome to. -/
def Suspension.push (frame : Frame σ) (point : Suspension σ) : Suspension σ :=
  { point with stack := frame :: point.stack }

/-- The frame of `allPar` makes a list of values. -/
theorem Fiber.continues_gathered {settings : Settings} {path : Path} {point : Suspension σ}
    {k : Kernel σ} {next : Value → Act σ (Effect σ)}
    (makes : ∀ v, next v = match Outcome.listOf? v with
      | some ends => pure (Effect.successes ends)
      | none => pure (Effect.die (.typeMismatch "the ends of children"))) (x : Outcome) :
    Continues settings path (.ready ((point.push (.flatMap next)).resume (.unwind x))) k
      (.ready (point.resume (.unwind x.gathered))) k := by
  have passed {x : Outcome} (step : Machine.step settings
      ⟨.unwind x, point.env, .flatMap next :: point.stack⟩ k.world =
        (.next ⟨.unwind x, point.env, point.stack⟩, k.world)) :
      Continues settings path (.ready ((point.push (.flatMap next)).resume (.unwind x))) k
        (.ready (point.resume (.unwind x))) k :=
    continues_next (Machine.step_inside point.hosts step)
  -- Whatever is made of the ends is an effect that ends at once.
  have goesOn : ∀ v y, next v = pure (.exit (pure y)) → Continues settings path
      (.ready ((point.push (.flatMap next)).resume (.unwind (.success v)))) k
      (.ready (point.resume (.unwind y))) k := fun v y h => by
    have made : Machine.step settings
      ⟨.unwind (.success v), point.env, .flatMap next :: point.stack⟩
        k.world = (.next ⟨.eval (.exit (pure y)), point.env, point.stack⟩, k.world) := by
      simp only [Machine.step, Machine.stepAt, Machine.unwindStep, h]
      rfl
    exact (continues_next (Machine.step_inside point.hosts made)).trans
      (continues_next (Machine.step_inside point.hosts rfl))
  cases x with
  | fail e => exact passed rfl
  | die d => exact passed rfl
  | success v =>
      refine goesOn v _ ((makes v).trans ?_)
      simp only [Outcome.gathered, Effect.successes]
      cases Outcome.listOf? v with
      | none => rfl
      | some ends =>
          simp only
          cases ends.mapM Either.right? <;> rfl

namespace FiberPlace

variable {p : FiberPlace σ} {result : Option (Nat × Outcome)} {frame : Frame σ}
  {point : Suspension σ}
  {horizon : Nat} {finish : Outcome → Outcome}

/-- A frame makes something of every outcome and leaves it at that. -/
def Finishes (p : FiberPlace σ) (frame : Frame σ) (point : Suspension σ)
    (finish : Outcome → Outcome) : Prop :=
  ∀ x k, Fiber.Continues p.settings p.path (.ready ((point.push frame).resume (.unwind x))) k
    (.ready (point.resume (.unwind (finish x)))) k

/-- A fiber goes on through one more frame. -/
theorem AttainsInTurn.through {next next' : (Nat → Bool) → Option (Fiber σ) → Kernel σ → Prop}
    {mine : Nat → Bool} {f : Fiber σ} {k : Kernel σ} (finishes : p.Finishes frame point finish)
    (attains : p.AttainsInTurn (.onward result (point.push frame) horizon) next mine f k)
    (later : ∀ {mine f k}, next mine f k → next' mine f k) :
    p.AttainsInTurn (.onward (result.map fun e => (e.1, finish e.2)) point horizon) next' mine f
      k := by
  rcases attains with ⟨prompt, f', mine', k', turns, behaves, found⟩ |
    ⟨x, mine', k', now, behaves, errands, continues⟩
  · exact .inl ⟨prompt, f', mine', k', turns, behaves, later found⟩
  · exact .inr ⟨finish x, mine', k', by rw [now]; rfl, behaves, errands,
      continues.trans (finishes x k')⟩

/-- A fiber that attains its aim above one more frame goes on from there through the frame. The
    induction is on the turns that are left. -/
theorem Attains.through {n : Nat} {mine : Nat → Bool} {fiber : Option (Fiber σ)} {k : Kernel σ}
    (finishes : p.Finishes frame point finish)
    (attains : p.Attains (.onward result (point.push frame) horizon) n mine fiber k) :
    p.Attains (.onward (result.map fun e => (e.1, finish e.2)) point horizon) n mine fiber k := by
  induction n generalizing mine fiber k with
  | zero => exact attains.elim
  | succ n ih =>
      rcases attains with ⟨tidy, attains⟩
      refine ⟨tidy, fun k' meanwhile within => ?_⟩
      rcases attains k' meanwhile within with ⟨ahead, fibers, errands⟩
      -- The clock and the deadline are the same for both aims, so only what a turn arrives at has
      -- to be carried through the frame.
      refine ⟨ahead, fun f hf => ?_, fun task htask woken => ?_⟩
      · rcases fibers f hf with ⟨onTime, turn⟩
        refine ⟨fun t due => onTime t ?_,
          fun woken => AttainsInTurn.through finishes (turn woken) ih⟩
        simpa [Aim.onward] using due
      · rcases errands task htask woken with ⟨mine', k'', runs, behaves, attains⟩
        exact ⟨mine', k'', runs, behaves, ih attains⟩

end FiberPlace

/-- What an effect comes to that goes on from the value of another one, if it ends at once then. -/
theorem Effect.ComesTo.flatMap {source : Effect σ} {next : Value → Act σ (Effect σ)}
    {settings : Settings} {contract : StoreContract σ} {env : Context} {store : σ}
    {now horizon : Nat}
    {result : Option (Nat × Outcome)} {finish : Outcome → Outcome}
    (finishes : ∀ path (point : Suspension σ) x (k : Kernel σ), Fiber.Continues settings path
      (.ready ((point.push (.flatMap next)).resume (.unwind x))) k
      (.ready (point.resume (.unwind (finish x)))) k)
    (comes : source.ComesTo settings contract env store now horizon result) :
    (Effect.flatMap source next).ComesTo settings contract env store now horizon
      (result.map fun e => (e.1, finish e.2)) := by
  rcases comes with ⟨turns, comes⟩
  refine ⟨turns, fun id around point k valid henv hstore hnow => ?_⟩
  have finishes' : FiberPlace.Finishes ⟨settings, id, around, contract⟩
    (.flatMap next) point finish :=
    fun x k => finishes _ point x k
  -- The first turn is the source's, one frame further down.
  have inner := comes id around (point.push (.flatMap next)) k valid henv hstore hnow
  exact .of_continues (Fiber.continues_next (Machine.step_inside point.hosts rfl)) (.refl _ _)
    (FiberPlace.AttainsInTurn.through finishes' inner (FiberPlace.Attains.through finishes'))

/-! ### Who Decides, and Who is Begun -/

namespace Timing

/-- It ends with an outcome that decides the whole. -/
def decides (decisive : Outcome → Bool) (timing : Timing) : Bool :=
  timing.ends.any fun e => decisive e.2

/-- A child decides the whole if it ends, and its outcome is decisive. -/
theorem decides_iff {decisive : Outcome → Bool} {timing : Timing} :
    timing.decides decisive = true ↔ ∃ t x, timing.ends = some (t, x) ∧ decisive x = true := by
  unfold decides
  rcases timing.ends with _ | ⟨t, x⟩
  · simp
  · refine ⟨fun h => ⟨t, x, rfl, h⟩, ?_⟩
    rintro ⟨_, _, ⟨⟩, h⟩
    exact h

end Timing

/-- The child at a position is begun: nobody in front of it decides the whole without waiting. -/
def Begun (decisive : Outcome → Bool) (timings : Nat → Timing) (total i : Nat) : Prop :=
  i < total ∧ ∀ j < i, (timings j).prompt = true → (timings j).decides decisive = false

instance (decisive : Outcome → Bool) (timings : Nat → Timing) (total i : Nat) :
    Decidable (Begun decisive timings total i) :=
  inferInstanceAs (Decidable (_ ∧ _))

/-- The timings of children that are run side by side. Those that are not begun never end. -/
def timingsBegun (decisive : Outcome → Bool) (timings : Nat → Timing) (total i : Nat) : Timing :=
  if Begun decisive timings total i then timings i else ⟨none, false⟩

section Begun

variable {decisive : Outcome → Bool} {timings : Nat → Timing} {total i j : Nat}

/-- A child that is begun ends when and how it would anywhere. -/
theorem timingsBegun_of_begun (begun : Begun decisive timings total i) :
    timingsBegun decisive timings total i = timings i :=
  if_pos begun

/-- Who ends has been begun. -/
theorem begun_of_ends {t : Nat} {x : Outcome}
    (ends : (timingsBegun decisive timings total i).ends = some (t, x)) :
    Begun decisive timings total i ∧ (timings i).ends = some (t, x) := by
  unfold timingsBegun at ends
  split at ends
  · next begun => exact ⟨begun, ends⟩
  · cases ends

/-- In front of a child that is not begun there is one that is, and decides the whole without
    waiting. -/
theorem exists_begun_decides (lt : i < total) (not : ¬Begun decisive timings total i) :
    ∃ j < i, Begun decisive timings total j ∧ (timings j).prompt = true ∧
      (timings j).decides decisive = true := by
  induction i using Nat.strongRecOn with
  | ind i ih =>
      have some : ∃ j < i, (timings j).prompt = true ∧ (timings j).decides decisive = true := by
        by_contra none
        exact not ⟨lt, fun j hj prompt => Bool.eq_false_iff.2 fun decides =>
          none ⟨j, hj, prompt, decides⟩⟩
      rcases some with ⟨j, hj, prompt, decides⟩
      by_cases begun : Begun decisive timings total j
      · exact ⟨j, hj, begun, prompt, decides⟩
      · rcases ih j hj (Nat.lt_trans hj lt) begun with ⟨l, hl, found⟩
        exact ⟨l, Nat.lt_trans hl hj, found⟩

/-- If no child decides the whole, all are begun. -/
theorem begun_of_none_decides (none : ∀ i < total, (timings i).decides decisive = false)
    (lt : i < total) : Begun decisive timings total i :=
  ⟨lt, fun j hj _ => none j (Nat.lt_trans hj lt)⟩

/-- If any child decides the whole, one of those that are begun does. -/
theorem exists_begun (some : ∃ i < total, (timings i).decides decisive = true) :
    ∃ i, Begun decisive timings total i ∧ (timings i).decides decisive = true := by
  rcases some with ⟨i, lt, decides⟩
  by_cases begun : Begun decisive timings total i
  · exact ⟨i, begun, decides⟩
  · rcases exists_begun_decides lt begun with ⟨j, -, begun, -, decides⟩
    exact ⟨j, begun, decides⟩

end Begun

/-- The first of the children that are begun and decide the whole. -/
structure Earliest (decisive : Outcome → Bool) (timings : Nat → Timing) (total i time : Nat)
    (x : Outcome) : Prop where
  /-- It is begun. -/
  begun : Begun decisive timings total i
  /-- It ends then and so. -/
  ends : (timings i).ends = some (time, x)
  /-- That decides the whole. -/
  decides : decisive x = true
  /-- All others that decide the whole do so later, or stand behind it. -/
  first : ∀ j, Begun decisive timings total j → j ≠ i → ∀ t y, (timings j).ends = some (t, y) →
    decisive y = true → time < t ∨ time = t ∧ i < j

/-- Children run side by side with the same services, from a point in time and a state of the
    program on, that do not influence each other. -/
structure Independent (decisive : Outcome → Bool) (settings : Settings) (whole : StoreContract σ)
    (contract : Nat → StoreContract σ) (env : Context) (store : σ) (now : Nat)
    (children : List (Effect σ)) (timings : Nat → Timing) : Prop where
  /-- Each of them bears what the others do. -/
  unite : whole.Unite contract (Begun decisive timings children.length)
  /-- Each of them goes as its timing says whatever the others do. So it does when it is run alone,
      by `Effect.Takes.runExit`. -/
  takes : ∀ i, ∀ h : i < children.length, Begun decisive timings children.length i → ∀ horizon,
    children[i].Takes settings (contract i) env store now horizon (timings i)
  /-- Those that end at the same time never wait. -/
  distinct : ∀ i j, Begun decisive timings children.length i →
    Begun decisive timings children.length j → i ≠ j → ∀ t x y, (timings i).ends = some (t, x) →
      (timings j).ends = some (t, y) → (timings i).prompt = true ∧ (timings j).prompt = true

/-- An effect ends with an outcome at a point in time, run with these services and this state of
    the program from some point in time on. -/
structure Effect.EndsAt (effect : Effect σ) (settings : Settings) (contract : StoreContract σ)
    (env : Context) (store : σ) (now time : Nat) (x : Outcome) : Prop where
  /-- Wherever it is run, whatever frames are around it and whatever others do, the fiber goes on
      from there with the same services, and nothing but errands is left. -/
  anywhere : ∀ horizon, time ≤ horizon →
    effect.ComesTo settings contract env store now horizon (some (time, x))
  /-- Where there is nothing else, the run is over then, and nothing but errands is left. -/
  alone : ∀ (k : Kernel σ) (observe : Nat → σ → σ), k.world.store = store → k.now = now →
    k.Numbered → k.tasks = [] →
    (∀ now s, contract.rely s (observe now s) ∧ contract.guarantee s (observe now s)) →
    k.Exits observe settings contract.guarantee effect env time x

/-- An effect that comes to its outcome at a time, however far it is looked at, ends then when it is
    run alone. -/
theorem Effect.EndsAt.of_comesTo {effect : Effect σ} {settings : Settings}
    {contract : StoreContract σ}
    {env : Context} {store : σ} {now time : Nat} {x : Outcome} (after : now ≤ time)
    (comes : ∀ horizon, time ≤ horizon →
      effect.ComesTo settings contract env store now horizon (some (time, x))) :
    effect.EndsAt settings contract env store now time x := by
  refine ⟨comes, fun k observe hstore hnow numbered tasks observes => ?_⟩
  subst hstore hnow
  exact (comes time (Nat.le_refl _)).runExit after (Nat.le_refl _) observes numbered tasks

/-- An effect does not end before it is begun. -/
theorem Effect.Takes.le {effect : Effect σ} {settings : Settings} {contract : StoreContract σ}
    {env : Context} {store : σ} {now horizon time : Nat} {timing : Timing} {x : Outcome}
    (takes : effect.Takes settings contract env store now horizon timing) (within : now ≤ horizon)
    (ends : timing.ends = some (time, x)) : now ≤ time := by
  rcases takes with ⟨n, takes⟩
  -- It could be begun where there is nothing else.
  let k : Kernel σ := ⟨⟨store, now, #[]⟩, [0], [], [], [], [], 1⟩
  have valid : FiberPlace.Valid ⟨settings, 0, [], contract⟩ k :=
    ⟨List.not_mem_nil, fun id hid => by rw [List.mem_singleton.1 hid]; exact Nat.zero_lt_one,
      fun id hid => by rw [List.mem_singleton.1 hid]; exact Nat.zero_lt_one, nofun⟩
  have attains := takes 0 [] k valid List.mem_cons_self rfl rfl
  exact (attains.onTime within time (by simp [Timing.aim, ends])).1

namespace Independent

variable {decisive : Outcome → Bool} {settings : Settings} {whole : StoreContract σ}
  {contract : Nat → StoreContract σ} {env : Context} {store : σ} {now horizon : Nat}
  {children : List (Effect σ)} {timings : Nat → Timing} {join : Join} {node : Effect σ}
  {result : Option (Nat × Outcome)} {i time : Nat} {x : Outcome}

/-- The children that are run side by side do not end at the same time, unless they never wait. -/
theorem distinct_begun
    (children' : Independent decisive settings whole contract env store now children timings)
    (left : List Nat) : Join.Distinct (timingsBegun decisive timings children.length) left := by
  intro i _ j _ hne t x y hi hj
  rcases begun_of_ends hi with ⟨begunI, endsI⟩
  rcases begun_of_ends hj with ⟨begunJ, endsJ⟩
  rw [timingsBegun_of_begun begunI, timingsBegun_of_begun begunJ]
  exact children'.distinct i j begunI begunJ hne t x y endsI endsJ

/-- A child that is begun does not end before. -/
theorem le (children' : Independent decisive settings whole contract env store now children timings)
    (begun : Begun decisive timings children.length i) (ends : (timings i).ends = some (time, x)) :
    now ≤ time :=
  (children'.takes i begun.1 begun now).le (Nat.le_refl _) ends

/-- If anybody decides the whole, somebody is the first. -/
theorem exists_earliest
    (children' : Independent decisive settings whole contract env store now children timings)
    (some : ∃ i < children.length, (timings i).decides decisive = true) :
    ∃ i time x, Earliest decisive timings children.length i time x := by
  -- Among the children that were begun and decide, one completes first; it is the first decisive
  -- one.
  let deciding := (List.range children.length).filter fun i =>
    decide (Begun decisive timings children.length i) && (timings i).decides decisive
  have mem : ∀ i, i ∈ deciding ↔ Begun decisive timings children.length i ∧
      (timings i).decides decisive = true := by
    intro i
    simp only [deciding, List.mem_filter, List.mem_range, Bool.and_eq_true, decide_eq_true_eq]
    exact and_iff_right_of_imp fun h => h.1.1
  have ends : ∃ i ∈ deciding, (timingsBegun decisive timings children.length i).ends.isSome := by
    rcases exists_begun some with ⟨i, begun, decides⟩
    rcases Timing.decides_iff.1 decides with ⟨t, x, ends, -⟩
    exact ⟨i, (mem i).2 ⟨begun, decides⟩, by rw [timingsBegun_of_begun begun, ends]; rfl⟩
  rcases Join.exists_first (children'.distinct_begun deciding) (List.nodup_range.filter _) ends with
    ⟨i, hi, t, x, hends, first⟩
  rcases (mem i).1 hi with ⟨begun, decides⟩
  rcases begun_of_ends hends with ⟨-, hends'⟩
  rcases Timing.decides_iff.1 decides with ⟨t', x', ends', decisive'⟩
  rw [hends'] at ends'
  cases ends'
  refine ⟨i, t, x, begun, hends', decisive', fun j begunJ hne s y endsJ decisiveJ => ?_⟩
  have hj : j ∈ deciding := (mem j).2 ⟨begunJ, Timing.decides_iff.2 ⟨s, y, endsJ, decisiveJ⟩⟩
  rcases first j hj hne t x hends s y (by rw [timingsBegun_of_begun begunJ, endsJ]) with h | h
  · exact .inl h
  · exact .inr ⟨h.1, h.2.2.2⟩

/-- The node comes to what becomes of the children that are begun. -/
theorem comesTo
    (children' : Independent decisive settings whole contract env store now children timings)
    (settles : ∀ x, join.settles x = decisive x)
    (begins : ∀ path (point : Suspension σ) (k : Kernel σ), Fiber.Continues settings path
      (.ready (point.resume (.eval node))) k
      (.joining join (Kernel.enlist point.env children 0 k).1 point)
      (Kernel.enlist point.env children 0 k).2)
    (within : now ≤ horizon)
    (hasResult : Join.HasResult (timingsBegun decisive timings children.length) horizon join now
      (List.range children.length) result) :
    node.ComesTo settings whole env store now horizon result := by
  refine Effect.comesTo_join begins children'.unite children'.distinct_begun
    (fun not => by rw [timingsBegun, if_neg not]) within (fun i h begun => ?_)
    (fun i h not => ?_) hasResult
  · rw [timingsBegun_of_begun begun]
    exact children'.takes i h begun horizon
  -- A child that was not begun has one in front of it that decides in its first turn and so settles
  -- the join.
  · rcases exists_begun_decides h not with ⟨j, hj, begun, prompt, decides⟩
    refine ⟨j, hj, begun, ?_, fun t y ends => ?_⟩
    · rw [timingsBegun_of_begun begun]
      exact prompt
    · rcases Timing.decides_iff.1 decides with ⟨t', y', ends', decisive'⟩
      rw [timingsBegun_of_begun begun, ends'] at ends
      cases ends
      rw [settles]
      exact decisive'

/-- The first child that decides the whole is what the join comes to. -/
theorem hasResult_earliest
    (children' : Independent decisive settings whole contract env store now children timings)
    (settles : ∀ x, join.settles x = decisive x)
    (earliest : Earliest decisive timings children.length i time x) :
    Join.HasResult (timingsBegun decisive timings children.length) horizon join now
      (List.range children.length) (some (time, x)) := by
  have ends : (timingsBegun decisive timings children.length i).ends = some (time, x) := by
    rw [timingsBegun_of_begun earliest.begun, earliest.ends]
  refine Join.hasResult_settled (children'.distinct_begun _) List.nodup_range
    (List.mem_range.2 earliest.begun.1) ends ((settles x).trans earliest.decides)
    fun j _ hne t y hj => ?_
  rcases begun_of_ends hj with ⟨begun, hj'⟩
  -- Another completion is in the way only if it is decisive, and then it is no earlier.
  cases hy : decisive y with
  | false => exact .inr ((settles y).trans hy)
  | true =>
      refine .inl fun t₁ x₁ h₁ t₂ x₂ h₂ => ?_
      rw [ends] at h₁
      rw [hj] at h₂
      cases h₁
      cases h₂
      rcases earliest.first j begun hne t y hj' hy with before | ⟨rfl, front⟩
      · exact .inl before
      · have prompt := children'.distinct_begun [i, j] i (by simp) j (by simp) (Ne.symm hne) _ _ _
          ends hj
        exact .inr ⟨rfl, prompt.1, prompt.2, front⟩

/-- If nobody decides the whole and somebody never ends, the join comes to nothing. -/
theorem hasResult_never
    (children' : Independent decisive settings whole contract env store now children timings)
    (settles : ∀ x, join.settles x = decisive x)
    (none : ∀ i < children.length, (timings i).decides decisive = false)
    (never : ∃ i < children.length, (timings i).ends = .none) :
    Join.HasResult (timingsBegun decisive timings children.length) horizon join now
      (List.range children.length) .none := by
  refine Join.hasResult_never (children'.distinct_begun _) List.nodup_range
    (fun i hi t x ends _ => ?_) ?_
  · rcases begun_of_ends ends with ⟨-, ends⟩
    rw [settles]
    by_contra decides
    have := none i (List.mem_range.1 hi)
    rw [Timing.decides_iff.2 ⟨t, x, ends, by simpa using decides⟩] at this
    cases this
  -- The child that never ends is still pending when all others have ended.
  · rcases never with ⟨i, hi, never⟩
    refine ⟨i, List.mem_range.2 hi, fun t x ends => ?_⟩
    rw [(begun_of_ends ends).2] at never
    cases never

end Independent

/-! ### The Values of All -/

namespace Outcome

/-- What is there to be collected no more. -/
def breaks : Outcome → Bool
  | .success _ => false
  | _ => true

/-- What ends a race. -/
def wins : Outcome → Bool
  | .fail _ => false
  | _ => true

theorem settles_gather (total : Nat) (ends : List (Nat × Either Value Value)) (x : Outcome) :
    (Join.gather total .shortCircuit ends).settles x = x.breaks := by
  cases x <;> rfl

theorem settles_compete (last : Option Value) (x : Outcome) :
    (Join.compete last).settles x = x.wins := by
  cases x <;> rfl

/-- An outcome that decides the whole is what the whole comes to. -/
theorem gathered_of_breaks {x : Outcome} (breaks : x.breaks = true) : x.gathered = x := by
  cases x with
  | success v => cases breaks
  | fail e => rfl
  | die d => rfl

end Outcome

section Final

variable {settings : Settings} {whole : StoreContract σ}
  {contract : Nat → StoreContract σ} {env : Context} {store : σ} {now horizon : Nat}
  {children : List (Effect σ)} {timings : Nat → Timing} {result : Option (Nat × Outcome)}

/-- What the values of children that run side by side come to. -/
theorem comesTo_allPar (async : settings.mode = .async)
    (children' : Independent Outcome.breaks settings whole contract env store now children timings)
    (within : now ≤ horizon)
    (hasResult : Join.HasResult (timingsBegun Outcome.breaks timings children.length) horizon
      (.gather children.length .shortCircuit []) now (List.range children.length) result) :
    (Effect.allPar children).ComesTo settings whole env store now horizon
      (result.map fun e => (e.1, e.2.gathered)) :=
  (children'.comesTo (Outcome.settles_gather _ _) (fun _ _ _ => Fiber.continues_all async _) within
    hasResult).flatMap fun _ _ x _ => Fiber.continues_gathered (fun _ => rfl) x

/-- If all children succeed, the join comes to their values when the last of them has ended. -/
theorem Independent.hasResult_values
    (children' : Independent Outcome.breaks settings whole contract env store now children timings)
    {times : Nat → Nat} {values : Nat → Value}
    (all : ∀ i < children.length, (timings i).ends = some (times i, .success (values i))) :
    Join.HasResult (timingsBegun Outcome.breaks timings children.length) horizon
      (.gather children.length .shortCircuit []) now (List.range children.length)
      (some (max now ((Finset.range children.length).sup times), .success (Outcome.toList
        ((List.range children.length).map fun i => .right (values i))))) := by
  -- None decides, so all are begun and each ends as given.
  have none : ∀ i < children.length, (timings i).decides Outcome.breaks = false := fun i hi => by
    unfold Timing.decides
    rw [all i hi]
    rfl
  have ends : ∀ i < children.length, (timingsBegun Outcome.breaks timings children.length i).ends =
      some (times i, .success (values i)) := fun i hi => by
    rw [timingsBegun_of_begun (begun_of_none_decides none hi), all i hi]
  refine Join.hasResult_gathered values (children'.distinct_begun _) List.nodup_range
    (fun i hi => ⟨_, ends i (List.mem_range.1 hi)⟩) (fun i hi => .inl (List.mem_range.2 hi))
    ⟨fun i hi t x h => ?_, ?_⟩
  · rw [ends i (List.mem_range.1 hi)] at h
    cases h
    exact Nat.le_trans (Finset.le_sup (Finset.mem_range.2 (List.mem_range.1 hi)))
      (Nat.le_max_right _ _)
  · rcases Finset.eq_empty_or_nonempty (Finset.range children.length) with hnil | some
    · refine .inl ⟨List.range_eq_nil.2 (Finset.range_eq_empty_iff.1 hnil), ?_⟩
      rw [hnil, Finset.sup_empty]
      exact (Nat.max_zero now).symm
    · -- The last of them ends no earlier than it is begun.
      rcases Finset.exists_mem_eq_sup _ some times with ⟨i, hi, last⟩
      have lt := Finset.mem_range.1 hi
      rw [last, Nat.max_eq_right (children'.le (begun_of_none_decides none lt) (all i lt))]
      exact .inr ⟨i, List.mem_range.2 lt, _, ends i lt⟩

/-- To collect the values of children that run side by side and do not influence each other is to
    wait for the last of them; but the first of them that does not succeed is what the whole comes
    to, then and there. Nobody behind a child that does so without ever waiting is begun. -/
theorem allPar_by_completion (async : settings.mode = .async)
    (children' : Independent Outcome.breaks settings whole contract env store now children
      timings) :
    ((∃ i < children.length, (timings i).decides Outcome.breaks = true) →
      ∃ i time x, Earliest Outcome.breaks timings children.length i time x) ∧
    (∀ i time x, Earliest Outcome.breaks timings children.length i time x →
      (Effect.allPar children).EndsAt settings whole env store now time x) ∧
    (∀ (times : Nat → Nat) (values : Nat → Value),
      (∀ i < children.length, (timings i).ends = some (times i, .success (values i))) →
        (Effect.allPar children).EndsAt settings whole env store now
          (max now ((Finset.range children.length).sup times))
          (.success (.list ((List.range children.length).map values)))) ∧
    ((∀ i < children.length, (timings i).decides Outcome.breaks = false) →
      (∃ i < children.length, (timings i).ends = none) → ∀ horizon, now ≤ horizon →
        (Effect.allPar children).ComesTo settings whole env store now horizon none) := by
  refine ⟨children'.exists_earliest, fun i time x earliest => ?_, fun times values all => ?_,
    fun none never horizon within => ?_⟩
  · have after := children'.le earliest.begun earliest.ends
    refine .of_comesTo after fun horizon within => ?_
    have comes := comesTo_allPar async children' (Nat.le_trans after within)
      (children'.hasResult_earliest (Outcome.settles_gather _ _) earliest)
    rw [Option.map_some, Outcome.gathered_of_breaks earliest.decides] at comes
    exact comes
  · refine .of_comesTo (Nat.le_max_left _ _) fun horizon within => ?_
    have comes := comesTo_allPar async children' (Nat.le_trans (Nat.le_max_left _ _) within)
      (children'.hasResult_values all)
    -- With every slot filled by a value, what is gathered is the list of these values.
    have gathered := Outcome.gathered_toList ((List.range children.length).map values)
    rw [List.map_map] at gathered
    rw [Option.map_some] at comes
    exact gathered ▸ comes
  -- With no decisive child and one that never ends nothing is ever gathered.
  · exact comesTo_allPar async children' within
      (children'.hasResult_never (Outcome.settles_gather _ _) none never)

/-- What a race of children that run side by side comes to. -/
theorem comesTo_race (async : settings.mode = .async)
    (children' : Independent Outcome.wins settings whole contract env store now children timings)
    (within : now ≤ horizon)
    (hasResult : Join.HasResult (timingsBegun Outcome.wins timings children.length) horizon
      (.compete none)
      now (List.range children.length) result) :
    (Effect.race children).ComesTo settings whole env store now horizon result :=
  children'.comesTo (Outcome.settles_compete _) (fun _ _ _ => Fiber.continues_race async) within
    hasResult

/-- If all children fail, the race comes to the failure of the last of them. -/
theorem Independent.hasResult_failure
    (children' : Independent Outcome.wins settings whole contract env store now children timings)
    {times : Nat → Nat} {errors : Nat → Value} {i : Nat} {lastFailure : Option Value}
    (all : ∀ i < children.length, (timings i).ends = some (times i, .fail (errors i)))
    (lt : i < children.length)
    (last : ∀ j < children.length, j ≠ i → times j < times i ∨ times j = times i ∧ j < i) :
    Join.HasResult (timingsBegun Outcome.wins timings children.length) horizon
      (.compete lastFailure)
      now (List.range children.length) (some (times i, .fail (errors i))) := by
  have none : ∀ i < children.length, (timings i).decides Outcome.wins = false := fun i hi => by
    unfold Timing.decides
    rw [all i hi]
    rfl
  have ends : ∀ i < children.length, (timingsBegun Outcome.wins timings children.length i).ends =
      some (times i, .fail (errors i)) := fun i hi => by
    rw [timingsBegun_of_begun (begun_of_none_decides none hi), all i hi]
  refine Join.hasResult_last (children'.distinct_begun _) List.nodup_range (List.mem_range.2 lt)
    (ends i lt) (fun j hj => ⟨_, _, ends j (List.mem_range.1 hj)⟩) fun j hj hne t x h t' x' h' => ?_
  have hj := List.mem_range.1 hj
  have tie := children'.distinct_begun [i, j] j (by simp) i (by simp) hne
  rw [ends j hj] at h
  rw [ends i lt] at h'
  cases h
  cases h'
  -- An equal time is a tie of two prompt children, which complete by position.
  rcases last j hj hne with before | ⟨same, front⟩
  · exact .inl before
  · have prompt := tie (times i) _ _ (by rw [ends j hj, same]) (ends i lt)
    exact .inr ⟨same, prompt.1, prompt.2, front⟩

/-- A race of children that do not influence each other ends with the first of them that does not
    fail, when that does and as it does, whoever has failed before. If all fail, it ends with the
    last failure when the last of them does. -/
theorem race_by_completion (async : settings.mode = .async) (some : children ≠ [])
    (children' : Independent Outcome.wins settings whole contract env store now children timings) :
    ∃ race, Effect.raceOf? children = .ok race ∧
    ((∃ i < children.length, (timings i).decides Outcome.wins = true) →
      ∃ i time x, Earliest Outcome.wins timings children.length i time x) ∧
    (∀ i time x, Earliest Outcome.wins timings children.length i time x →
      race.EndsAt settings whole env store now time x) ∧
    (∀ (times : Nat → Nat) (errors : Nat → Value),
      (∀ i < children.length, (timings i).ends = .some (times i, .fail (errors i))) →
        ∃ l < children.length,
          (∀ j < children.length, j ≠ l → times j < times l ∨ times j = times l ∧ j < l) ∧
          race.EndsAt settings whole env store now (times l) (.fail (errors l))) ∧
    ((∀ i < children.length, (timings i).decides Outcome.wins = false) →
      (∃ i < children.length, (timings i).ends = none) → ∀ horizon, now ≤ horizon →
        race.ComesTo settings whole env store now horizon none) := by
  have built : Effect.raceOf? children = .ok (.race children) := by
    cases children with
    | nil => exact absurd rfl some
    | cons first others => rfl
  refine ⟨_, built, children'.exists_earliest, fun i time x earliest => ?_,
    fun times errors all => ?_, fun none never horizon within => ?_⟩
  · have after := children'.le earliest.begun earliest.ends
    exact .of_comesTo after fun horizon within => comesTo_race async children'
      (Nat.le_trans after within)
      (children'.hasResult_earliest (Outcome.settles_compete _) earliest)
  · -- The last one is the greatest by time, and by position where times are the same.
    rcases Finset.exists_max_image (Finset.range children.length) (fun i => toLex (times i, i))
        ⟨0, Finset.mem_range.2 (List.length_pos_iff.2 some)⟩ with ⟨l, hl, greatest⟩
    have lt := Finset.mem_range.1 hl
    have last : ∀ j < children.length, j ≠ l → times j < times l ∨ times j = times l ∧ j < l :=
      fun j hj hne => by
        rcases Prod.Lex.toLex_le_toLex.1 (greatest j (Finset.mem_range.2 hj)) with h | ⟨same, h⟩
        · exact .inl h
        · exact .inr ⟨same, Nat.lt_of_le_of_ne h hne⟩
    have after : now ≤ times l := children'.le
      (begun_of_none_decides (fun i hi => by rw [Timing.decides, all i hi]; rfl) lt) (all l lt)
    exact ⟨l, lt, last, .of_comesTo after fun horizon within => comesTo_race async children'
      (Nat.le_trans after within) (children'.hasResult_failure all lt last)⟩
  · exact comesTo_race async children' within
      (children'.hasResult_never (Outcome.settles_compete _) none never)

end Final

/-! ### Children That Count -/

/-- Children that all keep to the same contract do not influence each other. -/
theorem Independent.of_contract {decisive : Outcome → Bool} {settings : Settings}
    {whole : StoreContract σ}
    {env : Context} {store : σ} {now : Nat} {children : List (Effect σ)} {timings : Nat → Timing}
    (shared : ∀ a b, whole.guarantee a b → whole.rely a b)
    (takes : ∀ i, ∀ h : i < children.length, Begun decisive timings children.length i → ∀ horizon,
      children[i].Takes settings whole env store now horizon (timings i))
    (distinct : ∀ i < children.length, ∀ j < i, ∀ t x y, (timings i).ends = some (t, x) →
      (timings j).ends ≠ some (t, y)) :
    Independent decisive settings whole (fun _ => whole) env store now children timings := by
  refine ⟨⟨fun _ _ _ h => h, fun _ _ _ h => h, fun _ _ _ a b h => shared a b h⟩, takes,
    fun i j hi hj hne t x y endsI endsJ => ?_⟩
  rcases Nat.lt_or_gt_of_ne hne with front | front
  · exact absurd endsI (distinct j hj.1 i front t y x endsJ)
  · exact absurd endsJ (distinct i hi.1 j front t x y endsI)

namespace Sample

/-- Counts and ends. -/
def counting (x : Outcome) : Act Nat Outcome :=
  Act.update fun n => (x, n + 1)

/-- Sleeps for so many milliseconds, counts and ends. -/
def nap (millis : Nat) (x : Outcome) : Effect Nat :=
  .flatMap (.sleep (Duration.ofMillis millis)) fun _ => pure (.exit (counting x))

/-- Everybody counts upward. -/
def upward : StoreContract Nat :=
  ⟨(· ≤ ·), (· ≤ ·), Nat.le_refl, Nat.le_trans, Nat.le_refl, Nat.le_trans⟩

/-- A nap ends when its time has come. -/
theorem takes_nap {millis : Nat} (long : (Duration.ofMillis millis).isZero = false) (x : Outcome)
    (horizon : Nat) : (nap millis x).Takes ⟨.async, true⟩ upward Context.empty 0 0 horizon
      ⟨some (Kernel.wakeTime 0 (Duration.ofMillis millis), x), false⟩ :=
  Effect.takes_nap rfl rfl long (fun _ _ => rfl) fun s _ => Nat.le_succ s

/-- Three children that count. The one in the middle is the first to end, and it fails. -/
def naps : List (Effect Nat) :=
  [nap 5 (.success (.text "slow")), nap 3 (.fail (.text "broken")), nap 7 (.success .null)]

/-- When and how they end. -/
def napTimings : Nat → Timing
  | 0 => ⟨some (5000000, .success (.text "slow")), false⟩
  | 1 => ⟨some (3000000, .fail (.text "broken")), false⟩
  | _ => ⟨some (7000000, .success .null), false⟩

/-- Children that only sleep do not influence each other. -/
theorem naps_independent (decisive : Outcome → Bool) :
    Independent decisive ⟨.async, true⟩ upward (fun _ => upward) Context.empty 0 0 naps
      napTimings := by
  refine .of_contract (fun _ _ h => h) (fun i h _ horizon => ?_)
    fun i hi j hj t x y endsI endsJ => ?_
  · match i, h with
    | 0, _ => exact takes_nap rfl _ horizon
    | 1, _ => exact takes_nap rfl _ horizon
    | 2, _ => exact takes_nap rfl _ horizon
  · match i, hi, j, hj with
    | 1, _, 0, _ => cases endsI; cases endsJ
    | 2, _, 0, _ => cases endsI; cases endsJ
    | 2, _, 1, _ => cases endsI; cases endsJ

/-- A child that fails at once, and one behind it that would count down. -/
def rash : List (Effect Nat) :=
  [.exit (counting (.fail (.text "broken"))), .exit (Act.update fun _ => (.success .null, 0))]

/-- When and how the first of them ends. About the other one nothing is said. -/
def rashTimings : Nat → Timing
  | 0 => ⟨some (0, .fail (.text "broken")), true⟩
  | _ => ⟨none, false⟩

/-- Behind a child that fails without waiting nothing has to be known of the others. -/
theorem rash_independent : Independent Outcome.breaks ⟨.async, true⟩ upward (fun _ => upward)
    Context.empty 5 0 rash rashTimings := by
  refine .of_contract (fun _ _ h => h) (fun i h begun horizon => ?_) fun i hi j hj t x y endsI => ?_
  · match i, h with
    | 0, _ => exact Effect.takes_act (fun _ _ => rfl) fun s _ => Nat.le_succ s
    | 1, _ => cases begun.2 0 Nat.zero_lt_one rfl
  · match i, hi, j, hj with
    | 1, _, 0, _ => cases endsI

end Sample

/-- One child fails while the others sleep, and that is what all of them come to. And a child that
    fails at once keeps the one behind it from counting down. -/
theorem failure_comes_first :
    (Effect.allPar Sample.naps).EndsAt ⟨.async, true⟩ Sample.upward Context.empty 0 0 3000000
      (.fail (.text "broken")) ∧
    (Effect.allPar Sample.rash).EndsAt ⟨.async, true⟩ Sample.upward Context.empty 5 0 0
      (.fail (.text "broken")) := by
  constructor
  -- The second of three sleeping children fails while the other two are still asleep.
  · refine (allPar_by_completion rfl (Sample.naps_independent _)).2.1 1 _ _
      ⟨by decide, rfl, rfl, fun j begun hne t y ends decides => ?_⟩
    match j, begun.1 with
    | 0, _ => cases ends; cases decides
    | 2, _ => cases ends; cases decides
  -- The first fails in its first turn, so the second is not even begun.
  · refine (allPar_by_completion rfl Sample.rash_independent).2.1 0 _ _
      ⟨by decide, rfl, rfl, fun j begun hne t y ends decides => ?_⟩
    match j, begun.1 with
    | 1, _ => cases ends

/-- The same children race, and the first success comes after the failure. -/
theorem success_comes_later : ∃ race, Effect.raceOf? Sample.naps = .ok race ∧
    race.EndsAt ⟨.async, true⟩ Sample.upward Context.empty 0 0 5000000
      (.success (.text "slow")) := by
  rcases race_by_completion rfl (List.cons_ne_nil _ _) (Sample.naps_independent _) with
    ⟨race, built, -, first, -⟩
  refine ⟨race, built, first 0 _ _ ⟨by decide, rfl, rfl, fun j begun hne t y ends decides => ?_⟩⟩
  match j, begun.1 with
  | 1, _ => cases ends; cases decides
  | 2, _ => cases ends; exact .inl (by decide)

end EffectKernel
