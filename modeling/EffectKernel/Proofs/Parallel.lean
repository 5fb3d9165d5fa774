import EffectKernel.Proofs.Joining
import EffectKernel.Proofs.Steps

/-!
# Effects Side by Side

A node whose children run side by side. Its children are numbered and put in the queue, and then
they are a group: each of them goes as it would go anywhere, and the whole comes to what the ends
come to in the order in which they come.

## Main definitions

* `FiberGroup.start`: Children that have not had a turn.
* `StoreContract.Unite`: Children that leave each other alone, and what all of them do.

## Theorems

* `GroupSpec.completing_enlist`: Children that have just been put in the queue are on their way.
* `Effect.comesTo_join`: What a node comes to whose children run side by side.
-/

namespace EffectKernel

variable {σ : Type}

/-- Children that leave each other alone, and what the whole of them bears and does. -/
structure StoreContract.Unite (whole : StoreContract σ) (contract : Nat → StoreContract σ)
    (known : Nat → Prop) :
    Prop where
  /-- Each of them bears what the whole bears. -/
  rely : ∀ {i}, known i → ∀ {a b}, whole.rely a b → (contract i).rely a b
  /-- What each of them does is what the whole does. -/
  guarantee : ∀ {i}, known i → ∀ {a b}, (contract i).guarantee a b → whole.guarantee a b
  /-- Each of them bears what the others do. -/
  apart : ∀ {i j}, known i → known j → i ≠ j → ∀ {a b}, (contract i).guarantee a b →
    (contract j).rely a b

namespace FiberGroup

/-- Children that have not had a turn, numbered on and in order. -/
def start (env : Context) (turns : Nat → Nat) : List (Effect σ) → Nat → Nat → FiberGroup σ
  | [], _, _ => []
  | e :: rest, id, position =>
    ⟨id, position, some (.ready (.start e env)), fun _ => false, turns position, false⟩ ::
      start env turns rest (id + 1) (position + 1)

variable {env : Context} {turns : Nat → Nat} {effects : List (Effect σ)} {id position : Nat}

theorem running_start :
    (start env turns effects id position).running = lineUp env effects id position := by
  induction effects generalizing id position with
  | nil => rfl
  | cons e rest ih => rw [start, running_cons_some rfl, ih, lineUp]

theorem mem_start {c : Child σ} : c ∈ start env turns effects id position ↔
    ∃ i, ∃ h : i < effects.length, c = ⟨id + i, position + i,
      some (.ready (.start effects[i] env)), fun _ => false, turns (position + i), false⟩ := by
  induction effects generalizing id position with
  | nil => simp [start]
  | cons e rest ih =>
      rw [start, List.mem_cons, ih]
      -- The first child has the number given, and the others are numbered from the next one on.
      constructor
      · rintro (rfl | ⟨i, hi, rfl⟩)
        · exact ⟨0, Nat.zero_lt_succ _, rfl⟩
        · refine ⟨i + 1, Nat.succ_lt_succ hi, ?_⟩
          simp [Nat.add_assoc, Nat.add_comm 1]
      · rintro ⟨_ | i, hi, rfl⟩
        · exact .inl rfl
        · refine .inr ⟨i, Nat.lt_of_succ_lt_succ hi, ?_⟩
          simp [Nat.add_assoc, Nat.add_comm 1]

theorem positions_start :
    (start env turns effects id position).map (·.position) =
      List.range' position effects.length := by
  induction effects generalizing id position with
  | nil => rfl
  | cons e rest ih => rw [start, List.map_cons, ih, List.length_cons, List.range'_succ]

theorem ids_start :
    (start env turns effects id position).map (·.id) = List.range' id effects.length := by
  induction effects generalizing id position with
  | nil => rfl
  | cons e rest ih => rw [start, List.map_cons, ih, List.length_cons, List.range'_succ]

theorem left_start :
    (start env turns effects id position).left = List.range' position effects.length := by
  induction effects generalizing id position with
  | nil => rfl
  | cons e rest ih =>
      unfold left at ih ⊢
      rw [start, running_cons_some rfl, List.map_cons, ih, List.length_cons, List.range'_succ]

/-- None of them has had a turn. -/
theorem waiting_start :
    (start env turns effects id position).waiting = start env turns effects id position :=
  List.filter_eq_self.2 fun c hc => by
    rcases mem_start.1 hc with ⟨i, hi, rfl⟩
    rfl

theorem turns_start :
    (start env turns effects id position).turns =
      ((List.range' position effects.length).map turns).sum := by
  induction effects generalizing id position with
  | nil => rfl
  | cons e rest ih =>
      unfold FiberGroup.turns at ih ⊢
      rw [start, List.map_cons, List.sum_cons, ih, List.length_cons, List.range'_succ,
        List.map_cons, List.sum_cons]

/-- They have to do with their own numbers only. -/
theorem mine_start {h : Nat} : (start env turns effects id position).mine h = true ↔
    h ∈ List.range' id effects.length := by
  have ids : (start env turns effects id position).map (·.id) = List.range' id effects.length :=
    ids_start
  rw [mine_iff, ← ids, List.mem_map]
  refine exists_congr fun c => and_congr_right fun hc => ?_
  rcases mem_start.1 hc with ⟨i, hi, rfl⟩
  simp only [Child.owns, Bool.or_false, beq_iff_eq]
  exact eq_comm

theorem awaits_start {h : Nat} : (start env turns effects id position).awaits h = true ↔
    h ∈ List.range' id effects.length := by
  have ids : (start env turns effects id position).map (·.id) = List.range' id effects.length :=
    ids_start
  rw [awaits_iff, ← ids, List.mem_map]
  refine exists_congr fun c => and_congr_right fun hc => ?_
  rcases mem_start.1 hc with ⟨i, hi, rfl⟩
  exact ⟨fun h => h.2, fun h => ⟨rfl, h⟩⟩

end FiberGroup

namespace GroupSpec

open Kernel

variable {C : GroupSpec σ} {k : Kernel σ} {env : Context} {turns : Nat → Nat}
  {effects : List (Effect σ)} {join : Join} {result : Option (Nat × Outcome)}

/-- Children are numbered and put in the queue. -/
theorem behaves_enlist (valid : C.whole.Valid k) :
    C.whole.Behaves (fun _ => false) (FiberGroup.start env turns effects k.fresh 0).mine k
      (enlist env effects 0 k).2 := by
  -- The numbers of the group are those just given out, so nothing of theirs was there before.
  have mine : ∀ h, (FiberGroup.start env turns effects k.fresh 0).mine h = true ↔
      k.fresh ≤ h ∧ h < k.fresh + effects.length := fun h => by
    rw [FiberGroup.mine_start, List.mem_range'_1]
  rw [enlist_eq valid.accounted.woken]
  refine ⟨Nat.le_add_right _ _, fun _ h => ⟨fun id hid => ?_, fun task htask => ?_⟩, rfl,
    C.whole.contract.guarantee_refl _, nofun, fun h hmine _ => (mine h).1 hmine,
    fun _ _ => rfl, rfl, ?_, fun _ _ h => List.mem_append_left _ h, fun id hid hwoken hnot => ?_⟩
  · rcases List.mem_append.1 hid with hid | hid
    · exact Nat.lt_add_right _ (h.woken id hid)
    · exact (List.mem_range'_1.1 hid).2
  · exact Nat.lt_add_right _ (h.tasks task htask)
  · show (k.woken ++ List.range' k.fresh effects.length).filter _ = _
    have none : (List.range' k.fresh effects.length).filter
        (fun h => !(C.whole.owns (FiberGroup.start env turns effects k.fresh 0).mine h) &&
          !C.whole.around.contains h) = [] := by
      refine List.filter_eq_nil_iff.2 fun h hh => ?_
      rw [FiberPlace.owns_of_mine (FiberGroup.mine_start.2 hh)]
      simp
    rw [List.filter_append, none, List.append_nil]
  · -- Those around it have numbers that have been given out before.
    rcases List.mem_append.1 hwoken with h | h
    · exact absurd h hnot
    · exact absurd (valid.path id hid) (Nat.not_lt.2 (List.mem_range'_1.1 h).1)

theorem valid_enlist (valid : C.whole.Valid k) : C.whole.Valid (enlist env effects 0 k).2 := by
  have behaves : C.whole.Behaves (fun _ => false)
      (FiberGroup.start env (fun _ => 0) effects k.fresh 0).mine k (enlist env effects 0 k).2 :=
    behaves_enlist valid
  exact ⟨valid.apart, fun id hid => Nat.lt_of_lt_of_le (valid.path id hid) behaves.fresh,
    behaves.accounted valid.path valid.accounted⟩

/-- A child that has just been put in the queue. -/
theorem new_of_mem_start {c : Child σ} (hc : c ∈ FiberGroup.start env turns effects k.fresh 0) :
    ∃ i, ∃ h : i < effects.length, c = ⟨k.fresh + i, i, some (.ready (.start effects[i] env)),
      fun _ => false, turns i, false⟩ := by
  simpa using FiberGroup.mem_start.1 hc

/-- A number that is still to be given out is not the whole's. -/
theorem not_mem_path (valid : C.whole.Valid k) (i : Nat) : k.fresh + i ∉ C.whole.path :=
  fun hpath => absurd (valid.path _ hpath) (Nat.not_lt.2 (Nat.le_add_right _ _))

/-- Children that have just been put in the queue stand in it in order, and nobody was in it with
    one of their numbers. -/
theorem woken_enlist (valid : C.whole.Valid k) :
    (enlist env effects 0 k).2.woken.filter (FiberGroup.start env turns effects k.fresh 0).awaits =
      (FiberGroup.start env turns effects k.fresh 0).waiting.map (·.id) := by
  have old : k.woken.filter (FiberGroup.start env turns effects k.fresh 0).awaits = [] := by
    refine List.filter_eq_nil_iff.2 fun h hh hawaits => ?_
    have := (List.mem_range'_1.1 (FiberGroup.awaits_start.1 hawaits)).1
    have := valid.accounted.woken h hh
    omega
  rw [FiberGroup.waiting_start, FiberGroup.ids_start, enlist_eq valid.accounted.woken]
  show (k.woken ++ List.range' k.fresh effects.length).filter _ = _
  rw [List.filter_append, old, List.nil_append]
  exact List.filter_eq_self.2 fun h hh => FiberGroup.awaits_start.2 hh

/-- Children that have just been put in the queue are a group. -/
theorem underway_enlist (valid : C.whole.Valid k)
    (each : ∀ i, ∀ h : i < effects.length, C.known i → effects[i].TakesIn (turns i)
      C.whole.settings (C.contract i) env k.world.store k.now C.horizon (C.timings i)) :
    C.Underway (FiberGroup.start env turns effects k.fresh 0) (enlist env effects 0 k).2 where
  valid := valid_enlist valid
  sorted := by
    rw [FiberGroup.positions_start]
    exact List.pairwise_lt_range'
  apart c hc d hd hne h howns := by
    rcases new_of_mem_start hc with ⟨i, hi, rfl⟩
    rcases new_of_mem_start hd with ⟨j, hj, rfl⟩
    simp only [Child.owns, Bool.or_false, beq_iff_eq] at howns
    subst howns
    simpa [Child.owns] using hne
  given c hc h howns := by
    rcases new_of_mem_start hc with ⟨i, hi, rfl⟩
    simp only [Child.owns, Bool.or_false, beq_iff_eq] at howns
    subst howns
    rw [enlist_eq valid.accounted.woken]
    exact ⟨Nat.add_lt_add_left hi _, not_mem_path valid i⟩
  own c hc := by
    rcases new_of_mem_start hc with ⟨i, hi, rfl⟩
    rfl
  strangers c hc task htask heq := by
    rcases new_of_mem_start hc with ⟨i, hi, rfl⟩
    rw [enlist_eq valid.accounted.woken] at htask
    have lt := valid.accounted.tasks task htask
    rw [heq] at lt
    exact absurd lt (Nat.not_lt.2 (Nat.le_add_right _ _))
  -- The children begin with the clock and the store of this moment; each has been woken.
  attains c hc known := by
    rcases new_of_mem_start hc with ⟨i, hi, rfl⟩
    have valid' : C.whole.Valid (enlist env effects 0 k).2 := valid_enlist valid
    rw [enlist_eq valid.accounted.woken] at valid' ⊢
    refine each i hi known (k.fresh + i) C.whole.path _
      ⟨not_mem_path valid i, fun id hid => ?_, valid'.accounted⟩ ?_ rfl rfl
    · rcases List.mem_cons.1 hid with rfl | hid
      · exact Nat.add_lt_add_left hi _
      · exact valid'.path id hid
    · exact List.mem_append_right _ (List.mem_range'_1.2 ⟨Nat.le_add_right _ _,
        Nat.add_lt_add_left hi _⟩)
  begun c hc hbegun := by
    rcases new_of_mem_start hc with ⟨i, hi, rfl⟩
    cases hbegun
  fresh c hc _ := by
    rcases new_of_mem_start hc with ⟨i, hi, rfl⟩
    exact ⟨rfl, _, rfl⟩
  prompt c hc hbegun := by
    rcases new_of_mem_start hc with ⟨i, hi, rfl⟩
    cases hbegun
  order := woken_enlist valid

/-- Children that have just been put in the queue are on their way. -/
theorem completing_enlist (valid : C.whole.Valid k)
    (each : ∀ i, ∀ h : i < effects.length, C.known i → effects[i].TakesIn (turns i)
      C.whole.settings (C.contract i) env k.world.store k.now C.horizon (C.timings i))
    (guarded : ∀ i < effects.length, ¬C.known i → ∃ j < i, C.known j ∧
      (C.timings j).prompt = true ∧
      ∀ s y, (C.timings j).ends = some (s, y) → join.settles y = true)
    (hasResult : Join.HasResult C.timings C.horizon join k.now (List.range effects.length) result) :
    C.Completing join (FiberGroup.start env turns effects k.fresh 0) result
      (enlist env effects 0 k).2 := by
  refine ⟨underway_enlist valid each, fun c hc hnot => ?_, ?_⟩
  · rcases new_of_mem_start hc with ⟨i, hi, rfl⟩
    -- The child that guards it is in front of it and has not begun either.
    rcases guarded i hi hnot with ⟨j, hj, known, prompt, settles⟩
    refine ⟨⟨k.fresh + j, j, some (.ready (.start effects[j] env)), fun _ => false, turns j, false⟩,
      FiberGroup.mem_start.2 ⟨j, by omega, by simp⟩, known, rfl, hj, prompt, settles⟩
  · rw [FiberGroup.left_start, ← List.range_eq_range', enlist_eq valid.accounted.woken]
    exact hasResult

end GroupSpec

namespace Fiber

variable {settings : Settings} {path : Path} {point : Suspension σ} {k : Kernel σ}
  {effects : List (Effect σ)}

open Kernel

theorem continues_all (async : settings.mode = .async) (collect : Collect) :
    Continues settings path (.ready (point.resume (.eval (.all effects collect true)))) k
      (.joining (.gather effects.length collect []) (enlist point.env effects 0 k).1 point)
      (enlist point.env effects 0 k).2 := by
  refine .one fun fuel => ?_
  have step : (point.resume (.eval (.all effects collect true))).step settings k.world =
      (.ask (.gather effects collect) point, k.world) :=
    Machine.step_resume (by simp only [Machine.step, Machine.stepAt, Machine.evalStep, async])
  rw [turn, step]
  rfl

theorem continues_race (async : settings.mode = .async) :
    Continues settings path (.ready (point.resume (.eval (.race effects)))) k
      (.joining (.compete none) (enlist point.env effects 0 k).1 point)
      (enlist point.env effects 0 k).2 := by
  refine .one fun fuel => ?_
  have step : (point.resume (.eval (.race effects))).step settings k.world =
      (.ask (.compete effects) point, k.world) :=
    Machine.step_resume (by simp only [Machine.step, Machine.stepAt, Machine.evalStep, async])
  rw [turn, step]
  rfl

end Fiber

/-- A node whose children run side by side comes to what their ends come to in the order in which
    they come. -/
theorem Effect.comesTo_join {node : Effect σ} {effects : List (Effect σ)} {join : Join}
    {settings : Settings} {env : Context} {whole : StoreContract σ}
    {contract : Nat → StoreContract σ}
    {timings : Nat → Timing} {known : Nat → Prop} {store : σ} {now horizon : Nat}
    {result : Option (Nat × Outcome)}
    (begins : ∀ path (point : Suspension σ) (k : Kernel σ), Fiber.Continues settings path
      (.ready (point.resume (.eval node))) k
      (.joining join (Kernel.enlist point.env effects 0 k).1 point)
      (Kernel.enlist point.env effects 0 k).2)
    (unite : whole.Unite contract known) (distinct : ∀ left, Join.Distinct timings left)
    (unknown : ∀ {i}, ¬known i → (timings i).ends = none) (within : now ≤ horizon)
    (each : ∀ i, ∀ h : i < effects.length, known i →
      effects[i].Takes settings (contract i) env store now horizon (timings i))
    (guarded : ∀ i < effects.length, ¬known i → ∃ j < i, known j ∧ (timings j).prompt = true ∧
      ∀ s y, (timings j).ends = some (s, y) → join.settles y = true)
    (hasResult : Join.HasResult timings horizon join now (List.range effects.length) result) :
    node.ComesTo settings whole env store now horizon result := by
  have some : ∀ i, ∃ n, ∀ h : i < effects.length, known i →
      effects[i].TakesIn n settings (contract i) env store now horizon (timings i) := by
    intro i
    by_cases h : ∃ h : i < effects.length, known i
    · rcases h with ⟨h, hknown⟩
      rcases each i h hknown with ⟨n, takes⟩
      exact ⟨n, fun _ _ => takes⟩
    · exact ⟨0, fun hlt hknown => absurd ⟨hlt, hknown⟩ h⟩
  -- Each child needs some number of turns; the sum of these bounds the turns of the whole.
  choose turns takes using some
  let all := ((List.range' 0 effects.length).map turns).sum
  refine ⟨2 * all + 2, fun id around point k valid henv hstore hnow => ?_⟩
  subst henv hstore hnow
  let C : GroupSpec σ := ⟨⟨settings, id, around, whole⟩, contract, timings, horizon, known,
    unite.rely, unite.guarantee, unite.apart, distinct, unknown⟩
  have valid : C.whole.Valid k := valid
  have completing := C.completing_enlist valid takes guarded hasResult
  have count : (FiberGroup.start point.env turns effects k.fresh 0).turns = all :=
    FiberGroup.turns_start
  have behaves : C.whole.Behaves (fun _ => false)
    (FiberGroup.start point.env turns effects k.fresh 0).mine k
      (Kernel.enlist point.env effects 0 k).2 := GroupSpec.behaves_enlist valid
  have now : (Kernel.enlist point.env effects 0 k).2.now ≤ horizon := behaves.clock ▸ within
  have running : (Kernel.enlist point.env effects 0 k).1 =
      (FiberGroup.start point.env turns effects k.fresh 0).running := by
    rw [Kernel.enlist_eq valid.accounted.woken, FiberGroup.running_start]
  refine .of_continues (begins _ point k) behaves ?_
  rw [running]
  exact completing.attainsInTurn now (by omega) (fun _ => ⟨by omega, fun _ _ => by omega⟩)
    fun h wholeWoken some patient => h.attains _ wholeWoken some patient

end EffectKernel
