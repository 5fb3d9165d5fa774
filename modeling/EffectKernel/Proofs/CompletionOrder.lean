import EffectKernel.Proofs.RelyGuarantee

/-!
# The Order in which Fibers End

What becomes of fibers side by side is decided by the order in which they end. A join takes in
their ends one after the other, the earliest first, until one of them decides the whole or all
of them have come. Fibers end one before the other because the one ends at an earlier point in
time; or because neither of them ever waits, and then the one in front ends before the other.

An end that settles a join decides the whole whenever it comes, and any other end only adds to
what the join knows. So the first end that settles the join is what the whole comes to, as long
as all ends before it do not; and if no end settles it, the whole comes to what the join makes
of all of them, when the last one has come.

## Main definitions

* `Join.Precedes`: A fiber ends before another one.
* `Join.HasResult`: What a join comes to, and when.
* `Join.settles`: An end decides the whole.
* `Join.Latest`: When the last of the fibers ends.

## Theorems

* `Join.hasResult_settled`: The first end that settles the join is what it comes to.
* `Join.hasResult_gathered`: If all succeed, the join comes to all values when the last one has
  come.
* `Join.hasResult_last`: If all that compete fail, the join comes to the last failure.
* `Join.hasResult_never`: If no end settles the join and one is missing, it comes to nothing.
* `Join.HasResult.step`: The first to end is taken in.
-/

namespace EffectKernel

namespace Join

variable {timings : Nat → Timing} {join join' : Join} {left : List Nat} {horizon now time : Nat}
  {i j : Nat} {x y : Outcome} {result : Option (Nat × Outcome)}

/-- The fiber at a position ends before the one at another position, if that one ever ends. -/
def Precedes (timings : Nat → Timing) (i j : Nat) : Prop :=
  ∀ s x, (timings i).ends = some (s, x) → ∀ s' x', (timings j).ends = some (s', x') →
    s < s' ∨ (s = s' ∧ (timings i).prompt = true ∧ (timings j).prompt = true ∧ i < j)

/-- What a join comes to and when, out of the fibers that are left at some positions, if it comes to
    anything as long as it is looked at. It has taken in the last end at the point in time given. -/
inductive HasResult (timings : Nat → Timing) (horizon : Nat) :
    Join → Nat → List Nat → Option (Nat × Outcome) → Prop where
  /-- No fiber is left. -/
  | gathered {join : Join} {now : Nat} :
      HasResult timings horizon join now [] (some (now, join.outcome))
  /-- The first of them to end decides the whole. -/
  | decided {join : Join} {now : Nat} {left : List Nat} {i s : Nat} {x y : Outcome}
      (mem : i ∈ left) (ends : (timings i).ends = some (s, x))
      (first : ∀ j ∈ left, j ≠ i → Precedes timings i j) (absorb : join.absorb i x = .left y) :
      HasResult timings horizon join now left (some (s, y))
  /-- The first of them to end does not. -/
  | more {join join' : Join} {now : Nat} {left : List Nat} {i s : Nat} {x : Outcome}
      {result : Option (Nat × Outcome)} (mem : i ∈ left) (ends : (timings i).ends = some (s, x))
      (first : ∀ j ∈ left, j ≠ i → Precedes timings i j) (absorb : join.absorb i x = .right join')
      (rest : HasResult timings horizon join' s (left.filter (· != i)) result) :
      HasResult timings horizon join now left result
  /-- None of them ends as long as they are looked at. -/
  | pending {join : Join} {now : Nat} {left : List Nat} (some : left ≠ [])
      (late : ∀ i ∈ left, ∀ s x, (timings i).ends = .some (s, x) → horizon < s) :
      HasResult timings horizon join now left none

/-- Fibers that end at the same point in time never wait. -/
def Distinct (timings : Nat → Timing) (left : List Nat) : Prop :=
  ∀ i ∈ left, ∀ j ∈ left, i ≠ j → ∀ s x y, (timings i).ends = some (s, x) →
    (timings j).ends = some (s, y) → (timings i).prompt = true ∧ (timings j).prompt = true

/-- Some of the fibers are as distinct as all of them. -/
theorem Distinct.filter (distinct : Distinct timings left) (p : Nat → Bool) :
    Distinct timings (left.filter p) :=
  fun i hi j hj => distinct i (List.mem_filter.1 hi).1 j (List.mem_filter.1 hj).1

/-- Whoever ends before a fiber ends before those that this one precedes. -/
theorem Precedes.trans {l : Nat} {s : Nat} (end_ : (timings j).ends = some (s, x))
    (first : Precedes timings i j) (second : Precedes timings j l) : Precedes timings i l := by
  intro si xi hi sl xl hl
  have h₁ := first si xi hi s x end_
  have h₂ := second s x end_ sl xl hl
  rcases h₁ with h₁ | ⟨rfl, hpi, -, hlt⟩
  · rcases h₂ with h₂ | ⟨rfl, -⟩
    · exact .inl (Nat.lt_trans h₁ h₂)
    · exact .inl h₁
  · rcases h₂ with h₂ | ⟨rfl, -, hpl, hlt'⟩
    · exact .inl h₂
    · exact .inr ⟨rfl, hpi, hpl, Nat.lt_trans hlt hlt'⟩

/-- Of two fibers that end, one ends before the other. -/
theorem precedes_or_precedes {s s' : Nat} (hi : (timings i).ends = some (s, x))
    (hj : (timings j).ends = some (s', y)) (apart : i ≠ j)
    (tie : s = s' → (timings i).prompt = true ∧ (timings j).prompt = true) :
    Precedes timings i j ∨ Precedes timings j i := by
  unfold Precedes
  rw [hi, hj]
  -- At the same time two children are only told apart if both are prompt, and then by position.
  rcases Nat.lt_trichotomy s s' with h | rfl | h
  · left
    rintro _ _ ⟨⟩ _ _ ⟨⟩
    exact .inl h
  · rcases tie rfl with ⟨hpi, hpj⟩
    rcases Nat.lt_or_gt_of_ne apart with h | h
    · left
      rintro _ _ ⟨⟩ _ _ ⟨⟩
      exact .inr ⟨rfl, hpi, hpj, h⟩
    · right
      rintro _ _ ⟨⟩ _ _ ⟨⟩
      exact .inr ⟨rfl, hpj, hpi, h⟩
  · right
    rintro _ _ ⟨⟩ _ _ ⟨⟩
    exact .inl h

/-- If any fiber ends, one of them ends before all others. -/
theorem exists_first (distinct : Distinct timings left) (nodup : left.Nodup)
    (some : ∃ i ∈ left, (timings i).ends.isSome) :
    ∃ i ∈ left, ∃ s x, (timings i).ends = .some (s, x) ∧
      ∀ j ∈ left, j ≠ i → Precedes timings i j := by
  -- The head is compared with the first one of the rest.
  induction left with
  | nil => rcases some with ⟨_, h, -⟩; cases h
  | cons a rest ih =>
      have distinct' : Distinct timings rest := fun i hi j hj =>
        distinct i (List.mem_cons_of_mem _ hi) j (List.mem_cons_of_mem _ hj)
      rcases List.nodup_cons.1 nodup with ⟨away, nodup'⟩
      by_cases others : ∃ i ∈ rest, (timings i).ends.isSome
      · rcases ih distinct' nodup' others with ⟨i, hi, s, x, hends, first⟩
        have apart : a ≠ i := fun h => away (h ▸ hi)
        rcases ha : (timings a).ends with _ | ⟨s', x'⟩
        · -- The one in front never ends.
          refine ⟨i, List.mem_cons_of_mem _ hi, s, x, hends, fun j hj hne => ?_⟩
          rcases List.mem_cons.1 hj with rfl | hj
          · intro _ _ _ _ _ h
            rw [ha] at h
            cases h
          · exact first j hj hne
        · have tie : s' = s → (timings a).prompt = true ∧ (timings i).prompt = true := by
            rintro rfl
            exact distinct a List.mem_cons_self i (List.mem_cons_of_mem _ hi) apart _ _ _ ha hends
          rcases precedes_or_precedes ha hends apart tie with before | after
          · refine ⟨a, List.mem_cons_self, s', x', ha, fun j hj hne => ?_⟩
            rcases List.mem_cons.1 hj with rfl | hj
            · exact absurd rfl hne
            · by_cases hji : j = i
              · exact hji ▸ before
              · exact before.trans hends (first j hj hji)
          · refine ⟨i, List.mem_cons_of_mem _ hi, s, x, hends, fun j hj hne => ?_⟩
            rcases List.mem_cons.1 hj with rfl | hj
            · exact after
            · exact first j hj hne
      · -- No other one ever ends.
        rcases some with ⟨i, hi, hsome⟩
        rcases List.mem_cons.1 hi with rfl | hi
        · rcases hends : (timings i).ends with _ | ⟨s, x⟩
          · rw [hends] at hsome
            cases hsome
          · refine ⟨i, List.mem_cons_self, s, x, hends, fun j hj hne => ?_⟩
            rcases List.mem_cons.1 hj with rfl | hj
            · exact absurd rfl hne
            · intro _ _ _ s' x' h
              exact absurd ⟨j, hj, by rw [h]; rfl⟩ others
        · exact absurd ⟨i, hi, hsome⟩ others

/-- An end decides the whole. -/
def settles : Join → Outcome → Bool
  | .gather _ _ _, .success _ => false
  | .gather _ .shortCircuit _, .fail _ => true
  | .gather _ .every _, .fail _ => false
  | .gather _ _ _, .die _ => true
  | .compete _, .fail _ => false
  | .compete _, _ => true

/-- An end that decides the whole is what the whole comes to. -/
theorem absorb_of_settles (h : join.settles x = true) (position : Nat) :
    join.absorb position x = .left x := by
  rcases join with ⟨total, _ | _, ends⟩ | last <;> cases x <;> first | rfl | cases h

/-- Any other end only adds to what the join knows. -/
theorem absorb_of_not_settles (h : join.settles x = false) (position : Nat) :
    ∃ join', join.absorb position x = .right join' ∧ ∀ y, join'.settles y = join.settles y := by
  rcases join with ⟨total, _ | _, ends⟩ | last <;> cases x <;>
    first | exact ⟨_, rfl, fun y => by cases y <;> rfl⟩ | cases h

/-- The first end that settles a join, if all before it do not, is what it comes to. -/
theorem hasResult_settled (distinct : Distinct timings left) (nodup : left.Nodup) (mem : i ∈ left)
    (ends : (timings i).ends = some (time, x)) (settled : join.settles x = true)
    (first : ∀ j ∈ left, j ≠ i → ∀ s y, (timings j).ends = some (s, y) →
      Precedes timings i j ∨ join.settles y = false) :
    HasResult timings horizon join now left (some (time, x)) := by
  -- Each step takes out the child that ends first among those left, until it is the one that
  -- settles.
  induction hn : left.length using Nat.strongRecOn generalizing left join now with
  | ind n ih =>
      rcases exists_first distinct nodup ⟨i, mem, by rw [ends]; rfl⟩ with
        ⟨j, hj, s, y, hends, hfirst⟩
      by_cases heq : j = i
      · subst heq
        rw [ends] at hends
        cases hends
        exact .decided mem ends hfirst (absorb_of_settles settled j)
      · -- The one that ends before it does not settle the join.
        have before := hfirst i mem (Ne.symm heq)
        have open_ : join.settles y = false := by
          rcases first j hj heq s y hends with after | h
          · have h₁ := before s y hends time x ends
            have h₂ := after time x ends s y hends
            omega
          · exact h
        rcases absorb_of_not_settles open_ j with ⟨join', habsorb, same⟩
        have fewer : (left.filter (· != j)).length < n :=
          hn ▸ List.length_filter_lt_length_iff_exists.2 ⟨j, hj, by simp⟩
        refine .more hj hends hfirst habsorb
          (ih _ fewer (distinct.filter _) (nodup.filter _) ?_ ?_ ?_ rfl)
        · exact List.mem_filter.2 ⟨mem, by simpa using Ne.symm heq⟩
        · rw [same]
          exact settled
        · intro l hl hne s' y' hends'
          rw [same]
          exact first l (List.mem_filter.1 hl).1 hne s' y' hends'

/-- Neither of two fibers ends before the other, where each of them does. -/
theorem Precedes.asymm {s s' : Nat} (before : Precedes timings i j) (after : Precedes timings j i)
    (hi : (timings i).ends = some (s, x)) (hj : (timings j).ends = some (s', y)) : False := by
  have h₁ := before s x hi s' y hj
  have h₂ := after s' y hj s x hi
  omega

/-- The last of the fibers that are left ends at a point in time. If none is left, that is now. -/
structure Latest (timings : Nat → Timing) (now : Nat) (left : List Nat) (time : Nat) : Prop where
  /-- All of them end by then. -/
  within : ∀ i ∈ left, ∀ s x, (timings i).ends = some (s, x) → s ≤ time
  /-- One of them ends then. -/
  attained : left = [] ∧ now = time ∨ ∃ i ∈ left, ∃ x, (timings i).ends = some (time, x)

/-- When the first of them has ended, the last one is still to come, unless it was the only one. -/
theorem Latest.after {s : Nat} (latest : Latest timings now left time)
    (all : ∀ j ∈ left, (timings j).ends.isSome) (mem : i ∈ left)
    (ends : (timings i).ends = some (s, x)) (first : ∀ j ∈ left, j ≠ i → Precedes timings i j) :
    Latest timings s (left.filter (· != i)) time := by
  have rest : ∀ {j}, j ∈ left.filter (· != i) → j ∈ left ∧ j ≠ i := fun h => by
    simpa using List.mem_filter.1 h
  refine ⟨fun j hj => latest.within j (rest hj).1, ?_⟩
  -- The latest end is still to come unless the one taken out was the last to end.
  rcases latest.attained with ⟨hnil, -⟩ | ⟨l, hl, y, hlast⟩
  · rw [hnil] at mem
    cases mem
  · by_cases hli : l = i
    · subst hli
      rw [ends] at hlast
      cases hlast
      by_cases hnil : left.filter (· != l) = []
      · exact .inl ⟨hnil, rfl⟩
      · -- All others end at the same time.
        rcases List.exists_mem_of_ne_nil _ hnil with ⟨j, hj⟩
        rcases Option.isSome_iff_exists.1 (all j (rest hj).1) with ⟨⟨s', y⟩, hj'⟩
        have hle := latest.within j (rest hj).1 s' y hj'
        have hfirst := first j (rest hj).1 (rest hj).2 time x ends s' y hj'
        have heq : s' = time := by omega
        exact .inr ⟨j, hj, y, heq ▸ hj'⟩
    · exact .inr ⟨l, List.mem_filter.2 ⟨hl, by simpa using hli⟩, y, hlast⟩

/-- If all fibers succeed, the join comes to the values of all of them in the order of the
    positions, when the last of them has come. -/
theorem hasResult_gathered {total : Nat} {collect : Collect}
    {ends : List (Nat × Either Value Value)}
    (values : Nat → Value) (distinct : Distinct timings left) (nodup : left.Nodup)
    (all : ∀ i ∈ left, ∃ s, (timings i).ends = some (s, .success (values i)))
    (known : ∀ i < total, i ∈ left ∨ ends.find? (·.1 == i) = some (i, .right (values i)))
    (latest : Latest timings now left time) :
    HasResult timings horizon (.gather total collect ends) now left
      (some (time, .success (Outcome.toList
        ((List.range total).map fun i => .right (values i))))) := by
  -- One child after the other ends and fills its slot; at the end all slots are found in order.
  induction hn : left.length using Nat.strongRecOn generalizing left ends now with
  | ind n ih =>
      have end_ : ∀ i ∈ left, (timings i).ends.isSome := fun i hi => by
        rcases all i hi with ⟨s, h⟩
        rw [h]
        rfl
      rcases latest.attained with ⟨rfl, rfl⟩ | ⟨l, hl, -⟩
      · have found : inOrder total ends = (List.range total).map fun i => .right (values i) := by
          unfold inOrder
          rw [← List.filterMap_eq_map]
          refine List.filterMap_congr fun i hi => ?_
          rcases known i (List.mem_range.1 hi) with h | h
          · cases h
          · rw [h]
            rfl
        rw [← found]
        exact .gathered
      · rcases exists_first distinct nodup ⟨l, hl, end_ l hl⟩ with ⟨i, hi, s, y, hends, first⟩
        rcases all i hi with ⟨s', hvalue⟩
        rw [hends] at hvalue
        cases hvalue
        have fewer : (left.filter (· != i)).length < n :=
          hn ▸ List.length_filter_lt_length_iff_exists.2 ⟨i, hi, by simp⟩
        refine .more hi hends first rfl (ih _ fewer (distinct.filter _) (nodup.filter _)
          (fun j hj => all j (List.mem_filter.1 hj).1) (fun j hj => ?_)
          (latest.after end_ hi hends first) rfl)
        by_cases hji : j = i
        · subst hji
          exact .inr (List.find?_cons_of_pos (by simp))
        · rcases known j hj with h | h
          · exact .inl (List.mem_filter.2 ⟨h, by simpa using hji⟩)
          · refine .inr ?_
            rw [List.find?_cons_of_neg (by simpa using Ne.symm hji)]
            exact h

/-- If all fibers that compete fail, the join comes to the failure of the last of them. -/
theorem hasResult_last {lastFailure : Option Value} {e : Value} (distinct : Distinct timings left)
    (nodup : left.Nodup) (mem : i ∈ left) (ends : (timings i).ends = some (time, .fail e))
    (all : ∀ j ∈ left, ∃ s e, (timings j).ends = some (s, .fail e))
    (before : ∀ j ∈ left, j ≠ i → Precedes timings j i) :
    HasResult timings horizon (.compete lastFailure) now left (some (time, .fail e)) := by
  -- No failure settles the race, so all end, and the one that follows all others leaves its error.
  induction hn : left.length using Nat.strongRecOn generalizing left lastFailure now with
  | ind n ih =>
      rcases exists_first distinct nodup ⟨i, mem, by rw [ends]; rfl⟩ with
        ⟨j, hj, s, y, hends, first⟩
      rcases all j hj with ⟨s', e', hfail⟩
      rw [hends] at hfail
      cases hfail
      have rest : ∀ {l}, l ∈ left.filter (· != j) → l ∈ left := fun h => (List.mem_filter.1 h).1
      by_cases heq : j = i
      · subst heq
        rw [ends] at hends
        cases hends
        have none : left.filter (· != j) = [] := by
          refine List.eq_nil_iff_forall_not_mem.2 fun l hl => ?_
          have hne : l ≠ j := by simpa using (List.mem_filter.1 hl).2
          rcases all l (rest hl) with ⟨s, e, hl'⟩
          exact (before l (rest hl) hne).asymm (first l (rest hl) hne) hl' ends
        refine .more mem ends first rfl ?_
        rw [none]
        exact .gathered
      · have fewer : (left.filter (· != j)).length < n :=
          hn ▸ List.length_filter_lt_length_iff_exists.2 ⟨j, hj, by simp⟩
        exact .more hj hends first rfl (ih _ fewer (distinct.filter _) (nodup.filter _)
          (List.mem_filter.2 ⟨mem, by simpa using Ne.symm heq⟩) (fun l hl => all l (rest hl))
          (fun l hl => before l (rest hl)) rfl)

/-- If no end as long as the fibers are looked at settles the join, and one of them does not end by
    then, the join does not come to anything. -/
theorem hasResult_never (distinct : Distinct timings left) (nodup : left.Nodup)
    (open_ : ∀ i ∈ left, ∀ s x, (timings i).ends = some (s, x) → s ≤ horizon →
      join.settles x = false)
    (late : ∃ i ∈ left, ∀ s x, (timings i).ends = some (s, x) → horizon < s) :
    HasResult timings horizon join now left none := by
  induction hn : left.length using Nat.strongRecOn generalizing left join now with
  | ind n ih =>
      rcases late with ⟨l, hl, late⟩
      by_cases all : ∀ i ∈ left, ∀ s x, (timings i).ends = some (s, x) → horizon < s
      · exact .pending (List.ne_nil_of_mem hl) all
      · have some : ∃ j ∈ left, ∃ s x, (timings j).ends = .some (s, x) ∧ s ≤ horizon := by
          by_contra none
          exact all fun j hj s x hends =>
            Nat.lt_of_not_le fun within => none ⟨j, hj, s, x, hends, within⟩
        rcases some with ⟨j, hj, s, x, hends, within⟩
        rcases exists_first distinct nodup ⟨j, hj, by rw [hends]; rfl⟩ with
          ⟨i, hi, s', y, hends', first⟩
        -- The first one to end does so by then.
        have within' : s' ≤ horizon := by
          by_cases heq : j = i
          · subst heq
            rw [hends] at hends'
            cases hends'
            exact within
          · have := first j hj heq s' y hends' s x hends
            omega
        have apart : l ≠ i := by
          rintro rfl
          exact absurd (late s' y hends') (Nat.not_lt.2 within')
        rcases absorb_of_not_settles (open_ i hi s' y hends' within') i with ⟨join', habsorb, same⟩
        have fewer : (left.filter (· != i)).length < n :=
          hn ▸ List.length_filter_lt_length_iff_exists.2 ⟨i, hi, by simp⟩
        refine .more hi hends' first habsorb (ih _ fewer (distinct.filter _) (nodup.filter _)
          (fun j hj s x hends within => ?_)
          ⟨l, List.mem_filter.2 ⟨hl, by simpa using apart⟩, late⟩ rfl)
        rw [same]
        exact open_ j (List.mem_filter.1 hj).1 s x hends within

/-- The first of those that are left to end is taken in. -/
theorem HasResult.step {s : Nat} (hasResult : HasResult timings horizon join now left result)
    (mem : i ∈ left)
    (ends : (timings i).ends = some (s, x)) (within : s ≤ horizon)
    (first : ∀ j ∈ left, j ≠ i → Precedes timings i j) :
    (∃ y, join.absorb i x = .left y ∧ result = some (s, y)) ∨
      ∃ join', join.absorb i x = .right join' ∧
        HasResult timings horizon join' s (left.filter (· != i)) result := by
  -- No other one is the first.
  have only : ∀ {j s' x'}, j ∈ left → (timings j).ends = some (s', x') →
      (∀ l ∈ left, l ≠ j → Precedes timings j l) → j = i := by
    intro j s' x' hj hends hfirst
    by_contra hne
    exact (first j hj hne).asymm (hfirst i mem (Ne.symm hne)) ends hends
  cases hasResult with
  | gathered => cases mem
  | decided hj hends hfirst absorb =>
      cases only hj hends hfirst
      rw [ends] at hends
      cases hends
      exact .inl ⟨_, absorb, rfl⟩
  | more hj hends hfirst absorb rest =>
      cases only hj hends hfirst
      rw [ends] at hends
      cases hends
      exact .inr ⟨_, absorb, rest⟩
  | pending _ late => exact absurd (late i mem s x ends) (Nat.not_lt.2 within)

/-- As long as anything is left, it does not matter when the last end was taken in. -/
theorem HasResult.later (hasResult : HasResult timings horizon join now left result)
    (some : left ≠ [])
    (now' : Nat) : HasResult timings horizon join now' left result := by
  cases hasResult with
  | gathered => exact absurd rfl some
  | decided mem ends first absorb => exact .decided mem ends first absorb
  | more mem ends first absorb rest => exact .more mem ends first absorb rest
  | pending some late => exact .pending some late

/-- When nothing is left, the last end has been taken in. -/
theorem HasResult.last (hasResult : HasResult timings horizon join now [] result) :
    result = some (now, join.outcome) := by
  cases hasResult with
  | gathered => rfl
  | decided mem => cases mem
  | more mem => cases mem
  | pending some => exact absurd rfl some

/-- As long as anything is left, something ends by the time the join comes to something. -/
theorem HasResult.some_ends (hasResult : HasResult timings horizon join now left result)
    (some : left ≠ [])
    (comesTo : result = .some (time, y)) :
    ∃ i ∈ left, ∃ s x, (timings i).ends = .some (s, x) ∧ s ≤ time := by
  induction hasResult with
  | gathered => exact absurd rfl some
  | decided mem ends =>
      cases comesTo
      exact ⟨_, mem, _, _, ends, Nat.le_refl _⟩
  | @more _ _ _ left i s _ _ mem ends _ _ rest ih =>
      -- If this one is the last left, its end is the result; if not, the result is found among the
      -- others.
      by_cases hnil : left.filter (· != i) = []
      · rw [hnil] at rest
        have last := rest.last
        rw [comesTo] at last
        cases last
        exact ⟨i, mem, _, _, ends, Nat.le_refl _⟩
      · rcases ih hnil comesTo with ⟨j, hj, found⟩
        exact ⟨j, (List.mem_filter.1 hj).1, found⟩
  | pending => cases comesTo

end Join

end EffectKernel
