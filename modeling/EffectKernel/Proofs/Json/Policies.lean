import EffectKernel.Proofs.Json.Reading
import EffectKernel.Schedule.Codec

/-!
# Policies That Come Back

Policies and their states are written to be read again later, perhaps by another program. What is
read then is what was written: the document of a policy is a plain one, so it is read from its text,
and the policy is read from the document. That nothing is lost on the way also means that different
policies are written differently.

Two things stand in the way. A floating point number need not come back, since one that is not
finite has no numeral and is written as null; so policies with an exponential wait are left out. And
a reader gives up below a certain depth. How deep it has to go is seen in the document alone
(`Document.nesting`), and reading succeeds with any depth above that. For two policies to be told
apart it does not matter where a reader gives up: one that goes as deep as they do is good enough.

## Main definitions

* `Document.nesting`: How many arrays and objects are open at once.
* `Schedule.FactorFree`: Policies without floating point numbers.
* `ScheduleState.sideDocument`, `ScheduleState.ofSide?`: A side of a union, which may have stopped.

## Theorems

* `Schedule.ofDocument?_toDocument`, `ScheduleState.ofDocument?_toDocument`: Reading undoes writing,
  by induction on what was written, whatever depth is left.
* `Schedule.eq_of_text_eq`, `ScheduleState.eq_of_text_eq`: Different texts for different ones.
* `policies_come_back`: Policies and states come back and go on as before.
-/

namespace EffectKernel

open Json

namespace Json

mutual
/-- How many arrays and objects are open at once, where this is the most. -/
def Document.nesting : Document → Nat
  | .array items => nestingItems items + 1
  | .object members => nestingMembers members + 1
  | _ => 0

def nestingItems : List Document → Nat
  | [] => 0
  | d :: rest => max d.nesting (nestingItems rest)

def nestingMembers : List (Option String × Document) → Nat
  | [] => 0
  | (_, d) :: rest => max d.nesting (nestingMembers rest)
end

/-- A variant of something plain is plain. -/
theorem plain_variant {name : String} {payload : Document} (plain : payload.Plain) :
    (Document.variant name payload).Plain := by
  refine .object ?_ ?_ <;> simp [plain]

@[simp] theorem nesting_variant (name : String) (payload : Document) :
    (Document.variant name payload).nesting = payload.nesting + 1 := by
  simp [Document.variant, Document.nesting, nestingMembers]

@[simp] theorem nesting_null : Document.null.nesting = 0 := by
  simp [Document.nesting]

@[simp] theorem nesting_ofNat (n : Nat) : (Document.ofNat n).nesting = 0 := by
  simp [Document.ofNat, Document.nesting]

@[simp] theorem nesting_one (name : Option String) (d : Document) :
    (Document.object [(name, d)]).nesting = d.nesting + 1 := by
  simp [Document.nesting, nestingMembers]

@[simp] theorem nesting_two (first second : Option String) (a b : Document) :
    (Document.object [(first, a), (second, b)]).nesting = max a.nesting b.nesting + 1 := by
  simp [Document.nesting, nestingMembers]

@[simp] theorem nesting_pair (a b : Document) :
    (Document.array [a, b]).nesting = max a.nesting b.nesting + 1 := by
  simp [Document.nesting, nestingItems]

end Json

namespace Codec

/-- A number that is small enough is read back. -/
theorem natBelow?_ofNat {n bound : Nat} (below : n < bound) :
    natBelow? bound (.ofNat n) = some n := by
  rw [Document.ofNat, natBelow?, toNat?_ofNat]
  exact if_pos below

@[simp] theorem count?_ofCount (n : UInt32) : count? (ofCount n) = some n := by
  rw [count?, ofCount, natBelow?_ofNat n.toNat_lt_size, Option.map_some, UInt32.ofNat_toNat]

/-- The only member of an object is found under its name. -/
theorem oneField?_object (name : String) (depth : Nat) (value : Document) :
    oneField? name (depth + 1) (.object [(some name, value)]) = some value := by
  simp [oneField?, namesAreTexts, field?, fieldValues]

/-- So are two members with different names. -/
theorem twoFields?_object {first second : String} (apart : first ≠ second) (depth : Nat)
    (a b : Document) :
    twoFields? first second (depth + 1) (.object [(some first, a), (some second, b)]) =
      some (a, b) := by
  simp [twoFields?, namesAreTexts, field?, fieldValues, apart, apart.symm]

/-- A span is put together again from its seconds and what is left of them. -/
theorem ofParts?_parts (d : Duration) : Duration.ofParts? d.seconds d.subsecond = some d := by
  have whole : d.seconds * nanosPerSecond + d.subsecond = d.nanos := Nat.div_add_mod' _ _
  unfold Duration.ofParts?
  rw [dif_pos (by rw [whole]; exact d.nanos_lt)]
  exact congrArg some (Duration.eq_of_nanos_eq whole)

/-- A span that has been written down is read back as it was. -/
theorem duration?_ofDuration (d : Duration) (depth : Nat) :
    duration? (depth + 2) (ofDuration d) = some d := by
  have seconds : d.seconds < UInt64.size :=
    Nat.div_lt_of_lt_mul (by rw [Nat.mul_comm]; exact d.nanos_lt)
  have nanos : d.subsecond < UInt32.size :=
    Nat.lt_trans (Nat.mod_lt _ (by decide)) (by decide : nanosPerSecond < UInt32.size)
  have only : onlyDurationFields (ofDuration d) = true := by
    simp [onlyDurationFields, ofDuration]
  have fields := twoFields?_object (show "secs" ≠ "nanos" by simp) depth (.ofNat d.seconds)
    (.ofNat d.subsecond)
  rw [duration?, if_pos only]
  -- The fields are given one by one, since a rewrite would compute with the bounds.
  exact Option.bind_eq_some_iff.2 ⟨_, fields, Option.bind_eq_some_iff.2
    ⟨_, natBelow?_ofNat seconds, Option.bind_eq_some_iff.2
      ⟨_, natBelow?_ofNat nanos, ofParts?_parts d⟩⟩⟩

theorem plain_ofDuration (d : Duration) : (ofDuration d).Plain := by
  refine .object ?_ ?_ <;> simp [Document.Plain.number]

@[simp] theorem nesting_ofDuration (d : Duration) : (ofDuration d).nesting = 1 := by
  simp [ofDuration]

@[simp] theorem nesting_ofCount (n : UInt32) : (ofCount n).nesting = 0 :=
  nesting_ofNat n.toNat

end Codec

namespace Schedule

/-- A policy in which no floating point number occurs. -/
def FactorFree : Schedule → Prop
  | .exponential _ _ => False
  | .union left right | .intersect left right => left.FactorFree ∧ right.FactorFree
  | .capped inner _ => inner.FactorFree
  | _ => True

theorem plain_toDocument {s : Schedule} (factorFree : s.FactorFree) : s.toDocument.Plain := by
  induction s with
  | recurs times => exact plain_variant .number
  | forever => exact .string
  | spaced delay => exact plain_variant (Codec.plain_ofDuration delay)
  | linear base | fibonacci base =>
      exact plain_variant (plain_variant (Codec.plain_ofDuration base))
  | exponential => exact factorFree.elim
  | union left right ihl ihr | intersect left right ihl ihr =>
      refine plain_variant (.array ?_)
      simp [ihl factorFree.1, ihr factorFree.2]
  | capped inner maxDelay ih =>
      refine plain_variant (.object ?_ ?_) <;>
        simp [ih factorFree, Codec.plain_ofDuration]

/-- A policy is read from its written form, if this is not nested too deeply. -/
theorem ofDocument?_toDocument {s : Schedule} (factorFree : s.FactorFree) {depth : Nat}
    (shallow : s.toDocument.nesting < depth) : ofDocument? depth s.toDocument = some s := by
  induction s generalizing depth with
  | forever => simp [toDocument, ofDocument?]
  | exponential => exact factorFree.elim
  | recurs times =>
      simp only [toDocument, nesting_variant, Codec.nesting_ofCount] at shallow
      obtain ⟨depth, rfl⟩ := Nat.exists_eq_add_of_le' (show 2 ≤ depth from shallow)
      simp [toDocument, Document.variant, ofDocument?]
  | spaced delay =>
      simp only [toDocument, nesting_variant, Codec.nesting_ofDuration] at shallow
      obtain ⟨depth, rfl⟩ := Nat.exists_eq_add_of_le' (show 3 ≤ depth from shallow)
      simp [toDocument, Document.variant, ofDocument?, Codec.duration?_ofDuration]
  | linear base | fibonacci base =>
      simp only [toDocument, nesting_variant, nesting_one, Codec.nesting_ofDuration] at shallow
      -- The name opens a level, the fields another one, and the duration a third.
      obtain ⟨depth, rfl⟩ := Nat.exists_eq_add_of_le' (show 4 ≤ depth from shallow)
      simp [toDocument, Document.variant, ofDocument?, Codec.oneField?_object,
        Codec.duration?_ofDuration]
  | union left right ihl ihr | intersect left right ihl ihr =>
      simp only [toDocument, nesting_variant, nesting_pair] at shallow
      obtain ⟨depth, rfl⟩ := Nat.exists_eq_add_of_le' (show 3 ≤ depth by omega)
      have onLeft := @ihl factorFree.1 (depth + 1) (by omega)
      have onRight := @ihr factorFree.2 (depth + 1) (by omega)
      simp [toDocument, Document.variant, ofDocument?, Codec.twoParts?, onLeft, onRight]
  | capped inner maxDelay ih =>
      simp only [toDocument, nesting_variant, nesting_two, Codec.nesting_ofDuration] at shallow
      obtain ⟨depth, rfl⟩ := Nat.exists_eq_add_of_le' (show 4 ≤ depth by omega)
      have inside := @ih factorFree (depth + 2) (by omega)
      simp [toDocument, Document.variant, ofDocument?, Codec.twoFields?_object, inside,
        Codec.duration?_ofDuration]

/-- A policy is read from its text. -/
theorem ofText?_text {s : Schedule} (factorFree : s.FactorFree)
    (shallow : s.toDocument.nesting < Codec.depthLimit) : ofText? s.text = some s := by
  rw [ofText?, text, read?_text (plain_toDocument factorFree)]
  exact ofDocument?_toDocument factorFree shallow

/-- However deeply they are nested, different policies have different texts. -/
theorem eq_of_text_eq {s t : Schedule} (left : s.FactorFree) (right : t.FactorFree)
    (same : s.text = t.text) : s = t := by
  have document := (plain_toDocument left).eq_of_text_eq (plain_toDocument right) same
  have read := ofDocument?_toDocument left (Nat.lt_succ_self _)
  rw [document, ofDocument?_toDocument right (Nat.lt_succ_self _)] at read
  exact (Option.some.inj read).symm

end Schedule

namespace ScheduleState

/-- Something holds of all states if it holds of those that it holds of the sides of. -/
@[elab_as_elim]
theorem induct {motive : ScheduleState → Prop}
    (recurs : ∀ remaining, motive (.recurs remaining)) (attempt : ∀ n, motive (.attempt n))
    (union : ∀ left right, (∀ s, left = some s → motive s) → (∀ s, right = some s → motive s) →
      motive (.union left right))
    (intersect : ∀ left right, motive left → motive right → motive (.intersect left right))
    (capped : ∀ inner, motive inner → motive (.capped inner)) : (s : ScheduleState) → motive s
  | .recurs remaining => recurs remaining
  | .attempt n => attempt n
  -- The two sides of a union may be missing, so the recursion goes through `Option`.
  | .union left right =>
      union left right (fun s h => by subst h; exact induct recurs attempt union intersect capped s)
        (fun s h => by subst h; exact induct recurs attempt union intersect capped s)
  | .intersect left right =>
      intersect left right (induct recurs attempt union intersect capped left)
        (induct recurs attempt union intersect capped right)
  | .capped inner => capped inner (induct recurs attempt union intersect capped inner)

/-- The written form of a side of a union. -/
def sideDocument : Option ScheduleState → Document
  | none => .null
  | some s => s.toDocument

theorem toDocument_union (left right : Option ScheduleState) :
    (ScheduleState.union left right).toDocument =
      .variant "Union" (.array [sideDocument left, sideDocument right]) := by
  cases left <;> cases right <;> simp [toDocument, sideDocument]

theorem plain_side {side : Option ScheduleState} (plain : ∀ s, side = some s → s.toDocument.Plain) :
    (sideDocument side).Plain := by
  cases side with
  | none => exact .null
  | some s => exact plain s rfl

theorem plain_toDocument (s : ScheduleState) : s.toDocument.Plain := by
  induction s using induct with
  | recurs remaining | attempt n =>
      rw [toDocument]
      exact plain_variant (plain_variant .number)
  | union left right ihl ihr =>
      rw [toDocument_union]
      refine plain_variant (.array ?_)
      simp [plain_side ihl, plain_side ihr]
  | intersect left right ihl ihr =>
      rw [toDocument]
      refine plain_variant (.array ?_)
      simp [ihl, ihr]
  | capped inner ih =>
      rw [toDocument]
      exact plain_variant ih

/-- A side of a union from its written form. -/
def ofSide? (depth : Nat) : Document → Option (Option ScheduleState)
  | .null => some none
  | d => (ofDocument? depth d).map some

/-- A pair of sides is read one side after the other. -/
theorem ofDocument?_union (depth : Nat) (a b : Document) :
    ofDocument? (depth + 3) (.variant "Union" (.array [a, b])) = do
      return .union (← ofSide? (depth + 1) a) (← ofSide? (depth + 1) b) := by
  simp only [Document.variant, ofDocument?, Codec.twoParts?]
  rfl

/-- A side is read back as it was, whether the policy there has ended or not. -/
theorem ofSide?_document {side : Option ScheduleState} {depth : Nat}
    (read : ∀ s, side = some s → s.toDocument.nesting < depth →
      ofDocument? depth s.toDocument = some s)
    (shallow : (sideDocument side).nesting < depth) :
    ofSide? depth (sideDocument side) = some side := by
  cases side with
  | none => rfl
  | some s =>
      have other : ofSide? depth s.toDocument = (ofDocument? depth s.toDocument).map some := by
        cases s <;> simp [toDocument, toDocument_union, Document.variant, ofSide?]
      rw [sideDocument, other, read s rfl shallow, Option.map_some]

/-- A state is read from its written form, if this is not nested too deeply. -/
theorem ofDocument?_toDocument (s : ScheduleState) {depth : Nat}
    (shallow : s.toDocument.nesting < depth) : ofDocument? depth s.toDocument = some s := by
  induction s using induct generalizing depth with
  | recurs remaining | attempt n =>
      rw [toDocument] at shallow ⊢
      simp only [nesting_variant, nesting_one, Codec.nesting_ofCount] at shallow
      obtain ⟨depth, rfl⟩ := Nat.exists_eq_add_of_le' (show 3 ≤ depth from shallow)
      simp [Document.variant, ofDocument?, Codec.oneField?_object]
  | union left right ihl ihr =>
      rw [toDocument_union] at shallow ⊢
      simp only [nesting_variant, nesting_pair] at shallow
      obtain ⟨depth, rfl⟩ := Nat.exists_eq_add_of_le' (show 3 ≤ depth by omega)
      -- A side that has stopped has no state to be read, so both are read as sides.
      have onLeft := ofSide?_document (fun s same => ihl s same) (show _ < depth + 1 by omega)
      have onRight := ofSide?_document (fun s same => ihr s same) (show _ < depth + 1 by omega)
      simp [ofDocument?_union, onLeft, onRight]
  | intersect left right ihl ihr =>
      rw [toDocument] at shallow ⊢
      simp only [nesting_variant, nesting_pair] at shallow
      obtain ⟨depth, rfl⟩ := Nat.exists_eq_add_of_le' (show 3 ≤ depth by omega)
      have onLeft := @ihl (depth + 1) (by omega)
      have onRight := @ihr (depth + 1) (by omega)
      simp [Document.variant, ofDocument?, Codec.twoParts?, onLeft, onRight]
  | capped inner ih =>
      rw [toDocument] at shallow ⊢
      simp only [nesting_variant] at shallow
      obtain ⟨depth, rfl⟩ := Nat.exists_eq_add_of_le' (show 2 ≤ depth by omega)
      have inside := @ih (depth + 1) (by omega)
      simp [Document.variant, ofDocument?, inside]

/-- A state is read from its text. -/
theorem ofText?_text {s : ScheduleState} (shallow : s.toDocument.nesting < Codec.depthLimit) :
    ofText? s.text = some s := by
  rw [ofText?, text, read?_text s.plain_toDocument]
  exact s.ofDocument?_toDocument shallow

/-- However deeply they are nested, different states have different texts. -/
theorem eq_of_text_eq {s t : ScheduleState} (same : s.text = t.text) : s = t := by
  have document := s.plain_toDocument.eq_of_text_eq t.plain_toDocument same
  have read := s.ofDocument?_toDocument (Nat.lt_succ_self _)
  rw [document, t.ofDocument?_toDocument (Nat.lt_succ_self _)] at read
  exact (Option.some.inj read).symm

end ScheduleState

/-- Policies and their states come back from their texts as they were, unless there are floating
    point numbers in them or they are nested more deeply than a reader goes; so what has been read
    goes on as if it had never been written. And no two of them have the same text, however deeply
    they are nested. -/
theorem policies_come_back :
    (∀ s : Schedule, s.FactorFree → s.toDocument.nesting < Codec.depthLimit →
      Schedule.ofText? s.text = some s) ∧
    (∀ t : ScheduleState, t.toDocument.nesting < Codec.depthLimit →
      ScheduleState.ofText? t.text = some t) ∧
    (∀ (s : Schedule) (t : ScheduleState), s.FactorFree →
      s.toDocument.nesting < Codec.depthLimit → t.toDocument.nesting < Codec.depthLimit →
      ∃ s' t', Schedule.ofText? s.text = some s' ∧ ScheduleState.ofText? t.text = some t' ∧
        ∀ limit, s'.decisionsFrom limit t' = s.decisionsFrom limit t) ∧
    (∀ s t : Schedule, s.FactorFree → t.FactorFree → s.text = t.text → s = t) ∧
    ∀ s t : ScheduleState, s.text = t.text → s = t :=
  ⟨fun _ => Schedule.ofText?_text, fun _ => ScheduleState.ofText?_text,
    fun s t factorFree shallow shallow' => ⟨s, t, Schedule.ofText?_text factorFree shallow,
      ScheduleState.ofText?_text shallow', fun _ => rfl⟩,
    fun _ _ => Schedule.eq_of_text_eq, fun _ _ => ScheduleState.eq_of_text_eq⟩

namespace Sample

/-- Three times at once, or ever more slowly up to the longest wait that there is. -/
def policy : Schedule :=
  .capped (.union (.recurs 3) (.linear (Duration.ofMillis 5))) Duration.longest

/-- Where it stands when the left side has stopped and the right side has been asked so often that
    it is no longer counted. -/
def standing : ScheduleState :=
  .capped (.union none (some (.attempt 0xFFFFFFFF)))

end Sample

/-- A policy and a state come back, and another policy has another text. -/
theorem sample_policies_come_back :
    Schedule.ofText? Sample.policy.text = some Sample.policy ∧
    ScheduleState.ofText? Sample.standing.text = some Sample.standing ∧
    (∃ s t, Schedule.ofText? Sample.policy.text = some s ∧
      ScheduleState.ofText? Sample.standing.text = some t ∧
      s.decisionsFrom 2 t = Sample.policy.decisionsFrom 2 Sample.standing) ∧
    Sample.policy.text ≠ Schedule.forever.text ∧
    Sample.standing.text ≠ Sample.policy.initial.text := by
  rcases policies_come_back with ⟨policies, states, goesOn, apart, statesApart⟩
  have factorFree : Sample.policy.FactorFree := ⟨trivial, trivial⟩
  have shallow : Sample.policy.toDocument.nesting < Codec.depthLimit := by
    simp [Sample.policy, Schedule.toDocument, Codec.depthLimit]
  have shallow' : Sample.standing.toDocument.nesting < Codec.depthLimit := by
    simp [Sample.standing, ScheduleState.toDocument, Codec.depthLimit]
  refine ⟨policies _ factorFree shallow, states _ shallow', ?_, fun same => ?_, fun same => ?_⟩
  -- Read back, policy and state make the same next decisions.
  · rcases goesOn _ _ factorFree shallow shallow' with ⟨s, t, policy, state, decisions⟩
    exact ⟨s, t, policy, state, decisions 2⟩
  · have forever : Schedule.forever.FactorFree := trivial
    cases apart _ Schedule.forever factorFree forever same
  · cases statesApart _ _ same

end EffectKernel
