import EffectKernel.Text.Quoted
import EffectKernel.Value

/-!
# Contexts

A context holds the services a program may read. It never changes: adding a service
or merging two contexts gives a new one. Of two entries for one key the later wins.

The entries stand in the order of their keys, one for each key. A context is then
determined by what it answers, which is what `ext_get?` says, and two contexts put
together along different ways are equal as soon as they hold the same.

## Main definitions

* `Context`: Services by their keys.
* `Context.insert`, `Context.merge`: One more service, and all of another context.
* `Context.get?`: The service under a key.
* `Context.keys`: The keys in order.
* `Context.ofEntries`: The context with given entries, the later ones winning.

## Theorems

* `get?_insert`: What is found after adding a service.
* `get?_merge`: What is found after a merge: the right side wins.
* `ext_get?`: Contexts that answer alike are equal.
* `ofEntries_entries`: A context comes back from its entries.
-/

namespace EffectKernel

/-- The entries of a context before one more of them. -/
abbrev Entries : Type := List (ServiceKey × Value)

namespace Entries

/-- The entries with `value` under `key`, at its place in the order. -/
def place (key : ServiceKey) (value : Value) : Entries → Entries
  | [] => [(key, value)]
  | (k, v) :: rest =>
    if key = k then (key, value) :: rest
    else if key.before k then (key, value) :: (k, v) :: rest
    else (k, v) :: place key value rest

/-- The service under a key. -/
def find? (key : ServiceKey) : Entries → Option Value
  | [] => none
  | (k, v) :: rest => if k = key then some v else find? key rest

/-- The keys come in order, so each of them comes once. -/
def Ordered (entries : Entries) : Prop :=
  entries.Pairwise fun a b => a.1.before b.1

/-- What is found among the entries was there before or has been put there. -/
theorem mem_place {key : ServiceKey} {value : Value} {entry : ServiceKey × Value} :
    ∀ {entries : Entries}, entry ∈ place key value entries →
      entry = (key, value) ∨ entry ∈ entries
  | [], h => by simpa [place] using h
  | (k, v) :: rest, h => by
    unfold place at h
    split at h
    · rcases List.mem_cons.1 h with h | h
      · exact Or.inl h
      · exact Or.inr (List.mem_cons_of_mem _ h)
    · split at h
      · exact List.mem_cons.1 h
      · rcases List.mem_cons.1 h with h | h
        · exact Or.inr (h ▸ List.mem_cons_self)
        · exact (mem_place h).imp id (List.mem_cons_of_mem _)

/-- Entries stay in order when one is put in its place. -/
theorem ordered_place (key : ServiceKey) (value : Value) :
    ∀ {entries : Entries}, entries.Ordered → (place key value entries).Ordered
  | [], _ => by simp [place, Ordered]
  | (k, v) :: rest, h => by
    have hall := (List.pairwise_cons.1 h).1
    have hrest : Ordered rest := (List.pairwise_cons.1 h).2
    unfold place
    split
    next heq => exact List.pairwise_cons.2 ⟨fun e he => heq ▸ hall e he, hrest⟩
    next hne =>
      split
      next hbefore =>
        refine List.pairwise_cons.2 ⟨fun e he => ?_, h⟩
        rcases List.mem_cons.1 he with rfl | he
        · exact hbefore
        · exact ServiceKey.before_trans hbefore (hall e he)
      -- Before the head, neither equal to it nor in front: the key goes somewhere into the rest.
      next hnot =>
        refine List.pairwise_cons.2 ⟨fun e he => ?_, ordered_place key value hrest⟩
        rcases mem_place he with rfl | he
        · exact (ServiceKey.before_total (Ne.symm hne)).resolve_right hnot
        · exact hall e he

/-- Whoever looks for the key finds the value that has been put there, and all others find what they
    found before. -/
theorem find?_place (key : ServiceKey) (value : Value) (other : ServiceKey) :
    ∀ entries : Entries,
      find? other (place key value entries) =
        if other = key then some value else find? other entries
  | [] => by
    unfold place find?
    by_cases h : key = other
    · simp [h]
    · simp [h, Ne.symm h, find?]
  | (k, v) :: rest => by
    unfold place
    split
    next heq =>
      subst heq
      by_cases h : key = other
      · simp [find?, h]
      · simp [find?, h, Ne.symm h]
    next hne =>
      split
      next =>
        by_cases h : key = other
        · simp [find?, h]
        · simp [find?, h, Ne.symm h]
      next =>
        -- Placed further back: the head is looked at first, and by `hne` it is not the key placed.
        unfold find?
        rw [find?_place key value other rest]
        by_cases h : k = other
        · subst h
          simp [Ne.symm hne]
        · simp [h]

/-- A key in front of all entries is not found. -/
theorem find?_eq_none {key : ServiceKey} :
    ∀ {entries : Entries}, (∀ entry ∈ entries, key.before entry.1) →
      find? key entries = none
  | [], _ => rfl
  | (k, v) :: rest, h => by
    have hk : k ≠ key := fun heq =>
      ServiceKey.not_before_self key (heq ▸ h (k, v) List.mem_cons_self)
    simp only [find?, hk, if_false]
    exact find?_eq_none fun entry he => h entry (List.mem_cons_of_mem _ he)

theorem find?_cons_of_before {k key : ServiceKey} {v : Value} {rest : Entries}
    (h : key.before k) (hrest : ∀ entry ∈ rest, k.before entry.1) :
    find? key ((k, v) :: rest) = none := by
  refine find?_eq_none fun entry he => ?_
  rcases List.mem_cons.1 he with rfl | he
  · exact h
  · exact ServiceKey.before_trans h (hrest entry he)

/-- Ordered entries that answer alike are the same entries. -/
theorem ext_find? : ∀ {a b : Entries}, a.Ordered → b.Ordered →
    (∀ key, find? key a = find? key b) → a = b
  | [], [], _, _, _ => rfl
  | [], (k, v) :: _, _, _, h => by simpa [find?] using h k
  | (k, v) :: _, [], _, _, h => by simpa [find?] using h k
  | (k, v) :: xs, (l, w) :: ys, ha, hb, h => by
    have hxs := (List.pairwise_cons.1 ha).1
    have hys := (List.pairwise_cons.1 hb).1
    -- If the first keys differed, the lesser one would be found in one list and, the other being
    -- ordered, nowhere in the other list.
    have hkl : k = l := by
      by_cases hne : k = l
      · exact hne
      · rcases ServiceKey.before_total hne with hlt | hlt
        · have := h k
          rw [find?_cons_of_before hlt hys] at this
          simp [find?] at this
        · have := h l
          rw [find?_cons_of_before hlt hxs] at this
          simp [find?] at this
    subst hkl
    have hvw : v = w := by simpa [find?] using h k
    subst hvw
    have hrest : xs = ys := by
      refine ext_find? (List.pairwise_cons.1 ha).2 (List.pairwise_cons.1 hb).2 fun key => ?_
      by_cases hk : k = key
      · subst hk
        rw [find?_eq_none hxs, find?_eq_none hys]
      · simpa [find?, hk] using h key
    rw [hrest]

end Entries

/-- Services by their keys. -/
structure Context where
  /-- The services with their keys. -/
  entries : Entries
  /-- The keys come in order. -/
  ordered : entries.Ordered

namespace Context

/-- The context without services. -/
def empty : Context :=
  ⟨[], List.Pairwise.nil⟩

instance : Inhabited Context := ⟨empty⟩

/-- The context with one more service. An entry under the same key is replaced. -/
def insert (c : Context) (key : ServiceKey) (value : Value) : Context :=
  ⟨c.entries.place key value, Entries.ordered_place key value c.ordered⟩

/-- The context with one service. -/
def single (key : ServiceKey) (value : Value) : Context :=
  empty.insert key value

/-- The service under a key. -/
def get? (c : Context) (key : ServiceKey) : Option Value :=
  c.entries.find? key

/-- The keys in order. -/
def keys (c : Context) : List ServiceKey :=
  c.entries.map (·.1)

/-- The number of services. -/
def size (c : Context) : Nat :=
  c.entries.length

/-- Whether there are no services. -/
def isEmpty (c : Context) : Bool :=
  c.entries.isEmpty

/-- The context with more entries added in order. -/
def insertAll (c : Context) (entries : Entries) : Context :=
  entries.foldl (fun c entry => c.insert entry.1 entry.2) c

/-- The context with the services of both. The right side wins. -/
def merge (c d : Context) : Context :=
  c.insertAll d.entries

/-- The context with given entries, the later ones winning. -/
def ofEntries (entries : Entries) : Context :=
  empty.insertAll entries

/-- A context as a value. -/
def toValue (c : Context) : Value :=
  .services c.entries

/-- The context that a value is, if it is one. -/
def ofValue? : Value → Option Context
  | .services entries => some (ofEntries entries)
  | _ => none

/-- A context as shown to a programmer: the names of its services, sorted. -/
def shown (c : Context) : String :=
  let names := (c.keys.map (·.name)).mergeSort fun a b => decide (a ≤ b)
  Text.shownRecord "Context" [("services", Text.quotedList names)]

@[simp] theorem get?_insert (c : Context) (key : ServiceKey) (value : Value)
    (other : ServiceKey) :
    (c.insert key value).get? other = if other = key then some value else c.get? other :=
  Entries.find?_place key value other c.entries

@[simp] theorem get?_empty (key : ServiceKey) : empty.get? key = none := rfl

/-- Contexts that answer alike are equal. -/
theorem ext_get? {c d : Context} (h : ∀ key, c.get? key = d.get? key) : c = d := by
  have := Entries.ext_find? c.ordered d.ordered h
  cases c
  cases d
  cases this
  rfl

/-- Entries that are added one after the other are found before those that were there already. -/
theorem get?_insertAll (key : ServiceKey) : ∀ (entries : Entries) (c : Context),
    entries.Ordered →
      (c.insertAll entries).get? key = (entries.find? key).or (c.get? key)
  | [], c, _ => by simp [insertAll, Entries.find?]
  | (k, v) :: rest, c, h => by
    have hrest := (List.pairwise_cons.1 h).1
    have ih := get?_insertAll key rest (c.insert k v) (List.pairwise_cons.1 h).2
    simp only [insertAll, List.foldl_cons] at ih ⊢
    rw [ih, get?_insert]
    by_cases hk : k = key
    · subst hk
      rw [Entries.find?_eq_none hrest]
      simp [Entries.find?]
    · simp [Entries.find?, hk, Ne.symm hk]

/-- What is found after a merge: the right side wins. -/
@[simp] theorem get?_merge (c d : Context) (key : ServiceKey) :
    (c.merge d).get? key = (d.get? key).or (c.get? key) :=
  get?_insertAll key d.entries c d.ordered

/-- A context comes back from its entries. -/
@[simp] theorem ofEntries_entries (c : Context) : ofEntries c.entries = c := by
  refine ext_get? fun key => ?_
  rw [ofEntries, get?_insertAll key c.entries empty c.ordered, get?_empty, Option.or_none]
  rfl

/-- A context that has been made a value is read back as it was. -/
@[simp] theorem ofValue?_toValue (c : Context) : ofValue? c.toValue = some c := by
  simp [ofValue?, toValue]

end Context

end EffectKernel
