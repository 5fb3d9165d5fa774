import EffectKernel.ServiceKey

/-!
# Values

What travels through a running program. Successes, errors and services are all of
this one type, because the machine that moves them does not look inside. Most
values are plain data; the rest are the results of building services, which only
the operations that provide services take apart.

A record keeps its fields in the order of their names, so that two records with the
same fields are one value.

## Main definitions

* `Value`: Data, or the result of building services.
* `Value.same`: Equality of values, as a computation.
* `Value.record1`, `Value.record2`, `Value.ofFields`: Records.
* `Value.get`, `Value.item`: A field of a record and an item of a list.
* `Value.tag`: The word an error is told apart by.

## Theorems

* `Value.same_iff`: The computation decides equality.
-/

namespace EffectKernel

/-- Data, or the result of building services. -/
inductive Value where
  /-- The value that says nothing. -/
  | null
  /-- A truth value. -/
  | bool (b : Bool)
  /-- A whole number of 64 bits. -/
  | int (n : Int64)
  /-- A text. -/
  | text (s : String)
  /-- Values in order. -/
  | list (items : List Value)
  /-- Named values in the order of the names. -/
  | record (fields : List (String × Value))
  /-- A registry of services. -/
  | services (entries : List (ServiceKey × Value))
  /-- A registry that has just been built, with those built before it, each under
      the number of the recipe it came from. -/
  | built (registry : Value) (earlier : List (Nat × Value))

namespace Value

mutual
/-- Equality of values, as a computation. -/
def same : Value → Value → Bool
  | .null, .null => true
  | .bool a, .bool b => a == b
  | .int a, .int b => a == b
  | .text a, .text b => a == b
  | .list xs, .list ys => sameItems xs ys
  | .record xs, .record ys => sameFields xs ys
  | .services xs, .services ys => sameServices xs ys
  | .built x xs, .built y ys => same x y && sameEarlier xs ys
  | _, _ => false

/-- Equality of lists of values. -/
def sameItems : List Value → List Value → Bool
  | [], [] => true
  | x :: xs, y :: ys => same x y && sameItems xs ys
  | _, _ => false

/-- Equality of the fields of records. -/
def sameFields : List (String × Value) → List (String × Value) → Bool
  | [], [] => true
  | (k, x) :: xs, (l, y) :: ys => k == l && same x y && sameFields xs ys
  | _, _ => false

/-- Equality of the entries of registries. -/
def sameServices : List (ServiceKey × Value) → List (ServiceKey × Value) → Bool
  | [], [] => true
  | (k, x) :: xs, (l, y) :: ys => k == l && same x y && sameServices xs ys
  | _, _ => false

/-- Equality of what was built before. -/
def sameEarlier : List (Nat × Value) → List (Nat × Value) → Bool
  | [], [] => true
  | (k, x) :: xs, (l, y) :: ys => k == l && same x y && sameEarlier xs ys
  | _, _ => false
end

mutual
/-- The test for equal values finds exactly the equal ones. The recursion is the one of the test,
    over values and the lists in them. -/
theorem same_iff : ∀ a b : Value, same a b = true ↔ a = b
  | .null, b => by cases b <;> simp [same]
  | .bool _, b => by cases b <;> simp [same]
  | .int _, b => by cases b <;> simp [same]
  | .text _, b => by cases b <;> simp [same]
  | .list xs, b => by cases b <;> simp [same, sameItems_iff xs]
  | .record xs, b => by cases b <;> simp [same, sameFields_iff xs]
  | .services xs, b => by cases b <;> simp [same, sameServices_iff xs]
  | .built x xs, b => by cases b <;> simp [same, same_iff x, sameEarlier_iff xs]

theorem sameItems_iff : ∀ a b : List Value, sameItems a b = true ↔ a = b
  | [], b => by cases b <;> simp [sameItems]
  | x :: xs, b => by cases b <;> simp [sameItems, same_iff x, sameItems_iff xs]

theorem sameFields_iff : ∀ a b : List (String × Value), sameFields a b = true ↔ a = b
  | [], b => by cases b <;> simp [sameFields]
  | (k, x) :: xs, b => by
    rcases b with _ | ⟨⟨l, y⟩, ys⟩ <;>
      simp [sameFields, same_iff x, sameFields_iff xs, and_assoc]

theorem sameServices_iff :
    ∀ a b : List (ServiceKey × Value), sameServices a b = true ↔ a = b
  | [], b => by cases b <;> simp [sameServices]
  | (k, x) :: xs, b => by
    rcases b with _ | ⟨⟨l, y⟩, ys⟩ <;>
      simp [sameServices, same_iff x, sameServices_iff xs, and_assoc]

theorem sameEarlier_iff : ∀ a b : List (Nat × Value), sameEarlier a b = true ↔ a = b
  | [], b => by cases b <;> simp [sameEarlier]
  | (k, x) :: xs, b => by
    rcases b with _ | ⟨⟨l, y⟩, ys⟩ <;>
      simp [sameEarlier, same_iff x, sameEarlier_iff xs, and_assoc]
end

instance : DecidableEq Value := fun a b =>
  decidable_of_iff (same a b = true) (same_iff a b)

instance : Inhabited Value := ⟨.null⟩

/-- The record with one field. -/
def record1 (name : String) (value : Value) : Value :=
  .record [(name, value)]

/-- The record with two fields, whose names must come in order. -/
def record2 (name₁ : String) (value₁ : Value) (name₂ : String) (value₂ : Value) : Value :=
  .record [(name₁, value₁), (name₂, value₂)]

/-- The record with given fields, brought in order. -/
def ofFields (fields : List (String × Value)) : Value :=
  .record (fields.mergeSort fun a b => decide (a.1 ≤ b.1))

/-- Two values as one. -/
def pair (a b : Value) : Value :=
  .list [a, b]

/-- A list of names. -/
def names (ns : List String) : Value :=
  .list (ns.map .text)

/-- A natural number, wrapped to 64 bits. -/
def ofNat (n : Nat) : Value :=
  .int (Int64.ofNat n)

/-- A value that may be missing. -/
def ofOption : Option Value → Value
  | none => .null
  | some v => record1 "some" v

/-- The value filed under a key in a list of pairs. -/
def lookup [BEq κ] (key : κ) : List (κ × Value) → Option Value
  | [] => none
  | (k, v) :: rest => if k == key then some v else lookup key rest

/-- A field of a record; anything without that field gives the empty value. -/
def get (name : String) : Value → Value
  | .record fields => (lookup name fields).getD .null
  | _ => .null

/-- An item of a list; anything without that item gives the empty value. -/
def item (i : Nat) : Value → Value
  | .list items => items[i]?.getD .null
  | _ => .null

/-- The word an error is told apart by: its field of that name, if it is a text. -/
def tag (v : Value) : String :=
  match v.get "tag" with
  | .text s => s
  | _ => ""

end Value

end EffectKernel
