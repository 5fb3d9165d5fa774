/-!
# Service Keys

A service is filed under a key. The key's number is what tells services apart; the
name is for people, and two keys may share one. The number fixes the name, so a key
is compared as a whole.

Registries keep their entries in the order of the keys, which makes the registry
with given entries unique. The order is by number first.

## Main definitions

* `ServiceKey`: The key of a service.
* `ServiceKey.before`: The order of the keys.

## Theorems

* `ServiceKey.not_before_self`, `ServiceKey.before_trans`: The order is strict.
* `ServiceKey.before_total`: Two different keys come one before the other.
-/

namespace EffectKernel

/-- The key of a service. -/
structure ServiceKey where
  /-- What tells this service from the others. -/
  id : Nat
  /-- What people call it. -/
  name : String
deriving DecidableEq

namespace ServiceKey

/-- The order of the keys: by number, and by name among equal numbers. -/
def before (a b : ServiceKey) : Prop :=
  a.id < b.id ∨ (a.id = b.id ∧ a.name < b.name)

instance (a b : ServiceKey) : Decidable (a.before b) :=
  inferInstanceAs (Decidable (_ ∨ _))

/-- A key as shown to a programmer. -/
def shown (k : ServiceKey) : String :=
  "ServiceKey(" ++ k.name ++ ")"

/-- No key comes before itself. -/
theorem not_before_self (a : ServiceKey) : ¬ a.before a := by
  rintro (h | ⟨_, h⟩)
  · exact Nat.lt_irrefl _ h
  · exact String.lt_irrefl _ h

/-- The order of keys is transitive. -/
theorem before_trans {a b c : ServiceKey} (hab : a.before b) (hbc : b.before c) :
    a.before c := by
  rcases hab with hab | ⟨hab, hab'⟩ <;> rcases hbc with hbc | ⟨hbc, hbc'⟩
  · exact Or.inl (Nat.lt_trans hab hbc)
  · exact Or.inl (hbc ▸ hab)
  · exact Or.inl (hab ▸ hbc)
  · exact Or.inr ⟨hab.trans hbc, String.lt_trans hab' hbc'⟩

/-- Of two different keys one comes before the other. -/
theorem before_total {a b : ServiceKey} (h : a ≠ b) : a.before b ∨ b.before a := by
  rcases Nat.lt_trichotomy a.id b.id with hid | hid | hid
  · exact Or.inl (Or.inl hid)
  · rcases Std.lt_trichotomy a.name b.name with hname | hname | hname
    · exact Or.inl (Or.inr ⟨hid, hname⟩)
    · cases a
      cases b
      simp_all
    · exact Or.inr (Or.inr ⟨hid.symm, hname⟩)
  · exact Or.inr (Or.inl hid)

end ServiceKey

end EffectKernel
