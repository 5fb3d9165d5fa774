import EffectKernel.Script.Store
import EffectKernel.Value.Text

/-!
# The Functions of a Script

Values, functions and tests as a script in the outer layer writes them. A written value
may have holes that are filled from the variables around it; a variable that has no
value fills its hole with nothing. A function works on one value; it may write to the
log, and it may panic, as it does when the value is of the wrong kind.

## Main definitions

* `Scope`: The variables around a part of a script.
* `Template`: A value with holes.
* `Function`: A function of one value.
* `Test`: A property of values.
* `Combination`: A function of two values.
-/

namespace EffectKernel

namespace Script

/-- The variables around a part of a script, the innermost first. -/
abbrev Scope : Type := List (String × Value)

/-- A value with holes. -/
inductive Template where
  /-- A value without holes. -/
  | value (v : Value)
  /-- A hole. -/
  | hole (name : String)
  /-- Values in order. -/
  | list (items : List Template)
  /-- Named values in the order of the names. -/
  | record (fields : List (String × Template))

namespace Template

mutual
/-- The value with its holes filled. -/
def fill (scope : Scope) : Template → Value
  | .value v => v
  | .hole name => (Value.lookup name scope).getD .null
  | .list items => .list (fillItems scope items)
  | .record fields => .record (fillFields scope fields)

/-- The items of a list with their holes filled. -/
def fillItems (scope : Scope) : List Template → List Value
  | [] => []
  | item :: rest => item.fill scope :: fillItems scope rest

/-- The fields of a record with their holes filled. -/
def fillFields (scope : Scope) : List (String × Template) → List (String × Value)
  | [] => []
  | (name, field) :: rest => (name, field.fill scope) :: fillFields scope rest
end

end Template

/-- A function of one value. -/
inductive Function where
  /-- Gives the value itself. -/
  | identity
  /-- Adds to a number, within 64 bits. -/
  | add (n : Int64)
  /-- Multiplies a number, within 64 bits. -/
  | mul (n : Int64)
  /-- Adds to the end of a text. -/
  | append (s : String)
  /-- Counts the characters of a text or the items of a list. -/
  | size
  /-- Gives always the same. -/
  | const (v : Template)
  /-- Gives the record with the value as its one field. -/
  | wrap (name : String)
  /-- Gives a field of a record. -/
  | get (name : String)
  /-- Gives an item of a list. -/
  | item (index : Int)
  /-- Gives the list of the value alone. -/
  | singleton
  /-- Gives the text of the value. -/
  | text
  /-- Writes the value to the log, with a remark. -/
  | log (remark : Template)
  /-- Functions one after the other. -/
  | chain (fs : List Function)
  /-- Panics. -/
  | stop (p : Panic)

namespace Function

mutual
/-- The result of a function. -/
def apply (scope : Scope) : Function → Value → Act Store Value
  | .identity, v => pure v
  | .add n, .int m => pure (.int (m + n))
  | .mul n, .int m => pure (.int (m * n))
  | .add _, _ => Act.stopWith "not an int"
  | .mul _, _ => Act.stopWith "not an int"
  | .append s, .text t => pure (.text (t ++ s))
  | .append _, _ => Act.stopWith "not a string"
  | .size, .text t => pure (.ofNat t.length)
  | .size, .list items => pure (.ofNat items.length)
  | .size, _ => Act.stopWith "no length"
  | .const c, _ => pure (c.fill scope)
  | .wrap name, v => pure (Value.record1 name v)
  | .get name, v => pure (v.get name)
  | .item index, v => pure (if index < 0 then .null else v.item index.toNat)
  | .singleton, v => pure (.list [v])
  | .text, v => pure (.text v.compact)
  | .log remark, v => do
    Store.write (.pair (remark.fill scope) v)
    return v
  | .chain fs, v => applyEach scope fs v
  | .stop p, _ => Act.stop p

/-- The result of functions one after the other. -/
def applyEach (scope : Scope) : List Function → Value → Act Store Value
  | [], v => pure v
  | f :: rest, v => do applyEach scope rest (← f.apply scope v)
end

end Function

/-- A property of values. -/
inductive Test where
  /-- Always or never holds. -/
  | always (holds : Bool)
  /-- Holds of one value. -/
  | equal (v : Template)
  /-- Holds of the numbers below a bound. -/
  | lessThan (n : Int64)
  /-- Holds of the numbers with a remainder. -/
  | remainder (modulus rest : Int64)
  /-- Holds of the values with a tag. -/
  | tag (t : String)
  /-- Holds where another test does not. -/
  | negation (test : Test)
  /-- Writes the value to the log and then holds where another test does. -/
  | log (test : Test)
  /-- Panics. -/
  | stop (p : Panic)

namespace Test

/-- Whether a value passes a test. The remainder of a number is never negative, and
    there is none by zero, nor by minus one of the least number. -/
def holds (scope : Scope) : Test → Value → Act Store Bool
  | .always b, _ => pure b
  | .equal t, v => pure (v == t.fill scope)
  | .lessThan n, .int m => pure (m < n)
  | .lessThan _, _ => pure false
  | .remainder modulus rest, .int m =>
    if modulus = 0 then
      Act.stopWith "attempt to calculate the remainder with a divisor of zero"
    else if modulus = -1 ∧ m = Int64.minValue then
      Act.stopWith "attempt to calculate the remainder with overflow"
    else pure (m.toInt % modulus.toInt == rest.toInt)
  | .remainder _ _, _ => pure false
  | .tag t, v => pure (v.tag == t)
  | .negation test, v => do return !(← test.holds scope v)
  | .log test, v => do
    Store.write (.pair (.text "test") v)
    test.holds scope v
  | .stop p, _ => Act.stop p

end Test

/-- A function of two values. -/
inductive Combination where
  /-- Gives both in order. -/
  | pair
  /-- Gives both, the second first. -/
  | swap
  /-- Gives the first. -/
  | first
  /-- Gives the second. -/
  | second
  /-- Gives the difference of two numbers, within 64 bits. -/
  | difference
  /-- Panics. -/
  | stop (p : Panic)

namespace Combination

/-- The result of a function of two values. -/
def apply : Combination → Value → Value → Act Store Value
  | .pair, v, w => pure (.pair v w)
  | .swap, v, w => pure (.pair w v)
  | .first, v, _ => pure v
  | .second, _, w => pure w
  | .difference, .int m, .int n => pure (.int (m - n))
  | .difference, _, _ => Act.stopWith "not an int"
  | .stop p, _, _ => Act.stop p

end Combination

end Script

end EffectKernel
