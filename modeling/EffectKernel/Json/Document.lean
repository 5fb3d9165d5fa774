/-!
# JSON Documents

JSON as data: what a text says once blanks and the choice of escapes are gone. Two
things are kept that most readers throw away. A number stays the numeral that was
written, because a reader of whole numbers and a reader of floating point numbers
take different views of it. And a string with half of a surrogate pair, which
stands for no text at all, is told apart from a string that has one, because such
a string is harmless where nobody reads it.

Writing is compact: no blanks, members in the order given.

## Main definitions

* `Numeral`: A number as written.
* `Document`: A JSON value.
* `quote`: A text as a JSON string.
* `Document.text`: The compact text of a document.
-/

namespace EffectKernel

namespace Json

/-- A number as written: sign, digits before the point, digits after it, and an
    exponent with its own sign. -/
structure Numeral where
  /-- Whether a minus sign comes first. -/
  negative : Bool
  /-- The digits before the decimal point. -/
  whole : List Char
  /-- The digits after the decimal point, if there is one. -/
  fraction : Option (List Char)
  /-- The exponent's sign, true for minus, and its digits, if there is one. -/
  exponent : Option (Bool × List Char)
deriving DecidableEq

namespace Numeral

/-- The value of a run of decimal digits. -/
def digitsValue (digits : List Char) : Nat :=
  digits.foldl (fun value c => value * 10 + (c.toNat - '0'.toNat)) 0

/-- The numeral of a natural number. -/
def ofNat (n : Nat) : Numeral :=
  ⟨false, Nat.toDigits 10 n, none, none⟩

/-- The natural number a numeral writes, if it has neither sign, point nor
    exponent. -/
def toNat? : Numeral → Option Nat
  | ⟨false, whole, none, none⟩ => some (digitsValue whole)
  | _ => none

/-- The characters of a numeral. -/
def chars (n : Numeral) : List Char :=
  let sign := if n.negative then ['-'] else []
  let fraction := match n.fraction with
    | none => []
    | some digits => '.' :: digits
  let exponent := match n.exponent with
    | none => []
    | some (minus, digits) => 'e' :: ((if minus then ['-'] else []) ++ digits)
  sign ++ n.whole ++ fraction ++ exponent

end Numeral

/-- A JSON value. A missing string or member name stands for one that holds half of
    a surrogate pair. -/
inductive Document where
  /-- The empty value. -/
  | null
  /-- A truth value. -/
  | bool (value : Bool)
  /-- A number as written. -/
  | number (numeral : Numeral)
  /-- A string. -/
  | string (text : Option String)
  /-- A sequence of values. -/
  | array (items : List Document)
  /-- Named values in the order written, repetitions included. -/
  | object (members : List (Option String × Document))

/-- The escape of a control character without a letter of its own. -/
def controlEscape (c : Char) : String :=
  let digits := Nat.toDigits 16 c.toNat
  "\\u" ++ String.ofList (List.replicate (4 - digits.length) '0' ++ digits)

/-- One character inside a JSON string. Only what must be escaped is. -/
def quoteChar (c : Char) : String :=
  if c = '"' then "\\\""
  else if c = '\\' then "\\\\"
  else if c = '\n' then "\\n"
  else if c = '\r' then "\\r"
  else if c = '\t' then "\\t"
  else if c = '\x08' then "\\b"
  else if c = '\x0c' then "\\f"
  else if c.toNat < 0x20 then controlEscape c
  else c.toString

/-- A text as a JSON string. -/
def quote (s : String) : String :=
  "\"" ++ s.foldl (fun out c => out ++ quoteChar c) "" ++ "\""

mutual
/-- The compact text of a document. -/
def Document.text : Document → String
  | .null => "null"
  | .bool true => "true"
  | .bool false => "false"
  | .number n => String.ofList n.chars
  | .string s => quote (s.getD "")
  | .array items => "[" ++ itemsText items ++ "]"
  | .object members => "\x7b" ++ membersText members ++ "\x7d"

/-- The items of an array, parted by commas. -/
def itemsText : List Document → String
  | [] => ""
  | [item] => item.text
  | item :: rest => item.text ++ "," ++ itemsText rest

/-- The members of an object, parted by commas. -/
def membersText : List (Option String × Document) → String
  | [] => ""
  | [(name, value)] => quote (name.getD "") ++ ":" ++ value.text
  | (name, value) :: rest => quote (name.getD "") ++ ":" ++ value.text ++ "," ++ membersText rest
end

/-- An object with one member, the form a variant with a payload takes. -/
def Document.variant (name : String) (payload : Document) : Document :=
  .object [(some name, payload)]

/-- A natural number as a document. -/
def Document.ofNat (n : Nat) : Document :=
  .number (.ofNat n)

end Json

end EffectKernel
