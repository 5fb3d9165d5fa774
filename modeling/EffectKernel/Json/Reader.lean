import EffectKernel.Binary64.Decimal
import EffectKernel.Json.Document

/-!
# Reading JSON

The reader of JSON texts. It accepts exactly the grammar: no blanks inside a token,
no leading zeros, no trailing commas, no control characters inside a string, and
nothing but blanks after the value.

Each function takes the characters that are left and returns what it read with the
characters after it. Nesting is bounded by a count that starts above twice the
length of the text. No text can use it up: between two characters that are taken,
the count goes down at most twice.

## Main definitions

* `read?`: The document a text says.
* `Numeral.toBinary64?`: The floating point number a numeral stands for.
-/

namespace EffectKernel

namespace Json

/-- The four characters that may stand between tokens. -/
def isBlank (c : Char) : Bool :=
  c == ' ' || c == '\n' || c == '\t' || c == '\r'

/-- The rest of a text after the blanks in front. -/
def skipBlanks (cs : List Char) : List Char :=
  cs.dropWhile isBlank

/-- The value of a hexadecimal digit. -/
def hexValue? (c : Char) : Option Nat :=
  if '0' ≤ c ∧ c ≤ '9' then some (c.toNat - '0'.toNat)
  else if 'a' ≤ c ∧ c ≤ 'f' then some (c.toNat - 'a'.toNat + 10)
  else if 'A' ≤ c ∧ c ≤ 'F' then some (c.toNat - 'A'.toNat + 10)
  else none

/-- Four hexadecimal digits, as one code unit. -/
def readUnit : List Char → Option (Nat × List Char)
  | a :: b :: c :: d :: rest =>
    match hexValue? a, hexValue? b, hexValue? c, hexValue? d with
    | some a, some b, some c, some d => some (((a * 16 + b) * 16 + c) * 16 + d, rest)
    | _, _, _, _ => none
  | _ => none

/-- The character of a one letter escape. -/
def escapeChar? : Char → Option Char
  | '"' => some '"'
  | '\\' => some '\\'
  | '/' => some '/'
  | 'b' => some '\x08'
  | 'f' => some '\x0c'
  | 'n' => some '\n'
  | 'r' => some '\r'
  | 't' => some '\t'
  | _ => none

/-- The second half of a surrogate pair, if the text goes on with one. -/
def readLowHalf : List Char → Option (Nat × List Char)
  | '\\' :: 'u' :: rest =>
    match readUnit rest with
    | some (unit, rest) => if 0xDC00 ≤ unit ∧ unit ≤ 0xDFFF then some (unit, rest) else none
    | none => none
  | _ => none

/-- The inside of a string up to its closing quote. The characters read so far are
    kept in reverse, and there are none once half a surrogate pair has been met. -/
def readString : Nat → Option (List Char) → List Char → Option (Option String × List Char)
  | 0, _, _ => none
  | _, _, [] => none
  | _ + 1, done, '"' :: rest => some (done.map fun cs => String.ofList cs.reverse, rest)
  | n + 1, done, '\\' :: 'u' :: rest =>
    match readUnit rest with
    | none => none
    | some (unit, rest) =>
      if unit < 0xD800 ∨ 0xDFFF < unit then
        readString n (done.map (Char.ofNat unit :: ·)) rest
      else if unit ≤ 0xDBFF then
        match readLowHalf rest with
        | some (low, rest) =>
          let point := 0x10000 + (unit - 0xD800) * 0x400 + (low - 0xDC00)
          readString n (done.map (Char.ofNat point :: ·)) rest
        | none => readString n none rest
      else readString n none rest
  | n + 1, done, '\\' :: c :: rest =>
    match escapeChar? c with
    | some escaped => readString n (done.map (escaped :: ·)) rest
    | none => none
  | n + 1, done, c :: rest =>
    if c.toNat < 0x20 ∨ c = '\\' then none
    else readString n (done.map (c :: ·)) rest

/-- A run of digits that must not be empty. -/
def readDigits (cs : List Char) : Option (List Char × List Char) :=
  match cs.takeWhile Char.isDigit with
  | [] => none
  | digits => some (digits, cs.dropWhile Char.isDigit)

/-- The digits before the decimal point: a lone zero, or digits that start with
    another one. -/
def readWhole : List Char → Option (List Char × List Char)
  | '0' :: c :: rest => if c.isDigit then none else some (['0'], c :: rest)
  | cs => readDigits cs

/-- The digits after the decimal point, if a point comes next. -/
def readFraction : List Char → Option (Option (List Char) × List Char)
  | '.' :: rest => (readDigits rest).map fun (digits, rest) => (some digits, rest)
  | cs => some (none, cs)

/-- The digits of an exponent, after its letter. -/
def readExponentDigits : List Char → Option (Option (Bool × List Char) × List Char)
  | '+' :: rest => (readDigits rest).map fun (digits, rest) => (some (false, digits), rest)
  | '-' :: rest => (readDigits rest).map fun (digits, rest) => (some (true, digits), rest)
  | cs => (readDigits cs).map fun (digits, rest) => (some (false, digits), rest)

/-- The exponent, if one comes next. -/
def readExponent : List Char → Option (Option (Bool × List Char) × List Char)
  | 'e' :: rest => readExponentDigits rest
  | 'E' :: rest => readExponentDigits rest
  | cs => some (none, cs)

/-- A number after its sign. -/
def readUnsigned (negative : Bool) (cs : List Char) : Option (Numeral × List Char) := do
  let (whole, cs) ← readWhole cs
  let (fraction, cs) ← readFraction cs
  let (exponent, cs) ← readExponent cs
  return (⟨negative, whole, fraction, exponent⟩, cs)

/-- A number. -/
def readNumeral : List Char → Option (Numeral × List Char)
  | '-' :: rest => readUnsigned true rest
  | cs => readUnsigned false cs

/-- The rest of a text after a given beginning. -/
def afterWord? : List Char → List Char → Option (List Char)
  | [], cs => some cs
  | w :: word, c :: cs => if w = c then afterWord? word cs else none
  | _ :: _, [] => none

mutual
/-- A value, with blanks allowed in front. -/
def readValue : Nat → List Char → Option (Document × List Char)
  | 0, _ => none
  | n + 1, cs =>
    match skipBlanks cs with
    | [] => none
    | '"' :: rest => (readString n (some []) rest).map fun (text, rest) => (.string text, rest)
    | '[' :: rest =>
      match skipBlanks rest with
      | ']' :: rest => some (.array [], rest)
      | rest => (readItems n rest).map fun (items, rest) => (.array items, rest)
    | '{' :: rest =>
      match skipBlanks rest with
      | '}' :: rest => some (.object [], rest)
      | rest => (readMembers n rest).map fun (members, rest) => (.object members, rest)
    | 'n' :: rest => (afterWord? ['u', 'l', 'l'] rest).map fun rest => (.null, rest)
    | 't' :: rest => (afterWord? ['r', 'u', 'e'] rest).map fun rest => (.bool true, rest)
    | 'f' :: rest => (afterWord? ['a', 'l', 's', 'e'] rest).map fun rest => (.bool false, rest)
    | rest => (readNumeral rest).map fun (numeral, rest) => (.number numeral, rest)

/-- The items of an array up to its bracket; there is at least one. -/
def readItems : Nat → List Char → Option (List Document × List Char)
  | 0, _ => none
  | n + 1, cs => do
    let (item, cs) ← readValue n cs
    match skipBlanks cs with
    | ']' :: rest => return ([item], rest)
    | ',' :: rest =>
      let (items, rest) ← readItems n rest
      return (item :: items, rest)
    | _ => none

/-- The members of an object up to its brace; there is at least one. -/
def readMembers : Nat → List Char → Option (List (Option String × Document) × List Char)
  | 0, _ => none
  | n + 1, cs => do
    match skipBlanks cs with
    | '"' :: rest =>
      let (name, cs) ← readString n (some []) rest
      match skipBlanks cs with
      | ':' :: rest =>
        let (value, cs) ← readValue n rest
        match skipBlanks cs with
        | '}' :: rest => return ([(name, value)], rest)
        | ',' :: rest =>
          let (members, rest) ← readMembers n rest
          return ((name, value) :: members, rest)
        | _ => none
      | _ => none
    | _ => none
end

/-- The document a text says, if it says exactly one. -/
def read? (text : String) : Option Document :=
  let cs := text.toList
  match readValue (2 * cs.length + 2) cs with
  | some (document, rest) => if (skipBlanks rest).isEmpty then some document else none
  | none => none

namespace Numeral

/-- The largest number that digits are gathered in. -/
def gatherLimit : Nat := UInt64.size - 1

/-- Digits before the point, gathered as long as the number fits in 64 bits. A digit
    that no longer fits is dropped with all that follow it, and each dropped digit
    counts as a factor of ten. -/
def gatherWhole (value : Nat) : List Char → Nat × Nat
  | [] => (value, 0)
  | c :: rest =>
    let next := value * 10 + (c.toNat - '0'.toNat)
    if gatherLimit < next then (value, rest.length + 1) else gatherWhole next rest

/-- Digits after the point, gathered likewise and counted. Dropped digits change
    nothing. -/
def gatherFraction (value count : Nat) : List Char → Nat × Nat
  | [] => (value, count)
  | c :: rest =>
    let next := value * 10 + (c.toNat - '0'.toNat)
    if gatherLimit < next then (value, count) else gatherFraction next (count + 1) rest

/-- The largest exponent that is worked out. -/
def exponentLimit : Nat := 0x7FFFFFFF

/-- A power of ten held within 32 signed bits. -/
def clampExponent (e : Int) : Int :=
  max (-(exponentLimit : Int) - 1) (min e exponentLimit)

/-- The floating point number a numeral stands for, unless it is too large. A plain
    whole number is rounded once; anything else goes through its leading digits and
    a power of ten. -/
def toBinary64? (n : Numeral) : Option Binary64 :=
  let gathered := gatherWhole 0 n.whole
  let withFraction := gatherFraction gathered.1 0 (n.fraction.getD [])
  let start : Int := (gathered.2 : Int) - (withFraction.2 : Int)
  match n.exponent with
  | none => Binary64.ofDecimal? n.negative withFraction.1 start
  | some (minus, digits) =>
    let size := digitsValue digits
    if exponentLimit < size then
      if withFraction.1 ≠ 0 ∧ minus = false then none
      else some (if n.negative then Binary64.zero.neg else Binary64.zero)
    else
      let exponent := if minus then start - (size : Int) else start + (size : Int)
      Binary64.ofDecimal? n.negative withFraction.1 (clampExponent exponent)

end Numeral

end Json

end EffectKernel
