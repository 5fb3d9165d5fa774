import EffectKernel.Text.Printable

/-!
# Quoted Text

How a value is shown to a programmer who inspects it. A text is put in double
quotes with everything that could be mistaken for something else escaped, a list
is put in square brackets, and a record is written with its name in front of its
fields in braces.

Braces appear in what these functions print, so they are written by their code in
the string literals below.

## Main definitions

* `quoted`: A text in double quotes.
* `listed`: Items between square brackets.
* `shownRecord`: A named record with its fields.
* `shownVariant`, `shownOption`: A constructor with its argument.
-/

namespace EffectKernel

namespace Text

/-- The lower case hexadecimal digits of a number, without leading zeros. -/
def hexDigits (n : Nat) : String :=
  String.ofList (Nat.toDigits 16 n)

/-- One character inside a quoted text. The escapes with a letter of their own come
    first; any other character that shows nothing is written by its code point. -/
def quotedChar (c : Char) : String :=
  if c = '\x00' then "\\0"
  else if c = '\t' then "\\t"
  else if c = '\r' then "\\r"
  else if c = '\n' then "\\n"
  else if c = '\\' then "\\\\"
  else if c = '"' then "\\\""
  else if isPrintable c then c.toString
  else "\\u\x7b" ++ hexDigits c.toNat ++ "\x7d"

/-- A text in double quotes, from which it can be read back without doubt. -/
def quoted (s : String) : String :=
  "\"" ++ s.foldl (fun out c => out ++ quotedChar c) "" ++ "\""

/-- Items between square brackets, parted by commas. -/
def listed (items : List String) : String :=
  "[" ++ String.intercalate ", " items ++ "]"

/-- Names between square brackets, each of them quoted. -/
def quotedList (names : List String) : String :=
  listed (names.map quoted)

/-- A record with its name in front, and its fields in the order given. -/
def shownRecord (name : String) (fields : List (String × String)) : String :=
  name ++ " \x7b " ++
    String.intercalate ", " (fields.map fun field => field.1 ++ ": " ++ field.2) ++ " \x7d"

/-- A constructor with its one argument in parentheses. -/
def shownVariant (name argument : String) : String :=
  name ++ "(" ++ argument ++ ")"

/-- A value that may be missing. -/
def shownOption : Option String → String
  | none => "None"
  | some text => shownVariant "Some" text

end Text

end EffectKernel
