import EffectKernel.Json.Document
import EffectKernel.Value

/-!
# Text of Values

A value as compact JSON. There are no blanks, the fields of a record come in the
order of their names, and every character that need not be escaped stands for
itself. A registry shows the names of its services and nothing of what they are.

## Main definitions

* `Value.compact`: The compact text of a value.
-/

namespace EffectKernel

namespace Value

mutual
/-- The compact text of a value. -/
def compact : Value → String
  | .null => "null"
  | .bool true => "true"
  | .bool false => "false"
  | .int n => toString n.toInt
  | .text s => Json.quote s
  | .list items => "[" ++ compactItems items ++ "]"
  | .record fields => "\x7b" ++ compactFields fields ++ "\x7d"
  | .services entries =>
    "[" ++ String.intercalate "," (entries.map fun entry => Json.quote entry.1.name) ++ "]"
  | .built registry _ => compact registry

/-- The items of a list, parted by commas. -/
def compactItems : List Value → String
  | [] => ""
  | [item] => compact item
  | item :: rest => compact item ++ "," ++ compactItems rest

/-- The fields of a record, parted by commas. -/
def compactFields : List (String × Value) → String
  | [] => ""
  | [(name, value)] => Json.quote name ++ ":" ++ compact value
  | (name, value) :: rest =>
    Json.quote name ++ ":" ++ compact value ++ "," ++ compactFields rest
end

end Value

end EffectKernel
