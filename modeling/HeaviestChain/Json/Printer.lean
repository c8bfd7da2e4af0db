import HeaviestChain.Json.Value

/-!
JSON without blanks: fields and items follow one another with a comma alone between them.
-/

namespace HeaviestChain.Json

mutual

/-- The text of a value. -/
def Value.render : Value → List Char
  | .null => ['n', 'u', 'l', 'l']
  | .bool true => ['t', 'r', 'u', 'e']
  | .bool false => ['f', 'a', 'l', 's', 'e']
  | .number token => token
  | .text token => '\x22' :: token ++ ['\x22']
  | .array items => '[' :: renderItems items ++ [']']
  | .object fields => '\x7b' :: renderFields fields ++ ['\x7d']

/-- Items with commas between them. -/
def renderItems : List Value → List Char
  | [] => []
  | [v] => v.render
  | v :: w :: rest => v.render ++ ',' :: renderItems (w :: rest)

/-- Fields with commas between them. -/
def renderFields : List (List Char × Value) → List Char
  | [] => []
  | [(key, v)] => '\x22' :: key ++ '\x22' :: ':' :: v.render
  | (key, v) :: f :: rest =>
    '\x22' :: key ++ '\x22' :: ':' :: v.render ++ ',' :: renderFields (f :: rest)

end

/-- The text of a value as a string. -/
def Value.compact (v : Value) : String := String.ofList v.render

end HeaviestChain.Json
