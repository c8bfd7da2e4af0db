import HeaviestChain.Json.Value
import HeaviestChain.Text.Decimal

/-!
What a value says as a number, a text or a record. Numbers are whole and written in decimal digits
alone. A record is an object that has each of its fields once, other keys being passed over, or an
array of its fields in order.
-/

namespace HeaviestChain.Json.Value

/-- The natural number written in digits alone. -/
def natural? : Value → Option Nat
  | .number token => if token.all Char.isDigit then some (Text.valueOfDigits token) else none
  | _ => none

/-- The number of 32 bits. -/
def uInt32? (v : Value) : Option UInt32 :=
  v.natural?.bind fun n => if n < UInt32.size then some (UInt32.ofNat n) else none

/-- The number of 64 bits. -/
def uInt64? (v : Value) : Option UInt64 :=
  v.natural?.bind fun n => if n < UInt64.size then some (UInt64.ofNat n) else none

/-- The truth value. -/
def bool? : Value → Option Bool
  | .bool b => some b
  | _ => none

/-- The items of an array. -/
def items? : Value → Option (List Value)
  | .array items => some items
  | _ => none

/-- The characters of a text, escapes read. -/
def characters? : Value → Option (List Char)
  | .text token => Token.unescape? token
  | _ => none

/-- A text. -/
def string? (v : Value) : Option String := v.characters?.map String.ofList

/-- The fields of an object with their keys read; a key that names no text is refused. -/
def readKeys? : List (List Char × Value) → Option (List (List Char × Value))
  | [] => some []
  | (token, v) :: rest =>
    match Token.unescape? token, readKeys? rest with
    | some key, some fields => some ((key, v) :: fields)
    | _, _ => none

/-- The value of a key that stands once among the fields. -/
def only? (fields : List (List Char × Value)) (key : List Char) : Option Value :=
  match fields.filter fun f => f.1 = key with
  | [f] => some f.2
  | _ => none

/-- The values of the named fields of a record, in the order of the names. -/
def record? (names : List String) : Value → Option (List Value)
  | .array items => if items.length = names.length then some items else none
  | .object fields => (readKeys? fields).bind fun fs => names.mapM fun name => only? fs name.toList
  | _ => none

end HeaviestChain.Json.Value
