import HeaviestChain.Json.Token

/-!
JSON values as they are written. Numbers and texts keep their tokens, the characters between
their first and last, because a reader of a field decides what a token may say; objects keep their
fields in order, repeated keys included.
-/

namespace HeaviestChain.Json

/-- A value; keys and texts are tokens without their quotes. -/
inductive Value where
  | null
  | bool (b : Bool)
  | number (token : List Char)
  | text (token : List Char)
  | array (items : List Value)
  | object (fields : List (List Char × Value))

namespace Value

/-- A natural number in decimal digits. -/
def ofNat (n : Nat) : Value := .number (Nat.toDigits 10 n)

/-- An integer in decimal digits. -/
def ofInt : Int → Value
  | .ofNat n => ofNat n
  | .negSucc n => .number ('-' :: Nat.toDigits 10 (n + 1))

/-- A number of 32 bits. -/
def ofUInt32 (w : UInt32) : Value := ofNat w.toNat

/-- A number of 64 bits. -/
def ofUInt64 (w : UInt64) : Value := ofNat w.toNat

/-- A text, with escapes where they are needed. -/
def ofString (s : String) : Value := .text (Token.escape s.toList)

/-- An object with the given fields in order. -/
def ofFields (fields : List (String × Value)) : Value :=
  .object (fields.map fun f => (Token.escape f.1.toList, f.2))

end Value

end HeaviestChain.Json
