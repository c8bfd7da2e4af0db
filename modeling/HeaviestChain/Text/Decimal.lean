/-!
Whole numbers as decimal text.
-/

namespace HeaviestChain.Text

/-- The number whose decimal digits stand most significant first. -/
def valueOfDigits (digits : List Char) : Nat :=
  digits.foldl (fun n c => 10 * n + (c.toNat - 48)) 0

/-- A number in digits alone, at least one. -/
def natural? (text : List Char) : Option Nat :=
  if text ≠ [] ∧ text.all Char.isDigit then some (valueOfDigits text) else none

/-- A number in digits, with or without a plus sign. -/
def unsigned? : List Char → Option Nat
  | '+' :: rest => natural? rest
  | text => natural? text

/-- A number in digits, with or without a sign. -/
def integer? : List Char → Option Int
  | '-' :: rest => (natural? rest).map fun n => -(n : Int)
  | text => (unsigned? text).map fun n => (n : Int)

end HeaviestChain.Text
