import HeaviestChain.Json.Field

/-!
Which values may wait for their place. A field that is passed over may hold any value of the format,
nested to any depth. A value that is kept before its place is known is read on the spot: few
containers are open at once, its texts are texts, and its numbers come out as finite doubles.

A number is read in two parts, as many of its leading digits as fit into 64 bits and the power of
ten that scales them. Both parts are rounded to a double before they are multiplied.
-/

namespace HeaviestChain.Json

namespace Numeral

/-- The number of the leading digits that fit into 64 bits behind those of `n`, and the digits that
are left. -/
def takeDigits (n : Nat) : List Char → Nat × List Char
  | [] => (n, [])
  | c :: rest =>
    let m := 10 * n + (c.toNat - 48)
    if m < UInt64.size then takeDigits m rest else (n, c :: rest)

/-- The two parts of a numeral. Digits left before the point raise the power, those taken behind it
lower it. -/
def parts (token : List Char) : Nat × Int :=
  let isMark (c : Char) : Bool := c = 'e' ∨ c = 'E'
  let mantissa := (token.takeWhile fun c => !isMark c).filter fun c => c ≠ '-'
  let power := token.dropWhile fun c => !isMark c
  let fraction := (mantissa.dropWhile fun c => c ≠ '.').drop 1
  let (whole, left) := takeDigits 0 (mantissa.takeWhile fun c => c ≠ '.')
  let (n, ignored) := takeDigits whole fraction
  let written := Text.valueOfDigits (power.filter Char.isDigit)
  let exponent : Int := if power.contains '-' then - (written : Int) else written
  (n, exponent + left.length + ignored.length - fraction.length)

/-- The nearest number of 53 leading bits, the even one of two. -/
def nearestDouble (n : Nat) : Nat :=
  let shift := n.log2 - 52
  let kept := n >>> shift
  let lost := n - kept <<< shift
  let up := 1 <<< shift < 2 * lost ∨ 2 * lost = 1 <<< shift ∧ kept % 2 = 1
  (if up then kept + 1 else kept) <<< shift

/-- The greatest power of ten among the doubles. -/
def maxPower : Nat := 308

/-- The least number that rounds past the greatest finite double. -/
def firstInfinite : Nat := ((1 <<< 54) - 1) <<< 970

/-- Whether a numeral comes out as a finite double. -/
def isFinite (token : List Char) : Bool :=
  match parts token with
  | (_, .negSucc _) => true
  | (n, .ofNat power) =>
    n = 0 || power ≤ maxPower &&
      nearestDouble n * nearestDouble (Nat.pow 10 power) < firstInfinite

end Numeral

/-- The count of containers that may be open around a value that is kept. -/
def maxOpen : Nat := 127

mutual

/-- Whether a value may be kept where `room` more containers may be open. -/
def Value.isPlain (room : Nat) : Value → Bool
  | .null | .bool _ => true
  | .number token => Numeral.isFinite token
  | .text token => (Token.unescape? token).isSome
  | .array items => 0 < room && itemsPlain (room - 1) items
  | .object fields => 0 < room && fieldsPlain (room - 1) fields

/-- Whether all items may be kept. -/
def itemsPlain (room : Nat) : List Value → Bool
  | [] => true
  | v :: rest => v.isPlain room && itemsPlain room rest

/-- Whether all fields may be kept. -/
def fieldsPlain (room : Nat) : List (List Char × Value) → Bool
  | [] => true
  | (key, v) :: rest => (Token.unescape? key).isSome && v.isPlain room && fieldsPlain room rest

end

end HeaviestChain.Json
