/-!
Hexadecimal text: two digits a byte, high half first, and numbers without leading zeros. Writing
uses lower case; both cases are read.
-/

namespace HeaviestChain.Hex

/-- The lower-case digit of a number below sixteen. -/
def digit (n : Nat) : Char := Nat.digitChar n

/-- The value of the hexadecimal digit with this code, of either case. -/
def value? (code : Nat) : Option Nat :=
  if 48 ≤ code ∧ code ≤ 57 then some (code - 48)
  else if 97 ≤ code ∧ code ≤ 102 then some (code - 87)
  else if 65 ≤ code ∧ code ≤ 70 then some (code - 55)
  else none

/-- The two digits of a byte. -/
def ofByte (b : UInt8) : List Char := [digit (b.toNat / 16), digit (b.toNat % 16)]

/-- The digits of each byte in turn. -/
def ofBytes (bs : List UInt8) : List Char := bs.flatMap ofByte

/-- The lower-case digits of a number, at least one and no leading zero. -/
def ofNat (n : Nat) : String := String.ofList (Nat.toDigits 16 n)

/-- The digits of a word, padded to eight with zeros. -/
def ofWord (w : UInt32) : String :=
  let ds := Nat.toDigits 16 w.toNat
  String.ofList (List.replicate (8 - ds.length) '0' ++ ds)

/-- Reads bytes two digits at a time. A text is refused at its first byte that is no digit, which
is named with its place counted from `index`; an odd last digit is left out. -/
def toBytes : Nat → List UInt8 → Except (UInt8 × Nat) (List UInt8)
  | index, hi :: lo :: rest =>
    match value? hi.toNat with
    | none => .error (hi, index)
    | some h =>
      match value? lo.toNat with
      | none => .error (lo, index + 1)
      | some l =>
        match toBytes (index + 2) rest with
        | .error place => .error place
        | .ok out => .ok (UInt8.ofNat (16 * h + l) :: out)
  | _, _ => .ok []

theorem length_toBytes {index : Nat} {text out : List UInt8} (e : toBytes index text = .ok out) :
    out.length = text.length / 2 := by
  fun_induction toBytes index text generalizing out with
  | case1 | case2 | case3 => simp at e
  | case4 index hi lo rest h _ l _ tail r ih =>
    cases e
    simp only [List.length_cons, ih r]
    omega
  | case5 text _ short =>
    match text with
    | [] | [_] => cases e; simp
    | a :: b :: rest => exact absurd rfl (short a b rest)

end HeaviestChain.Hex
