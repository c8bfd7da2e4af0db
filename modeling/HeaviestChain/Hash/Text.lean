import HeaviestChain.Bytes.Hex
import HeaviestChain.Bytes.Utf8
import HeaviestChain.Hash.Basic
import HeaviestChain.Text.Quoted

/-!
Hashes as text. A hash is shown as 64 lower-case hexadecimal digits with its last byte first, so
that the text is the hash's number in base sixteen. Any text of 64 hexadecimal digits of either
case is read back.
-/

namespace HeaviestChain

/-- Why a text is no hash: an odd count of bytes, a count other than 64, or a byte that is no
hexadecimal digit, with its place. The first that applies is reported. -/
inductive HexError where
  | oddLength
  | wrongLength
  | badDigit (byte : UInt8) (index : Nat)
  deriving DecidableEq

namespace HexError

/-- The byte of a bad digit is shown as the character of the same number. -/
def message : HexError → String
  | oddLength => "Odd number of digits"
  | wrongLength => "Invalid string length"
  | badDigit byte index =>
    "Invalid character " ++ Text.quoteCharacter (Char.ofNat byte.toNat) ++ " at position " ++
      toString index

end HexError

namespace Hash

/-- The 64 digits, last byte first. -/
def digits (h : Hash) : List Char := Hex.ofBytes h.bytes.reverse

/-- The text of a hash. -/
def render (h : Hash) : String := String.ofList h.digits

/-- Reads the text of a hash. -/
def parseBytes (bs : List UInt8) : Except HexError Hash :=
  if bs.length % 2 = 1 then .error .oddLength
  else if h : bs.length = 64 then
    match e : Hex.toBytes 0 bs with
    | .error (byte, index) => .error (.badDigit byte index)
    | .ok out => .ok ⟨out.reverse, by simp [Hex.length_toBytes e, h]⟩
  else .error .wrongLength

/-- Reads the text of a hash; lengths and places count its bytes. -/
def parse (text : String) : Except HexError Hash := parseBytes (Utf8.encode text.toList)

end Hash

end HeaviestChain
