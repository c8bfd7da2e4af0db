import HeaviestChain.Bytes.Hex
import HeaviestChain.Target.Basic

/-!
The compact form of a target: a 32-bit word whose top byte counts the bytes of the number and whose
low 23 bits are its leading bytes. Bit 23 is a sign, and no target is negative.
-/

namespace HeaviestChain

/-- Why a compact word names no target. Each cause holds the word. -/
inductive CompactError where
  | negative (bits : UInt32)
  | overflow (bits : UInt32)
  | zero (bits : UInt32)
  deriving DecidableEq

namespace CompactError

/-- The wording of a cause. -/
def message : CompactError → String
  | negative bits => "compact target 0x" ++ Hex.ofWord bits ++ " has the sign bit set"
  | overflow bits => "compact target 0x" ++ Hex.ofWord bits ++ " overflows 256 bits"
  | zero bits => "compact target 0x" ++ Hex.ofWord bits ++ " decodes to zero"

end CompactError

namespace Target

/-- The byte count of a compact word. -/
def compactSize (bits : UInt32) : Nat := bits.toNat / 0x1000000

/-- The leading bytes of a compact word, without the sign. -/
def compactWord (bits : UInt32) : Nat := bits.toNat % 0x800000

/-- Bit 23. -/
def compactSign (bits : UInt32) : Bool := bits.toNat / 0x800000 % 2 = 1

/-- Scales `word` to `size` bytes, its last bytes dropped where `size` is below three. -/
def scaleBytes (word size : Nat) : Nat :=
  if size ≤ 3 then word >>> (8 * (3 - size)) else word <<< (8 * (size - 3))

/-- Whether a nonzero word of so many bytes reaches past 256 bits. -/
def exceedsBytes (word size : Nat) : Bool :=
  34 < size ∨ 0xff < word ∧ 33 < size ∨ 0xffff < word ∧ 32 < size

/-- The target that a compact word names. -/
def ofCompact (bits : UInt32) : Except CompactError Target :=
  let size := compactSize bits
  let word := compactWord bits
  if word ≠ 0 ∧ compactSign bits then .error (.negative bits)
  else if word ≠ 0 ∧ exceedsBytes word size then .error (.overflow bits)
  else
    let target := ofNat (scaleBytes word size)
    if target.toNat = 0 then .error (.zero bits) else .ok target

/-- The count of bytes of a number, none for zero. -/
def byteLength (n : Nat) : Nat := if n = 0 then 0 else n.log2 / 8 + 1

/-- The compact form of a target: its three leading bytes, or its two leading bytes where the third
would set the sign, and the count of bytes. The bytes that follow are dropped. -/
def toCompact (t : Target) : UInt32 :=
  let size := byteLength t.toNat
  let word := if size ≤ 3 then t.toNat <<< (8 * (3 - size)) else t.toNat >>> (8 * (size - 3))
  if word / 0x800000 % 2 = 1 then UInt32.ofNat (word / 0x100 + (size + 1) * 0x1000000)
  else UInt32.ofNat (word + size * 0x1000000)

end Target

end HeaviestChain
