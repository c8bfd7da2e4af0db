import HeaviestChain.Hash.Basic
import HeaviestChain.Target.Compact

/-!
Proof-of-work headers. A header names its parent by hash and is itself named by the hash of its 80
bytes, which hold its fields one after another.
-/

namespace HeaviestChain

/-- A header: `time` in seconds since 1970, `bits` the target it claims, in compact form. -/
@[ext]
structure Header where
  version : UInt32
  previous : Hash
  merkleRoot : Hash
  time : UInt32
  bits : UInt32
  nonce : UInt32
  deriving DecidableEq

namespace Header

/-- The 80 bytes of a header: words little-endian, hashes in digest order. -/
def bytes (h : Header) : List UInt8 :=
  LittleEndian.encode 4 h.version.toNat ++ h.previous.bytes ++ h.merkleRoot.bytes ++
    LittleEndian.encode 4 h.time.toNat ++ LittleEndian.encode 4 h.bits.toNat ++
    LittleEndian.encode 4 h.nonce.toNat

@[simp]
theorem length_bytes (h : Header) : h.bytes.length = 80 := by
  simp [bytes, Hash.length_bytes]

/-- The identity of a header. -/
def hash (h : Header) : Hash := Hash.ofMessage h.bytes

/-- The target a header claims. -/
def target (h : Header) : Except CompactError Target := Target.ofCompact h.bits

/-- Whether the hash is at most a target. -/
def Meets (h : Header) (t : Target) : Prop := h.hash.toNat ≤ t.toNat

instance (h : Header) (t : Target) : Decidable (h.Meets t) :=
  inferInstanceAs (Decidable (_ ≤ _))

/-- Whether a header meets the target it claims. -/
def meetsOwnTarget (h : Header) : Except CompactError Bool :=
  match h.target with
  | .error e => .error e
  | .ok t => .ok (decide (h.Meets t))

end Header

end HeaviestChain
