import HeaviestChain.Bytes.LittleEndian
import HeaviestChain.Hash.Sha256

/-!
Double SHA-256 digests, the identities of headers. A hash is 32 bytes in digest order; as a number
it is read little-endian, and that number is what proof of work bounds.
-/

namespace HeaviestChain

/-- Thirty-two bytes in digest order. -/
structure Hash where
  bytes : List UInt8
  length_bytes : bytes.length = 32
  deriving DecidableEq

namespace Hash

instance : Hashable Hash := ⟨fun h => hash h.bytes⟩

/-- The digest of a digest. -/
def ofMessage (message : List UInt8) : Hash :=
  ⟨Sha256.digest (Sha256.digest message), Sha256.length_digest _⟩

/-- The bytes of a number, its bits above 256 dropped. -/
def ofNat (n : Nat) : Hash := ⟨LittleEndian.encode 32 n, LittleEndian.length_encode 32 n⟩

/-- All bytes zero: the parent that a first header names. -/
def zero : Hash := ofNat 0

/-- The number whose little-endian bytes these are. -/
def toNat (h : Hash) : Nat := LittleEndian.decode h.bytes

theorem toNat_lt (h : Hash) : h.toNat < LittleEndian.bound 32 := by
  have e := LittleEndian.decode_lt h.bytes
  rw [h.length_bytes] at e
  exact e

theorem ofNat_toNat (h : Hash) : ofNat h.toNat = h := by
  have e : LittleEndian.encode 32 (LittleEndian.decode h.bytes) = h.bytes := by
    simpa [h.length_bytes] using LittleEndian.encode_decode h.bytes
  cases h
  simp_all [ofNat, toNat]

theorem toNat_injective {g h : Hash} (e : g.toNat = h.toNat) : g = h := by
  rw [← ofNat_toNat g, ← ofNat_toNat h, e]

/-- Compares byte by byte in digest order. -/
def compareBytes (g h : Hash) : Ordering := compareOfLessAndEq g.bytes h.bytes

/-- Compares as numbers. -/
def compareNat (g h : Hash) : Ordering := compare g.toNat h.toNat

end Hash

end HeaviestChain
