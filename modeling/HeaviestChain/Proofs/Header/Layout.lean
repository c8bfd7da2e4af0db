import HeaviestChain.Header.Basic
import HeaviestChain.Proofs.Bytes.Slice
import Mathlib.Logic.Function.Basic

/-!
The bytes of headers. Six slices of fixed ranges tile them, one for each field, and any eighty bytes
are read as a header that has just these. So headers that differ in a field differ in their bytes,
and they share an identity only if the bytes collide.
-/

namespace HeaviestChain

/-- Whether two messages have one double digest though they differ. -/
def Hash.Collide (m n : List UInt8) : Prop :=
  m ≠ n ∧ Sha256.digest (Sha256.digest m) = Sha256.digest (Sha256.digest n)

theorem Hash.ofMessage_eq_iff {m n : List UInt8} : ofMessage m = ofMessage n ↔
    Sha256.digest (Sha256.digest m) = Sha256.digest (Sha256.digest n) := by
  rw [ofMessage, ofMessage, mk.injEq]

namespace Header

/-- The bytes of each field in turn. -/
def fields (h : Header) : List (List UInt8) :=
  [LittleEndian.encode 4 h.version.toNat, h.previous.bytes, h.merkleRoot.bytes,
    LittleEndian.encode 4 h.time.toNat, LittleEndian.encode 4 h.bits.toNat,
    LittleEndian.encode 4 h.nonce.toNat]

/-- The bytes of each field at its place among the eighty. -/
def slices (h : Header) : List Slice :=
  [⟨0, LittleEndian.encode 4 h.version.toNat⟩, ⟨4, h.previous.bytes⟩, ⟨36, h.merkleRoot.bytes⟩,
    ⟨68, LittleEndian.encode 4 h.time.toNat⟩, ⟨72, LittleEndian.encode 4 h.bits.toNat⟩,
    ⟨76, LittleEndian.encode 4 h.nonce.toNat⟩]

/-- The bytes of a header, which are eighty. -/
def packed (h : Header) : Vector UInt8 80 := ⟨h.bytes.toArray, by simp⟩

/-- The word at a place, least significant byte first. -/
def wordAt (bs : List UInt8) (place : Nat) : UInt32 :=
  UInt32.ofNat (LittleEndian.decode ((bs.drop place).take 4))

/-- The hash at a place. -/
def hashAt (bs : List UInt8) (place : Nat) (enough : place + 32 ≤ bs.length) : Hash :=
  ⟨(bs.drop place).take 32, by rw [List.length_take, List.length_drop]; omega⟩

/-- The header that eighty bytes hold. -/
def ofBytes (bs : List UInt8) (eighty : bs.length = 80) : Header where
  version := wordAt bs 0
  previous := hashAt bs 4 (by omega)
  merkleRoot := hashAt bs 36 (by omega)
  time := wordAt bs 68
  bits := wordAt bs 72
  nonce := wordAt bs 76

/-- Whether the slices of a header have fixed ranges, one behind another, tile its bytes, and leave
these behind whatever eighty bytes they are copied over, in any order. -/
structure Laid (h : Header) : Prop where
  ranges : h.slices.map (fun s => (s.start, s.stop)) =
    [(0, 4), (4, 36), (36, 68), (68, 72), (72, 76), (76, 80)]
  tiles : Slice.Tiles h.slices h.bytes
  copied : ∀ order : List Slice, order.Perm h.slices → ∀ buffer : Vector UInt8 80,
    order.foldl Slice.copy buffer.toList = h.bytes

variable {a b h : Header} {bs : List UInt8}

theorem bytes_eq_flatten (h : Header) : h.bytes = h.fields.flatten := by
  simp [bytes, fields]

theorem slices_eq_inTurn (h : Header) : h.slices = Slice.inTurn 0 h.fields := by
  simp [slices, fields, Slice.inTurn, Hash.length_bytes]

theorem tiles_slices (h : Header) : Slice.Tiles h.slices h.bytes := by
  rw [slices_eq_inTurn, bytes_eq_flatten]
  exact Slice.tiles_inTurn h.fields

theorem laid (h : Header) : h.Laid where
  ranges := by simp [slices, Slice.stop, Hash.length_bytes]
  tiles := h.tiles_slices
  copied order perm buffer := by
    apply h.tiles_slices.foldl_copy perm
    rw [buffer.length_toList, length_bytes]

/-! ### Reading back -/

theorem encode_wordAt {place : Nat} (enough : place + 4 ≤ bs.length) :
    LittleEndian.encode 4 (wordAt bs place).toNat = (bs.drop place).take 4 := by
  apply LittleEndian.encode_ofNat_decode
  rw [List.length_take, List.length_drop]
  omega

/-- The bytes of the header that is read are those that it is read from. -/
theorem bytes_ofBytes (eighty : bs.length = 80) : (ofBytes bs eighty).bytes = bs := by
  have whole : bs.take 80 = bs := List.take_of_length_le (Nat.le_of_eq eighty)
  rw [bytes, ofBytes]
  simp only [hashAt]
  rw [encode_wordAt (by omega), encode_wordAt (by omega), encode_wordAt (by omega),
    encode_wordAt (by omega), List.drop_zero, ← List.take_add, ← List.take_add, ← List.take_add,
    ← List.take_add, ← List.take_add, whole]

theorem wordAt_bytes {place : Nat} {w : UInt32}
    (m : ⟨place, LittleEndian.encode 4 w.toNat⟩ ∈ h.slices) : wordAt h.bytes place = w := by
  have read := (h.tiles_slices.parts _ m).take_drop
  rw [LittleEndian.length_encode] at read
  rw [wordAt, read, LittleEndian.decode_encode_word, UInt32.ofNat_toNat]

theorem hashAt_bytes {place : Nat} {hash : Hash} (m : ⟨place, hash.bytes⟩ ∈ h.slices)
    (enough : place + 32 ≤ h.bytes.length) : hashAt h.bytes place enough = hash := by
  have read := (h.tiles_slices.parts _ m).take_drop
  rw [hash.length_bytes] at read
  simp only [hashAt, read]

/-- The header that is read from the bytes of a header is this one. -/
theorem ofBytes_bytes (h : Header) : ofBytes h.bytes h.length_bytes = h := by
  apply Header.ext
  · exact wordAt_bytes (by simp [slices])
  · exact hashAt_bytes (by simp [slices]) (by simp)
  · exact hashAt_bytes (by simp [slices]) (by simp)
  · exact wordAt_bytes (by simp [slices])
  · exact wordAt_bytes (by simp [slices])
  · exact wordAt_bytes (by simp [slices])

theorem toList_packed (h : Header) : h.packed.toList = h.bytes := rfl

theorem bytes_injective : Function.Injective bytes := by
  intro a b same
  rw [← ofBytes_bytes a, ← ofBytes_bytes b]
  simp only [same]

theorem existsUnique_bytes (eighty : bs.length = 80) : ∃! h : Header, h.bytes = bs := by
  refine ⟨ofBytes bs eighty, bytes_ofBytes eighty, ?_⟩
  intro h same
  exact bytes_injective (same.trans (bytes_ofBytes eighty).symm)

theorem packed_bijective : Function.Bijective packed := by
  constructor
  · intro a b same
    exact bytes_injective (congrArg Vector.toList same)
  · intro buffer
    refine ⟨ofBytes buffer.toList buffer.length_toList, ?_⟩
    apply Vector.toList_inj.1
    rw [toList_packed, bytes_ofBytes]

theorem bytes_ne_iff : a.bytes ≠ b.bytes ↔
    a.version ≠ b.version ∨ a.previous ≠ b.previous ∨ a.merkleRoot ≠ b.merkleRoot ∨
      a.time ≠ b.time ∨ a.bits ≠ b.bits ∨ a.nonce ≠ b.nonce := by
  rw [bytes_injective.ne_iff, Ne, Header.ext_iff]
  simp only [not_and_or]

/-- Headers share an identity exactly if they are one or their bytes collide. -/
theorem hash_eq_iff : a.hash = b.hash ↔ a = b ∨ Hash.Collide a.bytes b.bytes := by
  rw [hash, hash, Hash.ofMessage_eq_iff, Hash.Collide, bytes_injective.ne_iff]
  by_cases same : a = b
  · simp [same]
  · simp [same]

end Header

end HeaviestChain
