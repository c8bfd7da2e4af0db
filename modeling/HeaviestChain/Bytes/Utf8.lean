/-!
Characters as UTF-8 bytes. Exactly the bytes that encode some characters are read back, and as
those characters. A lenient reader takes any bytes and puts the replacement character where they
encode nothing, once for each longest start of a character.
-/

namespace HeaviestChain.Utf8

/-- The bytes of each character in turn. -/
def encode (text : List Char) : List UInt8 := text.flatMap String.utf8EncodeChar

/-- The characters that bytes encode. -/
def decode? (bs : List UInt8) : Option (List Char) :=
  (String.fromUTF8? bs.toByteArray).map String.toList

/-- Stands where bytes encode no character. -/
def replacement : Char := '\uFFFD'

/-- The rest of a character: how many bytes it lacks, the bounds of the next, and the bits so
far. -/
structure Rest where
  lacking : Nat
  low : Nat
  high : Nat
  bits : Nat

/-- What a first byte is: a character, the start of one, or nothing. -/
def start (b : Nat) : List Char × Option Rest :=
  if b < 0x80 then ([Char.ofNat b], none)
  else if b < 0xC2 then ([replacement], none)
  else if b < 0xE0 then ([], some ⟨1, 0x80, 0xBF, b - 0xC0⟩)
  else if b = 0xE0 then ([], some ⟨2, 0xA0, 0xBF, 0⟩)
  else if b = 0xED then ([], some ⟨2, 0x80, 0x9F, 0xD⟩)
  else if b < 0xF0 then ([], some ⟨2, 0x80, 0xBF, b - 0xE0⟩)
  else if b = 0xF0 then ([], some ⟨3, 0x90, 0xBF, 0⟩)
  else if b < 0xF4 then ([], some ⟨3, 0x80, 0xBF, b - 0xF0⟩)
  else if b = 0xF4 then ([], some ⟨3, 0x80, 0x8F, 4⟩)
  else ([replacement], none)

/-- Reads bytes leniently, behind the start of a character if there is one. -/
def lenientFrom : Option Rest → List UInt8 → List Char
  | none, [] => []
  | some _, [] => [replacement]
  | none, b :: bs =>
    let (out, rest) := start b.toNat
    out ++ lenientFrom rest bs
  | some r, b :: bs =>
    if r.low ≤ b.toNat ∧ b.toNat ≤ r.high then
      let bits := 64 * r.bits + b.toNat % 64
      if r.lacking ≤ 1 then Char.ofNat bits :: lenientFrom none bs
      else lenientFrom (some ⟨r.lacking - 1, 0x80, 0xBF, bits⟩) bs
    else
      let (out, rest) := start b.toNat
      replacement :: out ++ lenientFrom rest bs

/-- The characters of bytes, replacements among them. -/
def decodeLenient (bs : List UInt8) : List Char := lenientFrom none bs

theorem toByteArray_encode (text : List Char) : (encode text).toByteArray = text.utf8Encode := rfl

@[simp]
theorem encode_append (s t : List Char) : encode (s ++ t) = encode s ++ encode t := by
  simp [encode]

theorem decode?_encode (text : List Char) : decode? (encode text) = some text := by
  have valid : (encode text).toByteArray.IsValidUTF8 := ⟨text, rfl⟩
  have e : String.fromUTF8 (encode text).toByteArray valid = String.ofList text := rfl
  rw [decode?, String.fromUTF8?, dif_pos valid, e]
  simp

/-- Bytes that are read are those that encode what was read. -/
theorem encode_of_decode? {bs : List UInt8} {text : List Char} (e : decode? bs = some text) :
    encode text = bs := by
  rw [decode?, String.fromUTF8?] at e
  split at e
  · rename_i valid
    have e : (String.fromUTF8 bs.toByteArray valid).toList = text := Option.some.inj e
    apply List.toByteArray_inj.1
    rw [toByteArray_encode, ← e, String.utf8Encode_toList]
    rfl
  · cases e

end HeaviestChain.Utf8
