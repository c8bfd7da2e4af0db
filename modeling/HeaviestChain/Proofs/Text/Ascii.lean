import HeaviestChain.Bytes.Utf8

/-!
ASCII. Its characters take one byte each, that of their code, and other characters take bytes that
begin above all codes.
-/

namespace HeaviestChain

/-- A text whose characters take one byte each. -/
def Utf8.Ascii (text : List Char) : Prop := ∀ c ∈ text, c.toNat < 128

namespace Utf8

variable {c : Char} {text rest : List Char}

instance (text : List Char) : Decidable (Ascii text) := List.decidableBAll _ text

@[simp]
theorem ascii_nil : Ascii [] := List.forall_mem_nil _

@[simp]
theorem ascii_cons : Ascii (c :: text) ↔ c.toNat < 128 ∧ Ascii text := List.forall_mem_cons

@[simp]
theorem ascii_append : Ascii (text ++ rest) ↔ Ascii text ∧ Ascii rest := List.forall_mem_append

theorem utf8EncodeChar_of_lt (small : c.toNat < 128) :
    String.utf8EncodeChar c = [c.val.toUInt8] := by
  apply String.utf8EncodeChar_eq_singleton
  rw [Char.utf8Size_eq_one_iff, UInt32.le_iff_toNat_le]
  exact Nat.le_of_lt_succ small

/-- The byte of a character is its code. -/
theorem toNat_toUInt8 (small : c.toNat < 128) : c.val.toUInt8.toNat = c.toNat := by
  rw [UInt32.toNat_toUInt8]
  exact Nat.mod_eq_of_lt (Nat.lt_trans small (by decide))

theorem encode_cons_of_lt (small : c.toNat < 128) (text : List Char) :
    encode (c :: text) = c.val.toUInt8 :: encode text := by
  rw [encode, List.flatMap_cons, utf8EncodeChar_of_lt small]
  rfl

theorem encode_of_ascii (ascii : Ascii text) : encode text = text.map fun c => c.val.toUInt8 := by
  induction text with
  | nil => rfl
  | cons c text ih =>
    obtain ⟨small, others⟩ := ascii_cons.1 ascii
    rw [encode_cons_of_lt small, ih others, List.map_cons]

theorem length_encode_of_ascii (ascii : Ascii text) : (encode text).length = text.length := by
  rw [encode_of_ascii ascii, List.length_map]

theorem utf8ByteSize_of_ascii (ascii : Ascii text) :
    (String.ofList text).utf8ByteSize = text.length := by
  show (encode text).toByteArray.size = _
  rw [List.size_toByteArray, length_encode_of_ascii ascii]

/-- As many bytes are the start of as many characters. -/
theorem take_encode (ascii : Ascii text) (n : Nat) :
    (encode text).take n = encode (text.take n) := by
  have front : Ascii (text.take n) := fun c m => ascii c (List.mem_of_mem_take m)
  rw [encode_of_ascii ascii, encode_of_ascii front, List.map_take]

/-- ASCII is read leniently as it is. -/
theorem decodeLenient_encode (ascii : Ascii text) : decodeLenient (encode text) = text := by
  induction text with
  | nil => rfl
  | cons c text ih =>
    obtain ⟨small, others⟩ := ascii_cons.1 ascii
    have one : start c.toNat = ([c], none) := by
      rw [start, if_pos small, Char.ofNat_toNat]
    rw [encode_cons_of_lt small, decodeLenient, lenientFrom, toNat_toUInt8 small, one]
    exact congrArg (c :: ·) (ih others)

/-- The first byte of a character outside ASCII is above all continuations. -/
theorem exists_high_byte (large : ¬c.toNat < 128) :
    ∃ b rest, String.utf8EncodeChar c = b :: rest ∧ 192 ≤ b.toNat := by
  have above : ¬c.val.toNat ≤ 127 := by
    intro small
    exact large (Nat.lt_succ_of_le small)
  rw [String.utf8EncodeChar]
  simp only [above, if_false]
  split
  · exact ⟨_, _, rfl, by rw [UInt8.toNat_ofNat']; omega⟩
  · split
    · exact ⟨_, _, rfl, by rw [UInt8.toNat_ofNat']; omega⟩
    · exact ⟨_, _, rfl, by rw [UInt8.toNat_ofNat']; omega⟩

end Utf8

end HeaviestChain
