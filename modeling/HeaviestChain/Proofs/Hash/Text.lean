import HeaviestChain.Header.Json
import HeaviestChain.Proofs.Json.Field
import HeaviestChain.Proofs.Text.Ascii
import HeaviestChain.Text.Blank

/-!
Hashes as text: the digits of a hash are read back as that hash, from the bytes of a text and from
JSON.
-/

namespace HeaviestChain

namespace Hex

variable {n : Nat} {c : Char}

theorem value?_digit (small : n < 16) : value? (digit n).val.toUInt8.toNat = some n := by
  have all : ∀ m : Fin 16, value? (digit m.val).val.toUInt8.toNat = some m.val := by decide
  exact all ⟨n, small⟩

theorem plain_digit (small : n < 16) : digit n ≠ '\x22' ∧ digit n ≠ '\\' ∧ 32 ≤ (digit n).toNat := by
  have all : ∀ m : Fin 16,
      digit m.val ≠ '\x22' ∧ digit m.val ≠ '\\' ∧ 32 ≤ (digit m.val).toNat := by decide
  exact all ⟨n, small⟩

theorem ascii_digit (small : n < 16) : (digit n).toNat < 128 := by
  have all : ∀ m : Fin 16, (digit m.val).toNat < 128 := by decide
  exact all ⟨n, small⟩

theorem not_isBlank_digit (small : n < 16) : Text.isBlank (digit n) = false := by
  have all : ∀ m : Fin 16, Text.isBlank (digit m.val) = false := by decide
  exact all ⟨n, small⟩

theorem high_lt (b : UInt8) : b.toNat / 16 < 16 := by
  have := b.toNat_lt
  omega

theorem low_lt (b : UInt8) : b.toNat % 16 < 16 := Nat.mod_lt _ (by decide)

theorem mem_ofBytes {bs : List UInt8} (m : c ∈ ofBytes bs) : ∃ n < 16, c = digit n := by
  obtain ⟨b, -, m⟩ := List.mem_flatMap.1 m
  rcases List.mem_cons.1 m with rfl | m
  · exact ⟨_, high_lt b, rfl⟩
  · obtain rfl := List.mem_singleton.1 m
    exact ⟨_, low_lt b, rfl⟩

theorem ascii_ofBytes (bs : List UInt8) : Utf8.Ascii (ofBytes bs) := by
  intro c m
  obtain ⟨n, small, rfl⟩ := mem_ofBytes m
  exact ascii_digit small

theorem ofBytes_cons (b : UInt8) (bs : List UInt8) :
    ofBytes (b :: bs) = digit (b.toNat / 16) :: digit (b.toNat % 16) :: ofBytes bs := by
  rw [ofBytes, List.flatMap_cons]
  rfl

theorem length_ofBytes (bs : List UInt8) : (ofBytes bs).length = 2 * bs.length := by
  induction bs with
  | nil => rfl
  | cons b bs ih =>
    rw [ofBytes_cons, List.length_cons, List.length_cons, ih, List.length_cons]
    omega

theorem toBytes_encode_ofBytes (index : Nat) (bs : List UInt8) :
    toBytes index (Utf8.encode (ofBytes bs)) = .ok bs := by
  induction bs generalizing index with
  | nil => rfl
  | cons b bs ih =>
    have whole : 16 * (b.toNat / 16) + b.toNat % 16 = b.toNat := Nat.div_add_mod _ _
    rw [ofBytes_cons, Utf8.encode_cons_of_lt (ascii_digit (high_lt b)),
      Utf8.encode_cons_of_lt (ascii_digit (low_lt b)), toBytes, value?_digit (high_lt b),
      value?_digit (low_lt b)]
    simp only [ih, whole, UInt8.ofNat_toNat]

end Hex

namespace Hash

variable {h : Hash}

theorem parseBytes_of_ok {bs out : List UInt8} (length : bs.length = 64)
    (read : Hex.toBytes 0 bs = .ok out) : ∃ h, parseBytes bs = .ok h ∧ h.bytes = out.reverse := by
  unfold parseBytes
  rw [if_neg (by rw [length]; decide), dif_pos length]
  split
  · rename_i failed
    cases read.symm.trans failed
  · rename_i other found
    obtain rfl := Except.ok.inj (read.symm.trans found)
    exact ⟨_, rfl, rfl⟩

theorem length_digits (h : Hash) : h.digits.length = 64 := by
  rw [digits, Hex.length_ofBytes, List.length_reverse, h.length_bytes]

theorem length_encode_digits (h : Hash) : (Utf8.encode h.digits).length = 64 := by
  rw [← h.length_digits]
  exact Utf8.length_encode_of_ascii (Hex.ascii_ofBytes _)

theorem parseBytes_encode_digits (h : Hash) : parseBytes (Utf8.encode h.digits) = .ok h := by
  obtain ⟨g, e, bytes⟩ :=
    parseBytes_of_ok h.length_encode_digits (Hex.toBytes_encode_ofBytes 0 h.bytes.reverse)
  obtain rfl : g = h := by
    cases g
    cases h
    simpa using bytes
  exact e

theorem parse_render (h : Hash) : parse h.render = .ok h := by
  rw [parse, render, String.toList_ofList]
  exact h.parseBytes_encode_digits

theorem not_isBlank_of_mem_digits {c : Char} (m : c ∈ h.digits) : Text.isBlank c = false := by
  obtain ⟨n, small, rfl⟩ := Hex.mem_ofBytes m
  exact Hex.not_isBlank_digit small

theorem plain_render (h : Hash) : Json.Token.Plain h.render.toList := by
  intro c m
  rw [render, String.toList_ofList] at m
  obtain ⟨n, small, rfl⟩ := Hex.mem_ofBytes m
  exact Hex.plain_digit small

theorem written_toJson (h : Hash) : h.toJson.Written := Json.Value.written_ofString h.plain_render

@[simp]
theorem ofJson?_toJson (h : Hash) : ofJson? h.toJson = some h := by
  rw [ofJson?, toJson, Json.Value.string?_ofString h.plain_render, Option.bind_some, parse_render]
  rfl

end Hash

end HeaviestChain
