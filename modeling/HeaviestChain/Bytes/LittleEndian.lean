/-!
Little-endian bytes: a number as a fixed count of bytes, least significant first. Writing and
reading undo each other, a number above the width losing its high bytes.
-/

namespace HeaviestChain.LittleEndian

/-- The `width` low bytes of `n`, least significant first. -/
def encode : Nat → Nat → List UInt8
  | 0, _ => []
  | width + 1, n => UInt8.ofNat n :: encode width (n / 256)

/-- The number whose bytes stand least significant first. -/
def decode : List UInt8 → Nat
  | [] => 0
  | b :: bs => b.toNat + 256 * decode bs

@[simp]
theorem length_encode (width n : Nat) : (encode width n).length = width := by
  induction width generalizing n with
  | zero => rfl
  | succ width ih => simp [encode, ih]

/-- The first number that needs more than `width` bytes. -/
def bound (width : Nat) : Nat := 1 <<< (8 * width)

theorem bound_succ (width : Nat) : bound (width + 1) = 256 * bound width := by
  rw [bound, bound, Nat.mul_succ, Nat.add_comm, Nat.shiftLeft_add, Nat.shiftLeft_eq _ (8 * width),
    Nat.shiftLeft_eq 1 (8 * width), Nat.one_mul]
  rfl

theorem decode_lt (bs : List UInt8) : decode bs < bound bs.length := by
  induction bs with
  | nil => simp [decode, bound]
  | cons b bs ih =>
    have hb : b.toNat < 256 := b.toNat_lt
    rw [decode, List.length_cons, bound_succ]
    omega

theorem decode_encode (width n : Nat) : decode (encode width n) = n % bound width := by
  induction width generalizing n with
  | zero => simp [encode, decode, bound, Nat.mod_one]
  | succ width ih =>
    rw [encode, decode, ih, UInt8.toNat_ofNat', bound_succ, Nat.mod_mul]

theorem encode_decode (bs : List UInt8) : encode bs.length (decode bs) = bs := by
  induction bs with
  | nil => rfl
  | cons b bs ih =>
    have hb : b.toNat < 256 := b.toNat_lt
    have low : UInt8.ofNat (b.toNat + 256 * decode bs) = b := by
      apply UInt8.toNat_inj.1
      simp only [UInt8.toNat_ofNat']
      omega
    have high : (b.toNat + 256 * decode bs) / 256 = decode bs := by omega
    simp [encode, decode, low, high, ih]

theorem decode_encode_of_lt {width n : Nat} (h : n < bound width) :
    decode (encode width n) = n := by
  rw [decode_encode, Nat.mod_eq_of_lt h]

theorem decode_encode_word (w : UInt32) : decode (encode 4 w.toNat) = w.toNat :=
  decode_encode_of_lt w.toNat_lt

/-- Any four bytes are those of some word. -/
theorem encode_ofNat_decode {bs : List UInt8} (four : bs.length = 4) :
    encode 4 (UInt32.ofNat (decode bs)).toNat = bs := by
  have below : decode bs < UInt32.size := by
    have small := decode_lt bs
    rw [four] at small
    exact small
  rw [UInt32.toNat_ofNat_of_lt' below, ← four, encode_decode]

end HeaviestChain.LittleEndian
