import HeaviestChain.Json.Numeral
import HeaviestChain.Proofs.Text.Decimal
import Mathlib.Data.List.TakeWhile

/-!
Numbers of 64 bits may wait for their place: they come out as finite doubles.
-/

namespace HeaviestChain.Json

namespace Numeral

variable {n : Nat} {digits : List Char}

theorem le_foldl_digits (digits : List Char) (n : Nat) :
    n ≤ digits.foldl (fun n c => 10 * n + (c.toNat - 48)) n := by
  induction digits generalizing n with
  | nil => exact Nat.le_refl n
  | cons c digits ih =>
    have own : n ≤ 10 * n + (c.toNat - 48) := by omega
    exact Nat.le_trans own (ih _)

theorem takeDigits_of_lt
    (fits : digits.foldl (fun n c => 10 * n + (c.toNat - 48)) n < UInt64.size) :
    takeDigits n digits = (digits.foldl (fun n c => 10 * n + (c.toNat - 48)) n, []) := by
  induction digits generalizing n with
  | nil => rfl
  | cons c digits ih =>
    have small := Nat.lt_of_le_of_lt (le_foldl_digits digits (10 * n + (c.toNat - 48))) fits
    rw [takeDigits, if_pos small, ih fits]
    rfl

/-- A whole number that fits has no power of ten. -/
theorem parts_of_digits (all : ∀ c ∈ digits, c.isDigit)
    (fits : Text.valueOfDigits digits < UInt64.size) :
    parts digits = (Text.valueOfDigits digits, 0) := by
  -- no mark, sign or point stands among the digits, so that every scan stops at the end
  have other (d : Char) (sign : d.isDigit = false) : ∀ c ∈ digits, c ≠ d := by
    rintro c m rfl
    simp [all c m] at sign
  have unmarked : ∀ c ∈ digits, (!decide (c = 'e' ∨ c = 'E')) = true := by
    intro c m
    simp [other 'e' rfl c m, other 'E' rfl c m]
  have unsigned : ∀ c ∈ digits, decide (c ≠ '-') = true := by
    intro c m
    simp [other '-' rfl c m]
  have pointless : ∀ c ∈ digits, decide (c ≠ '.') = true := by
    intro c m
    simp [other '.' rfl c m]
  have mantissa : (digits.takeWhile fun c => !decide (c = 'e' ∨ c = 'E')).filter
      (fun c => c ≠ '-') = digits := by
    rw [List.takeWhile_eq_self_iff.2 unmarked, List.filter_eq_self.2 unsigned]
  have power : (digits.dropWhile fun c => !decide (c = 'e' ∨ c = 'E')) = [] :=
    List.dropWhile_eq_nil_iff.2 unmarked
  have whole : (digits.takeWhile fun c => c ≠ '.') = digits :=
    List.takeWhile_eq_self_iff.2 pointless
  have fraction : (digits.dropWhile fun c => c ≠ '.') = [] :=
    List.dropWhile_eq_nil_iff.2 pointless
  have taken : takeDigits 0 digits = (Text.valueOfDigits digits, []) := takeDigits_of_lt fits
  simp only [parts, mantissa, power, whole, fraction, taken]
  rfl

theorem nearestDouble_le (n : Nat) : nearestDouble n ≤ 2 * n := by
  by_cases none : n = 0
  · rw [none]
    decide
  · -- what is kept is no more than the number, and rounding up adds at most its leading bit
    have kept : n / 2 ^ (n.log2 - 52) * 2 ^ (n.log2 - 52) ≤ n := Nat.div_mul_le_self ..
    have unit : 2 ^ (n.log2 - 52) ≤ n :=
      Nat.le_trans (Nat.pow_le_pow_right (by decide) (Nat.sub_le ..)) (Nat.log2_self_le none)
    have next : (n / 2 ^ (n.log2 - 52) + 1) * 2 ^ (n.log2 - 52) =
      n / 2 ^ (n.log2 - 52) * 2 ^ (n.log2 - 52) + 2 ^ (n.log2 - 52) := Nat.succ_mul ..
    simp only [nearestDouble, Nat.shiftRight_eq_div_pow, Nat.shiftLeft_eq]
    split
    · omega
    · omega

theorem isFinite_toDigits (fits : n < UInt64.size) : isFinite (Nat.toDigits 10 n) = true := by
  have rounded : nearestDouble n * nearestDouble (Nat.pow 10 0) < firstInfinite := by
    have one : nearestDouble (Nat.pow 10 0) = 1 := by decide
    have large : 2 * UInt64.size < firstInfinite := by decide
    have twice := nearestDouble_le n
    rw [one, Nat.mul_one]
    omega
  have whole : parts (Nat.toDigits 10 n) = (n, 0) := by
    have value := Text.valueOfDigits_toDigits n
    rw [parts_of_digits (fun c => Text.isDigit_of_mem_toDigits) (by rwa [value]), value]
  rw [isFinite, whole]
  show (decide (n = 0) || decide (0 ≤ maxPower) &&
    decide (nearestDouble n * nearestDouble (Nat.pow 10 0) < firstInfinite)) = true
  rw [decide_eq_true rounded, decide_eq_true (Nat.zero_le maxPower), Bool.and_true, Bool.or_true]

end Numeral

namespace Value

theorem isPlain_ofUInt32 (w : UInt32) (room : Nat) : (ofUInt32 w).isPlain room = true := by
  have fits : w.toNat < UInt64.size := Nat.lt_trans w.toNat_lt (by decide)
  exact Numeral.isFinite_toDigits fits

end Value

end HeaviestChain.Json
