import HeaviestChain.Target.Compact
import Mathlib.Algebra.Order.Floor.Semifield
import Mathlib.Data.Nat.Bitwise
import Mathlib.Data.Rat.Floor
import Mathlib.Tactic.NormNum

/-!
Compact words as numbers. A word without a sign stands for its 23 low bits times the power of 256
that its top byte gives, rounded down. It names a target exactly if that number is neither zero nor
too large, so that no high bit of the number is ever lost.
-/

namespace HeaviestChain.Target

/-- The number that a compact word stands for, its sign aside. -/
def compactValue (bits : UInt32) : Nat :=
  ⌊((bits &&& 0x7fffff).toNat : ℚ) * 256 ^ (((bits >>> 24).toNat : ℤ) - 3)⌋₊

variable {bits : UInt32} {word size : Nat}

theorem compactWord_eq (bits : UInt32) : compactWord bits = (bits &&& 0x7fffff).toNat := by
  rw [UInt32.toNat_and]
  exact (Nat.and_two_pow_sub_one_eq_mod bits.toNat 23).symm

theorem compactSize_eq (bits : UInt32) : compactSize bits = (bits >>> 24).toNat := by
  rw [UInt32.toNat_shiftRight, Nat.shiftRight_eq_div_pow]
  rfl

theorem compactSign_iff (bits : UInt32) : compactSign bits = true ↔ bits &&& 0x800000 ≠ 0 := by
  have high : (bits &&& 0x800000).toNat = (bits.toNat.testBit 23).toNat * 2 ^ 23 := by
    rw [UInt32.toNat_and]
    exact Nat.and_two_pow bits.toNat 23
  have set : bits.toNat.testBit 23 = compactSign bits := Nat.testBit_eq_decide_div_mod_eq
  rw [set] at high
  rw [ne_eq, ← UInt32.toNat_inj, high]
  cases compactSign bits <;> decide

theorem compactWord_lt (bits : UInt32) : compactWord bits < 0x800000 :=
  Nat.mod_lt _ (by decide)

/-- To scale a word to its size is to multiply by that power of 256 and to drop three bytes. -/
theorem scaleBytes_eq (word size : Nat) : scaleBytes word size = word * 256 ^ size / 256 ^ 3 := by
  have bytes (n : Nat) : 2 ^ (8 * n) = 256 ^ n := pow_mul 2 8 n
  unfold scaleBytes
  split
  · rename_i few
    have split : 256 ^ 3 = 256 ^ (3 - size) * 256 ^ size := by
      rw [← pow_add, Nat.sub_add_cancel few]
    rw [Nat.shiftRight_eq_div_pow, bytes, split, Nat.mul_div_mul_right _ _ (by positivity)]
  · rename_i many
    have split : 256 ^ size = 256 ^ (size - 3) * 256 ^ 3 := by
      rw [← pow_add, Nat.sub_add_cancel (by omega)]
    rw [Nat.shiftLeft_eq, bytes, split, ← mul_assoc, Nat.mul_div_cancel _ (by positivity)]

theorem compactValue_eq (bits : UInt32) :
    compactValue bits = scaleBytes (compactWord bits) (compactSize bits) := by
  have quotient : ((bits &&& 0x7fffff).toNat : ℚ) * 256 ^ (((bits >>> 24).toNat : ℤ) - 3) =
      ((compactWord bits * 256 ^ compactSize bits : Nat) : ℚ) / ((256 ^ 3 : Nat) : ℚ) := by
    rw [← compactWord_eq, ← compactSize_eq, zpow_sub₀ (by norm_num), zpow_natCast, mul_div_assoc']
    norm_num
  rw [compactValue, quotient, Nat.floor_div_eq_div, scaleBytes_eq]

/-- A word reaches a third byte with two more bytes behind it, or with fewer if it is long. -/
theorem reaches_iff (word more : Nat) :
    256 ^ 2 ≤ word * 256 ^ more ↔
      word ≠ 0 ∧ (1 < more ∨ 0xff < word ∧ 0 < more ∨ 0xffff < word) := by
  match more with
  | 0 => omega
  | 1 => omega
  | more + 2 =>
    have room : 256 ^ 2 ≤ 256 ^ (more + 2) := Nat.pow_le_pow_right (by decide) (by omega)
    constructor
    · intro reaches
      refine ⟨?_, .inl (by omega)⟩
      rintro rfl
      simp at reaches
    · rintro ⟨some, -⟩
      exact room.trans (Nat.le_mul_of_pos_left _ (Nat.pos_of_ne_zero some))

/-- The sizes at which a word reaches past 256 bits are those at which its number does. -/
theorem exceedsBytes_iff (small : word < 0x800000) :
    word ≠ 0 ∧ exceedsBytes word size ↔ bound ≤ scaleBytes word size := by
  have shifted : bound ≤ scaleBytes word size ↔ 256 ^ 35 ≤ word * 256 ^ size := by
    rw [scaleBytes_eq, Nat.le_div_iff_mul_le (by positivity)]
    exact Iff.rfl
  rw [shifted, exceedsBytes, decide_eq_true_iff]
  -- no word of 32 bytes or fewer reaches that far, and the three thresholds start behind those
  rcases Nat.lt_or_ge size 33 with few | many
  · have below : word * 256 ^ size < 256 ^ 35 :=
      calc word * 256 ^ size ≤ word * 256 ^ 32 :=
            Nat.mul_le_mul_left _ (Nat.pow_le_pow_right (by decide) (by omega))
        _ < 0x800000 * 256 ^ 32 := Nat.mul_lt_mul_of_pos_right small (by positivity)
        _ < 256 ^ 35 := by norm_num
    have within : ¬(34 < size ∨ 0xff < word ∧ 33 < size ∨ 0xffff < word ∧ 32 < size) := by omega
    exact ⟨fun exceeds => absurd exceeds.2 within,
      fun reaches => absurd below (Nat.not_lt.2 reaches)⟩
  · obtain ⟨more, rfl⟩ := Nat.exists_eq_add_of_le many
    have split : word * 256 ^ (33 + more) = word * 256 ^ more * 256 ^ 33 := by
      rw [pow_add]
      ring
    have behind : 256 ^ 35 ≤ word * 256 ^ more * 256 ^ 33 ↔ 256 ^ 2 ≤ word * 256 ^ more := by
      rw [show 256 ^ 35 = 256 ^ 2 * 256 ^ 33 by norm_num]
      exact Nat.mul_le_mul_right_iff (by positivity)
    rw [split, behind, reaches_iff]
    clear shifted split behind
    omega

/-- A word without a sign names the number that it stands for, if that is a target. -/
theorem ofCompact_eq (bits : UInt32) :
    ofCompact bits =
      if compactWord bits ≠ 0 ∧ compactSign bits then .error (.negative bits)
      else if large : bound ≤ scaleBytes (compactWord bits) (compactSize bits) then
        .error (.overflow bits)
      else if scaleBytes (compactWord bits) (compactSize bits) = 0 then .error (.zero bits)
      else .ok ⟨scaleBytes (compactWord bits) (compactSize bits), Nat.lt_of_not_le large⟩ := by
  by_cases negative : compactWord bits ≠ 0 ∧ compactSign bits
  · simp only [ofCompact, if_pos negative]
  · by_cases large : bound ≤ scaleBytes (compactWord bits) (compactSize bits)
    · have exceeds := (exceedsBytes_iff (compactWord_lt bits)).2 large
      simp only [ofCompact, if_neg negative, if_pos exceeds, dif_pos large]
    · have within := mt (exceedsBytes_iff (compactWord_lt bits)).1 large
      have whole := toNat_ofNat_of_lt (Nat.lt_of_not_le large)
      simp only [ofCompact, if_neg negative, if_neg within, dif_neg large, whole]
      split
      · rfl
      · exact congrArg Except.ok (Target.ext whole)

theorem ofCompact_eq_ok {t : Target} :
    ofCompact bits = .ok t ↔
      ¬(compactWord bits ≠ 0 ∧ compactSign bits) ∧ 0 < t.toNat ∧
        t.toNat = scaleBytes (compactWord bits) (compactSize bits) := by
  rw [ofCompact_eq]
  split
  · rename_i negative
    simp [negative]
  · rename_i positive
    split
    · rename_i large
      have below := t.toNat_lt
      have apart : ¬t.toNat = scaleBytes (compactWord bits) (compactSize bits) := by omega
      simp [apart]
    · rename_i fits
      split
      · rename_i zero
        simp only [reduceCtorEq, false_iff]
        rintro ⟨-, some, same⟩
        omega
      · rename_i some
        constructor
        · intro e
          obtain rfl := Except.ok.inj e
          exact ⟨positive, Nat.pos_of_ne_zero some, rfl⟩
        · rintro ⟨-, -, same⟩
          exact congrArg Except.ok (Target.ext same.symm)

/-- A compact word names the number that it stands for, unless that has a sign, is too large for a
target or is zero. -/
theorem compact_decoded (bits : UInt32) :
    ofCompact bits =
      if bits &&& 0x7fffff ≠ 0 ∧ bits &&& 0x800000 ≠ 0 then .error (.negative bits)
      else if large : bound ≤ compactValue bits then .error (.overflow bits)
      else if compactValue bits = 0 then .error (.zero bits)
      else .ok ⟨compactValue bits, Nat.lt_of_not_le large⟩ := by
  have word : bits &&& 0x7fffff ≠ 0 ↔ compactWord bits ≠ 0 := by
    rw [compactWord_eq, ne_eq, ← UInt32.toNat_inj]
    rfl
  simp only [word, ← compactSign_iff, compactValue_eq]
  exact ofCompact_eq bits

end HeaviestChain.Target
