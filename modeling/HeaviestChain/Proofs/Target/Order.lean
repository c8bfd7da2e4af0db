import HeaviestChain.Proofs.Target.Rounding
import HeaviestChain.Proofs.Tree.Work

/-!
The order of targets. A greater target never has the lesser compact form, also where the leading bit
takes the place of the sign and the byte count grows in its stead, and it never takes more work. The
compact forms that targets have are in the order of the targets that they name.
-/

namespace HeaviestChain.Target

/-- Whether a compact word names a target and is its compact form. -/
structure Canonical (bits : UInt32) (t : Target) : Prop where
  names : ofCompact bits = .ok t
  form : t.toCompact = bits

/-- The work of a target as numbers of so many bits come to it. -/
def workIn (w : Nat) (t : Target) : BitVec w :=
  (1#w <<< 256) / (BitVec.ofNat w t.toNat + 1#w)

/-- Whether the work of a target is how often one more than the target goes into 2^256, and 512 bits
are enough for every number on the way to it. -/
structure Divides (t : Target) : Prop where
  positive : 1 ≤ t.work
  within : t.work * (t.toNat + 1) ≤ 2 ^ 256
  most : 2 ^ 256 < (t.work + 1) * (t.toNat + 1)
  shifted : (1#512 <<< 256).toNat = 2 ^ 256
  carried : (BitVec.ofNat 512 t.toNat).uaddOverflow 1#512 = false
  computed : (workIn 512 t).toNat = t.work

variable {a b : UInt32} {m n : Nat} {s t : Target}

theorem leadSize_mono (le : m ≤ n) : leadSize m ≤ leadSize n :=
  byteLength_mono (Nat.mul_le_mul_left 2 le)

/-- Of two numbers with as many bytes the greater has the greater leading bytes. -/
theorem leadWord_le (le : m ≤ n) (same : leadSize m = leadSize n) : leadWord m ≤ leadWord n := by
  rw [leadWord, leadWord, same]
  exact Nat.div_le_div_right (Nat.mul_le_mul_right _ le)

theorem toCompact_le (le : s.toNat ≤ t.toNat) : s.toCompact ≤ t.toCompact := by
  rw [UInt32.le_iff_toNat_le, toNat_toCompact, toNat_toCompact]
  have word := leadWord_lt s.toNat
  rcases Nat.lt_or_eq_of_le (leadSize_mono le) with shorter | same
  · -- leading bytes never reach into the byte count
    omega
  · have words := leadWord_le le same
    omega

theorem work_le_work (le : s.toNat ≤ t.toNat) : t.work ≤ s.work :=
  Nat.div_le_div_left (Nat.succ_le_succ le) (Nat.succ_pos _)

namespace Canonical

theorem lt_iff (ha : Canonical a s) (hb : Canonical b t) : a < b ↔ s.toNat < t.toNat := by
  constructor
  · intro below
    by_contra above
    have back := toCompact_le (Nat.le_of_not_lt above)
    rw [ha.form, hb.form] at back
    exact UInt32.not_lt.2 back below
  · intro below
    have le := toCompact_le (Nat.le_of_lt below)
    rw [ha.form, hb.form] at le
    refine UInt32.lt_of_le_of_ne le ?_
    rintro rfl
    obtain rfl : s = t := Except.ok.inj (ha.names.symm.trans hb.names)
    exact Nat.lt_irrefl _ below

theorem work_eq (ha : Canonical a s) : (ofCompact a).map work = .ok s.work := by
  rw [ha.names]
  rfl

end Canonical

section Wide

variable {w : Nat} (wide : 256 < w) (t)

include wide

theorem succ_lt_wide : t.toNat + 1 < 2 ^ w := by
  have below : t.toNat + 1 ≤ 2 ^ 256 := t.toNat_lt
  exact Nat.lt_of_le_of_lt below (Nat.pow_lt_pow_right (by decide) wide)

theorem toNat_ofNat_wide : (BitVec.ofNat w t.toNat).toNat = t.toNat := by
  rw [BitVec.toNat_ofNat]
  exact Nat.mod_eq_of_lt (Nat.lt_of_succ_lt (t.succ_lt_wide wide))

theorem toNat_one_wide : (1#w).toNat = 1 := by
  rw [BitVec.toNat_ofNat]
  exact Nat.mod_eq_of_lt (Nat.one_lt_two_pow (by omega))

theorem toNat_shift_wide : (1#w <<< 256).toNat = 2 ^ 256 := by
  rw [BitVec.toNat_shiftLeft, toNat_one_wide wide, Nat.one_shiftLeft]
  exact Nat.mod_eq_of_lt (Nat.pow_lt_pow_right (by decide) wide)

theorem uaddOverflow_wide : (BitVec.ofNat w t.toNat).uaddOverflow 1#w = false := by
  rw [BitVec.uaddOverflow, t.toNat_ofNat_wide wide, toNat_one_wide wide]
  exact decide_eq_false (Nat.not_le.2 (t.succ_lt_wide wide))

theorem toNat_workIn : (workIn w t).toNat = t.work := by
  have divisor : (BitVec.ofNat w t.toNat + 1#w).toNat = t.toNat + 1 := by
    rw [BitVec.toNat_add, t.toNat_ofNat_wide wide, toNat_one_wide wide]
    exact Nat.mod_eq_of_lt (t.succ_lt_wide wide)
  rw [workIn, BitVec.toNat_udiv, divisor, toNat_shift_wide wide]
  rfl

end Wide

theorem divides (t : Target) : t.Divides where
  positive := t.work_pos
  within := Nat.div_mul_le_self _ _
  most := Nat.lt_mul_of_div_lt (Nat.lt_succ_self _) (Nat.succ_pos _)
  shifted := toNat_shift_wide (by decide)
  carried := t.uaddOverflow_wide (by decide)
  computed := t.toNat_workIn (by decide)

/-- Of two targets the greater has no lesser compact form and no more work. Words that are compact
forms are in the order of the targets that they name, and the greater of them does not stand for
more work. The work of a target is a quotient rounded down, which 512 bits are enough for. -/
theorem compact_ordered :
    (∀ s t : Target, s.toNat ≤ t.toNat → s.toCompact ≤ t.toCompact ∧ t.work ≤ s.work) ∧
      (∀ a b s t, Canonical a s → Canonical b t → (a < b ↔ s.toNat < t.toNat) ∧
        (a < b → ∃ v w, (ofCompact a).map work = .ok v ∧ (ofCompact b).map work = .ok w ∧
          w ≤ v)) ∧
      ∀ t : Target, t.Divides := by
  refine ⟨fun s t le => ⟨toCompact_le le, work_le_work le⟩, ?_, divides⟩
  intro a b s t ha hb
  refine ⟨ha.lt_iff hb, ?_⟩
  intro below
  have le := Nat.le_of_lt ((ha.lt_iff hb).1 below)
  exact ⟨_, _, ha.work_eq, hb.work_eq, work_le_work le⟩

/-- So it is on both sides of the place where the leading bit becomes the sign. -/
theorem compact_ordered_sign :
    ∃ s t : Target, s.toNat = 0x7fffff ∧ t.toNat = 0x800000 ∧ s.toCompact ≤ t.toCompact ∧
      t.work ≤ s.work ∧ Canonical 0x037fffff s ∧ Canonical 0x04008000 t ∧
      ((0x037fffff : UInt32) < 0x04008000 ↔ s.toNat < t.toNat) ∧
      (∃ v w, (ofCompact 0x037fffff).map work = .ok v ∧ (ofCompact 0x04008000).map work = .ok w ∧
        w ≤ v) ∧ s.Divides ∧ t.Divides := by
  obtain ⟨monotone, ordered, exact⟩ := compact_ordered
  have hs : Canonical 0x037fffff ⟨0x7fffff, by decide⟩ := ⟨by decide, by decide⟩
  have ht : Canonical 0x04008000 ⟨0x800000, by decide⟩ := ⟨by decide, by decide⟩
  obtain ⟨forms, works⟩ := monotone ⟨0x7fffff, by decide⟩ ⟨0x800000, by decide⟩ (by decide)
  obtain ⟨order, lighter⟩ := ordered _ _ _ _ hs ht
  exact ⟨_, _, rfl, rfl, forms, works, hs, ht, order, lighter (by decide), exact _, exact _⟩

end HeaviestChain.Target
