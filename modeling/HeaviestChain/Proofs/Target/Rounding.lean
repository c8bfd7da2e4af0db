import HeaviestChain.Proofs.Target.Compact

/-!
Compact forms of targets. The compact form keeps the leading bytes of a target and drops the others,
so that it names the greatest target that any compact word names and that is not above it. A target
that a compact word names is kept whole, though the word may be another one.
-/

namespace HeaviestChain.Target

/-- The byte count in the compact form of a number: that of its double, so that the leading bit is
never in the place of the sign. -/
def leadSize (n : Nat) : Nat := byteLength (2 * n)

/-- The leading bytes of a number in its compact form. -/
def leadWord (n : Nat) : Nat := n * 256 ^ 3 / 256 ^ leadSize n

/-- A number with zeros for the bytes that its compact form drops. -/
def truncated (n : Nat) : Nat := n / 256 ^ (leadSize n - 3) * 256 ^ (leadSize n - 3)

/-- Whether the compact form of one target names another, the greatest that any compact word names
and that is not above it. -/
structure RoundsTo (t t' : Target) : Prop where
  decoded : ofCompact t.toCompact = .ok t'
  below : t'.toNat ≤ t.toNat
  greatest : ∀ bits s, ofCompact bits = .ok s → s.toNat ≤ t.toNat → s.toNat ≤ t'.toNat

variable {bits : UInt32} {n size word : Nat} {t t' : Target}

theorem byteLength_le_iff : byteLength n ≤ size ↔ n < 256 ^ size := by
  have bytes : 256 ^ size = 2 ^ (8 * size) := (pow_mul 2 8 size).symm
  unfold byteLength
  split
  · rename_i zero
    rw [zero]
    simp
  · rename_i some
    rw [bytes, ← Nat.log2_lt some]
    omega

theorem lt_pow_byteLength (n : Nat) : n < 256 ^ byteLength n := byteLength_le_iff.1 (Nat.le_refl _)

theorem byteLength_mono {m : Nat} (le : m ≤ n) : byteLength m ≤ byteLength n :=
  byteLength_le_iff.2 (Nat.lt_of_le_of_lt le (lt_pow_byteLength n))

/-- The byte count grows by one where the leading bit would be the sign. -/
theorem leadSize_eq (n : Nat) :
    leadSize n = if 256 ^ byteLength n ≤ 2 * n then byteLength n + 1 else byteLength n := by
  have own := lt_pow_byteLength n
  split
  · rename_i leads
    have above : ¬leadSize n ≤ byteLength n := fun le => by
      have := byteLength_le_iff.1 le
      omega
    have next : leadSize n ≤ byteLength n + 1 := by
      rw [leadSize, byteLength_le_iff, pow_succ]
      omega
    omega
  · rename_i follows
    exact Nat.le_antisymm (byteLength_le_iff.2 (Nat.lt_of_not_le follows))
      (byteLength_mono (by omega))

theorem leadSize_le (t : Target) : leadSize t.toNat ≤ 33 := by
  have below : t.toNat < 256 ^ 32 := t.toNat_lt
  rw [leadSize, byteLength_le_iff, pow_succ]
  omega

theorem leadWord_lt (n : Nat) : leadWord n < 0x800000 := by
  have own : 2 * n < 256 ^ leadSize n := lt_pow_byteLength _
  rw [leadWord, Nat.div_lt_iff_lt_mul (by positivity)]
  omega

/-- The three leading bytes of a number of so many bytes. -/
theorem leading_eq (n size : Nat) :
    (if size ≤ 3 then n <<< (8 * (3 - size)) else n >>> (8 * (size - 3))) =
      n * 256 ^ 3 / 256 ^ size := by
  have bytes (n : Nat) : 2 ^ (8 * n) = 256 ^ n := pow_mul 2 8 n
  split
  · rename_i few
    rw [Nat.shiftLeft_eq, bytes, ← pow_sub_mul_pow 256 few, ← mul_assoc,
      Nat.mul_div_cancel _ (by positivity)]
  · rename_i many
    rw [Nat.shiftRight_eq_div_pow, bytes, ← pow_sub_mul_pow 256 (Nat.le_of_not_le many),
      Nat.mul_div_mul_right _ _ (by positivity)]

/-- The leading bit of three bytes is set from the middle of their range on. -/
theorem leads_iff (small : word < 0x1000000) : word / 0x800000 % 2 = 1 ↔ 0x800000 ≤ word := by
  omega

theorem toCompact_eq (t : Target) :
    t.toCompact = UInt32.ofNat (leadWord t.toNat + leadSize t.toNat * 0x1000000) := by
  have own := lt_pow_byteLength t.toNat
  have three : t.toNat * 256 ^ 3 / 256 ^ byteLength t.toNat < 0x1000000 := by
    rw [Nat.div_lt_iff_lt_mul (by positivity)]
    omega
  have half : 0x800000 ≤ t.toNat * 256 ^ 3 / 256 ^ byteLength t.toNat ↔
      256 ^ byteLength t.toNat ≤ 2 * t.toNat := by
    rw [Nat.le_div_iff_mul_le (by positivity)]
    omega
  simp only [toCompact, leading_eq, leads_iff three, half, leadWord, leadSize_eq t.toNat]
  split
  · rw [pow_succ 256 (byteLength t.toNat), ← Nat.div_div_eq_div_mul]
  · rfl

section Parts

variable (t)

theorem toNat_toCompact : t.toCompact.toNat = leadWord t.toNat + leadSize t.toNat * 0x1000000 := by
  have word := leadWord_lt t.toNat
  have size := leadSize_le t
  have wide : UInt32.size = 0x100000000 := rfl
  rw [toCompact_eq]
  exact UInt32.toNat_ofNat_of_lt' (by omega)

theorem compactWord_toCompact : compactWord t.toCompact = leadWord t.toNat := by
  have word := leadWord_lt t.toNat
  rw [compactWord, toNat_toCompact]
  omega

theorem compactSize_toCompact : compactSize t.toCompact = leadSize t.toNat := by
  have word := leadWord_lt t.toNat
  rw [compactSize, toNat_toCompact]
  omega

theorem compactSign_toCompact : compactSign t.toCompact = false := by
  have word := leadWord_lt t.toNat
  rw [compactSign, toNat_toCompact]
  apply decide_eq_false
  omega

end Parts

theorem truncated_le (n : Nat) : truncated n ≤ n := Nat.div_mul_le_self _ _

theorem truncated_of_leadSize_le (few : leadSize n ≤ 3) : truncated n = n := by
  rw [truncated, Nat.sub_eq_zero_of_le few, pow_zero, Nat.div_one, mul_one]

/-- A multiple of the unit of the kept bytes stays below the number without the others. -/
theorem mul_le_truncated {q : Nat} (le : q * 256 ^ (leadSize n - 3) ≤ n) :
    q * 256 ^ (leadSize n - 3) ≤ truncated n :=
  Nat.mul_le_mul_right _ ((Nat.le_div_iff_mul_le (by positivity)).2 le)

theorem pow_leadSize_pred (many : 3 < leadSize n) :
    256 ^ (leadSize n - 1) = 256 ^ (leadSize n - 3) * 256 ^ 2 := by
  rw [← pow_add]
  congr 1
  omega

/-- Where bytes are dropped, the least number with as many leading bytes is such a multiple. -/
theorem half_le_truncated (many : 3 < leadSize n) :
    0x8000 * 256 ^ (leadSize n - 3) ≤ truncated n := by
  apply mul_le_truncated
  have reaches : ¬leadSize n ≤ leadSize n - 1 := by omega
  nth_rewrite 1 [leadSize] at reaches
  rw [byteLength_le_iff, pow_leadSize_pred many] at reaches
  omega

theorem truncated_pos (some : 0 < n) : 0 < truncated n := by
  rcases le_or_gt (leadSize n) 3 with few | many
  · rwa [truncated_of_leadSize_le few]
  · have unit : 0 < 256 ^ (leadSize n - 3) := by positivity
    have half := half_le_truncated many
    omega

/-- What a word stands for is not above the number without its last bytes, if it is not above the
number. -/
theorem scaleBytes_le_truncated (small : word < 0x800000) (le : scaleBytes word size ≤ n) :
    scaleBytes word size ≤ truncated n := by
  rcases le_or_gt (leadSize n) 3 with few | many
  · rwa [truncated_of_leadSize_le few]
  · rw [scaleBytes_eq] at le ⊢
    rcases le_or_gt (leadSize n) size with long | short
    · have split : 256 ^ size = 256 ^ (size - leadSize n) * 256 ^ (leadSize n - 3) * 256 ^ 3 := by
        rw [mul_assoc, pow_sub_mul_pow 256 (Nat.le_of_lt many), pow_sub_mul_pow 256 long]
      rw [split, ← mul_assoc, Nat.mul_div_cancel _ (by positivity), ← mul_assoc] at le ⊢
      exact mul_le_truncated le
    · -- a shorter word stands for less than any number with as many leading bytes
      calc word * 256 ^ size / 256 ^ 3
          ≤ 0x800000 * 256 ^ (leadSize n - 1) / 256 ^ 3 := by
            apply Nat.div_le_div_right
            exact Nat.mul_le_mul (Nat.le_of_lt small)
              (Nat.pow_le_pow_right (by decide) (by omega))
        _ = 0x8000 * 256 ^ (leadSize n - 3) := by
            rw [pow_leadSize_pred many]
            omega
        _ ≤ truncated n := half_le_truncated many

theorem leadSize_truncated (n : Nat) : leadSize (truncated n) = leadSize n := by
  rcases le_or_gt (leadSize n) 3 with few | many
  · rw [truncated_of_leadSize_le few]
  · have below : leadSize (truncated n) ≤ leadSize n :=
      byteLength_mono (Nat.mul_le_mul_left 2 (truncated_le n))
    have half := half_le_truncated many
    have reaches : ¬leadSize (truncated n) ≤ leadSize n - 1 := by
      rw [leadSize, byteLength_le_iff, pow_leadSize_pred many]
      omega
    omega

theorem leadWord_of_le_leadSize (many : 3 ≤ leadSize n) :
    leadWord n = n / 256 ^ (leadSize n - 3) := by
  rw [leadWord, ← pow_sub_mul_pow 256 many, Nat.mul_div_mul_right _ _ (by positivity)]

theorem leadWord_truncated (n : Nat) : leadWord (truncated n) = leadWord n := by
  rcases Nat.le_total (leadSize n) 3 with few | many
  · rw [truncated_of_leadSize_le few]
  · have many' : 3 ≤ leadSize (truncated n) := by rwa [leadSize_truncated]
    rw [leadWord_of_le_leadSize many', leadWord_of_le_leadSize many, leadSize_truncated, truncated,
      Nat.mul_div_cancel _ (by positivity)]

/-- The leading bytes, put back into their places, are the number without its last bytes. -/
theorem scaleBytes_leadWord (n : Nat) : scaleBytes (leadWord n) (leadSize n) = truncated n := by
  rw [scaleBytes_eq]
  rcases Nat.le_total (leadSize n) 3 with few | many
  · rw [truncated_of_leadSize_le few, leadWord, ← pow_sub_mul_pow 256 few, ← mul_assoc,
      Nat.mul_div_cancel _ (by positivity), mul_assoc, Nat.mul_div_cancel _ (by positivity)]
  · rw [leadWord_of_le_leadSize many, ← pow_sub_mul_pow 256 many, ← mul_assoc,
      Nat.mul_div_cancel _ (by positivity), truncated]

/-- The compact form of a target that is not zero names the target without its last bytes. -/
theorem ofCompact_toCompact_eq_ok (some : 0 < t.toNat) :
    ofCompact t.toCompact = .ok t' ↔ t'.toNat = truncated t.toNat := by
  rw [ofCompact_eq_ok, compactWord_toCompact, compactSize_toCompact, compactSign_toCompact,
    scaleBytes_leadWord]
  constructor
  · rintro ⟨-, -, same⟩
    exact same
  · intro same
    have pos := truncated_pos some
    exact ⟨by simp, by omega, same⟩

/-- The compact form of a target that is not zero names the greatest target below. -/
theorem exists_roundsTo (some : 0 < t.toNat) : ∃ t', t.RoundsTo t' := by
  have below := truncated_le t.toNat
  refine ⟨⟨truncated t.toNat, Nat.lt_of_le_of_lt below t.toNat_lt⟩, ?_, below, ?_⟩
  · exact (ofCompact_toCompact_eq_ok some).2 rfl
  · intro bits s names le
    obtain ⟨-, -, same⟩ := ofCompact_eq_ok.1 names
    rw [same] at le ⊢
    exact scaleBytes_le_truncated (compactWord_lt bits) le

theorem RoundsTo.toCompact_eq (some : 0 < t.toNat) (rounds : t.RoundsTo t') :
    t'.toCompact = t.toCompact := by
  have same := (ofCompact_toCompact_eq_ok some).1 rounds.decoded
  rw [Target.toCompact_eq, Target.toCompact_eq, same, leadWord_truncated, leadSize_truncated]

/-- A target that some compact word names is the one that its compact form names. -/
theorem ofCompact_toCompact_of_eq_ok (names : ofCompact bits = .ok t) :
    ofCompact t.toCompact = .ok t := by
  obtain ⟨-, some, -⟩ := ofCompact_eq_ok.1 names
  obtain ⟨t', rounds⟩ := exists_roundsTo some
  have same : t' = t :=
    Target.ext (Nat.le_antisymm rounds.below (rounds.greatest bits t names (Nat.le_refl _)))
  rw [rounds.decoded, same]

/-- The compact form of every target but zero names the greatest target below that any compact word
names, which has the same compact form; and a target that any compact word names is the one that its
compact form names. -/
theorem compact_rounded :
    (∀ t : Target, 1 ≤ t.toNat → ∃ t', t.RoundsTo t' ∧ t'.toCompact = t.toCompact) ∧
      ∀ bits t, ofCompact bits = .ok t → ofCompact t.toCompact = .ok t := by
  refine ⟨?_, fun _ _ => ofCompact_toCompact_of_eq_ok⟩
  intro t some
  obtain ⟨t', rounds⟩ := exists_roundsTo some
  exact ⟨t', rounds, rounds.toCompact_eq some⟩

/-- So it is for the greatest target, whose leading bit would be the sign, and for a word that is
not the compact form of its target. -/
theorem compact_rounded_greatest :
    (∃ t t' : Target, t.toNat = 2 ^ 256 - 1 ∧ 1 ≤ t.toNat ∧ t.RoundsTo t' ∧
      t'.toCompact = t.toCompact ∧ t.toCompact = 0x2100ffff) ∧
      ∃ t, ofCompact 0x03000012 = .ok t ∧ ofCompact t.toCompact = .ok t ∧
        t.toCompact = 0x01120000 := by
  obtain ⟨rounded, kept⟩ := compact_rounded
  obtain ⟨t', rounds, same⟩ := rounded ⟨2 ^ 256 - 1, by decide⟩ (by decide)
  have names : ofCompact 0x03000012 = .ok ⟨0x12, by decide⟩ := by decide
  exact ⟨⟨_, t', rfl, by decide, rounds, same, by decide⟩, _, names, kept _ _ names, by decide⟩

end HeaviestChain.Target
