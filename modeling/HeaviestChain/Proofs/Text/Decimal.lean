import HeaviestChain.Text.Decimal

/-!
Numbers in decimal digits: what is written is read back, and it begins with zero only if it is zero.
-/

namespace HeaviestChain.Text

@[simp]
theorem valueOfDigits_toDigits (n : Nat) : valueOfDigits (Nat.toDigits 10 n) = n :=
  Nat.ofDigitChars_toDigits (by decide) (by decide)

theorem isDigit_of_mem_toDigits {n : Nat} {c : Char} (m : c ∈ Nat.toDigits 10 n) :
    c.isDigit = true :=
  Nat.isDigit_of_mem_toDigits (by decide) (by decide) m

theorem digitChar_ne_zero {n : Nat} (some : n ≠ 0) (small : n < 10) : n.digitChar ≠ '0' := by
  have all : ∀ m : Fin 10, m.val ≠ 0 → m.val.digitChar ≠ '0' := by decide
  exact all ⟨n, small⟩ some

theorem toDigits_eq_cons {n : Nat} (some : n ≠ 0) :
    ∃ c rest, Nat.toDigits 10 n = c :: rest ∧ c ≠ '0' := by
  induction n using Nat.strongRecOn with
  | ind n ih =>
    by_cases small : n < 10
    · exact ⟨n.digitChar, [], Nat.toDigits_of_lt_base small, digitChar_ne_zero some small⟩
    · have lower : n / 10 < n := Nat.div_lt_self (by omega) (by decide)
      obtain ⟨c, rest, e, first⟩ := ih (n / 10) lower (by omega)
      refine ⟨c, rest ++ [(n % 10).digitChar], ?_, first⟩
      rw [Nat.toDigits_of_base_le (by decide) (Nat.not_lt.1 small), e, List.cons_append]

end HeaviestChain.Text
