import HeaviestChain.Rules.Schedule
import HeaviestChain.Params.Presets
import Mathlib.Algebra.Order.Ring.Nat
import Mathlib.Tactic.Ring

/-!
The coins of a chain. The subsidy of a height is an exact quotient by a power of two, it changes
behind the heights where it is halved and nowhere else, and all headers together create fewer coins
than two intervals would at the base subsidy.
-/

namespace HeaviestChain.Params

/-- The subsidy of a height as a quotient: the base subsidy, halved once for every interval before
it. -/
def coinsAt (p : Params) (height : Nat) : Nat :=
  p.baseSubsidy.toNat / 2 ^ (height / p.halvingInterval.toNat)

/-- The coins that the first so many headers of a chain create. -/
def supply (p : Params) : Nat → Except Trap Nat
  | 0 => .ok 0
  | count + 1 => do
    let before ← p.supply count
    let coins ← p.subsidy (UInt32.ofNat count)
    .ok (before + coins.toNat)

/-- What two intervals create at the rate of a height, less what the interval of the height created
before it. No more than this is created from the height on. -/
def reserve (p : Params) (height : Nat) : Nat :=
  (2 * p.halvingInterval.toNat - height % p.halvingInterval.toNat) * p.coinsAt height

variable {p : Params}

theorem halvingInterval_pos (some : p.halvingInterval ≠ 0) : 0 < p.halvingInterval.toNat :=
  Nat.pos_of_ne_zero fun none => some (UInt32.toNat_inj.1 none)

theorem coinsAt_lt (p : Params) (height : Nat) : p.coinsAt height < UInt64.size :=
  Nat.lt_of_le_of_lt (Nat.div_le_self _ _) p.baseSubsidy.toNat_lt

/-- All 64 bits of the base subsidy are gone with the 64th halving. -/
theorem coinsAt_of_spent {height : Nat} (spent : 64 ≤ height / p.halvingInterval.toNat) :
    p.coinsAt height = 0 := by
  have bits : p.baseSubsidy.toNat < 2 ^ 64 := p.baseSubsidy.toNat_lt
  exact Nat.div_eq_of_lt (Nat.lt_of_lt_of_le bits (Nat.pow_le_pow_right (by decide) spent))

theorem subsidy_eq (some : p.halvingInterval ≠ 0) (height : UInt32) :
    p.subsidy height = .ok (UInt64.ofNat (p.coinsAt height.toNat)) := by
  unfold subsidy
  rw [if_neg some]
  by_cases spent : 64 ≤ height.toNat / p.halvingInterval.toNat
  · rw [if_pos spent, coinsAt_of_spent spent]
    rfl
  · rw [if_neg spent, Nat.shiftRight_eq_div_pow]
    rfl

/-- The next height is the first of an interval, or one further into the same one. -/
theorem succ_mod_cases (height : Nat) (some : p.halvingInterval ≠ 0) :
    (height + 1) % p.halvingInterval.toNat = 0 ∧
        height % p.halvingInterval.toNat + 1 = p.halvingInterval.toNat ∨
      (height + 1) % p.halvingInterval.toNat = height % p.halvingInterval.toNat + 1 ∧
        height % p.halvingInterval.toNat + 1 < p.halvingInterval.toNat := by
  have inside := Nat.mod_lt height (halvingInterval_pos some)
  rw [← Nat.mod_add_mod height p.halvingInterval.toNat 1]
  rcases Nat.lt_or_eq_of_le (Nat.succ_le_of_lt inside) with within | last
  · exact .inr ⟨Nat.mod_eq_of_lt within, within⟩
  · refine .inl ⟨?_, last⟩
    rw [← Nat.succ_eq_add_one, last, Nat.mod_self]

/-- Behind the end of an interval the subsidy is halved. -/
theorem coinsAt_succ_of_mod_eq_zero {height : Nat}
    (ends : (height + 1) % p.halvingInterval.toNat = 0) :
    p.coinsAt (height + 1) = p.coinsAt height / 2 := by
  rw [coinsAt, coinsAt, Nat.succ_div_of_dvd (Nat.dvd_of_mod_eq_zero ends), pow_succ,
    Nat.div_div_eq_div_mul]

/-- Within an interval the subsidy stays. -/
theorem coinsAt_succ_of_mod_ne_zero {height : Nat}
    (goes : (height + 1) % p.halvingInterval.toNat ≠ 0) :
    p.coinsAt (height + 1) = p.coinsAt height := by
  rw [coinsAt, coinsAt, Nat.succ_div_of_not_dvd (mt Nat.mod_eq_zero_of_dvd goes)]

/-- What a header creates is taken from the reserve. -/
theorem coinsAt_add_reserve_le (some : p.halvingInterval ≠ 0) (height : Nat) :
    p.coinsAt height + p.reserve (height + 1) ≤ p.reserve height := by
  unfold reserve
  rcases succ_mod_cases height some with ⟨ends, last⟩ | ⟨goes, within⟩
  · have half := Nat.div_mul_le_self (p.coinsAt height) 2
    have left : 2 * p.halvingInterval.toNat - height % p.halvingInterval.toNat =
        p.halvingInterval.toNat + 1 := by omega
    rw [coinsAt_succ_of_mod_eq_zero ends, ends, left, Nat.sub_zero]
    calc p.coinsAt height + 2 * p.halvingInterval.toNat * (p.coinsAt height / 2)
        = p.halvingInterval.toNat * (p.coinsAt height / 2 * 2) + p.coinsAt height := by ring
      _ ≤ p.halvingInterval.toNat * p.coinsAt height + p.coinsAt height :=
          Nat.add_le_add_right (Nat.mul_le_mul_left _ half) _
      _ = (p.halvingInterval.toNat + 1) * p.coinsAt height := by ring
  · have left : 2 * p.halvingInterval.toNat - height % p.halvingInterval.toNat =
        2 * p.halvingInterval.toNat - (height % p.halvingInterval.toNat + 1) + 1 := by omega
    rw [coinsAt_succ_of_mod_ne_zero (by omega), goes, left]
    exact Nat.le_of_eq (by ring)

/-- Each header of an interval creates less than the reserve. -/
theorem coinsAt_lt_reserve (some : p.halvingInterval ≠ 0) {height : Nat}
    (coins : 0 < p.coinsAt height) : p.coinsAt height < p.reserve height := by
  have inside := Nat.mod_lt height (halvingInterval_pos some)
  calc p.coinsAt height < 2 * p.coinsAt height := by omega
    _ ≤ p.reserve height := Nat.mul_le_mul_right _ (by omega)

theorem reserve_zero (p : Params) :
    p.reserve 0 = 2 * p.baseSubsidy.toNat * p.halvingInterval.toNat := by
  rw [reserve, coinsAt, Nat.zero_mod, Nat.sub_zero, Nat.zero_div, pow_zero, Nat.div_one,
    Nat.mul_right_comm]

/-- What a chain created and the reserve behind it are never more than the reserve at its start, and
what it created is less if it created anything. -/
theorem supply_bounded (some : p.halvingInterval ≠ 0) {count : Nat}
    (short : count ≤ UInt32.size) :
    ∃ total, p.supply count = .ok total ∧ total + p.reserve count ≤ p.reserve 0 ∧
      (0 < p.baseSubsidy.toNat → total < p.reserve 0) := by
  induction count with
  | zero =>
    refine ⟨0, rfl, Nat.le_of_eq (Nat.zero_add _), ?_⟩
    intro base
    rw [reserve_zero]
    exact Nat.mul_pos (Nat.mul_pos Nat.two_pos base) (halvingInterval_pos some)
  | succ count ih =>
    obtain ⟨total, sum, within, below⟩ := ih (Nat.le_of_succ_le short)
    have taken := coinsAt_add_reserve_le some count
    refine ⟨total + p.coinsAt count, ?_, by omega, ?_⟩
    · have place : (UInt32.ofNat count).toNat = count := UInt32.toNat_ofNat_of_lt' short
      have coins : (UInt64.ofNat (p.coinsAt count)).toNat = p.coinsAt count :=
        UInt64.toNat_ofNat_of_lt' (p.coinsAt_lt count)
      simp only [supply, sum, subsidy_eq some, place, bind, Except.bind, coins]
    · intro base
      rcases Nat.eq_zero_or_pos (p.coinsAt count) with none | coins
      · rw [none]
        exact below base
      · have more := coinsAt_lt_reserve some coins
        omega

/-- The subsidy of every height is an exact quotient, nothing from the 64th halving on. It is
halved behind the heights that end an interval and stays behind all others. What a chain of any
length creates is at most, and less if it creates anything, what two intervals create at the base
subsidy. -/
theorem subsidy_scheduled (some : p.halvingInterval ≠ 0) :
    (∀ height : UInt32, ∃ coins, p.subsidy height = .ok coins ∧
      coins.toNat = p.baseSubsidy.toNat / 2 ^ (height.toNat / p.halvingInterval.toNat) ∧
      (64 ≤ height.toNat / p.halvingInterval.toNat → coins = 0)) ∧
      (∀ height : UInt32, height.toNat + 1 < UInt32.size →
        ∃ halves coins next, p.halvesAfter height = .ok halves ∧ p.subsidy height = .ok coins ∧
          p.subsidy (height + 1) = .ok next ∧
          next.toNat = if halves then coins.toNat / 2 else coins.toNat) ∧
      ∀ height : UInt32, ∃ total, p.supply (height.toNat + 1) = .ok total ∧
        total ≤ 2 * p.baseSubsidy.toNat * p.halvingInterval.toNat ∧
        (0 < p.baseSubsidy.toNat → total < 2 * p.baseSubsidy.toNat * p.halvingInterval.toNat) := by
  have coins (height : Nat) : (UInt64.ofNat (p.coinsAt height)).toNat = p.coinsAt height :=
    UInt64.toNat_ofNat_of_lt' (p.coinsAt_lt height)
  refine ⟨?_, ?_, ?_⟩
  · intro height
    refine ⟨_, subsidy_eq some height, coins _, ?_⟩
    intro spent
    rw [coinsAt_of_spent spent]
    rfl
  · intro height room
    have next : (height + 1).toNat = height.toNat + 1 := by
      rw [UInt32.toNat_add]
      exact Nat.mod_eq_of_lt room
    refine ⟨_, _, _, if_neg some, subsidy_eq some height, subsidy_eq some (height + 1), ?_⟩
    rw [coins, coins, next]
    by_cases ends : (height.toNat + 1) % p.halvingInterval.toNat = 0
    · rw [decide_eq_true ends, if_pos rfl, coinsAt_succ_of_mod_eq_zero ends]
    · rw [decide_eq_false ends, if_neg Bool.false_ne_true, coinsAt_succ_of_mod_ne_zero ends]
  · intro height
    obtain ⟨total, sum, within, below⟩ := supply_bounded some (Nat.succ_le_of_lt height.toNat_lt)
    rw [reserve_zero] at within below
    exact ⟨total, sum, by omega, below⟩

/-- So it is on the public network, where the last coin goes with the 33rd halving. -/
theorem subsidy_scheduled_main :
    main.halvingInterval ≠ 0 ∧ (6929999 : UInt32).toNat + 1 < UInt32.size ∧
      main.subsidy 6929999 = .ok 1 ∧ main.halvesAfter 6929999 = .ok true ∧
      main.subsidy (6929999 + 1) = .ok 0 ∧
      ∃ total, main.supply ((4294967295 : UInt32).toNat + 1) = .ok total ∧
        total < 2 * main.baseSubsidy.toNat * main.halvingInterval.toNat := by
  have some : main.halvingInterval ≠ 0 := by decide
  obtain ⟨-, halved, capped⟩ := subsidy_scheduled some
  obtain ⟨halves, coins, next, ends, now, later, same⟩ := halved 6929999 (by decide)
  obtain ⟨total, sum, -, below⟩ := capped 4294967295
  have one : main.subsidy 6929999 = .ok 1 := by decide
  have halving : main.halvesAfter 6929999 = .ok true := by decide
  obtain rfl : 1 = coins := Except.ok.inj (one.symm.trans now)
  obtain rfl : true = halves := Except.ok.inj (halving.symm.trans ends)
  obtain rfl : next = 0 := UInt64.toNat_inj.1 same
  exact ⟨some, by decide, one, halving, later, total, sum, below (by decide)⟩

end HeaviestChain.Params
