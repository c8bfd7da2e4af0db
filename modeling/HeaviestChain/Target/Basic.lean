/-!
Difficulty targets: the largest number that a header's hash may be. The larger the target, the
easier the proof of work.
-/

namespace HeaviestChain

/-- Targets have 256 bits. -/
def Target.bound : Nat := 1 <<< 256

/-- A number of 256 bits. -/
@[ext]
structure Target where
  toNat : Nat
  toNat_lt : toNat < Target.bound
  deriving DecidableEq

namespace Target

theorem bound_pos : 0 < bound := by decide

/-- The target of a number, its bits above 256 dropped. -/
def ofNat (n : Nat) : Target := ⟨n % bound, Nat.mod_lt n bound_pos⟩

/-- No hash but zero meets it. -/
def zero : Target := ofNat 0

theorem toNat_ofNat (n : Nat) : (ofNat n).toNat = n % bound := rfl

theorem toNat_ofNat_of_lt {n : Nat} (h : n < bound) : (ofNat n).toNat = n := Nat.mod_eq_of_lt h

end Target

end HeaviestChain
