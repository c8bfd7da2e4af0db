import HeaviestChain.Target.Basic

/-!
Work: how many hashes a target takes on average, and the sum of it along a chain.
-/

namespace HeaviestChain

/-- The expected count of hashes to meet a target. -/
def Target.work (t : Target) : Nat := Target.bound / (t.toNat + 1)

/-- Sums of work have 512 bits. -/
def Work.bound : Nat := Target.bound * Target.bound

/-- The sum of work along a chain. -/
@[ext]
structure Work where
  toNat : Nat
  toNat_lt : toNat < Work.bound
  deriving DecidableEq

namespace Work

theorem bound_pos : 0 < bound := Nat.mul_pos Target.bound_pos Target.bound_pos

/-- The work of a number, its bits above 512 dropped. -/
def ofNat (n : Nat) : Work := ⟨n % bound, Nat.mod_lt n bound_pos⟩

/-- Adds work; a sum that reaches the greatest number of 512 bits stays there. -/
def add (w : Work) (n : Nat) : Work :=
  ⟨min (w.toNat + n) (bound - 1),
    Nat.lt_of_le_of_lt (Nat.min_le_right _ _) (Nat.sub_lt bound_pos Nat.one_pos)⟩

theorem toNat_ofNat_of_lt {n : Nat} (h : n < bound) : (ofNat n).toNat = n := Nat.mod_eq_of_lt h

theorem toNat_add_of_lt {w : Work} {n : Nat} (h : w.toNat + n < bound) :
    (w.add n).toNat = w.toNat + n :=
  Nat.min_eq_left (Nat.le_sub_one_of_lt h)

/-- The `count` low 64-bit words of a number, least significant first. -/
def wordsOf : Nat → Nat → List UInt64
  | 0, _ => []
  | count + 1, n => UInt64.ofNat n :: wordsOf count (n / UInt64.size)

/-- The number whose 64-bit words stand least significant first. -/
def valueOf : List UInt64 → Nat
  | [] => 0
  | x :: xs => x.toNat + UInt64.size * valueOf xs

/-- The eight words of a sum of work. -/
def words (w : Work) : List UInt64 := wordsOf 8 w.toNat

/-- Reads eight words back. -/
def ofWords (xs : List UInt64) : Work := ofNat (valueOf xs)

end Work

end HeaviestChain
