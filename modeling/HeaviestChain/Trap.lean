/-!
Traps: requests outside the range of the machine words that heights, times and counts live in, and
of the lists that are indexed by them.
-/

namespace HeaviestChain

/-- Why a computation on words has no result. -/
inductive Trap where
  /-- A sum or difference does not fit its word. -/
  | overflow
  /-- A period of length zero divides. -/
  | divisionByZero
  /-- A window is longer than any memory. -/
  | capacity
  /-- A list has no such place. -/
  | outOfRange
  deriving DecidableEq

/-- No list of this many 32-bit words fits into memory. -/
def wordCapacity : Nat := 1 <<< 61

end HeaviestChain
