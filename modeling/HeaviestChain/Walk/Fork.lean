import HeaviestChain.Walk.Ancestry

/-!
The way from one record to another through their highest common ancestor.
-/

namespace HeaviestChain

/-- A way from one branch to another: the record where they meet, the records left behind, newest
first, and the records entered, oldest first. -/
structure Fork where
  base : Record
  left : List Record
  entered : List Record
  deriving DecidableEq

namespace Walk

/-- The parent of a record on one of two branches that have not met. -/
def parentOnFork (r : Record) : Walk Record :=
  if r.height = 0 then corrupt (.noCommonAncestor r.hash) else parentOf r

/-- Goes to the parents of two records at a time until they are one. -/
def meet : Nat → Record → Record → Walk (List Record × List Record × Record)
  | steps, a, b =>
    if a.hash = b.hash then done ([], [], a)
    else
      match steps with
      | 0 => corrupt (.endless a.hash)
      | steps + 1 => do
        let a' ← parentOnFork a
        let b' ← parentOnFork b
        let (left, entered, base) ← meet steps a' b'
        done (a :: left, b :: entered, base)

/-- The way from `old` to `new`: the higher branch comes down first, then both together. -/
def fork (stored : Nat) (old new : Record) : Walk Fork := do
  let (left, a) ← climb (fun r => r.height ≤ new.height) (reach stored old) old
  let (entered, b) ← climb (fun r => r.height ≤ a.height) (reach stored new) new
  let (left', entered', base) ← meet (reach stored a) a b
  done ⟨base, left ++ left', (entered ++ entered').reverse⟩

end Walk

end HeaviestChain
