import HeaviestChain.Walk.Basic

/-!
Walks from a record to its parents. A walk takes at most as many steps as its record is high, or
as there are stored records, whichever helps: through a tree whose heights rise by one the first
is enough, and through any records that do not name each other in a circle the sum is.
-/

namespace HeaviestChain.Walk

/-- The steps that a walk from a record may take. -/
def reach (stored : Nat) (r : Record) : Nat := stored + r.height.toNat

/-- The stored parent of a record. -/
def parentOf (r : Record) : Walk Record :=
  ask r.header.previous fun
    | some parent => done parent
    | none => corrupt (.noParent r.hash r.height)

/-- The parent of a record, none at height zero. -/
def parent (r : Record) : Walk (Option Record) :=
  if r.height = 0 then done none else some <$> parentOf r

/-- Goes to the parent until `stop` holds: the records passed, and the record reached. -/
def climb (stop : Record → Bool) : Nat → Record → Walk (List Record × Record)
  | steps, r =>
    if stop r then done ([], r)
    else
      match steps with
      | 0 => corrupt (.endless r.hash)
      | steps + 1 => do
        let above ← parentOf r
        let (passed, last) ← climb stop steps above
        done (r :: passed, last)

/-- The first record at most `height` high, from a record on to its parents. -/
def descend (stored : Nat) (r : Record) (height : Nat) : Walk Record := do
  let (_, last) ← climb (fun s => s.height.toNat ≤ height) (reach stored r) r
  done last

/-- The ancestor of a record at a height, none above the record. -/
def ancestor (stored : Nat) (r : Record) (height : UInt32) : Walk (Option Record) :=
  if r.height < height then done none else some <$> descend stored r height.toNat

/-- The latest `count` records of a branch, newest first, all of them if it is shorter or the count
is zero. -/
def latestWithin : Nat → Nat → Record → Walk (List Record)
  | steps, count, r =>
    if count = 1 ∨ r.height = 0 then done [r]
    else
      match steps with
      | 0 => corrupt (.endless r.hash)
      | steps + 1 => do
        let above ← parentOf r
        let rest ← latestWithin steps (count - 1) above
        done (r :: rest)

/-- The latest `count` records of a branch, newest first. -/
def latest (stored count : Nat) (r : Record) : Walk (List Record) :=
  latestWithin (reach stored r) count r

end HeaviestChain.Walk
