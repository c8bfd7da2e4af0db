import HeaviestChain.Params.Basic
import HeaviestChain.Trap

/-!
What depends on the height alone: where an interval of equal difficulty ends, where the subsidy is
halved, and the subsidy.
-/

namespace HeaviestChain.Params

/-- Whether the header at a height is the last of its interval, so that its child is the first
with a new difficulty. The first header closes no interval. -/
def closesInterval (p : Params) (height : UInt32) : Except Trap Bool :=
  if height = 0 then .ok false
  else if p.interval = 0 then .error .divisionByZero
  else .ok (decide ((height.toNat + 1) % p.interval.toNat = 0))

/-- Whether the subsidy is halved after the header at a height. -/
def halvesAfter (p : Params) (height : UInt32) : Except Trap Bool :=
  if p.halvingInterval = 0 then .error .divisionByZero
  else .ok (decide ((height.toNat + 1) % p.halvingInterval.toNat = 0))

/-- The coins that the header at a height creates: the base subsidy, halved once an interval and
nothing from the 64th halving on. -/
def subsidy (p : Params) (height : UInt32) : Except Trap UInt64 :=
  if p.halvingInterval = 0 then .error .divisionByZero
  else
    let halvings := height.toNat / p.halvingInterval.toNat
    if 64 ≤ halvings then .ok 0 else .ok (UInt64.ofNat (p.baseSubsidy.toNat >>> halvings))

end HeaviestChain.Params
