import HeaviestChain.Params.Basic
import HeaviestChain.Target.Work
import HeaviestChain.Trap

/-!
The change of difficulty at the end of an interval: the target is scaled by the time the interval
took over the time it should take, by at most a factor of four, and not past the easiest target.
-/

namespace HeaviestChain

/-- The time between two headers, kept within a factor of four of the expected time. -/
def boundedSpan (expected : Nat) (first last : UInt32) : Nat :=
  (max (expected / 4 : Int) (min ((last.toNat : Int) - first.toNat) (expected * 4))).toNat

/-- The target of the next interval, from the target of the last header and the times of the
first and the last. The product is held in as many bits as a sum of work. -/
def Params.retarget (p : Params) (target : Target) (first last : UInt32) : Except Trap Target :=
  let product := target.toNat * boundedSpan p.timespan.toNat first last
  if Work.bound ≤ product then .error .overflow
  else if p.timespan = 0 then .error .divisionByZero
  else
    let scaled := product / p.timespan.toNat
    if p.limit.toNat < scaled then .ok p.limit else .ok (Target.ofNat scaled)

end HeaviestChain
