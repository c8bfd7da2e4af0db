import HeaviestChain.Rules.Retarget
import HeaviestChain.Rules.Schedule
import HeaviestChain.Walk.Ancestry

/-!
The target that a header must carry: that of its parent, a new one at the start of an interval, or,
where the network allows it, the easiest after a long gap.
-/

namespace HeaviestChain.Params

/-- Whether a record decides the target of the prompt headers after it: it starts its interval or
did not fall back to the easiest target. -/
def decidesTarget (p : Params) (r : Record) : Bool :=
  r.height = 0 ∨ r.height.toNat % p.interval.toNat = 0 ∨ r.header.bits ≠ p.limitBits

/-- The target within an interval where headers may fall back. -/
def fallbackBits (p : Params) (stored : Nat) (gap : UInt32) (parent : Record) (time : UInt32) :
    Walk UInt32 :=
  if parent.header.time.toNat + gap.toNat < time.toNat then .done p.limitBits
  else do
    let (_, last) ← Walk.climb p.decidesTarget (Walk.reach stored parent) parent
    .done last.header.bits

/-- The target of the first header of an interval. -/
def nextIntervalBits (p : Params) (stored : Nat) (parent : Record) : Walk UInt32 :=
  if UInt32.size ≤ parent.height.toNat + 1 then .fail (.trap .overflow)
  else if parent.height.toNat + 1 < p.interval.toNat then .fail (.trap .overflow)
  else do
    let first ← Walk.descend stored parent (parent.height.toNat + 1 - p.interval.toNat)
    match Target.ofCompact parent.header.bits with
    | .error e => .corrupt (.invalidBits parent.hash e)
    | .ok t => do
      let next ← .ofTrap (p.retarget t first.header.time parent.header.time)
      .done next.toCompact

/-- The target, in compact form, that a child of `parent` at `time` must carry. -/
def requiredBits (p : Params) (stored : Nat) (parent : Record) (time : UInt32) : Walk UInt32 := do
  if ← .ofTrap (p.closesInterval parent.height) then
    if p.fixedDifficulty then .done parent.header.bits else p.nextIntervalBits stored parent
  else
    match p.minDifficulty with
    | .disabled => .done parent.header.bits
    | .afterGap gap => p.fallbackBits stored gap parent time

end HeaviestChain.Params
