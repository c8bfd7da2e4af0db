import HeaviestChain.Header.Basic
import HeaviestChain.Params.Checkpoints
import HeaviestChain.Params.Network

/-!
The constants of a network.
-/

namespace HeaviestChain

/-- Whether headers may fall back to the easiest target. -/
inductive MinDifficulty where
  | disabled
  /-- A header more than `gap` seconds after its parent carries the easiest target; the others
  carry the target of the last header that did not fall back. -/
  | afterGap (gap : UInt32)
  deriving DecidableEq

/-- The constants of a network; times are in seconds. -/
@[ext]
structure Params where
  network : Network
  /-- Headers between two changes of difficulty. -/
  interval : UInt32
  /-- The time an interval should take. -/
  timespan : UInt32
  /-- The time between two headers. -/
  spacing : UInt32
  /-- The easiest target, in compact form. -/
  limitBits : UInt32
  /-- Whether the difficulty never changes. -/
  fixedDifficulty : Bool
  minDifficulty : MinDifficulty
  /-- Headers between two halvings of the subsidy. -/
  halvingInterval : UInt32
  baseSubsidy : UInt64
  /-- Headers whose versions are counted. -/
  signalWindow : UInt64
  /-- Headers of a version that make its rules binding. -/
  enforceThreshold : UInt64
  /-- Headers of a version that make older versions obsolete. -/
  rejectThreshold : UInt64
  /-- Headers whose median time a new header exceeds. -/
  medianSpan : UInt64
  /-- How far a header may be ahead of the clock. -/
  maxDrift : UInt32
  genesis : Header
  checkpoints : Checkpoints
  deriving DecidableEq

namespace Params

/-- The easiest target. -/
def limit (p : Params) : Target :=
  match Target.ofCompact p.limitBits with
  | .ok t => t
  | .error _ => Target.zero

end Params

end HeaviestChain
