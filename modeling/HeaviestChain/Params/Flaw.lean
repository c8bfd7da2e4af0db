import HeaviestChain.Params.Basic

/-!
Parameters that no chain could run with.
-/

namespace HeaviestChain

/-- Why parameters are refused. -/
inductive Flaw where
  | shortInterval
  | zeroTime
  | zeroHalvingInterval
  | zeroWindow
  | disorderedThresholds
  | zeroMedianSpan
  | invalidLimit
  | looseLimit
  | invalidGenesisTarget
  | easyGenesisTarget
  deriving DecidableEq

namespace Flaw

/-- The wording of a flaw. -/
def reason : Flaw → String
  | shortInterval => "retarget interval must be at least 2"
  | zeroTime => "target timespan and spacing must be positive"
  | zeroHalvingInterval => "halving interval must be positive"
  | zeroWindow => "majority window must be positive"
  | disorderedThresholds => "majority thresholds must satisfy enforce <= reject <= window"
  | zeroMedianSpan => "median time span must be positive"
  | invalidLimit => "pow limit is not a valid compact target"
  | looseLimit => "pow limit is not in canonical compact form"
  | invalidGenesisTarget => "genesis target is not a valid compact target"
  | easyGenesisTarget => "genesis target is easier than the pow limit"

/-- The wording of a refusal. -/
def message (f : Flaw) : String := "invalid network parameters: " ++ f.reason

end Flaw

namespace Params

/-- The flaw of the easiest target and of the first header's target. -/
def targetFlaw? (p : Params) : Option Flaw :=
  match Target.ofCompact p.limitBits with
  | .error _ => some .invalidLimit
  | .ok limit =>
    if limit.toCompact ≠ p.limitBits then some .looseLimit
    else
      match p.genesis.target with
      | .error _ => some .invalidGenesisTarget
      | .ok t => if limit.toNat < t.toNat then some .easyGenesisTarget else none

/-- The first flaw of parameters. -/
def flaw? (p : Params) : Option Flaw :=
  if p.interval < 2 then some .shortInterval
  else if p.timespan = 0 ∨ p.spacing = 0 then some .zeroTime
  else if p.halvingInterval = 0 then some .zeroHalvingInterval
  else if p.signalWindow = 0 then some .zeroWindow
  else if p.signalWindow < p.rejectThreshold ∨ p.rejectThreshold < p.enforceThreshold then
    some .disorderedThresholds
  else if p.medianSpan = 0 then some .zeroMedianSpan
  else p.targetFlaw?

/-- Parameters without a flaw. -/
def Sound (p : Params) : Prop := p.flaw? = none

instance (p : Params) : Decidable p.Sound := inferInstanceAs (Decidable (_ = _))

end Params

end HeaviestChain
