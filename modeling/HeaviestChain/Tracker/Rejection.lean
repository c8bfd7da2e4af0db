import HeaviestChain.Hash.Text
import HeaviestChain.Target.Compact

/-!
Why headers are refused.
-/

namespace HeaviestChain

/-- What is wrong with a header. -/
inductive Rejection where
  | unknownParent (parent : Hash)
  | checkpointMismatch (height : UInt32) (expected actual : Hash)
  | invalidTarget (e : CompactError)
  | targetAboveLimit
  | insufficientWork (hash : Hash)
  | wrongBits (expected actual : UInt32)
  | tooEarly (time median : UInt32)
  | tooFarAhead (time : UInt32) (now : Int)
  deriving DecidableEq

namespace Rejection

/-- The wording of what is wrong. -/
def reason : Rejection → String
  | unknownParent parent => "parent " ++ parent.render ++ " is unknown"
  | checkpointMismatch height expected actual =>
    "header " ++ actual.render ++ " at checkpoint height " ++ toString height.toNat ++
      " should be " ++ expected.render
  | invalidTarget e => "invalid difficulty target: " ++ e.message
  | targetAboveLimit => "target is easier than the network limit"
  | insufficientWork hash => "hash " ++ hash.render ++ " does not meet the claimed target"
  | wrongBits expected actual =>
    "difficulty transition not allowed: expected bits 0x" ++ Hex.ofWord expected ++ ", got 0x" ++
      Hex.ofWord actual
  | tooEarly time median =>
    "timestamp " ++ toString time.toNat ++ " is not after median time past " ++
      toString median.toNat
  | tooFarAhead time now =>
    "timestamp " ++ toString time.toNat ++ " is too far ahead of local time " ++ toString now

/-- The wording of a refusal. -/
def message (r : Rejection) : String := "header rejected: " ++ r.reason

end Rejection

end HeaviestChain
