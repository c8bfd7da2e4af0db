import HeaviestChain.Params.Basic
import HeaviestChain.Walk.Ancestry

/-!
The median time of the latest headers of a branch, which a new header's time must exceed.
-/

namespace HeaviestChain

/-- The middle of a list in ascending order, the upper one of two. -/
def median (times : List UInt32) : UInt32 :=
  (times.mergeSort fun a b => a ≤ b).getD (times.length / 2) 0

/-- The median time of a record and its nearest ancestors. -/
def Params.medianTime (p : Params) (stored : Nat) (tip : Record) : Walk UInt32 :=
  if wordCapacity ≤ p.medianSpan.toNat then .fail (.trap .capacity)
  else do
    let records ← Walk.latest stored p.medianSpan.toNat tip
    let times := records.map fun r => r.header.time
    if times.length / 2 < times.length then .done (median times) else .fail (.trap .outOfRange)

end HeaviestChain
