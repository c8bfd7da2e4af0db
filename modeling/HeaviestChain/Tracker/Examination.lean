import HeaviestChain.Rules.Difficulty
import HeaviestChain.Rules.MedianTime
import HeaviestChain.Tracker.Rejection

/-!
The examination of a header against its own branch. It reads the parent and the parents of that,
and nothing else of what is stored.
-/

namespace HeaviestChain

/-- What an examination finds: the header is stored already, is refused, or has this record. -/
inductive Verdict where
  | known
  | rejected (reason : Rejection)
  | sound (r : Record)
  deriving DecidableEq

namespace Params

/-- What is wrong with a header by its height, target and hash. -/
def misfit? (p : Params) (height : UInt32) (h : Header) : Option Rejection :=
  match (p.checkpoints.find? height).filter fun expected => expected ≠ h.hash with
  | some expected => some (.checkpointMismatch height expected h.hash)
  | none =>
    match h.target with
    | .error e => some (.invalidTarget e)
    | .ok t =>
      if p.limit.toNat < t.toNat then some .targetAboveLimit
      else if h.Meets t then none
      else some (.insufficientWork h.hash)

/-- What is wrong with the time of a header, given the median time of its branch and the clock,
which counts seconds in 64 bits with a sign. -/
def mistimed? (p : Params) (median : UInt32) (now : Int) (time : UInt32) :
    Except Trap (Option Rejection) :=
  if time ≤ median then .ok (some (.tooEarly time median))
  else if Int64.maxValue.toInt < now + p.maxDrift.toNat then .error .overflow
  else if now + p.maxDrift.toNat < time.toNat then .ok (some (.tooFarAhead time now))
  else .ok none

/-- The record of a header that is in order but for its target and work. -/
def verdictOfLink : Except LinkError Record → Walk Verdict
  | .ok r => .done (.sound r)
  | .error (.compact e) => .done (.rejected (.invalidTarget e))
  | .error (.trap t) => .fail (.trap t)

/-- Examines a header whose parent is stored. -/
def examineChild (p : Params) (stored : Nat) (parent : Record) (h : Header) (now : Int) :
    Walk Verdict :=
  if UInt32.size ≤ parent.height.toNat + 1 then .fail (.trap .overflow)
  else
    match p.misfit? (parent.height + 1) h with
    | some reason => .done (.rejected reason)
    | none => do
      let expected ← p.requiredBits stored parent h.time
      if h.bits ≠ expected then .done (.rejected (.wrongBits expected h.bits))
      else do
        let median ← p.medianTime stored parent
        match ← .ofTrap (p.mistimed? median now h.time) with
        | some reason => .done (.rejected reason)
        | none => verdictOfLink (parent.extend h)

/-- Examines a header. -/
def examine (p : Params) (stored : Nat) (h : Header) (now : Int) : Walk Verdict :=
  .ask h.hash fun
    | some _ => .done .known
    | none =>
      .ask h.previous fun
        | none => .done (.rejected (.unknownParent h.previous))
        | some parent => p.examineChild stored parent h now

end Params

end HeaviestChain
