import HeaviestChain.Params.Basic
import HeaviestChain.Trap
import HeaviestChain.Walk.Ancestry

/-!
Version signals: the versions of the latest headers of the best chain, and what share of them makes
a version binding or obsolete.
-/

namespace HeaviestChain

/-- The latest versions, oldest first, at most `size` of them. -/
@[ext]
structure SignalWindow where
  size : Nat
  versions : List UInt32
  deriving DecidableEq

namespace SignalWindow

/-- A window of the given size without versions. -/
def new (size : Nat) : Except Trap SignalWindow :=
  if wordCapacity ≤ size then .error .capacity else .ok ⟨size, []⟩

/-- The version of the next header; the oldest of a full window leaves. -/
def add (w : SignalWindow) (version : UInt32) : SignalWindow :=
  let kept := if w.versions.length = w.size then w.versions.drop 1 else w.versions
  { w with versions := kept ++ [version] }

/-- The window without its versions. -/
def clear (w : SignalWindow) : SignalWindow := { w with versions := [] }

/-- The window after exactly these versions, oldest first. -/
def refill (w : SignalWindow) (versions : List UInt32) : SignalWindow := versions.foldl add w.clear

/-- Whether the window holds as many versions as it can. -/
def isFull (w : SignalWindow) : Bool := w.versions.length = w.size

theorem size_of_new {size : Nat} {w : SignalWindow} (e : new size = .ok w) : w.size = size := by
  unfold new at e
  split at e <;> cases e
  rfl

theorem lt_of_new {size : Nat} {w : SignalWindow} (e : new size = .ok w) :
    size < wordCapacity := by
  unfold new at e
  split at e
  · cases e
  · rename_i fits
    exact Nat.not_le.1 fits

@[simp]
theorem size_add (w : SignalWindow) (version : UInt32) : (w.add version).size = w.size := rfl

@[simp]
theorem size_refill (w : SignalWindow) (versions : List UInt32) :
    (w.refill versions).size = w.size := by
  have fold : ∀ u : SignalWindow, (versions.foldl add u).size = u.size := by
    induction versions with
    | nil => exact fun _ => rfl
    | cons v vs ih => exact fun u => ih (u.add v)
  exact fold w.clear

/-- How many of a full window's versions are at least the given one. -/
def support (w : SignalWindow) (version : UInt32) : Option Nat :=
  if w.isFull then some (w.versions.countP fun v => version ≤ v) else none

/-- Less history than a window holds. -/
structure Shortage where
  available : Nat
  required : Nat
  deriving DecidableEq

namespace Shortage

/-- The wording of a shortage. -/
def message (s : Shortage) : String :=
  "only " ++ toString s.available ++ " of " ++ toString s.required ++
    " blocks of history available"

end Shortage

/-- The versions of the latest headers of a branch that fit into the window, oldest first. -/
def history (w : SignalWindow) (stored : Nat) (tip : Record) : Walk (List UInt32) := do
  let records ← Walk.latest stored w.size tip
  .done (records.reverse.map fun r => r.header.version)

/-- What a branch with these versions lacks to fill the window. -/
def shortage? (w : SignalWindow) (versions : List UInt32) : Option Shortage :=
  if versions.length < w.size then some ⟨versions.length, w.size⟩ else none

end SignalWindow

namespace Params

/-- Whether enough headers signal a version for its rules to bind. -/
def enforces (p : Params) (w : SignalWindow) (version : UInt32) : Bool :=
  match w.support version with
  | some count => p.enforceThreshold.toNat ≤ count
  | none => false

/-- Whether enough headers signal a later version for this one to be obsolete. -/
def outdates (p : Params) (w : SignalWindow) (version : UInt32) : Bool :=
  if version.toNat + 1 < UInt32.size then
    match w.support (version + 1) with
    | some count => p.rejectThreshold.toNat ≤ count
    | none => false
  else false

end Params

end HeaviestChain
