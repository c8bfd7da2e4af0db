import HeaviestChain.Rules.Signal
import HeaviestChain.Walk.Fork

/-!
The choice between the head and a new record: the branch with more work, and of equal ones the head
that is there.
-/

namespace HeaviestChain

/-- What a new record does to the best chain. -/
inductive Choice where
  /-- The best chain holds it already. -/
  | known
  /-- Its branch has no more work than the best chain. -/
  | aside
  /-- It is the next record of the best chain. -/
  | extend
  /-- Its branch becomes the best chain; the versions are those of its latest headers. -/
  | reorganize (fork : Fork) (versions : List UInt32)
  deriving DecidableEq

namespace Choice

/-- The choice for a record without more work than the head. -/
def ofLighter (stored : Nat) (head new : Record) : Walk Choice := do
  match ← Walk.ancestor stored head new.height with
  | some r => .done (if r.hash = new.hash then known else aside)
  | none => .done aside

/-- The choice for a record with more work than the head, not its child. -/
def ofRival (w : SignalWindow) (stored : Nat) (head new : Record) : Walk Choice := do
  let fork ← Walk.fork stored head new
  let versions ← w.history stored new
  .done (reorganize fork versions)

/-- Chooses between the head and a new record. -/
def between (w : SignalWindow) (stored : Nat) (head new : Record) : Walk Choice :=
  if new.Outweighs head then
    if new.header.previous = head.hash then .done extend else ofRival w stored head new
  else ofLighter stored head new

end Choice

end HeaviestChain
