import HeaviestChain.Header.Basic
import HeaviestChain.Target.Work
import HeaviestChain.Trap

/-!
Records: headers with their place in a chain. A record's work is the sum over the chain that ends
in it.
-/

namespace HeaviestChain

/-- A header, its distance from the first header and the work up to it. -/
@[ext]
structure Record where
  header : Header
  height : UInt32
  work : Work
  deriving DecidableEq

/-- Why a header makes no record on its parent. -/
inductive LinkError where
  | compact (e : CompactError)
  | trap (t : Trap)
  deriving DecidableEq

namespace Record

/-- The identity of the header. -/
def hash (r : Record) : Hash := r.header.hash

/-- The record of a first header. -/
def genesis (h : Header) : Except CompactError Record :=
  match h.target with
  | .error e => .error e
  | .ok t => .ok ⟨h, 0, Work.ofNat t.work⟩

/-- The record of a child: one higher, with the work of its own target added. -/
def extend (parent : Record) (h : Header) : Except LinkError Record :=
  match h.target with
  | .error e => .error (.compact e)
  | .ok t =>
    if parent.height.toNat + 1 < UInt32.size then
      .ok ⟨h, parent.height + 1, parent.work.add t.work⟩
    else .error (.trap .overflow)

/-- Whether one record has strictly more work than another. -/
def Outweighs (r s : Record) : Prop := s.work.toNat < r.work.toNat

instance (r s : Record) : Decidable (r.Outweighs s) := inferInstanceAs (Decidable (_ < _))

end Record

end HeaviestChain
