import HeaviestChain.Store.Basic
import HeaviestChain.Walk.Basic

/-!
A store behind a medium that may fail. Calls are counted, and a schedule says which of them fail; a
call that fails has no effect. A hash can be hidden, so that the next look for it finds nothing.
-/

namespace HeaviestChain

/-- The calls on a store. -/
inductive Operation where
  | get
  | put
  | chainHead
  | setChainHead
  deriving DecidableEq

/-- A store, the schedule of its outages by the number of the call, the calls made so far, and the
hashes to be missed once. -/
structure Connection where
  store : Store
  outages : Nat → Operation → Bool
  calls : Nat
  hidden : List Hash

namespace Connection

/-- A store that never fails. -/
def reliable (store : Store) : Connection := ⟨store, fun _ _ => false, 0, []⟩

/-- Whether the next call fails if it is of this kind. -/
def fails (c : Connection) (op : Operation) : Bool := c.outages c.calls op

/-- One call later. -/
def tick (c : Connection) : Connection := { c with calls := c.calls + 1 }

/-- Hides a hash. -/
def hide (c : Connection) (h : Hash) : Connection :=
  if h ∈ c.hidden then c else { c with hidden := h :: c.hidden }

/-- Looks a record up. -/
def get (c : Connection) (h : Hash) : Except StoreError (Option Record) × Connection :=
  if c.fails .get then (.error (.medium .unplugged), c.tick)
  else if h ∈ c.hidden then (.ok none, { c.tick with hidden := c.hidden.erase h })
  else (.ok (c.store.find? h), c.tick)

/-- Adds a record. -/
def put (c : Connection) (r : Record) : Except StoreError Unit × Connection :=
  if c.fails .put then (.error (.medium .unplugged), c.tick)
  else (.ok (), { c.tick with store := c.store.put r })

/-- The head. -/
def chainHead (c : Connection) : Except StoreError Record × Connection :=
  if c.fails .chainHead then (.error (.medium .unplugged), c.tick)
  else (.ok c.store.head, c.tick)

/-- Moves the head. -/
def setChainHead (c : Connection) (h : Hash) : Except StoreError Unit × Connection :=
  if c.fails .setChainHead then (.error (.medium .unplugged), c.tick)
  else
    let (result, store) := c.store.setHead h
    (result, { c.tick with store })

end Connection

namespace Walk

/-- The result of a walk over a connection; the first call that fails ends it. -/
def resolve {α : Type} : Walk α → Connection → Except Failure α × Connection
  | done a, c => (.ok a, c)
  | fail e, c => (.error e, c)
  | ask hash next, c =>
    match c.get hash with
    | (.error e, c) => (.error (.store e), c)
    | (.ok r, c) => (next r).resolve c

end Walk

end HeaviestChain
