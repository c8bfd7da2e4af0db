import HeaviestChain.Hash.Text
import HeaviestChain.Target.Compact
import HeaviestChain.Trap

/-!
Failures of a store: its medium, its contents, or a head that it does not hold.
-/

namespace HeaviestChain

/-- Why a call on the medium of a store failed. -/
inductive MediumError where
  | unplugged
  | isFolder
  | notText
  deriving DecidableEq

namespace MediumError

/-- The wording of a failed call. -/
def message : MediumError → String
  | unplugged => "disk unplugged"
  | isFolder => "Is a directory (os error 21)"
  | notText => "stream did not contain valid UTF-8"

end MediumError

/-- What is wrong with the contents of a store. -/
inductive Corruption where
  /-- The first header of the network claims no target. -/
  | genesis (e : CompactError)
  /-- The store in a folder began with another first header. -/
  | foreignGenesis (folder : String) (genesis : Hash)
  /-- The record of the head is no hash. -/
  | headRecord (e : HexError)
  /-- A line of a log is no record. -/
  | badLine (log : String) (line : Nat)
  /-- A record above height zero has no parent. -/
  | noParent (child : Hash) (height : UInt32)
  /-- A stored header claims no target. -/
  | invalidBits (hash : Hash) (e : CompactError)
  /-- Two branches reach height zero without meeting. -/
  | noCommonAncestor (hash : Hash)
  /-- A walk to the parents passes more records than are stored. -/
  | endless (hash : Hash)
  deriving DecidableEq

namespace Corruption

/-- The wording of what is wrong. -/
def message : Corruption → String
  | genesis e => "genesis header: " ++ e.message
  | foreignGenesis folder hash =>
    "store at " ++ folder ++ " does not contain genesis " ++ hash.render
  | headRecord e => "head record: " ++ e.message
  | badLine log line => log ++ " line " ++ toString line
  | noParent child height =>
    "header " ++ child.render ++ " at height " ++ toString height.toNat ++ " has no stored parent"
  | invalidBits hash e => "stored header " ++ hash.render ++ " has invalid bits: " ++ e.message
  | noCommonAncestor hash => "branches through " ++ hash.render ++ " share no ancestor"
  | endless hash => "the parents of " ++ hash.render ++ " have no end"

end Corruption

/-- Why a call on a store failed. -/
inductive StoreError where
  | medium (e : MediumError)
  | corrupt (c : Corruption)
  | unknownHead (hash : Hash)
  deriving DecidableEq

namespace StoreError

/-- The wording of a failure. -/
def message : StoreError → String
  | medium e => "store I/O failure: " ++ e.message
  | corrupt c => "store is corrupt: " ++ c.message
  | unknownHead hash =>
    "cannot make " ++ hash.render ++ " the chain head: it was never stored"

end StoreError

/-- Why a computation over a store has no result. -/
inductive Failure where
  | store (e : StoreError)
  | trap (t : Trap)
  deriving DecidableEq

end HeaviestChain
