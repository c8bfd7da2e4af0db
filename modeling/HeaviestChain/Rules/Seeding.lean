import HeaviestChain.Rules.Signal
import HeaviestChain.Store.Connection

/-!
A window of version signals that is filled anew from a branch of stored headers.
-/

namespace HeaviestChain

/-- Why a window was not filled from a branch. -/
inductive SeedError where
  | failed (f : Failure)
  | short (s : SignalWindow.Shortage)
  deriving DecidableEq

/-- Fills a window from a branch, whatever it held. It holds all of a branch that is too short for
it, and is left alone if a lookup fails. -/
def SignalWindow.seed (w : SignalWindow) (c : Connection) (tip : Record) :
    Except SeedError Unit × SignalWindow × Connection :=
  match (w.history c.store.size tip).resolve c with
  | (.error f, c) => (.error (.failed f), w, c)
  | (.ok versions, c) =>
    match w.shortage? versions with
    | some s => (.error (.short s), w.refill versions, c)
    | none => (.ok (), w.refill versions, c)

end HeaviestChain
