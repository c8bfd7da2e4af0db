import HeaviestChain.Header.Basic

/-!
The search for a nonce: upward from the one a header holds, past the greatest to zero, until the
hash meets the claimed target.
-/

namespace HeaviestChain.Header

/-- The header with the next nonce; zero follows the greatest. -/
def bump (h : Header) : Header := { h with nonce := h.nonce + 1 }

/-- The first of `tries` successive headers that meets the target. -/
def search : Nat → Target → Header → Option Header
  | 0, _, _ => none
  | tries + 1, t, h => if h.Meets t then some h else search tries t h.bump

/-- The header with the first nonce that meets the claimed target, none if all `2 ^ 32` fail. -/
def solve (h : Header) : Except CompactError (Option Header) :=
  match h.target with
  | .error e => .error e
  | .ok t => .ok (search UInt32.size t h)

end HeaviestChain.Header
