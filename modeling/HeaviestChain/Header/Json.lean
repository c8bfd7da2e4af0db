import HeaviestChain.Hash.Text
import HeaviestChain.Header.Basic
import HeaviestChain.Json.Field
import HeaviestChain.Json.Printer
import HeaviestChain.Json.Reader

/-!
Hashes and headers as JSON: a hash is its text, a header a record of its fields.
-/

namespace HeaviestChain

open Json (Value)

namespace Hash

/-- The JSON of a hash. -/
def toJson (h : Hash) : Value := Value.ofString h.render

/-- Reads a hash. -/
def ofJson? (v : Value) : Option Hash :=
  v.string?.bind fun text => (parse text).toOption

end Hash

namespace Header

/-- The names of the fields in order. -/
def fieldNames : List String := ["version", "prev_hash", "merkle_root", "time", "bits", "nonce"]

/-- The JSON of a header. -/
def toJson (h : Header) : Value :=
  Value.ofFields
    [("version", Value.ofUInt32 h.version),
     ("prev_hash", h.previous.toJson),
     ("merkle_root", h.merkleRoot.toJson),
     ("time", Value.ofUInt32 h.time),
     ("bits", Value.ofUInt32 h.bits),
     ("nonce", Value.ofUInt32 h.nonce)]

/-- Reads a header. -/
def ofJson? (v : Value) : Option Header :=
  match v.record? fieldNames with
  | some [version, previous, merkleRoot, time, bits, nonce] => do
    some
      { version := ← version.uInt32?
        previous := ← Hash.ofJson? previous
        merkleRoot := ← Hash.ofJson? merkleRoot
        time := ← time.uInt32?
        bits := ← bits.uInt32?
        nonce := ← nonce.uInt32? }
  | _ => none

/-- The text of a header. -/
def render (h : Header) : List Char := h.toJson.render

/-- Reads the text of a header. -/
def parse? (text : List Char) : Option Header := (Json.parse? text).bind ofJson?

end Header

end HeaviestChain
