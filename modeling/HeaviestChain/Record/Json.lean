import HeaviestChain.Header.Json
import HeaviestChain.Record.Basic

/-!
Records as JSON: the header, the height, and the work as eight 64-bit words, least significant
first.
-/

namespace HeaviestChain

open Json (Value)

namespace Work

/-- The JSON of a sum of work. -/
def toJson (w : Work) : Value := .array (w.words.map Value.ofUInt64)

/-- Reads a sum of work. -/
def ofJson? (v : Value) : Option Work :=
  match v.items? with
  | some items =>
    if items.length = 8 then (items.mapM Value.uInt64?).map ofWords else none
  | none => none

end Work

namespace Record

/-- The names of the fields in order. -/
def fieldNames : List String := ["header", "height", "chain_work"]

/-- The JSON of a record. -/
def toJson (r : Record) : Value :=
  Value.ofFields
    [("header", r.header.toJson),
     ("height", Value.ofUInt32 r.height),
     ("chain_work", r.work.toJson)]

/-- Reads a record. -/
def ofJson? (v : Value) : Option Record :=
  match v.record? fieldNames with
  | some [header, height, work] => do
    some
      { header := ← Header.ofJson? header
        height := ← height.uInt32?
        work := ← Work.ofJson? work }
  | _ => none

/-- The text of a record. -/
def render (r : Record) : List Char := r.toJson.render

/-- Reads the text of a record. -/
def parse? (text : List Char) : Option Record := (Json.parse? text).bind ofJson?

end Record

end HeaviestChain
