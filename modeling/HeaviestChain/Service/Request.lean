import HeaviestChain.Header.Json
import HeaviestChain.Service.MediaType
import HeaviestChain.Service.Path
import HeaviestChain.Text.Decimal

/-!
Requests and what they ask for. Every path ends in a slash. A request that asks for nothing is
answered by a status alone.
-/

namespace HeaviestChain

/-- The statuses of answers. -/
inductive Status where
  | ok
  | badRequest
  | notFound
  | tooLarge
  | unprocessable
  | failure
  deriving DecidableEq

namespace Status

/-- The number of a status. -/
def code : Status → Nat
  | ok => 200
  | badRequest => 400
  | notFound => 404
  | tooLarge => 413
  | unprocessable => 422
  | failure => 500

end Status

/-- A request as it arrives. -/
structure Request where
  method : String
  target : String
  contentType : Option String
  body : String

/-- What a request asks for. -/
inductive Query where
  | health
  | head
  | header (text : String)
  | submit (h : Header)
  | schedule (height : Int)
  | tally (version : UInt32)

namespace Request

/-- Bytes of the longest body. -/
def bodyLimit : Nat := 2 * 1024 * 1024

/-- The header in the body of a request. -/
def header (r : Request) : Except Status Header :=
  if !(r.contentType.any MediaType.isJson) then .error .badRequest
  else if bodyLimit < r.body.utf8ByteSize then .error .tooLarge
  else
    match Header.parse? r.body.toList with
    | some h => .ok h
    | none => .error .badRequest

/-- The height in a segment: a whole number of 64 bits with a sign. -/
def height (segment : String) : Except Status Int :=
  match Text.integer? (Path.value segment) with
  | some n =>
    if Int64.minValue.toInt ≤ n ∧ n ≤ Int64.maxValue.toInt then .ok n else .error .notFound
  | none => .error .notFound

/-- The version in a segment. -/
def version (segment : String) : Except Status UInt32 :=
  match Text.unsigned? (Path.value segment) with
  | some n => if n < UInt32.size then .ok (UInt32.ofNat n) else .error .notFound
  | none => .error .notFound

/-- What a request to look something up asks for, by the segments behind the version of the
service. -/
def lookup : List String → Except Status Query
  | ["health", ""] => .ok .health
  | ["chain", "head", ""] => .ok .head
  | ["headers", text, ""] =>
    if text = "" then .error .notFound else .ok (.header (String.ofList (Path.value text)))
  | ["consensus", segment, ""] => (height segment).map .schedule
  | ["tally", segment, ""] => (version segment).map .tally
  | _ => .error .notFound

/-- What a request asks for. -/
def query (r : Request) : Except Status Query :=
  match r.method, Path.segments r.target with
  | "GET", "" :: "api" :: "v1" :: rest => lookup rest
  | "POST", ["", "api", "v1", "headers", ""] => r.header.map .submit
  | _, _ => .error .notFound

end Request

end HeaviestChain
