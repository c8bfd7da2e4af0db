import HeaviestChain.Params.Json
import HeaviestChain.Service.Request
import HeaviestChain.Text.Timestamp
import HeaviestChain.Tracker.Basic

/-!
The service over a tracker: answers to requests, as JSON. Only a submission changes anything.
-/

namespace HeaviestChain

open Json (Value)

/-- An answer; one that the service did not write itself has no body. -/
structure Response where
  status : Status
  body : Option Value

/-- An answer, the events on the way, and the tracker afterwards. -/
structure Served where
  response : Response
  events : List Event
  tracker : Tracker

namespace Outcome

/-- The fields that name an outcome. -/
def fields : Outcome → List (String × Value)
  | duplicate => [("outcome", Value.ofString "duplicate")]
  | extendedHead height =>
    [("outcome", Value.ofString "extended_head"), ("height", Value.ofUInt32 height)]
  | sideBranch height =>
    [("outcome", Value.ofString "side_branch"), ("height", Value.ofUInt32 height)]
  | reorganized forkHeight disconnected connected =>
    [("outcome", Value.ofString "reorganized"), ("fork_height", Value.ofUInt32 forkHeight),
     ("disconnected", Value.ofNat disconnected), ("connected", Value.ofNat connected)]

end Outcome

namespace Response

/-- An answer with a body of fields. -/
def ofFields (status : Status) (fields : List (String × Value)) : Response :=
  ⟨status, some (Value.ofFields fields)⟩

/-- An answer that names an error. -/
def ofError (status : Status) (message : String) : Response :=
  ofFields status [("error", Value.ofString message)]

/-- The message for a submission that ended in a trap. -/
def trapMessage : String := "Blocking thread pool is shut down unexpectedly"

/-- The answer to a request that a failure ended. -/
def ofFailure : Failure → Response
  | .store e => ofError .failure e.message
  | .trap _ => ofError .failure trapMessage

/-- A stored header. -/
def ofRecord (r : Record) : Response :=
  ofFields .ok
    [("hash", Value.ofString r.hash.render),
     ("height", Value.ofUInt32 r.height),
     ("chain_work", Value.ofString (Hex.ofNat r.work.toNat)),
     ("version", Value.ofUInt32 r.header.version),
     ("prev_hash", Value.ofString r.header.previous.render),
     ("merkle_root", Value.ofString r.header.merkleRoot.render),
     ("time", Value.ofUInt32 r.header.time),
     ("time_utc", Value.ofString (Text.timestamp r.header.time.toNat)),
     ("bits", Value.ofString (Hex.ofWord r.header.bits)),
     ("nonce", Value.ofUInt32 r.header.nonce)]

/-- The result of a submission. -/
def ofSubmission (h : Header) : Except SubmitError Outcome → Response
  | .ok outcome => ofFields .ok (("hash", Value.ofString h.hash.render) :: outcome.fields)
  | .error (.rejected reason) => ofError .unprocessable reason.reason
  | .error (.failed f) => ofFailure f

/-- What depends on a height alone. -/
def ofHeight (p : Params) (height : Int) : Response :=
  if 0 ≤ height ∧ height < (UInt32.size : Int) then
    let h := UInt32.ofNat height.toNat
    match p.closesInterval h, p.halvesAfter h, p.subsidy h with
    | .ok closes, .ok halves, .ok subsidy =>
      ofFields .ok
        [("height", Value.ofUInt32 h),
         ("difficulty_transition_point", .bool closes),
         ("reward_halving_point", .bool halves),
         ("subsidy", Value.ofUInt64 subsidy)]
    | _, _, _ => ⟨.failure, none⟩
  else ofError .badRequest ("height " ++ toString height ++ " out of range")

/-- How far a version is signalled. -/
def ofVersion (p : Params) (w : SignalWindow) (version : UInt32) : Response :=
  ofFields .ok
    [("version", Value.ofUInt32 version),
     ("window", Value.ofNat w.size),
     ("count",
       match w.support version with
       | some count => Value.ofNat count
       | none => .null),
     ("enforce_threshold", Value.ofUInt64 p.enforceThreshold),
     ("reject_threshold", Value.ofUInt64 p.rejectThreshold),
     ("enforced", .bool (p.enforces w version)),
     ("outdated", .bool (p.outdates w version))]

end Response

namespace Tracker

/-- Looks a header up by the text of its hash. -/
def serveHeader (t : Tracker) (text : String) : Response × Tracker :=
  match Hash.parse text with
  | .error e => (.ofError .badRequest ("invalid hash: " ++ e.message), t)
  | .ok h =>
    match t.connection.get h with
    | (.error e, c) => (.ofError .failure e.message, t.reached c)
    | (.ok none, c) => (.ofError .notFound ("unknown header " ++ h.render), t.reached c)
    | (.ok (some r), c) => (.ofRecord r, t.reached c)

/-- Shows the head. -/
def serveHead (t : Tracker) : Response × Tracker :=
  match t.head with
  | (.error e, t) => (.ofError .failure e.message, t)
  | (.ok r, t) => (.ofRecord r, t)

/-- Answers what a request asks for, at a time of the clock. -/
def respond (t : Tracker) (now : Int) : Query → Served
  | .health =>
    ⟨.ofFields .ok [("status", Value.ofString "ok"), ("network", t.params.network.toJson)], [], t⟩
  | .head => let (response, t) := t.serveHead; ⟨response, [], t⟩
  | .header text => let (response, t) := t.serveHeader text; ⟨response, [], t⟩
  | .submit h =>
    let reply := t.submit h now
    ⟨.ofSubmission h reply.result, reply.events, reply.tracker⟩
  | .schedule height => ⟨.ofHeight t.params height, [], t⟩
  | .tally version => ⟨.ofVersion t.params t.window version, [], t⟩

/-- Serves a request. -/
def serve (t : Tracker) (now : Int) (r : Request) : Served :=
  match r.query with
  | .error status => ⟨⟨status, none⟩, [], t⟩
  | .ok query => t.respond now query

end Tracker

end HeaviestChain
