import HeaviestChain.Header.Json
import HeaviestChain.Json.Numeral
import HeaviestChain.Params.Basic

/-!
Parameters as JSON: a record of their fields. A network is its name; the rule for minimum
difficulty names its kind in a field of its own; checkpoints are an object whose keys are heights.
-/

namespace HeaviestChain

open Json (Value)

namespace Network

/-- The JSON of a network. -/
def toJson (n : Network) : Value := Value.ofString n.name

/-- A network is its name, or an object that has the name as its one key and null as its value. -/
def ofJson? : Value → Option Network
  | .text token => (Json.Token.unescape? token).bind fun name => ofName? (String.ofList name)
  | .object [(key, .null)] =>
    (Json.Token.unescape? key).bind fun name => ofName? (String.ofList name)
  | _ => none

/-- The text of a network. -/
def render (n : Network) : List Char := n.toJson.render

/-- Reads the text of a network. -/
def parse? (text : List Char) : Option Network := (Json.parse? text).bind ofJson?

end Network

namespace MinDifficulty

/-- The JSON of a rule for minimum difficulty. -/
def toJson : MinDifficulty → Value
  | disabled => Value.ofFields [("kind", Value.ofString "disabled")]
  | afterGap gap =>
    Value.ofFields
      [("kind", Value.ofString "allow_after_gap"), ("max_gap_secs", Value.ofUInt32 gap)]

/-- The containers that may be open inside the rule, which is one itself and stands in another. -/
def room : Nat := Json.maxOpen - 2

/-- An object with its kind once, whose other fields are kept until the kind is known and so must
be plain, or an array that begins with the kind. -/
def ofJson? : Value → Option MinDifficulty
  | .object fields => do
    let fields ← Value.readKeys? fields
    let kind ← (← Value.only? fields "kind".toList).string?
    let others := fields.filter fun f => f.1 ≠ "kind".toList
    if !others.all fun f => f.2.isPlain room then none
    else if kind = "disabled" then some disabled
    else if kind = "allow_after_gap" then
      ((Value.only? others "max_gap_secs".toList).bind Value.uInt32?).map afterGap
    else none
  | .array [kind] => do if (← kind.string?) = "disabled" then some disabled else none
  | .array [kind, gap] => do
    if (← kind.string?) = "allow_after_gap" then gap.uInt32?.map afterGap else none
  | _ => none

end MinDifficulty

namespace Checkpoints

/-- The JSON of checkpoints. -/
def toJson (c : Checkpoints) : Value :=
  .object (c.entries.map fun e => (Nat.toDigits 10 e.1.toNat, e.2.toJson))

/-- A height as a key: digits alone, without a leading zero. -/
def height? (key : List Char) : Option UInt32 :=
  if key = [] ∨ (1 < key.length ∧ key.head? = some '0') then none
  else (Value.number key).uInt32?

/-- A key and its value as a height and a hash. -/
def entry? (field : List Char × Value) : Option (UInt32 × Hash) :=
  match height? field.1, Hash.ofJson? field.2 with
  | some height, some hash => some (height, hash)
  | _, _ => none

/-- Reads checkpoints; of two at one height the later stays. -/
def ofJson? : Value → Option Checkpoints
  | .object fields => (fields.mapM entry?).map ofList
  | _ => none

end Checkpoints

namespace Params

/-- The names of the fields in order. -/
def fieldNames : List String :=
  ["network", "interval", "target_timespan", "target_spacing", "pow_limit_bits",
   "pow_no_retargeting", "min_difficulty", "subsidy_halving_interval", "base_subsidy",
   "majority_window", "majority_enforce_threshold", "majority_reject_threshold",
   "median_time_span", "max_future_drift_secs", "genesis", "checkpoints"]

/-- The JSON of parameters. -/
def toJson (p : Params) : Value :=
  Value.ofFields
    [("network", p.network.toJson),
     ("interval", Value.ofUInt32 p.interval),
     ("target_timespan", Value.ofUInt32 p.timespan),
     ("target_spacing", Value.ofUInt32 p.spacing),
     ("pow_limit_bits", Value.ofUInt32 p.limitBits),
     ("pow_no_retargeting", .bool p.fixedDifficulty),
     ("min_difficulty", p.minDifficulty.toJson),
     ("subsidy_halving_interval", Value.ofUInt32 p.halvingInterval),
     ("base_subsidy", Value.ofUInt64 p.baseSubsidy),
     ("majority_window", Value.ofUInt64 p.signalWindow),
     ("majority_enforce_threshold", Value.ofUInt64 p.enforceThreshold),
     ("majority_reject_threshold", Value.ofUInt64 p.rejectThreshold),
     ("median_time_span", Value.ofUInt64 p.medianSpan),
     ("max_future_drift_secs", Value.ofUInt32 p.maxDrift),
     ("genesis", p.genesis.toJson),
     ("checkpoints", p.checkpoints.toJson)]

/-- Reads parameters. -/
def ofJson? (v : Value) : Option Params :=
  match v.record? fieldNames with
  | some [network, interval, timespan, spacing, limitBits, fixedDifficulty, minDifficulty,
      halvingInterval, baseSubsidy, signalWindow, enforceThreshold, rejectThreshold, medianSpan,
      maxDrift, genesis, checkpoints] => do
    some
      { network := ← Network.ofJson? network
        interval := ← interval.uInt32?
        timespan := ← timespan.uInt32?
        spacing := ← spacing.uInt32?
        limitBits := ← limitBits.uInt32?
        fixedDifficulty := ← fixedDifficulty.bool?
        minDifficulty := ← MinDifficulty.ofJson? minDifficulty
        halvingInterval := ← halvingInterval.uInt32?
        baseSubsidy := ← baseSubsidy.uInt64?
        signalWindow := ← signalWindow.uInt64?
        enforceThreshold := ← enforceThreshold.uInt64?
        rejectThreshold := ← rejectThreshold.uInt64?
        medianSpan := ← medianSpan.uInt64?
        maxDrift := ← maxDrift.uInt32?
        genesis := ← Header.ofJson? genesis
        checkpoints := ← Checkpoints.ofJson? checkpoints }
  | _ => none

/-- The text of parameters. -/
def render (p : Params) : List Char := p.toJson.render

/-- Reads the text of parameters. -/
def parse? (text : List Char) : Option Params := (Json.parse? text).bind ofJson?

end Params

end HeaviestChain
