import HeaviestChain.Params.Flaw
import HeaviestChain.Params.Json
import HeaviestChain.Params.Presets
import HeaviestChain.Text.Decimal

/-!
Settings of a process, from the variables of its environment, and the parameters that they name.
-/

namespace HeaviestChain

/-- Why there are no settings, or no parameters. -/
inductive SettingsError where
  | invalidPort (value : String)
  | unknownNetwork (text : String)
  | unreadableFile
  | unreadableParams
  | flawed (f : Flaw)
  deriving DecidableEq

namespace SettingsError

/-- The wording of an error. -/
def message : SettingsError → String
  | invalidPort value => "invalid value for PORT: \x60" ++ value ++ "\x60"
  | unknownNetwork text =>
    "unknown network \x60" ++ text ++ "\x60 (expected main, test, regtest or unittest)"
  | unreadableFile => "failed to read params file"
  | unreadableParams => "failed to parse params file"
  | flawed f => f.message

end SettingsError

/-- Where to listen, the network, where to keep headers if not in memory, and a file with
parameters to use in the place of the network's own. -/
structure Settings where
  host : String
  port : UInt16
  network : Network
  dataFolder : Option String
  paramsFile : Option String
  deriving DecidableEq

namespace Settings

/-- Reads a port. -/
def port? (text : String) : Except SettingsError UInt16 :=
  match (Text.unsigned? text.toList).filter fun n => n < UInt16.size with
  | some n => .ok (UInt16.ofNat n)
  | none => .error (.invalidPort text)

/-- Reads the name of a network. -/
def network? (text : String) : Except SettingsError Network :=
  match Network.ofText? text with
  | some n => .ok n
  | none => .error (.unknownNetwork text)

/-- The settings of an environment; the port is read before the network. -/
def ofEnvironment (lookup : String → Option String) : Except SettingsError Settings := do
  let port ← match lookup "PORT" with
    | some text => port? text
    | none => .ok 8080
  let network ← match lookup "CHAIN_NETWORK" with
    | some text => network? text
    | none => .ok .regtest
  .ok
    { host := (lookup "HOST").getD "127.0.0.1"
      port := port
      network := network
      dataFolder := lookup "CHAIN_DATA_DIR"
      paramsFile := lookup "CHAIN_PARAMS_FILE" }

/-- Parameters without a flaw. -/
def checked (p : Params) : Except SettingsError Params :=
  match p.flaw? with
  | some f => .error (.flawed f)
  | none => .ok p

/-- The parameters that settings name; `read` gives the text of a file. -/
def params (s : Settings) (read : String → Option String) : Except SettingsError Params :=
  match s.paramsFile with
  | none => checked (Params.ofNetwork s.network)
  | some path =>
    match read path with
    | none => .error .unreadableFile
    | some text =>
      match Params.parse? text.toList with
      | none => .error .unreadableParams
      | some p => checked p

end Settings

end HeaviestChain
