import HeaviestChain.Text.Blank

/-!
The networks whose parameters are built in, and their names.
-/

namespace HeaviestChain

/-- A network. -/
inductive Network where
  | main
  | test
  | regtest
  | unitTest
  deriving DecidableEq

namespace Network

/-- The name of a network. -/
def name : Network → String
  | main => "main"
  | test => "test"
  | regtest => "regtest"
  | unitTest => "unittest"

/-- The network with exactly this name. -/
def ofName? (text : String) : Option Network :=
  if text = "main" then some main
  else if text = "test" then some test
  else if text = "regtest" then some regtest
  else if text = "unittest" then some unitTest
  else none

/-- The network a text asks for: a name in any ASCII case, with white space around it, the first
two networks also under a longer name. -/
def ofText? (text : String) : Option Network :=
  let word := String.ofList ((Text.trim text.toList).map Char.toLower)
  if word = "mainnet" then some main
  else if word = "testnet" then some test
  else ofName? word

end Network

end HeaviestChain
