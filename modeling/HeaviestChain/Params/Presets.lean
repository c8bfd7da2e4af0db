import HeaviestChain.Params.Basic

/-!
The parameters of each network.
-/

namespace HeaviestChain.Params

/-- The merkle root of every first header. -/
def genesisRoot : Hash :=
  Hash.ofNat 0x4a5e1e4baab89f3a32518a88c31bc87f618f76673e2cc77ab2127b7afdeda33b

/-- The public network. -/
def main : Params where
  network := .main
  interval := 2016
  timespan := 1209600
  spacing := 600
  limitBits := 0x1d00ffff
  fixedDifficulty := false
  minDifficulty := .disabled
  halvingInterval := 210000
  baseSubsidy := 5000000000
  signalWindow := 1000
  enforceThreshold := 750
  rejectThreshold := 950
  medianSpan := 11
  maxDrift := 7200
  genesis :=
    { version := 1
      previous := Hash.zero
      merkleRoot := genesisRoot
      time := 1231006505
      bits := 0x1d00ffff
      nonce := 2083236893 }
  checkpoints := Checkpoints.ofList
    [(11111, Hash.ofNat 0x0000000069e244f73d78e8fd29ba2fd2ed618bd6fa2ee92559f542fdb26e7c1d),
     (33333, Hash.ofNat 0x000000002dd5588a74784eaa7ab0507a18ad16a236e7b1ce69f00d7ddfb5d0a6)]

/-- The public test network, where headers may fall back after a long gap. -/
def test : Params :=
  { main with
    network := .test
    minDifficulty := .afterGap 1200
    signalWindow := 100
    enforceThreshold := 51
    rejectThreshold := 75
    genesis := { main.genesis with time := 1296688602, nonce := 414098458 }
    checkpoints := Checkpoints.empty }

/-- A private test network, of the easiest target, whose difficulty never changes. -/
def regtest : Params :=
  { main with
    network := .regtest
    limitBits := 0x207fffff
    fixedDifficulty := true
    minDifficulty := .afterGap 1200
    halvingInterval := 150
    genesis := { main.genesis with time := 1296688602, bits := 0x207fffff, nonce := 2 }
    checkpoints := Checkpoints.empty }

/-- Short intervals and the easiest target, for chains mined on the spot. -/
def unitTest : Params :=
  { main with
    network := .unitTest
    interval := 10
    timespan := 600
    spacing := 60
    limitBits := 0x207fffff
    signalWindow := 7
    enforceThreshold := 3
    rejectThreshold := 4
    genesis := { main.genesis with bits := 0x207fffff, nonce := 2 }
    checkpoints := Checkpoints.empty }

/-- The parameters of a network. -/
def ofNetwork : Network → Params
  | .main => main
  | .test => test
  | .regtest => regtest
  | .unitTest => unitTest

end HeaviestChain.Params
