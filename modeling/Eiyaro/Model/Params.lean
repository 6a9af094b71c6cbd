import Eiyaro.Model.Outpoint

/-!
# Network parameters

The parameters of `domain/dagconfig` that are kept once for every block version,
and the few others that the modelled checks read. Durations are in nanoseconds.
-/

namespace Eiyaro

structure Params where
  k : List UInt8
  targetTimePerBlock : List Int
  finalityDuration : List Int
  difficultyAdjustmentWindowSize : List Int
  pruningMultiplier : List UInt64
  maxBlockMass : List UInt64
  maxBlockParents : List UInt8
  mergeDepth : List UInt64
  /-- The DAA scores from which on the block version is one higher. -/
  powScores : List UInt64
  timestampDeviationTolerance : Int
  disallowDirectBlocksOnTopOfGenesis : Bool

/-- The lengths of the slices that are indexed by the block version minus one. -/
def Params.perVersionLengths (p : Params) : List Nat :=
  [p.k.length,p.targetTimePerBlock.length,p.finalityDuration.length,
    p.difficultyAdjustmentWindowSize.length,p.pruningMultiplier.length,p.maxBlockMass.length,
    p.maxBlockParents.length,p.mergeDepth.length]

def defaultGHOSTDAGK : UInt8 := 18

/-- The networks of `params.go`. -/
inductive Network
  | mainnet
  | testnet
  | testnetB5
  | testnetB10
  | simnet
  | devnet
deriving DecidableEq

/-- The values that all networks share. -/
def Network.params (network : Network) : Params where
  k := [defaultGHOSTDAGK]
  targetTimePerBlock := [20*1000000000]
  finalityDuration := [24*3600*1000000000]
  difficultyAdjustmentWindowSize := [2641]
  pruningMultiplier := [1]
  maxBlockMass := [500000]
  maxBlockParents := [10]
  mergeDepth := [360]
  powScores := [18446744073709551615]
  timestampDeviationTolerance := 132
  disallowDirectBlocksOnTopOfGenesis :=
    match network with
    | .mainnet | .testnet | .devnet => true
    | .testnetB5 | .testnetB10 | .simnet => false

end Eiyaro
