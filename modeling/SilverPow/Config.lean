import SilverPow.Base.Word

/-!
# Configuration and errors

`src/lib.rs:54–124`: the parameters of the proof-of-work system, their defaults, and the
errors of the modelled functions.
-/

namespace SilverPow

open SilverPow.Base

/-- `PoWError`, `src/lib.rs:55–86`; the variants that the modelled functions return. -/
inductive PoWError where
  | invalidDifficulty (message : String)
  | invalidWorkProof
  | workProofVerificationFailed
  | poolError (message : String)
  | invalidBlock (message : String)
  | ioError (error : String)
  deriving DecidableEq

/-- `PoWConfig`, `src/lib.rs:91–109`. -/
structure PoWConfig where
  targetBlockTimeMs : U64
  difficultyAdjustmentInterval : U64
  initialDifficulty : U64
  minDifficulty : U64
  maxDifficulty : U64
  baseBlockReward : U128
  halvingInterval : U64

/-- `PoWConfig::default`, `src/lib.rs:111–124`. -/
def PoWConfig.default : PoWConfig where
  targetBlockTimeMs := 30_000
  difficultyAdjustmentInterval := 2016
  initialDifficulty := 1_000_000
  minDifficulty := 1_000
  maxDifficulty := BitVec.allOnes 64
  baseBlockReward := 50_000_000_000
  halvingInterval := 210_000

end SilverPow
