import SilverPow.Work.Agreement

/-!
# The attempts of a mining run

The two counters of the miner are the low and the high word of the number of the attempt, so
no pair of nonces is tried twice in `2 ^ 128` attempts. A run ends with the first attempt whose
hash meets the target, or with the check that finds another current work.
-/

namespace SilverPow.Work

open SilverPow.Base

/-- The attempts that the loop makes, in order. -/
def attempts (sha512 : Sha512) (work : WorkPackage) (env : MinerEnv) : Nat → Search → List Search
  | 0, _ => []
  | fuel + 1, s =>
    s :: if s.meetsTarget sha512 work ∨ s.switched env work then []
      else attempts sha512 work env fuel s.next

section Run

variable {sha512 : Sha512} {work : WorkPackage} {minerAddress : Bytes} {env : MinerEnv}

end Run

end SilverPow.Work
