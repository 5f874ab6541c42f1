import SilverPow.Config
import SilverPow.Base.Word
import SilverPow.Base.Table
import SilverPow.Base.Run
import SilverPow.Base.Log
import SilverPow.Base.Hex
import SilverPow.Base.SuffixCode
import SilverPow.Base.LongDivision
import SilverPow.Work.Agreement
import SilverPow.Work.Attempts
import SilverPow.Work.Monotone
import SilverPow.Work.Acceptance
import SilverPow.Work.Headers
import SilverPow.Work.Identity
import SilverPow.Ledger.Utxo
import SilverPow.Ledger.AddressIndex
import SilverPow.Ledger.SpentCoins
import SilverPow.Ledger.Engine
import SilverPow.Ledger.DoubleSpend
import SilverPow.Ledger.UtxoValidation
import SilverPow.Ledger.Completeness
import SilverPow.Ledger.Histories
import SilverPow.Ledger.Nonces
import SilverPow.Ledger.Preimage
import SilverPow.Ledger.ConcurrentUtxo
import SilverPow.Consensus.Soundness
import SilverPow.Consensus.Difficulty
import SilverPow.Consensus.Records
import SilverPow.Consensus.Adjustment
import SilverPow.Consensus.Retarget
import SilverPow.Consensus.AdjustmentLimit
import SilverPow.Consensus.AdjustmentSafety
import SilverPow.Consensus.HalvingDifficulty
import SilverPow.Consensus.MinedBlocks
import SilverPow.Consensus.Interleaving
import SilverPow.Consensus.OverlappingAdjustments
import SilverPow.Stratum.Agreement
import SilverPow.Stratum.Jobs
import SilverPow.Stratum.Notify
import SilverPow.Stratum.Requests
import SilverPow.Stratum.Sessions
import SilverPow.Stratum.Connection
import SilverPow.Stratum.Blocks
import SilverPow.Stratum.Replays
import SilverPow.Stratum.WorkUpdates
import SilverPow.Stratum.RequestIds
import SilverPow.Stratum.Targets
import SilverPow.Stratum.BlockText
import SilverPow.Stratum.Admission
import SilverPow.CpuMiner.Nonces
import SilverPow.CpuMiner.Division
import SilverPow.CpuMiner.HashOrder
import SilverPow.Server.RateLimit
import SilverPow.Server.Connections
import SilverPow.Server.Shares
import SilverPow.Server.Broadcast
import SilverPow.WebSocket.Subscriptions
import SilverPow.WebSocket.Clients
import SilverPow.Builder.RoundTrip
import SilverPow.Builder.Encoding
import SilverPow.Builder.Decoding
import SilverPow.Builder.ConcurrentChain
import SilverPow.Rewards.SupplyCap
import SilverPow.Rewards.Emission
import SilverPow.Rewards.Payouts
import SilverPow.Rewards.Snapshots
import SilverPow.Rewards.Submitted
import SilverPow.Rewards.Halvings
import SilverPow.Mining.Registry
import SilverPow.Mining.Accounting
import SilverPow.Mining.Earnings
import SilverPow.Mining.Proofs
import SilverPow.Mining.Payouts
import SilverPow.Mining.Replays
import SilverPow.Mining.PayoutAddress
import SilverPow.Mining.Ageing
import SilverPow.Mining.TopMiners
import SilverPow.Mining.Interleaving
import SilverPow.Node.Persistence
import SilverPow.Node.Restart
import SilverPow.Node.Shutdown
