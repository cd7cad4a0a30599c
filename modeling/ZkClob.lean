import ZkClob.Contracts.Accounting
import ZkClob.Contracts.Agreement
import ZkClob.Contracts.Availability
import ZkClob.Contracts.Deadlines
import ZkClob.Contracts.DepositQueue
import ZkClob.Contracts.Effects
import ZkClob.Contracts.Encodings
import ZkClob.Contracts.EscapeMode
import ZkClob.Contracts.EscapeSoundness
import ZkClob.Contracts.EventLog
import ZkClob.Contracts.Exchange
import ZkClob.Contracts.ForcedExit
import ZkClob.Contracts.Interface
import ZkClob.Contracts.Operator
import ZkClob.Contracts.PatriciaFold
import ZkClob.Contracts.PatriciaProof
import ZkClob.Contracts.Payouts
import ZkClob.Contracts.QueueService
import ZkClob.Contracts.Queues
import ZkClob.Contracts.SettleAcceptance
import ZkClob.Contracts.SettledChain
import ZkClob.Contracts.Settlement
import ZkClob.Contracts.Solvency
import ZkClob.Contracts.Totals
import ZkClob.Core.Account
import ZkClob.Core.Config
import ZkClob.Core.Errors
import ZkClob.Core.Hashing
import ZkClob.Core.Identifiers
import ZkClob.Core.Operations
import ZkClob.Foundations.BitOrder
import ZkClob.Foundations.BitPacking
import ZkClob.Foundations.CallAuction
import ZkClob.Foundations.CompleteTree
import ZkClob.Foundations.FixedWidth
import ZkClob.Foundations.Histories
import ZkClob.Foundations.Journals
import ZkClob.Foundations.OrderedMap
import ZkClob.Foundations.Outcome
import ZkClob.Foundations.PrefixCode
import ZkClob.Foundations.PrefixTrie
import ZkClob.Foundations.RoundedSums
import ZkClob.Foundations.SelectionSort
import ZkClob.Foundations.Simulation
import ZkClob.Foundations.SortedSearch
import ZkClob.Foundations.Tally
import ZkClob.Host.AccountTree
import ZkClob.Host.BatchBuilder
import ZkClob.Host.BuilderAcceptance
import ZkClob.Host.BuilderCalls
import ZkClob.Host.BuilderIndices
import ZkClob.Host.BuilderInvariants
import ZkClob.Host.BuilderOutput
import ZkClob.Host.QueueRounds
import ZkClob.Host.Synchrony
import ZkClob.Host.TreeAtomicity
import ZkClob.Host.TreeUpdates
import ZkClob.Host.WithdrawalCoverage
import ZkClob.Settlement.Acceptance
import ZkClob.Settlement.Assets
import ZkClob.Settlement.AuctionVolume
import ZkClob.Settlement.Batch
import ZkClob.Settlement.BookAcceptance
import ZkClob.Settlement.BookUniqueness
import ZkClob.Settlement.CanonicalStates
import ZkClob.Settlement.Conservation
import ZkClob.Settlement.CreditBounds
import ZkClob.Settlement.DepositHints
import ZkClob.Settlement.Deposits
import ZkClob.Settlement.ForcedQueue
import ZkClob.Settlement.ForcedService
import ZkClob.Settlement.ForcedWithdrawals
import ZkClob.Settlement.HashDomains
import ZkClob.Settlement.HeadMatches
import ZkClob.Settlement.Ledger
import ZkClob.Settlement.LedgerEquation
import ZkClob.Settlement.LimitProtection
import ZkClob.Settlement.Matching
import ZkClob.Settlement.NonceChain
import ZkClob.Settlement.PanicFreedom
import ZkClob.Settlement.PriceTimePriority
import ZkClob.Settlement.PublicStatement
import ZkClob.Settlement.QueueBatches
import ZkClob.Settlement.Settle
import ZkClob.Settlement.State
import ZkClob.Settlement.Steps
import ZkClob.Settlement.TrackerRedundancy
import ZkClob.Settlement.Transition
import ZkClob.Settlement.Validation
import ZkClob.Settlement.Verdict
import ZkClob.Settlement.WellFormed
import ZkClob.Settlement.WithdrawalSteps
import ZkClob.Settlement.Withdrawals
import ZkClob.Settlement.WitnessSimulation
import ZkClob.Settlement.Witnesses
import ZkClob.Trees.DenseMerkle
import ZkClob.Trees.DenseMerkleMultiproof
import ZkClob.Trees.DenseMerkleSoundness
import ZkClob.Trees.Patricia
import ZkClob.Trees.PatriciaCombine
import ZkClob.Trees.PatriciaCompleteness
import ZkClob.Trees.PatriciaSoundness
import ZkClob.Trees.PatriciaTree
import ZkClob.Trees.SparseMerkle
import ZkClob.Trees.SparseMerkleMultiproof
import ZkClob.Trees.SparseMerkleProof
import ZkClob.Trees.SparseMerkleTree
import ZkClob.Trees.SparseMerkleUpdates
import ZkClob.Trees.VerifierTotality
