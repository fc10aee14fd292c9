import SafrochainIndexer.Lib.Effect
import SafrochainIndexer.Lib.Table
import SafrochainIndexer.Lib.Register
import SafrochainIndexer.Lib.Keyset
import SafrochainIndexer.Lib.Text
import SafrochainIndexer.Lib.Relation
import SafrochainIndexer.Callisto.Database
import SafrochainIndexer.Callisto.Accounts
import SafrochainIndexer.Lib.Latest
import SafrochainIndexer.Callisto.LatestState
import SafrochainIndexer.Callisto.Feegrant
import SafrochainIndexer.Callisto.FeegrantLaws
import SafrochainIndexer.Api.Address
import SafrochainIndexer.Api.Message
import SafrochainIndexer.Api.CursorLaws
import SafrochainIndexer.Api.SearchLaws
import SafrochainIndexer.Api.OffsetLaws
import SafrochainIndexer.Callisto.GovTypes
import SafrochainIndexer.Callisto.Gov
import SafrochainIndexer.Callisto.GovFrames
import SafrochainIndexer.Callisto.Upgrade
import SafrochainIndexer.Lib.Lockstep
import SafrochainIndexer.Callisto.UpgradeLaws
import SafrochainIndexer.Callisto.VoteLaws
import SafrochainIndexer.Callisto.AuthzLaws
import SafrochainIndexer.Callisto.StatusLaws
import SafrochainIndexer.Callisto.Lifecycle
import SafrochainIndexer.Callisto.LifecycleLaws
import SafrochainIndexer.Callisto.SplitLaws
import SafrochainIndexer.Callisto.Validators
import SafrochainIndexer.Callisto.Pruning
import SafrochainIndexer.Api.CountsCache
import SafrochainIndexer.Api.MessageParser
import SafrochainIndexer.Callisto.PruningLaws
import SafrochainIndexer.Api.TransactionMessages
import SafrochainIndexer.Callisto.MessageTypes
import SafrochainIndexer.Api.ModuleNames
import SafrochainIndexer.Callisto.DepositLaws
import SafrochainIndexer.Callisto.WeightedVotes
import SafrochainIndexer.Callisto.Staking
import SafrochainIndexer.Callisto.Auth
import SafrochainIndexer.Callisto.FailedTx
import SafrochainIndexer.Callisto.Consensus
import SafrochainIndexer.Callisto.ParamsSources
import SafrochainIndexer.Callisto.StakingPool
import SafrochainIndexer.Callisto.ProposalLaws
import SafrochainIndexer.Callisto.Vesting
import SafrochainIndexer.Callisto.VestingLaws
import SafrochainIndexer.Callisto.DoubleSigns
import SafrochainIndexer.Callisto.ValidatorRefresh
import SafrochainIndexer.Callisto.FreshStatuses
import SafrochainIndexer.Callisto.DoubleSignLaws
import SafrochainIndexer.Callisto.CoinTexts
import SafrochainIndexer.Callisto.PriceHistory
import SafrochainIndexer.Callisto.DelegationTotals
import SafrochainIndexer.Callisto.FirstPages
import SafrochainIndexer.Lib.Patches
import SafrochainIndexer.Callisto.PartialUpdates
import SafrochainIndexer.Callisto.FailingProposals
import SafrochainIndexer.Api.DateSerializer
import SafrochainIndexer.Api.MessageFilters
import SafrochainIndexer.Callisto.VoteOptions
import SafrochainIndexer.Callisto.TxSearch
import SafrochainIndexer.Api.AddressLeaves
import SafrochainIndexer.Lib.Calendar
import SafrochainIndexer.Api.DateFilterService
import SafrochainIndexer.Api.RelativeDates
import SafrochainIndexer.Api.CalendarFilters
import SafrochainIndexer.Api.Blocks
import SafrochainIndexer.Lib.Double
import SafrochainIndexer.Api.BlockStatistics
import SafrochainIndexer.Api.JoinedPages
import SafrochainIndexer.Api.RequestFilters
import SafrochainIndexer.Lib.Objects
import SafrochainIndexer.Api.AddressResponse
import SafrochainIndexer.Api.TotalAmounts
import SafrochainIndexer.Api.Directions
import SafrochainIndexer.Lib.Snapshots
import SafrochainIndexer.Lib.Worklist
import SafrochainIndexer.Lib.Replays
import SafrochainIndexer.Callisto.NodePages
import SafrochainIndexer.Callisto.SigningInfos
import SafrochainIndexer.Callisto.Refreshers
import SafrochainIndexer.Callisto.RefresherLaws
import SafrochainIndexer.Callisto.DailyRefetch
import SafrochainIndexer.Callisto.FullTxs
import SafrochainIndexer.Callisto.AllowanceCommand
import SafrochainIndexer.Callisto.GovGenesis
import SafrochainIndexer.Callisto.ProposalCommand
import SafrochainIndexer.Callisto.DepositCommand
import SafrochainIndexer.Api.ChainState
import SafrochainIndexer.Api.RecentCounts
import SafrochainIndexer.Lib.Offsets
import SafrochainIndexer.Callisto.BondedStatuses
import SafrochainIndexer.Api.Validators
import SafrochainIndexer.Lib.UniqueIndex
import SafrochainIndexer.Callisto.ValidatorBlocks
import SafrochainIndexer.Lib.Readings
import SafrochainIndexer.Callisto.StakingGenesis
import SafrochainIndexer.Lib.Ratchet
import SafrochainIndexer.Callisto.StakingRuns
import SafrochainIndexer.Callisto.TallyRefresh
import SafrochainIndexer.Callisto.UpgradeRefresh
