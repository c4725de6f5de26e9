import TerraClassic.Lib.SortedMap
import TerraClassic.Lib.Rounding
import TerraClassic.Sdk.Dec
import TerraClassic.Oracle.Keeper
import TerraClassic.Oracle.Types
import TerraClassic.Sdk.Coins
import TerraClassic.Oracle.Reward
import TerraClassic.Oracle.Tally
import TerraClassic.Oracle.EndBlocker
import TerraClassic.Lib.Reorder
import TerraClassic.Lib.WeightedMedian
import TerraClassic.Oracle.Ballot
import TerraClassic.Oracle.BallotMap
import TerraClassic.Oracle.Rounds
import TerraClassic.Oracle.Order
import TerraClassic.Oracle.Accepted
import TerraClassic.Oracle.Period
import TerraClassic.Oracle.Rates
import TerraClassic.Oracle.Misses
import TerraClassic.Oracle.Targets
import TerraClassic.Oracle.RoundSafety
import TerraClassic.Oracle.RewardSafety
import TerraClassic.Oracle.Safety
import TerraClassic.Oracle.Msgs
import TerraClassic.Lib.Run
import TerraClassic.Oracle.Chain
import TerraClassic.Oracle.CommitReveal
import TerraClassic.Oracle.Prevotes
import TerraClassic.Sdk.Errors
import TerraClassic.Market.Types
import TerraClassic.Sdk.Bank
import TerraClassic.Market.Swap
import TerraClassic.Lib.ConstantProduct
import TerraClassic.Market.Pool
import TerraClassic.Ante.Tax
import TerraClassic.Ante.Fee
import TerraClassic.Ante.OwnFee
import TerraClassic.Market.Ledger
import TerraClassic.Ante.TaxTree
import TerraClassic.Wasm.Dispatch
import TerraClassic.Wasm.ContractTax
import TerraClassic.Ante.Spam
import TerraClassic.Lib.Apportion
import TerraClassic.Oracle.RewardPool
import TerraClassic.Dyncomm.Keeper
import TerraClassic.Dyncomm.Tx
import TerraClassic.Dyncomm.Effects
import TerraClassic.Dyncomm.Floor
import TerraClassic.Dyncomm.Update
import TerraClassic.Dyncomm.Target
import TerraClassic.Dyncomm.Bounds
import TerraClassic.Treasury.Types
import TerraClassic.Treasury.Keeper
import TerraClassic.Treasury.Levers
import TerraClassic.Lib.Returns
import TerraClassic.Treasury.Safety
import TerraClassic.Oracle.Params
import TerraClassic.Oracle.StoredVotes
import TerraClassic.Dyncomm.Genesis
import TerraClassic.Treasury.Genesis
import TerraClassic.Oracle.RawStore
import TerraClassic.Oracle.Genesis
import TerraClassic.Lib.Release
import TerraClassic.Vesting.Schedule
import TerraClassic.Vesting.Account
import TerraClassic.Oracle.Majority
import TerraClassic.Oracle.Weights
import TerraClassic.Oracle.Unanimous
import TerraClassic.Oracle.Reference
import TerraClassic.Oracle.Slash
import TerraClassic.Oracle.Vanished
import TerraClassic.Market.Spread
import TerraClassic.Market.Exact
import TerraClassic.Market.Recovery
import TerraClassic.Market.Simulate
import TerraClassic.Ante.BurnSplit
import TerraClassic.Ante.MinInitialDeposit
import TerraClassic.Ante.Rejected
import TerraClassic.Ante.ClientTax
import TerraClassic.Ante.Priority
import TerraClassic.Dyncomm.Monotone
import TerraClassic.Treasury.Windows
import TerraClassic.Treasury.Indicators
import TerraClassic.Oracle.VoteMsg
import TerraClassic.Lib.KeySpace
import TerraClassic.Lib.Simulation
import TerraClassic.Treasury.Exemption
import TerraClassic.Treasury.RawStore
import TerraClassic.Treasury.Refinement
import TerraClassic.Lib.Conservation
import TerraClassic.Sdk.Supply
import TerraClassic.Chain.Ledger
import TerraClassic.Chain.BurnAccount
import TerraClassic.Treasury.History
import TerraClassic.Oracle.SlashWindows
import TerraClassic.Oracle.Feeder
import TerraClassic.Chain.SwapsDisabled
import TerraClassic.Ante.ClientFee
import TerraClassic.Oracle.Honest
import TerraClassic.Vesting.GenesisAccount
import TerraClassic.Oracle.ZeroHeight
import TerraClassic.Oracle.RawKeeper
import TerraClassic.Oracle.Refinement
import TerraClassic.Oracle.Represents
import TerraClassic.Legacy.PubkeyReplacement
import TerraClassic.Lib.NamedUpdate
import TerraClassic.Chain.Forks
