import Falkr.Api.Answers
import Falkr.Api.Auth
import Falkr.Api.BalanceReads
import Falkr.Api.Isolation
import Falkr.Api.Ledger
import Falkr.Api.Router
import Falkr.Api.Service
import Falkr.Core.Arithmetic
import Falkr.Core.Dimensions
import Falkr.Core.Ids
import Falkr.Core.Money
import Falkr.Core.Numeral
import Falkr.Core.Texts
import Falkr.Core.WholeUnits
import Falkr.CostSpine.Apportion
import Falkr.CostSpine.ApportionDecimal
import Falkr.CostSpine.ApportionRange
import Falkr.CostSpine.CostAmounts
import Falkr.CostSpine.Exact
import Falkr.CostSpine.LineIdentity
import Falkr.CostSpine.Shares
import Falkr.CostSpine.TagEvidence
import Falkr.Events.ExactBalance
import Falkr.Events.Overflow
import Falkr.Events.Replay
import Falkr.Events.Reversal
import Falkr.Events.Serialized
import Falkr.Events.TrialBalance
import Falkr.Events.WellFormed
import Falkr.Infra.ChargeWindow
import Falkr.Infra.CostCoverage
import Falkr.Infra.CostIngestion
import Falkr.Infra.CostPartition
import Falkr.Infra.CostPolling
import Falkr.Infra.CostRedelivery
import Falkr.Infra.CostRestatement
import Falkr.Infra.CostStorage
import Falkr.Infra.LedgerIsolation
import Falkr.Infra.LedgerReplay
import Falkr.Infra.LedgerRetry
import Falkr.Infra.LedgerSequential
import Falkr.Infra.LedgerTenancy
import Falkr.Infra.LedgerWriters
import Falkr.Infra.RunCapitalization
import Falkr.Infra.RunCost
import Falkr.Infra.RunReads
import Falkr.Infra.RunRedelivery
import Falkr.Infra.RunTenancy
import Falkr.Infra.RunUpserts
import Falkr.Infra.TenantContext
import Falkr.Lib.Joined
import Falkr.Lib.JsonText
import Falkr.Lib.SortedMap
import Falkr.ResearchGraph.RunIdentity
import Falkr.Scripts.CheckDeps
import Falkr.Testkit.AdsExport
import Falkr.Testkit.AllocationMatch
import Falkr.Testkit.AllocationSpec
import Falkr.Testkit.Assertions
import Falkr.Testkit.ChartLoad
import Falkr.Testkit.Complete
import Falkr.Testkit.Corpus
import Falkr.Testkit.Executable
import Falkr.Testkit.ExpectedBalance
import Falkr.Testkit.GeneratedBalance
import Falkr.Testkit.GroundTruth
import Falkr.Testkit.Period
import Falkr.Testkit.Reference
import Falkr.Testkit.SingleEvent
import Falkr.Testkit.ValidatedRun
