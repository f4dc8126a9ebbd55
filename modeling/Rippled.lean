import Rippled.Consensus.PreferredLCL
import Rippled.Consensus.ConsensusRuns
import Rippled.Protocol.STObjectReread
import Rippled.SHAMap.InnerWire
import Rippled.Ledger.PaymentSandbox
import Rippled.Ledger.RawStateTable
import Rippled.Ledger.ApplyStateTable
import Rippled.Amendments.LifeCycle
import Rippled.TxQueue.FeeSeries
import Rippled.TxQueue.QueueRuns
import Rippled.Ledger.SkipList
import Rippled.Validators.TrustChanges
import Rippled.Validators.NegativeUNLRuns
import Rippled.Transactor.FailedTransactions
import Rippled.Transactor.SponsoredReserves
import Rippled.Protocol.MulRatio
import Rippled.Ledger.DirectoryCleanup
