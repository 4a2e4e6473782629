import Railgun.Theory.Anchors
import Railgun.Theory.ArtifactJournal
import Railgun.Theory.BestCover
import Railgun.Theory.ChunkPlan
import Railgun.Theory.ChunkStager
import Railgun.Theory.Costs
import Railgun.Theory.EnrTree
import Railgun.Theory.FeeBatch
import Railgun.Theory.GatewayPool
import Railgun.Theory.IndexedWallet
import Railgun.Theory.LogBudget
import Railgun.Theory.NoteCiphertext
import Railgun.Theory.PartialSearch
import Railgun.Theory.PoiManifest
import Railgun.Theory.PoiProofs
import Railgun.Theory.PoiSync
import Railgun.Theory.PrefixRange
import Railgun.Theory.QuickSync
import Railgun.Theory.SenderRecovery
import Railgun.Theory.Shortage
import Railgun.Theory.Swap
import Railgun.Theory.TransactCalldata
import Railgun.Theory.UnixFs
import Railgun.Theory.WalletHistory
import Railgun.Theory.WalletScan
