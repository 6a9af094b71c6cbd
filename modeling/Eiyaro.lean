import Eiyaro.Protocol.BlockVersion
import Eiyaro.Mining.BlockTemplate
import Eiyaro.Consensus.Supply
import Eiyaro.Utxo.VirtualStore
import Eiyaro.UtxoIndex.History
import Eiyaro.Consensus.Subsidy
import Eiyaro.Mempool.Candidates
import Eiyaro.Script.SigOps
import Eiyaro.Mempool.Submission
import Eiyaro.Hashing.SignatureHash
import Eiyaro.Transaction.Scripts
import Eiyaro.Header.Difficulty
import Eiyaro.Script.Standard
import Eiyaro.Wallet.Selection
import Eiyaro.Pruning.Update
import Eiyaro.Mempool.Chained
import Eiyaro.Mempool.Limits
import Eiyaro.Utxo.Serialization
import Eiyaro.Stores.BlockStore
import Eiyaro.Utxo.IteratorWithDiff
import Eiyaro.UtxoIndex.Pages
import Eiyaro.Stores.PruningIndex
import Eiyaro.Virtual.MedianTime
import Eiyaro.Sync.Locator
import Eiyaro.Pruning.Deletion
import Eiyaro.Pruning.Import
import Eiyaro.Reachability.Interval
import Eiyaro.Ghostdag.Candidate
import Eiyaro.Ghostdag.Cluster
import Eiyaro.Ghostdag.Colouring
import Eiyaro.Ghostdag.Insertion
