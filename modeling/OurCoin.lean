import OurCoin.Library.Reader
import OurCoin.Library.Dict
import OurCoin.Library.BigEndian
import OurCoin.Library.Raising
import OurCoin.Library.Sha256
import OurCoin.Model.Encoding
import OurCoin.Model.Address
import OurCoin.Ledger.Accounting
import OurCoin.Library.Ancestry
import OurCoin.Library.FirstMaximum
import OurCoin.Library.Transactions
import OurCoin.Model.Chain
import OurCoin.Model.Mempool
import OurCoin.Model.Node
import OurCoin.Node.Pool
import OurCoin.Node.Reconcile
import OurCoin.Tree.Builder
import OurCoin.Tree.ForkChoice
import OurCoin.Exchange.Agreement
import OurCoin.Ledger.Failures
import OurCoin.Library.Completion
import OurCoin.Library.GreedyRun
import OurCoin.Library.MerkleTree
import OurCoin.Library.Registry
import OurCoin.Library.Stateful
import OurCoin.Library.Steps
import OurCoin.Model.Peer
import OurCoin.Model.Reception
import OurCoin.Model.Service
import OurCoin.Node.Greedy
import OurCoin.Node.Mining
import OurCoin.Node.Timestamps
import OurCoin.Peer.Alignment
import OurCoin.Peer.Registry
import OurCoin.Storage.Detection
import OurCoin.Storage.Stale
import OurCoin.Storage.Writers
import OurCoin.Wire.Payloads
import OurCoin.Ledger.Objects
import OurCoin.Ledger.Permutation
import OurCoin.Library.MerkleShape
import OurCoin.Node.Admission
import OurCoin.Peer.Locators
import OurCoin.Storage.Reindex
import OurCoin.Storage.Tampering
import OurCoin.Tree.Difficulty
import OurCoin.Tree.StateCommitment
import OurCoin.Wire.Framing
import OurCoin.Cli.Amounts
import OurCoin.Ledger.Addresses
import OurCoin.Library.PurePath
import OurCoin.Library.Reading
import OurCoin.Library.SlidingWindow
import OurCoin.Model.Paths
import OurCoin.Model.Snapshots
import OurCoin.Peer.RateLimit
import OurCoin.Storage.Interleaving
import OurCoin.Storage.Paths
import OurCoin.Library.Crossing
import OurCoin.Model.Dialing
import OurCoin.Peer.Dialing
import OurCoin.Peer.Punishment
import OurCoin.Library.Batches
import OurCoin.Library.Faulting
import OurCoin.Library.Simulation
import OurCoin.Model.Conversation
import OurCoin.Peer.Conversation
import OurCoin.Peer.Copying
import OurCoin.Peer.Download
import OurCoin.Library.Base64
import OurCoin.Library.Json
import OurCoin.Model.WalletFile
import OurCoin.Model.WalletSaving
import OurCoin.Wallet.Documents
import OurCoin.Wallet.Loading
import OurCoin.Wallet.Saving
import OurCoin.Model.Opening
import OurCoin.Storage.Opening
import OurCoin.Cli.Shell
