import Multiverse.Lib.Overlay
import Multiverse.Lib.LittleEndian
import Multiverse.Common.Transaction
import Multiverse.Common.Block
import Multiverse.Common.Serialize
import Multiverse.Common.Template
import Multiverse.Core.Protocol
import Multiverse.Common.BlockIndex
import Multiverse.Core.Consensus
import Multiverse.Storage.BlockView
import Multiverse.Storage.Replay
import Multiverse.Storage.Delegate
import Multiverse.Mpvss.SecretShare
import Multiverse.Lib.DividedDifference
import Multiverse.Mpvss.Interpolation
import Multiverse.Lib.SortedMap
import Multiverse.TxPool.View
import Multiverse.TxPool.Pool
import Multiverse.Core.Validate
import Multiverse.Storage.BlockBase
import Multiverse.Storage.Commit
import Multiverse.WorldLine.AddBlock
import Multiverse.Maker.BlockMaker
import Multiverse.Delegate.MvDelegate
import Multiverse.Delegate.Context
import Multiverse.Storage.Branch
import Multiverse.Storage.UnspentDB
import Multiverse.Storage.TimeSeries
import Multiverse.Storage.CTSDB
import Multiverse.Walleve.Circular
import Multiverse.Storage.CacheStream
import Multiverse.Storage.TxIndex
import Multiverse.Lib.Bitmap
import Multiverse.Crypto.MultiSign
import Multiverse.Storage.Supply
import Multiverse.Mpvss.Tables
import Multiverse.WorldLine.Enrolled
import Multiverse.Wallet.Coins
import Multiverse.Storage.WalletDB
import Multiverse.Wallet.Wallet
import Multiverse.Mpvss.SealedBox
import Multiverse.Delegate.Vote
import Multiverse.Core.Ballot
import Multiverse.Lib.Merkle
import Multiverse.Core.Merkle
import Multiverse.Lib.Multimap
import Multiverse.Wallet.Select
import Multiverse.Net.Schedule
import Multiverse.Lib.Count
import Multiverse.Walleve.RWLock
import Multiverse.Walleve.RWLockSafety
import Multiverse.Lib.Except
import Multiverse.Walleve.CompactTV
import Multiverse.Common.Profile
import Multiverse.Walleve.DataStream
import Multiverse.Lib.Codec
import Multiverse.Walleve.Stream
import Multiverse.Common.Stream
import Multiverse.Crypto.Base32
import Multiverse.Delegate.Channel
import Multiverse.Walleve.HttpUtil
import Multiverse.Crypto.Base25519
import Multiverse.Crypto.SC25519
import Multiverse.Crypto.FP25519
import Multiverse.Crypto.Ed25519
import Multiverse.Storage.BlockFork
import Multiverse.Lib.Simulation
import Multiverse.Lib.Window
import Multiverse.Walleve.CircularStreamBuf
import Multiverse.Lib.Search
import Multiverse.TxPool.Invalidate
import Multiverse.TxPool.Consistency
import Multiverse.Storage.DelegateDB
import Multiverse.Lib.Fold
import Multiverse.Net.Consistency
import Multiverse.Walleve.DataSched
import Multiverse.Lib.SlotRing
import Multiverse.Walleve.Endpoint
import Multiverse.Walleve.NodeManager
