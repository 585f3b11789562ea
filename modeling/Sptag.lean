import Sptag.Lib.Bytes
import Sptag.Lib.OrderedMap
import Sptag.Lib.Partition
import Sptag.Lib.Run
import Sptag.Common
import Sptag.Common.VersionLabel
import Sptag.SPANN.RocksDBIO
import Sptag.SPANN.PersistentBuffer
import Sptag.SPANN.AsyncAppend
import Sptag.SPANN.Recovery
import Sptag.SPANN.Dynamic.State
import Sptag.SPANN.Dynamic.Update
import Sptag.Lib.Triple
import Sptag.SPANN.FileIO.BlockController
import Sptag.SPANN.FileIO.Store
import Sptag.SPANN.FileIO.Cache
import Sptag.SPANN.FileIO.Ownership
import Sptag.SPANN.FileIO.Persist
import Sptag.SPANN.FileIO.Invariant
import Sptag.SPANN.FileIO.Refine
import Sptag.SPANN.FileIO.Crash
import Sptag.Lib.Client
import Sptag.SPANN.TiKVIO
import Sptag.Helper.AerospikeKeyValueIO
import Sptag.SPANN.ConcurrentMerge
import Sptag.Lib.Pack
import Sptag.SPANN.Dynamic.Refine
import Sptag.SPANN.Dynamic.Corruption
import Sptag.SPANN.Dynamic.Evolution
import Sptag.SPANN.Dynamic.Ledger
import Sptag.SPANN.PageOptions
import Sptag.SPANN.Dynamic.Interleaving
import Sptag.SPANN.Dynamic.SizeBound
import Sptag.Lib.Heap
import Sptag.Common.QueryResultSet
import Sptag.SPANN.Dynamic.Search
import Sptag.Lib.Buffer
import Sptag.SPANN.Static.IndexFile
import Sptag.SPANN.Static.Loading
import Sptag.SPANN.Static.RoundTrip
import Sptag.SPANN.Static.Unsupported
import Sptag.Common.VersionLabel.Concurrent
import Sptag.SPANN.Dynamic.StaleReplicas
import Sptag.SPANN.ConcurrentSplit
import Sptag.SPANN.TiKVIO.Regions
import Sptag.SPANN.TiKVIO.Scan
import Sptag.Lib.Shares
import Sptag.SPANN.Static.Files
import Sptag.SPANN.Dynamic.Residue
import Sptag.SPANN.FileIO.MappingFile
import Sptag.Helper.DiskIO
import Sptag.SPANN.TiKVIO.MultiGet
import Sptag.Helper.AerospikeKeyValueIO.MultiGet
import Sptag.SPANN.FileIO.Reading
import Sptag.SPANN.KeyValueIO
import Sptag.SPANN.Dynamic.ConcurrentRefine
import Sptag.SPANN.Static.ManyFiles
import Sptag.SPANN.Dynamic.Migration
import Sptag.Lib.Threads
import Sptag.Helper.ThreadPool
import Sptag.Socket.ResourceManager
import Sptag.Socket.ConnectionManager
import Sptag.Aggregator.PendingServers
import Sptag.Aggregator.AggregatorService
import Sptag.Socket.Packet
import Sptag.Socket.Connection
import Sptag.Lib.BufferedWriter
import Sptag.TikvUds.Protocol
import Sptag.TikvUds.Server
import Sptag.Lib.CompletionQueue
import Sptag.Helper.AsyncFileReader
import Sptag.SPANN.FileIO.Mapped
import Sptag.SPANN.FileIO.Pointwise
import Sptag.SPANN.FileIO.Expansion
import Sptag.SPANN.Static.Placement
import Sptag.SPANN.Dynamic.MergeRequeue
import Sptag.SPANN.Dynamic.MergeScan
import Sptag.SPANN.SizeLimits
import Sptag.Lib.Repeat
import Sptag.SPANN.Dynamic.AppendRetry
import Sptag.SPANN.Dynamic.PreReassign
import Sptag.Common.WorkSpace
import Sptag.SPANN.FileIO.Accounting
import Sptag.SPANN.FileIO.SameCache
import Sptag.Lib.Cursor
import Sptag.SPANN.Iterative
import Sptag.SPANN.Static.Iterative
import Sptag.SPANN.Dynamic.Iterative
import Sptag.SPANN.Delivery
import Sptag.Lib.Slots
import Sptag.Common.Heap
import Sptag.Common.DistPriorityQueue
import Sptag.Common.Rows
import Sptag.Helper.LockFree
import Sptag.Common.KDTree
import Sptag.Common.TPTree.Hyperplane
import Sptag.Common.TPTree
import Sptag.Common.RelativeNeighborhoodGraph
import Sptag.Common.MetadataSet
import Sptag.Helper.Base64Encode
import Sptag.Lib.Codec
import Sptag.SPANN.RocksDBIO.AnnMergeOperator
import Sptag.Socket.RemoteSearchQuery
import Sptag.Lib.Fields
import Sptag.Server.QueryParser
import Sptag.Server.QueryParser.Answer
import Sptag.TikvUds.MultiGet
import Sptag.Common.BKTree.Shuffle
import Sptag.Common.MetadataSet.Saving
import Sptag.Common.DistanceUtils
import Sptag.Common.PQQuantizer
import Sptag.Common.PQQuantizer.Saving
import Sptag.Lib.Forest
import Sptag.Lib.Keyed
import Sptag.Lib.Segments
import Sptag.Common.BKTree
import Sptag.Lib.Yields
import Sptag.Common.Heap.Keyed
import Sptag.Common.WorkSpace.Space
import Sptag.Common.BKTree.SearchTrees
import Sptag.Common.QueryResultSet.Best
import Sptag.BKT.Search
import Sptag.BKT.Search.Results
import Sptag.Common.BKTree.Built
import Sptag.BKT.SearchIndex
import Sptag.BKT.Exact
import Sptag.BKT.Iterative
import Sptag.Common.NeighborhoodGraph
import Sptag.BKT.AddIndex
