import ClMalloc.Lib.Transition
import ClMalloc.Lib.Chain
import ClMalloc.Lib.Count
import ClMalloc.Lib.StackLog
import ClMalloc.Lib.Placement
import ClMalloc.Lib.Tally
import ClMalloc.Lib.Threads
import ClMalloc.Lib.Linearizable
import ClMalloc.Lib.Checked
import ClMalloc.Lib.DList
import ClMalloc.SizeClass
import ClMalloc.SizeClassFit
import ClMalloc.Metrics
import ClMalloc.MetricsRegistry
import ClMalloc.Lib.PageMap
import ClMalloc.MmapAllocator
import ClMalloc.PageAllocator
import ClMalloc.Pool
import ClMalloc.PoolInvariant
import ClMalloc.PoolSections
import ClMalloc.PoolSegments
import ClMalloc.PoolRelease
import ClMalloc.PoolTotals
import ClMalloc.PoolHolders
import ClMalloc.PoolCore
import ClMalloc.PoolRegions
import ClMalloc.PoolCoreInvariant
import ClMalloc.PoolGauges
import ClMalloc.PageSpace
import ClMalloc.PoolOps
import ClMalloc.PagePool
import ClMalloc.PoolExhausted
import ClMalloc.MmapPool
import ClMalloc.MmapContract
import ClMalloc.MmapMemory
import ClMalloc.PagePoolAccounting
import ClMalloc.PoolReclaim
import ClMalloc.PoolSerial
import ClMalloc.PoolCarving
import ClMalloc.SlabCache
import ClMalloc.SlabCacheInvariant
import ClMalloc.SlabCacheAtomic
import ClMalloc.SlabCacheRelease
import ClMalloc.SlabCacheCount
import ClMalloc.Abandoned
import ClMalloc.AbandonedInvariant
import ClMalloc.AbandonedAtomic
import ClMalloc.Slab
import ClMalloc.SlabInvariant
import ClMalloc.SlabConcurrent
import ClMalloc.SlabWhole
import ClMalloc.SlabAtomic
import ClMalloc.QuietPool
import ClMalloc.PoolBooks
import ClMalloc.PoolChecked
import ClMalloc.PoolSystem
import ClMalloc.PoolSystemGauges
import ClMalloc.PoolPanics
import ClMalloc.Pprof
import ClMalloc.PprofLive
import ClMalloc.Lib.MapSum
import ClMalloc.Heap
import ClMalloc.HeapBooks
import ClMalloc.HeapInvariant
import ClMalloc.HeapPool
import ClMalloc.HeapSlots
import ClMalloc.HeapScan
import ClMalloc.HeapAdopt
import ClMalloc.HeapAlloc
import ClMalloc.HeapDealloc
import ClMalloc.HeapDrop
import ClMalloc.HeapLife
import ClMalloc.HeapSystem
import ClMalloc.HeapMoves
import ClMalloc.HeapOrphans
import ClMalloc.HeapRefill
import ClMalloc.HeapProgram
import ClMalloc.HeapView
import ClMalloc.HeapViewMoves
import ClMalloc.HeapViewSlots
import ClMalloc.HeapViewPool
import ClMalloc.HeapActions
import ClMalloc.HeapSafe
import ClMalloc.HeapHandovers
import ClMalloc.HeapSafeCalls
import ClMalloc.HeapThreads
import ClMalloc.HeapInterleavings
import ClMalloc.HeapQuiescent
import ClMalloc.GlobalThreads
import ClMalloc.GlobalInterleavings
import ClMalloc.GlobalAlloc
import ClMalloc.GlobalMetrics
import ClMalloc.GlobalSound
import ClMalloc.PprofSystem
import ClMalloc.PprofSide
import ClMalloc.PprofInterval
import ClMalloc.RegistryRuns
import ClMalloc.PprofMessage
import ClMalloc.PprofDump
import ClMalloc.PprofProfile
import ClMalloc.PprofRoundTrip
import ClMalloc.PprofClosed
import ClMalloc.PprofTransparent
import ClMalloc.PprofGuard
import ClMalloc.PprofLabels
import ClMalloc.PoolFreeList
import ClMalloc.PprofFloats
import ClMalloc.PprofSampler
import ClMalloc.SlabList
