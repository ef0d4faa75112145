import Pocl.BufallocFailures
import Pocl.BufallocAlignment
import Pocl.PthreadBuffers
import Pocl.BarrierTailCorrectness
import Pocl.BarrierTailCleanup
import Pocl.PhisToAllocasCorrectness
import Pocl.CanonicalizeBarriersCorrectness
import Pocl.WorkitemReplication
import Pocl.WorkGroupCompileCache
import Pocl.WorkitemReplicationPhiNodes
import Pocl.WorkitemLoopsPeeling
import Pocl.KernelRegionsTraversal
import Pocl.KernelRegionsUses
import Pocl.UndominatedUses
import Pocl.LoopBarriersRuns
import Pocl.HalvingSearches
import Pocl.HsaArgumentLayout
import Pocl.HsaDispatchPackets
import Pocl.ArgumentUpdates
import Pocl.RectBoxes
import Pocl.LinearTransfers
import Pocl.ImageRoundTrips
import Pocl.WorkGroupDistribution
import Pocl.TtaCommandSlotProtocol
import Pocl.InOrderExecution
import Pocl.BlockingTransfers
import Pocl.QueueReferences
import Pocl.BufferReferences
import Pocl.LiveCommands
import Pocl.MapBookkeeping
import Pocl.NDRangeValidation
import Pocl.ParallelRegionsCloning
import Pocl.BlockRelations
import Pocl.ObjectLifetimes
import Pocl.ArgumentLeaks
import Pocl.PthreadWorkgroups
import Pocl.TceMemory
import Pocl.ProgramBinariesRoundTrip
import Pocl.ProgramBuildResults
import Pocl.CompletedEvents
import Pocl.UniformitySearch
import Pocl.UniformValues
import Pocl.UniformityEmbedding
import Pocl.ImplicitLoopBarriers
import Pocl.MulHi
import Pocl.ProgramBinariesDevices
import Pocl.ImageFormatQueries
import Pocl.KernelImageAccess
import Pocl.ContextCreation
import Pocl.BufferCreation
import Pocl.ProgramSources
import Pocl.SymbolOffsets
import Pocl.CommentRemoval
import Pocl.KernelSignatures
import Pocl.SizeCeiling
import Pocl.AlignedAllocation
import Pocl.RegionInsertions
import Pocl.BitCounts
import Pocl.AveragesRotations
import Pocl.SaturatingSums
import Pocl.MultiplyAdd
import Pocl.HalfPrecision
import Pocl.HalfVectors
import Pocl.TypeConversions
import Pocl.CpuInfo
import Pocl.VectorMemory
import Pocl.WorkgroupLauncherRuns
import Pocl.DeviceCalls
