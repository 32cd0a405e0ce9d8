import Grxcp.Pta.ModuleRuns
import Grxcp.Runtime.FreeList
import Grxcp.Lib.Queues
import Grxcp.Lib.Timeline
import Grxcp.Runtime.Stream
import Grxcp.Runtime.Context
import Grxcp.Runtime.StreamCalls
import Grxcp.Runtime.LegacyOrder
import Grxcp.Pta.TwinMoves
import Grxcp.Pta.TwinTurns
import Grxcp.Pta.SeedProtocol
import Grxcp.Pta.HeldOperands
import Grxcp.Pta.RecordIndex
import Grxcp.Pta.InOrder
import Grxcp.Pta.Chained
import Grxcp.Pta.Driver
import Grxcp.Pta.TwinClock
import Grxcp.Pta.TwinLink
import Grxcp.Pta.LinkFailure
import Grxcp.Pta.RingMemory
import Grxcp.Runtime.FatBinary
import Grxcp.Runtime.SelectImage
import Grxcp.Runtime.Symbols
import Grxcp.Runtime.SymbolImage
import Grxcp.Runtime.SymbolVisible
import Grxcp.Runtime.SymbolFrame
import Grxcp.Lib.Writes
import Grxcp.Runtime.TensorMap
import Grxcp.Runtime.SlotHistory
import Grxcp.Runtime.Memcpy2D
import Grxcp.Runtime.Rectangle
import Grxcp.Libs.Grxblas
import Grxcp.Libs.Grxdnn
import Grxcp.Libs.CycleProbe
import Grxcp.Libs.DeviceGeometry
import Grxcp.Lib.Registers
import Grxcp.Libs.DescriptorSlots
import Grxcp.Libs.SlotOrder
import Grxcp.Libs.SlotRuns
import Grxcp.Runtime.ArgumentBlock
import Grxcp.Runtime.LaunchBounds
import Grxcp.Runtime.Residency
import Grxcp.Runtime.BlockSearch
import Grxcp.Runtime.TileReach
import Grxcp.Device.SanitizeRt
import Grxcp.Device.AccessCheck
import Grxcp.Lib.Scan
import Grxcp.Runtime.SanitizeImage
import Grxcp.Runtime.ImagePatch
import Grxcp.Runtime.Loader
import Grxcp.Runtime.ModuleCount
import Grxcp.Lib.MajorOrder
import Grxcp.Libs.EngineGemm
import Grxcp.Pta.ExactTile
import Grxcp.Libs.GemmLayout
import Grxcp.Libs.EngineModels
import Grxcp.Device.Sgemm
import Grxcp.Device.SgemmTiles
import Grxcp.Device.SgemmLaunch
import Grxcp.Libs.SgemmGrid
import Grxcp.Device.WarpTile
import Grxcp.Runtime.Texture
import Grxcp.Runtime.TextureLaw
import Grxcp.Device.Blas12
import Grxcp.Libs.Blas12Law
import Grxcp.Grxcc.Lexer
import Grxcp.Grxcc.Params
import Grxcp.Grxcc.Launches
import Grxcp.Grxcc.Declarations
import Grxcp.Grxcc.DeviceVars
import Grxcp.Grxcc.DeviceOnly
import Grxcp.Lib.Paging
import Grxcp.Pta.Activation
import Grxcp.Pta.BankPolicy
import Grxcp.Pta.Occupancy
import Grxcp.Pta.RunSplit
import Grxcp.Lib.Sweep
import Grxcp.Libs.CycleSummary
import Grxcp.Grxcc.FatbinArray
import Grxcp.Grxcc.Disassembly
import Grxcp.Grxcc.Listing
import Grxcp.Grxcc.RegisterCount
import Grxcp.Pta.Between
import Grxcp.Pta.QueueTeardown
import Grxcp.Lib.Recency
import Grxcp.Pta.FeedModel
import Grxcp.Pta.GpuSched
import Grxcp.Pta.LruPolicy
import Grxcp.Device.TensorGemm
import Grxcp.Libs.TensorGemmLaw
import Grxcp.Grxcc.SharedDecls
import Grxcp.Runtime.QueueDevice
import Grxcp.Runtime.PendingRanges
import Grxcp.Runtime.MapIsolation
import Grxcp.Runtime.EventOrder
import Grxcp.Lib.Sums
import Grxcp.Npu.Detect
import Grxcp.Npu.ShimTile
import Grxcp.Pta.TileCalibration
import Grxcp.Pta.TileRuns
import Grxcp.Lib.Agenda
import Grxcp.Transport.Bytes
import Grxcp.Transport.Calls
import Grxcp.Transport.Safety
