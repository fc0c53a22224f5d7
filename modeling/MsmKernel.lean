import MsmKernel.Lib.Run
import MsmKernel.Lib.XArray
import MsmKernel.Lib.Ring
import MsmKernel.Lib.Framing
import MsmKernel.Lib.Account
import MsmKernel.Lib.Windows
import MsmKernel.Lib.Tally
import MsmKernel.Halt
import MsmKernel.Qrtr.Pipe
import MsmKernel.Qrtr.Genpool
import MsmKernel.Qrtr.Gunyah
import MsmKernel.Qrtr.GunyahDelivery
import MsmKernel.Qrtr.NameService
import MsmKernel.Qrtr.Observers
import MsmKernel.Qrtr.Isolation
import MsmKernel.Qrtr.TxFlow
import MsmKernel.Walt.TopTasks
import MsmKernel.Walt.State
import MsmKernel.Walt.Demand
import MsmKernel.Walt.BusyTime
import MsmKernel.Walt.Update
import MsmKernel.Walt.Migration
import MsmKernel.Walt.Hooks
import MsmKernel.Walt.Frame
import MsmKernel.Walt.Acts
import MsmKernel.Walt.Effects
import MsmKernel.Walt.WindowAgreement
import MsmKernel.Walt.DemandTotals
import MsmKernel.Walt.RunqueueTotals
import MsmKernel.Walt.Placement
import MsmKernel.Walt.BusyCases
import MsmKernel.Walt.TaskWindows
import MsmKernel.Walt.Grid
import MsmKernel.Walt.AccountedTimes
import MsmKernel.Walt.TopTaskTables
import MsmKernel.Walt.TopTaskCounts
import MsmKernel.Walt.TopTaskRuns
import MsmKernel.Walt.Reserves
import MsmKernel.Walt.ReserveAccounting
import MsmKernel.Walt.ReserveLegs
import MsmKernel.Walt.ReserveActs
import MsmKernel.Walt.BusyTimeConservation
import MsmKernel.MemBuf.Hypervisor
import MsmKernel.MemBuf.Assignment
import MsmKernel.MemBuf.Supplier
import MsmKernel.MemBuf.SupplierIsolation
import MsmKernel.MemBuf.Vmperm
import MsmKernel.MemBuf.Lending
import MsmKernel.SecureBuffer.HypAssign
import MsmKernel.SecureBuffer.AllOrNothing
import MsmKernel.Lib.Custody
import MsmKernel.Heaps.PagePool
import MsmKernel.Heaps.SecureSystemHeap
import MsmKernel.Heaps.SecurePageCustody
import MsmKernel.Heaps.SecurePageOwnership
import MsmKernel.Heaps.SystemHeap
import MsmKernel.Heaps.ZeroedBuffers
import MsmKernel.Hab.Grant
import MsmKernel.Hab.GrantRoundTrip
import MsmKernel.Hab.Open
import MsmKernel.Hab.OpenQueue
import MsmKernel.Hab.OpenInvariant
import MsmKernel.Hab.OpenHandshake
import MsmKernel.Hab.Mimex
import MsmKernel.Hab.RevokeSafety
import MsmKernel.Hab.Pipe
import MsmKernel.Hab.PipeSafety
import MsmKernel.Lib.Bitmap
import MsmKernel.Iommu.PgtableFast
import MsmKernel.Iommu.PgtableFastLayout
import MsmKernel.Iommu.PgtableFastTranslation
import MsmKernel.Iommu.DmaSg
import MsmKernel.Iommu.FastMapping
import MsmKernel.Iommu.FastMappingSound
import MsmKernel.MemOffline.Hotplug
import MsmKernel.MemOffline.Requests
import MsmKernel.MemOffline.Refreshed
import MsmKernel.Glink.Tx
import MsmKernel.Glink.TxRing
import MsmKernel.Glink.Intents
import MsmKernel.Glink.IntentWakeups
import MsmKernel.Glink.Rx
import MsmKernel.Glink.RxDelivery
import MsmKernel.Walt.BusyBitmap
import MsmKernel.Lib.TailMoves
import MsmKernel.CoreCtl.Selection
import MsmKernel.CoreCtl.PauseSelection
import MsmKernel.CoreCtl.ResumeSelection
import MsmKernel.Lib.PriorityList
import MsmKernel.Walt.Mvp
import MsmKernel.Walt.MvpQueue
import MsmKernel.Walt.MvpDemotion
import MsmKernel.Walt.History
import MsmKernel.Walt.Prediction
import MsmKernel.Walt.DemandSamples
import MsmKernel.Walt.DemandSplit
import MsmKernel.Lib.PagedRing
import MsmKernel.Lib.EvictingQueue
import MsmKernel.IpcLog.Log
import MsmKernel.IpcLog.Positions
import MsmKernel.IpcLog.Messages
import MsmKernel.IpcLog.Refinement
import MsmKernel.Walt.ExecScale
import MsmKernel.Walt.Boost
import MsmKernel.Walt.Voter
import MsmKernel.Qrtr.Mhi
import MsmKernel.Qrtr.Endpoint
import MsmKernel.Qrtr.Transmit
import MsmKernel.Qrtr.TransmitFaithful
import MsmKernel.Hab.Scatter
import MsmKernel.Lib.SharedRegister
import MsmKernel.Hab.Stream
import MsmKernel.Hab.StreamIsolation
import MsmKernel.Hab.Receive
import MsmKernel.Lib.Losses
import MsmKernel.Hab.References
import MsmKernel.Hab.ReferenceBalance
import MsmKernel.Hab.Virtio
import MsmKernel.Iommu.Reservations
import MsmKernel.Heaps.BufferAssembly
import MsmKernel.MemBuf.Retrieval
import MsmKernel.Gunyah.IrqLend
import MsmKernel.Gunyah.HeapManager
import MsmKernel.Gunyah.MemLend
import MsmKernel.Gunyah.MsgqEntries
import MsmKernel.Dcvs
