import Rabbits.Lib.Machine
import Rabbits.Lib.LinkedList
import Rabbits.Lib.Store
import Rabbits.Noc.Invalidate
import Rabbits.Cpu.Interrupts
import Rabbits.Cpu.Requests
import Rabbits.Cpu.ModeChange
import Rabbits.Energy.Etrace
import Rabbits.Noc.Crossbar
import Rabbits.Noc.Interconnect
import Rabbits.Noc.Bus
import Rabbits.Noc.Progress
import Rabbits.Noc.MasterDevice
import Rabbits.Noc.SendReq
import Rabbits.Noc.Order
import Rabbits.Cpu.FixedMode
import Rabbits.Cpu.Soc
import Rabbits.Cpu.PendingRead
import Rabbits.Mem.MemDevice
import Rabbits.Mem.Consistency
import Rabbits.Lib.Footprint
import Rabbits.Dbf.DbfDevice
import Rabbits.Dbf.Filter
import Rabbits.Dbf.Slices
import Rabbits.Dbf.SliceOrder
import Rabbits.Lib.Since
import Rabbits.Lib.KeyTable
import Rabbits.Exclusive.Calls
import Rabbits.Exclusive.RogerTable
import Rabbits.Exclusive.SlotTable
import Rabbits.Exclusive.Bound
import Rabbits.Driver.H264Dbf
import Rabbits.Driver.Delivery
import Rabbits.Lib.Labelled
import Rabbits.Block.BlockDevice
import Rabbits.Block.HostFile
import Rabbits.Block.Status
import Rabbits.Block.Commands
import Rabbits.Block.Sampling
import Rabbits.Block.Dma
import Rabbits.Block.Polling
import Rabbits.Block.Transfer
import Rabbits.Fb.FbDevice
import Rabbits.Fb.Link
import Rabbits.Fb.Refresh
import Rabbits.Fb.Rounds
import Rabbits.Fb.Attached
import Rabbits.Noc.SlaveRequests
import Rabbits.Driver.HostAccess
import Rabbits.Dbf.Requests
import Rabbits.Dbf.IrqLine
import Rabbits.Dbf.Interrupts
import Rabbits.Driver.DbfLine
import Rabbits.Driver.IntWait
import Rabbits.Lib.Scanf
import Rabbits.Noc.MapLoader
import Rabbits.Dbf.SramCopy
import Rabbits.Dbf.SramRace
import Rabbits.Lib.Stream
import Rabbits.Energy.Chronograph
import Rabbits.Energy.Groups
import Rabbits.Energy.Display
import Rabbits.Cpu.CpuLogs
import Rabbits.Cpu.EnergyMode
import Rabbits.Cpu.TimeAtFv
import Rabbits.Cpu.Wakeup
import Rabbits.Cpu.IntPending
import Rabbits.Lib.ArrayCode
import Rabbits.Mem.Shapes
import Rabbits.Fb.SlFbDevice
import Rabbits.Mem.ArrayBounds
import Rabbits.Noc.Translation
import Rabbits.Noc.Backdoor
import Rabbits.Fb.FrameAccess
import Rabbits.Viewer.FbViewer
import Rabbits.Fb.FrameSize
import Rabbits.Lib.ArrayLoop
import Rabbits.Viewer.Conv
import Rabbits.Viewer.ConvBounds
import Rabbits.Viewer.YuvPixels
import Rabbits.Viewer.Orders
import Rabbits.Dbf.EdgeCalls
import Rabbits.Dbf.ChromaEdges
import Rabbits.Dbf.Strength
import Rabbits.Dbf.SampleBounds
import Rabbits.Dbf.Thresholds
import Rabbits.Lib.Recorded
import Rabbits.Dbf.DbfCode
import Rabbits.Dbf.LinkIndices
import Rabbits.Dbf.SliceIndices
import Rabbits.Dbf.Indices
import Rabbits.Dbf.EdgeMetadata
import Rabbits.Lib.Raster
import Rabbits.Dbf.CopyScan
import Rabbits.Dbf.CopyPlaces
import Rabbits.Aicu.AicuDevice
import Rabbits.Mailbox.SlMailbox
import Rabbits.Timer.SlTimer
import Rabbits.Lib.Schedule
import Rabbits.Timer.Periods
import Rabbits.Timer.TimerDevice
import Rabbits.Lib.Ring
import Rabbits.Tty.TtySerial
import Rabbits.Lib.Lock
import Rabbits.Mem.Semaphores
import Rabbits.Cpu.Measure
import Rabbits.Energy.MeanPower
import Rabbits.Energy.RollAverage
import Rabbits.Cpu.Halves
import Rabbits.Cpu.Indices
import Rabbits.Block.Passes
import Rabbits.Block.Buffer
import Rabbits.Block.Completion
import Rabbits.Block.Ranges
import Rabbits.Block.Histories
import Rabbits.Block.HostErrors
import Rabbits.Lib.Assign
import Rabbits.Platform.Cmdline
import Rabbits.Platform.Platforms
import Rabbits.Platform.KernelArgs
import Rabbits.Lib.Region
import Rabbits.Platform.LoadKernel
import Rabbits.Driver.OpenName
import Rabbits.Driver.ReadFile
import Rabbits.Driver.IntRegister
import Rabbits.Cpu.ConsumeCycles
import Rabbits.Fb.Ramdac
import Rabbits.Fb.IrqSummary
import Rabbits.Noc.FifoThreads
import Rabbits.Cpu.RequestPool
import Rabbits.Noc.Drain
import Rabbits.Lib.Calls
import Rabbits.Block.FileSize
import Rabbits.Driver.FileCalls
import Rabbits.Lib.Isolation
import Rabbits.Dbf.Isolation
import Rabbits.Tty.TermRw
import Rabbits.Tty.Console
import Rabbits.Fb.Shown
import Rabbits.Cpu.AccessEnd
import Rabbits.Tg.TgDevice
import Rabbits.Tty.SlTty
