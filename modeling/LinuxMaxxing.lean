import LinuxMaxxing.Lib.Transition
import LinuxMaxxing.Lib.CallStacks
import LinuxMaxxing.Lib.FirstMatch
import LinuxMaxxing.Lib.IntervalSweep
import LinuxMaxxing.Lib.ByteMemory
import LinuxMaxxing.Lib.BitMask
import LinuxMaxxing.Lib.BpfHash
import LinuxMaxxing.Lib.BpfLoop
import LinuxMaxxing.Lib.Exceptions
import LinuxMaxxing.Lib.Hoare
import LinuxMaxxing.Lib.Inevitable
import LinuxMaxxing.Lib.Json
import LinuxMaxxing.Lib.JsonLocality
import LinuxMaxxing.Lib.JsonLines
import LinuxMaxxing.Lib.Binary64
import LinuxMaxxing.Io.Edu
import LinuxMaxxing.Io.Qedu
import LinuxMaxxing.Io.DmaPhases
import LinuxMaxxing.Io.DmaEcho
import LinuxMaxxing.Io.Quiescence
import LinuxMaxxing.Io.Binding
import LinuxMaxxing.Io.ResultFile
import LinuxMaxxing.Io.Factorial
import LinuxMaxxing.Io.IntegerText
import LinuxMaxxing.Io.EngineSelection
import LinuxMaxxing.Io.Counters
import LinuxMaxxing.VirtIo.ToyDevice
import LinuxMaxxing.VirtIo.Confinement
import LinuxMaxxing.VirtIo.Refinement
import LinuxMaxxing.VirtIo.StaleBytes
import LinuxMaxxing.VirtIo.Guest
import LinuxMaxxing.VirtIo.GuestPhases
import LinuxMaxxing.VirtIo.GuestEnds
import LinuxMaxxing.Virtio.Layout
import LinuxMaxxing.Virtio.ProcessQueue
import LinuxMaxxing.Virtio.QueueService
import LinuxMaxxing.Virtio.Registers
import LinuxMaxxing.Virtio.Vmm
import LinuxMaxxing.Virtio.GuestDriver
import LinuxMaxxing.Scheduler.EnqueueProbes
import LinuxMaxxing.Lib.LevelOrder
import LinuxMaxxing.Lib.RedBlack
import LinuxMaxxing.Lib.PageTable
import LinuxMaxxing.Lib.Paging
import LinuxMaxxing.Lib.RadixTree
import LinuxMaxxing.Scheduler.Snapshot
import LinuxMaxxing.Scheduler.WriteSnapshot
import LinuxMaxxing.App.SchedulerView
import LinuxMaxxing.App.VerifyFrame
import LinuxMaxxing.App.FrameTree
import LinuxMaxxing.Scheduler.VerifySnapshot
import LinuxMaxxing.Common.JsonWriter
import LinuxMaxxing.Lib.Sink
import LinuxMaxxing.Lib.Utf8
import LinuxMaxxing.Lib.Regex
import LinuxMaxxing.Common.JsonCalls
import LinuxMaxxing.Common.JsonRoundTrip
import LinuxMaxxing.Framework.Publish
import LinuxMaxxing.Framework.PythonValue
import LinuxMaxxing.Framework.Validate
import LinuxMaxxing.Framework.ValidateErrors
import LinuxMaxxing.Framework.Typing
import LinuxMaxxing.Framework.Quality
import LinuxMaxxing.Framework.Record
import LinuxMaxxing.Framework.Observation
import LinuxMaxxing.Framework.NdjsonFile
import LinuxMaxxing.Framework.Control
import LinuxMaxxing.Framework.KeyValues
import LinuxMaxxing.Framework.Trace
import LinuxMaxxing.Framework.TraceHeader
import LinuxMaxxing.Framework.TraceLine
import LinuxMaxxing.Framework.TraceRecord
import LinuxMaxxing.Framework.TraceSyscall
import LinuxMaxxing.Lib.ShellWords
import LinuxMaxxing.Kapi.Tasks
import LinuxMaxxing.Kapi.TaskRoundTrip
import LinuxMaxxing.Kapi.Layout
import LinuxMaxxing.App.ParseCapture
import LinuxMaxxing.App.Agreement
import LinuxMaxxing.App.MemoryTrace
import LinuxMaxxing.VirtVtd.Event
import LinuxMaxxing.VirtVtd.HostProbes
import LinuxMaxxing.VirtVtd.HostPending
import LinuxMaxxing.VirtVtd.GuestProbes
import LinuxMaxxing.VirtVtd.GuestPending
import LinuxMaxxing.VirtVtd.GuestPhase
import LinuxMaxxing.VirtVtd.Gate
import LinuxMaxxing.VirtVtd.Ownership
import LinuxMaxxing.Memory.PhaseBoundary
import LinuxMaxxing.Memory.CacheWalk
import LinuxMaxxing.Memory.PageWalk
import LinuxMaxxing.Memory.Translation
import LinuxMaxxing.Memory.SampledPages
import LinuxMaxxing.Memory.WriteSnapshot
import LinuxMaxxing.VirtEpt.Callbacks
import LinuxMaxxing.VirtEpt.GfnWalk
import LinuxMaxxing.VirtEpt.WriteSnapshot
import LinuxMaxxing.Lib.Script
import LinuxMaxxing.Lib.FileSystem
import LinuxMaxxing.Environment.Bootstrap
import LinuxMaxxing.Environment.Archive
import LinuxMaxxing.Environment.SyncConfined
import LinuxMaxxing.Environment.SyncConverges
import LinuxMaxxing.Kapi.Allocators
import LinuxMaxxing.Virtio.Completion
import LinuxMaxxing.Virtio.Experiment
import LinuxMaxxing.Framework.PublishedRecords
import LinuxMaxxing.Virtio.ObservedTrace
