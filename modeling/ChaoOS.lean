import ChaoOS.IndexList
import ChaoOS.DyadicTiling
import ChaoOS.BuddyLayout
import ChaoOS.KernelMath
import ChaoOS.FrameTableModel
import ChaoOS.FrameTableBlocks
import ChaoOS.FrameTableAlloc
import ChaoOS.FrameTableFree
import ChaoOS.FrameTableInit
import ChaoOS.GuardedRun
import ChaoOS.FrameTableRuns
import ChaoOS.FrameTableBounds
import ChaoOS.FrameTableRecovery
import ChaoOS.PageDirectory
import ChaoOS.HashMapModel
import ChaoOS.HashMapProbing
import ChaoOS.HashMapContents
import ChaoOS.HashMapRuns
import ChaoOS.SliceHeapModel
import ChaoOS.SliceLists
import ChaoOS.SlicePages
import ChaoOS.SliceHeapInvariant
import ChaoOS.SliceHeapAlloc
import ChaoOS.SliceHeapGrow
import ChaoOS.SliceHeapMalloc
import ChaoOS.SliceHeapFree
import ChaoOS.SliceHeapRuns
import ChaoOS.SliceHeapExact
import ChaoOS.KernelPageTables
import ChaoOS.ZoneLayout
import ChaoOS.LinkedRing
import ChaoOS.ListHead
import ChaoOS.TaskModel
import ChaoOS.TaskRings
import ChaoOS.BlockingSchedule
import ChaoOS.ThreadLifetimes
import ChaoOS.TaskRegistry
import ChaoOS.RoundRobin
import ChaoOS.TaskFairness
import ChaoOS.MutexMachine
import ChaoOS.QueueMachine
import ChaoOS.QueueWakeUps
import ChaoOS.CircularLayout
import ChaoOS.QueueContents
import ChaoOS.ListSequences
import ChaoOS.NumberText
import ChaoOS.PrintfModel
import ChaoOS.PrintfRendering
import ChaoOS.KeyboardModel
import ChaoOS.KeyboardBounds
import ChaoOS.KeyboardModifiers
import ChaoOS.ByteMemory
import ChaoOS.ContextSwitch
import ChaoOS.ContextRuns
import ChaoOS.TerminalModel
import ChaoOS.TerminalScreen
import ChaoOS.BlockPacking
import ChaoOS.FrameTableGrants
import ChaoOS.FrameTableLinks
import ChaoOS.FrameTableRejects
import ChaoOS.FrameTableReturns
import ChaoOS.FrameTableTiling
import ChaoOS.RequestSizing
import ChaoOS.HashMapLoad
import ChaoOS.HashMapSizes
import ChaoOS.HashMapVacancy
import ChaoOS.KernelHeap
import ChaoOS.OutOfMemory
import ChaoOS.LargeBlocks
import ChaoOS.DenseManagers
import ChaoOS.DenseSlices
import ChaoOS.BootPageTables
import ChaoOS.FailedMap
import ChaoOS.ThreadStart
import ChaoOS.TimerModel
import ChaoOS.TimerRates
import ChaoOS.TimerRemoval
import ChaoOS.BackBuffer
import ChaoOS.QueueOrder
import ChaoOS.NumberParsing
import ChaoOS.MemoryMove
import ChaoOS.MultibootMap
import ChaoOS.HashMapCoverage
import ChaoOS.DescriptorTables
import ChaoOS.HeapFrames
import ChaoOS.InterruptController
import ChaoOS.InterruptDispatch
import ChaoOS.MemoryManager
import ChaoOS.MemoryRuns
import ChaoOS.MemorySafety
import ChaoOS.AddressSpace
import ChaoOS.ClockInterrupts
import ChaoOS.ConcurrentPrint
import ChaoOS.FrameBuffer
import ChaoOS.FreeReport
import ChaoOS.KeyboardTyping
import ChaoOS.ScrollHistory
import ChaoOS.SpinLock
import ChaoOS.TextTerminal
import ChaoOS.TimeSlices
import ChaoOS.BootMemory
import ChaoOS.ScreenRefresh
import ChaoOS.ThreadMemory
import ChaoOS.MemoryContents
