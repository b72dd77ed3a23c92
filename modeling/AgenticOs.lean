import AgenticOs.Fs.Crash
import AgenticOs.Fs.DataSectors
import AgenticOs.Fs.Extents
import AgenticOs.Fs.FileData
import AgenticOs.Fs.FileOps
import AgenticOs.Fs.FileWrite
import AgenticOs.Fs.Files
import AgenticOs.Fs.IoErrors
import AgenticOs.Fs.Mount
import AgenticOs.Fs.MountErrors
import AgenticOs.Fs.Remount
import AgenticOs.Fs.SimpleFs
import AgenticOs.Fs.Vfs
import AgenticOs.Fs.Volume
import AgenticOs.Fs.Working
import AgenticOs.Kernel.ActiveDirectory
import AgenticOs.Kernel.Agreement
import AgenticOs.Kernel.Answers
import AgenticOs.Kernel.Bookkeeping
import AgenticOs.Kernel.Descriptors
import AgenticOs.Kernel.Elf
import AgenticOs.Kernel.ElfFailures
import AgenticOs.Kernel.ElfImage
import AgenticOs.Kernel.ElfRollback
import AgenticOs.Kernel.Exec
import AgenticOs.Kernel.Fairness
import AgenticOs.Kernel.FatalSignals
import AgenticOs.Kernel.Handlers
import AgenticOs.Kernel.Heap
import AgenticOs.Kernel.HeapRuns
import AgenticOs.Kernel.HeapTiling
import AgenticOs.Kernel.Machine
import AgenticOs.Kernel.OpenEffects
import AgenticOs.Kernel.Pids
import AgenticOs.Kernel.Process
import AgenticOs.Kernel.ProcessTable
import AgenticOs.Kernel.Quiet
import AgenticOs.Kernel.ReferenceRuns
import AgenticOs.Kernel.References
import AgenticOs.Kernel.Rescheduled
import AgenticOs.Kernel.RunQueue
import AgenticOs.Kernel.Runs
import AgenticOs.Kernel.Scheduler
import AgenticOs.Kernel.StackKinds
import AgenticOs.Kernel.State
import AgenticOs.Kernel.Syscall
import AgenticOs.Kernel.UserCopy
import AgenticOs.Kernel.WaitStatus
import AgenticOs.Kernel.WaitingParent
import AgenticOs.Lib.Allotment
import AgenticOs.Lib.Bits
import AgenticOs.Lib.Blocks
import AgenticOs.Lib.Bytes
import AgenticOs.Lib.Faults
import AgenticOs.Lib.Ledger
import AgenticOs.Lib.Program
import AgenticOs.Lib.Ring
import AgenticOs.Lib.StateError
import AgenticOs.Lib.Trace
import AgenticOs.Memory.ActivePages
import AgenticOs.Memory.AddressSpace
import AgenticOs.Memory.Boot
import AgenticOs.Memory.Clone
import AgenticOs.Memory.CopyOnWrite
import AgenticOs.Memory.Refusals
import AgenticOs.Memory.Destroy
import AgenticOs.Memory.Detect
import AgenticOs.Memory.Entry
import AgenticOs.Memory.Frame
import AgenticOs.Memory.FrameRuns
import AgenticOs.Memory.FrameSpec
import AgenticOs.Memory.Moves
import AgenticOs.Memory.Ownership
import AgenticOs.Memory.PageOps
import AgenticOs.Memory.Paging
import AgenticOs.Memory.PagingRun
import AgenticOs.Memory.PagingSteps
import AgenticOs.Memory.Spaces
import AgenticOs.Memory.UserAccess
import AgenticOs.Pipe
import AgenticOs.PipeFifo
import AgenticOs.Types
import AgenticOs.Fs.FileStore
import AgenticOs.Fs.StoreRefinement
import AgenticOs.Fs.FirstFit
import AgenticOs.Kernel.ElfEntry
import AgenticOs.Kernel.FaultRecovery
import AgenticOs.Kernel.FirstCome
import AgenticOs.Kernel.MemoryPolicy
import AgenticOs.Kernel.UserReads
import AgenticOs.Kernel.ElfLoaded
import AgenticOs.Fs.Paths
import AgenticOs.Fs.PathCalls
import AgenticOs.Fs.OtherDevices
import AgenticOs.Fs.Names
import AgenticOs.Fs.Namespace
import AgenticOs.Kernel.ExecStack
import AgenticOs.Memory.CloneUndone
import AgenticOs.Kernel.ForkRollback
import AgenticOs.Kernel.DeadSlots
import AgenticOs.Kernel.ForkUndone
import AgenticOs.Kernel.ImageSpace
import AgenticOs.Kernel.ExecUndone
import AgenticOs.Kernel.Isolation
import AgenticOs.Kernel.ExecProgram
import AgenticOs.Kernel.AllOrNothing
import AgenticOs.Fs.ReadLengths
import AgenticOs.Kernel.IsrReturns
import AgenticOs.Kernel.ExecBytes
