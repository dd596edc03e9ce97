import FosMemory.Layout
import FosMemory.Lib.Blocks
import FosMemory.Lib.Holes
import FosMemory.Lib.FirstIndex
import FosMemory.Lib.Outcome
import FosMemory.Lib.Overlay
import FosMemory.Lib.Positional
import FosMemory.Lib.Ring
import FosMemory.Lib.WordLoop
import FosMemory.Lib.WhileLoop
import FosMemory.Lib.Reverse
import FosMemory.Lib.Runs
import FosMemory.Lib.Count
import FosMemory.Lib.Linked
import FosMemory.Lib.Rotation
import FosMemory.UserHeap.Malloc
import FosMemory.UserHeap.Scan
import FosMemory.UserHeap.Invariant
import FosMemory.UserHeap.Fit
import FosMemory.UserHeap.FitResults
import FosMemory.UserHeap.NextFit
import FosMemory.UserHeap.AnyCall
import FosMemory.UserHeap.CallResults
import FosMemory.UserHeap.PageMalloc
import FosMemory.UserHeap.Interleaving
import FosMemory.Kernel.Entry
import FosMemory.Kernel.State
import FosMemory.Kernel.MemoryManager
import FosMemory.Kernel.Boot
import FosMemory.Kernel.BootCode
import FosMemory.Kernel.HeapInvariant
import FosMemory.Kernel.BootTables
import FosMemory.Kernel.BootResult
import FosMemory.Kernel.BootLists
import FosMemory.Kernel.HeapOps
import FosMemory.Kernel.HeapSpec
import FosMemory.Kernel.UserMap
import FosMemory.Kernel.FrameRun
import FosMemory.Kernel.FrameResults
import FosMemory.Kernel.HeapResults
import FosMemory.Kernel.Borrow
import FosMemory.Kernel.PageFileFree
import FosMemory.Kernel.WorkingSet
import FosMemory.Kernel.Entries
import FosMemory.Kernel.Access
import FosMemory.Kernel.Victim
import FosMemory.Kernel.Effects
import FosMemory.Kernel.Fault
import FosMemory.Kernel.Place
import FosMemory.Kernel.Handler
import FosMemory.Kernel.Alive
import FosMemory.Kernel.UserAccess
import FosMemory.Kernel.Ageing
import FosMemory.Kernel.HeapCalls
import FosMemory.Kernel.FreeMem
import FosMemory.Kernel.NewEnv
import FosMemory.Kernel.InitEnv
import FosMemory.Kernel.System
import FosMemory.Kernel.Replacement
import FosMemory.Kernel.SecondChance
import FosMemory.Kernel.Untouched
import FosMemory.Kernel.LoadOrder
import FosMemory.Kernel.LeastRecent
import FosMemory.Kernel.UseHistory
import FosMemory.Kernel.ProgramImage
import FosMemory.Kernel.Retained
import FosMemory.Kernel.LoadedBytes
import FosMemory.Kernel.InitialZeros
import FosMemory.Kernel.RangeRemoved
import FosMemory.Kernel.RangeLoops
import FosMemory.Kernel.FrameCost
import FosMemory.Kernel.EnvFree
import FosMemory.Kernel.LifeCycle
import FosMemory.Kernel.Isolation
import FosMemory.Kernel.PageFileCount
import FosMemory.Kernel.Residence
import FosMemory.Kernel.FlatMemory
import FosMemory.Kernel.HeapPages
import FosMemory.Sched.Queue
import FosMemory.Sched.Scheduler
import FosMemory.Sched.Ready
import FosMemory.Sched.Lists
import FosMemory.Sched.Loops
import FosMemory.Sched.SchedRun
import FosMemory.Sched.EnvIds
import FosMemory.Sched.Traps
import FosMemory.Syscall.Calls
import FosMemory.Syscall.Transparency
import FosMemory.Debug.StabSearch
import FosMemory.Debug.StabRegion
import FosMemory.Text.Decimal
import FosMemory.Text.Split
import FosMemory.UserHeap.KernelHeap
