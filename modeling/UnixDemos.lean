import UnixDemos.Library.Run
import UnixDemos.Library.Links
import UnixDemos.Library.Slice
import UnixDemos.Library.CInt
import UnixDemos.Library.CString
import UnixDemos.Library.Descriptor
import UnixDemos.Library.Stream
import UnixDemos.Library.Stdio
import UnixDemos.Library.Decimal
import UnixDemos.Library.Pipe
import UnixDemos.Library.Tiles
import UnixDemos.Library.FileSystem
import UnixDemos.Pthread.JobQueue
import UnixDemos.Pthread.JobQueueRefinement
import UnixDemos.Pthread.BarrierSort
import UnixDemos.Pthread.BarrierMerge
import UnixDemos.Pthread.RefCount
import UnixDemos.Pthread.RefCountSafety
import UnixDemos.Pthread.RefCountProgram
import UnixDemos.Pthread.JobQueueConfluence
import UnixDemos.Pthread.JobQueueSearch
import UnixDemos.Pthread.JobQueueProgram
import UnixDemos.Pthread.JobQueueReader
import UnixDemos.Pthread.BarrierSeparation
import UnixDemos.Pthread.BarrierCursor
import UnixDemos.Pthread.GetenvIsolation
import UnixDemos.Pthread.GetenvSelection
import UnixDemos.Pthread.GetenvString
import UnixDemos.Pthread.Timeout
import UnixDemos.Pthread.TimeoutOnce
import UnixDemos.EpollDemo.Server
import UnixDemos.EpollDemo.ServerRegistration
import UnixDemos.EpollDemo.ServerEcho
import UnixDemos.EpollDemo.ServerScan
import UnixDemos.EpollDemo.Client
import UnixDemos.EpollDemo.ClientModes
import UnixDemos.EpollDemo.ClientLockstep
import UnixDemos.IPC.Fifo
import UnixDemos.IPC.FifoReadline
import UnixDemos.IPC.Add2
import UnixDemos.IPC.Coprocess
import UnixDemos.IPC.CoprocessLockstep
import UnixDemos.IPC.CoprocessDeadlock
import UnixDemos.IPC.SemLock
import UnixDemos.IPC.SemName
import UnixDemos.IPC.Add2Stream
import UnixDemos.IPC.Add2Sum
import UnixDemos.IPC.MmapDemo
import UnixDemos.IPC.Pager
import UnixDemos.Daemon.SingleInstance
import UnixDemos.Daemon.Daemonize
import UnixDemos.Signal.SigSuspend
import UnixDemos.Signal.RtSigRecv
import UnixDemos.Flock.TellWait
import UnixDemos.TermIo.Getpass
import UnixDemos.TermIo.GetpassWipe
import UnixDemos.FileIo.FutimensDemo
import UnixDemos.Library.RangeLock
import UnixDemos.Library.Monitor
import UnixDemos.Pthread.ConditionSignal
import UnixDemos.Pthread.PthreadSignal
import UnixDemos.EpollDemo.Network
import UnixDemos.Flock.LockReg
import UnixDemos.Flock.Deadlock
import UnixDemos.Signal.SigWaitinfo
import UnixDemos.Signal.SigReceiver
import UnixDemos.Signal.SigJump
import UnixDemos.IPC.CoprocessSums
import UnixDemos.IPC.Plumbing
