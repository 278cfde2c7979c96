import Xpty.StepSystem
import Xpty.OneShot
import Xpty.FailFast
import Xpty.FirstHit
import Xpty.OrderedMap
import Xpty.DelimitedPairs
import Xpty.LineDiscipline
import Xpty.Ledger
import Xpty.Cell
import Xpty.Rounds
import Xpty.Common
import Xpty.OsStr
import Xpty.Builder
import Xpty.UnixPath
import Xpty.UnixCommand
import Xpty.BuilderEq
import Xpty.UnixSearch
import Xpty.UnixEnv
import Xpty.BuilderHistory
import Xpty.Serial
import Xpty.UnixShell
import Xpty.UnixSpawn
import Xpty.CloseFds
import Xpty.UnixKill
import Xpty.TakeWriter
import Xpty.UnixWriter
import Xpty.UnixTty
import Xpty.UnixSession
import Xpty.UnixExec
import Xpty.UnixProgram
import Xpty.UnixHangup
import Xpty.UnixControl
import Xpty.WinPath
import Xpty.WinAbsolute
import Xpty.WinBaseEnv
import Xpty.WinCmdline
import Xpty.WinArgv
import Xpty.WinBatch
import Xpty.WinEnvBlock
import Xpty.WinNames
import Xpty.WinSpawn
import Xpty.ChildDirectory
import Xpty.WinSearch
import Xpty.WinLaunch
import Xpty.WinProgram
import Xpty.WinFuture
import Xpty.WinArmed
import Xpty.WinAwait
import Xpty.WinExit
import Xpty.ConPty
import Xpty.WinSession
import Xpty.ConPtyLoad
import Xpty.ChildStatus
import Xpty.WaitStatus
import Xpty.ChildKill
