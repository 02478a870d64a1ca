import Warpine.Loader.MemoryManager
import Warpine.Loader.HandleSpace
import Warpine.Lx.Fixup
import Warpine.Ipc.Mutex
import Warpine.Ipc.Queue
import Warpine.Loader.Fixups
import Warpine.Loader.Dll
import Warpine.Loader.DllLinks
import Warpine.Lib.Posix
import Warpine.Loader.Codepage
import Warpine.Vfs.HostDir
import Warpine.Loader.FindFiles
import Warpine.Loader.FindRecords
import Warpine.Loader.FindSearch
import Warpine.Linker.State
import Warpine.Linker.Writer
import Warpine.Linker.ReadBack
import Warpine.Linker.Relocated
import Warpine.Linker.RoundTrip
import Warpine.Linker.Patched
import Warpine.Linker.Load
import Warpine.Linker.ElfReader
import Warpine.Lib.Layout
import Warpine.Linker.Placement
import Warpine.Loader.DllErrors
import Warpine.Loader.DllPages
import Warpine.Ipc.MuxWait
import Warpine.Lib.Fields
import Warpine.Vfs.CurrentDir
import Warpine.Lib.FileTree
import Warpine.Lib.FileOps
import Warpine.Vfs.HostRun
import Warpine.Vfs.CacheCoherence
import Warpine.Vfs.CaseDistinct
import Warpine.Vfs.SharingTable
import Warpine.Vfs.Reach
import Warpine.Vfs.Sandbox
import Warpine.Loader.StubArea
import Warpine.Lib.Brackets
import Warpine.Pm.WindowRun
import Warpine.Vcpu.DialogLoop
import Warpine.Vcpu.CallbackStack
import Warpine.Vcpu.Seh
import Warpine.Vcpu.ThreadChains
import Warpine.Vcpu.ModuleCalls
import Warpine.Vcpu.ModuleRefs
import Warpine.Vcpu.ModuleStarts
import Warpine.Ipc.Names
import Warpine.Ipc.OpenByName
import Warpine.Lib.Patches
import Warpine.Vcpu.Gdb
import Warpine.Vcpu.GdbStops
import Warpine.Lib.Forest
import Warpine.Pm.WindowTree
import Warpine.Pm.Timers
import Warpine.Vfs.ExtendedAttrs
import Warpine.Vfs.EaStores
import Warpine.Vfs.EaRuns
import Warpine.Lib.Holdings
import Warpine.Vfs.FileLocks
import Warpine.Vfs.LockRuns
import Warpine.Lib.Panics
import Warpine.Ne.Header
import Warpine.Ne.Tables
import Warpine.Ne.File
import Warpine.Ne.Safety
import Warpine.Lib.Attempts
import Warpine.Lx.Sized
import Warpine.Loader.LoadExe
import Warpine.Vcpu.StartUp
import Warpine.Lx.ProcNames
import Warpine.Linker.PageMap
import Warpine.Vio.Calls
import Warpine.Vio.Screen
import Warpine.Vio.Codepages
import Warpine.Vio.ReadBack
import Warpine.Vcpu.ProcAddr
import Warpine.Vcpu.StartLayout
import Warpine.Ne.Sized
import Warpine.Vcpu.NeExec
import Warpine.Vcpu.NeStart
import Warpine.Loader.Pipes
import Warpine.Lib.Custody
import Warpine.Loader.ChildProcesses
import Warpine.Vcpu.CommandLine
import Warpine.Lib.Feed
import Warpine.Vio.Keyboard
import Warpine.Vio.KeyAccounts
import Warpine.Vio.KeyLines
import Warpine.Vcpu.RaiseResume
import Warpine.Lib.Orbit
import Warpine.Vcpu.HandlerSearch
import Warpine.Lib.Splits
import Warpine.Vfs.Wildcards
import Warpine.Vfs.AbsolutePaths
import Warpine.Vfs.PathWalk
import Warpine.Lib.Descriptors
import Warpine.Vfs.OpenRights
import Warpine.Guest.Footprint
import Warpine.Loader.SourceFields
import Warpine.Vcpu.Selectors
import Warpine.Loader.Rebase
import Warpine.Vcpu.NePatches
import Warpine.Vcpu.NeTiles
import Warpine.Vfs.SidecarFormat
import Warpine.Loader.EaListBounds
import Warpine.Loader.FindLinks
import Warpine.Lib.Calendar
import Warpine.Vfs.DosTimes
import Warpine.Lib.Units
import Warpine.Loader.MapCase
import Warpine.Loader.CapitalLetters
import Warpine.Loader.CaseBuffers
import Warpine.Lib.Utf16
import Warpine.Loader.Uconv
import Warpine.Loader.UconvCalls
import Warpine.Lib.Shifts
import Warpine.Vio.Scrolling
import Warpine.Vio.CellKinds
import Warpine.Pm.Stacking
import Warpine.Pm.MenuTemplates
import Warpine.Pm.DialogTemplates
import Warpine.Loader.SystemInfo
import Warpine.Loader.EnvScan
import Warpine.Loader.EditName
import Warpine.Cmd.Dir
import Warpine.Cmd.Parse
import Warpine.Cmd.Quotes
import Warpine.Cmd.LineDisplay
import Warpine.Gui.RenderRect
import Warpine.Loader.MciSeek
import Warpine.Vcpu.NeThunks
import Warpine.Loader.Sockets
import Warpine.Lib.Bits
import Warpine.Loader.SocketSelect
import Warpine.Loader.HostRecords
import Warpine.Vcpu.Far16
import Warpine.Lib.Echo
import Warpine.Vio.StdinModes
import Warpine.Loader.DosRead
import Warpine.Vcpu.CreateThread
import Warpine.Lib.DigitalLine
import Warpine.Loader.CrashDump
import Warpine.Gui.RenderLine
import Warpine.Gui.RenderText
import Warpine.Gui.Overflow
import Warpine.Gui.Messages
import Warpine.Loader.GpiCalls
import Warpine.Vio.Overflow
import Warpine.Gui.Compositor
import Warpine.Gui.FrameRegions
import Warpine.Gui.HitAgreement
import Warpine.Mci.Playback
import Warpine.Mci.Ownership
import Warpine.Mci.PlaybackRun
import Warpine.Mci.Notices
import Warpine.Api.DefFile
import Warpine.Api.TraceGen
import Warpine.Api.TraceScan
import Warpine.Vcpu.Handshake
import Warpine.Cmd.Shell
import Warpine.Cmd.Pipeline
