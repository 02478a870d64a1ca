import Warpine.Loader.Constants

/-! The table of emulated API functions, by flat ordinal. -/
namespace Warpine.Loader

structure ApiEntry where
  ordinal : Nat
  module : String
  name : String
deriving DecidableEq, Repr

/-- In ascending order of ordinals. -/
def registry : List ApiEntry := [
  ⟨8, "DOSCALLS", "DosGetInfoSeg"⟩, ⟨75, "DOSCALLS", "DosQueryFileMode16"⟩,
  ⟨84, "DOSCALLS", "DosSetFileMode"⟩, ⟨110, "DOSCALLS", "DosForceDelete"⟩,
  ⟨111, "DOSCALLS", "DosKillThread"⟩, ⟨209, "DOSCALLS", "DosSetMaxFH"⟩,
  ⟨210, "DOSCALLS", "DosSetVerify"⟩, ⟨212, "DOSCALLS", "DosError"⟩,
  ⟨218, "DOSCALLS", "DosSetFileInfo"⟩, ⟨219, "DOSCALLS", "DosSetPathInfo"⟩,
  ⟨220, "DOSCALLS", "DosSetDefaultDisk"⟩, ⟨221, "DOSCALLS", "DosSetFHState"⟩,
  ⟨223, "DOSCALLS", "DosQueryPathInfo"⟩, ⟨224, "DOSCALLS", "DosQueryHType"⟩,
  ⟨225, "DOSCALLS", "DosQueryVerify"⟩, ⟨226, "DOSCALLS", "DosDeleteDir"⟩,
  ⟨227, "DOSCALLS", "DosScanEnv"⟩, ⟨229, "DOSCALLS", "DosSleep"⟩,
  ⟨230, "DOSCALLS", "DosGetDateTime"⟩, ⟨231, "DOSCALLS", "DosDevConfig"⟩,
  ⟨234, "DOSCALLS", "DosExit"⟩, ⟨235, "DOSCALLS", "DosKillProcess"⟩,
  ⟨236, "DOSCALLS", "DosSetPriority"⟩, ⟨239, "DOSCALLS", "DosCreatePipe"⟩,
  ⟨241, "DOSCALLS", "DosConnectNPipe"⟩, ⟨243, "DOSCALLS", "DosCreateNPipe"⟩,
  ⟨250, "DOSCALLS", "DosSetNPHState"⟩, ⟨254, "DOSCALLS", "DosResetBuffer"⟩,
  ⟨255, "DOSCALLS", "DosSetCurrentDir"⟩, ⟨256, "DOSCALLS", "DosSetFilePtr"⟩,
  ⟨257, "DOSCALLS", "DosClose"⟩, ⟨258, "DOSCALLS", "DosCopy"⟩, ⟨259, "DOSCALLS", "DosDelete"⟩,
  ⟨260, "DOSCALLS", "DosDupHandle"⟩, ⟨261, "DOSCALLS", "DosEditName"⟩,
  ⟨263, "DOSCALLS", "DosFindClose"⟩, ⟨264, "DOSCALLS", "DosFindFirst"⟩,
  ⟨265, "DOSCALLS", "DosFindNext"⟩, ⟨267, "DOSCALLS", "DOS16REQUESTVDD"⟩,
  ⟨270, "DOSCALLS", "DosCreateDir"⟩, ⟨271, "DOSCALLS", "DosMove"⟩,
  ⟨272, "DOSCALLS", "DosSetFileSize"⟩, ⟨273, "DOSCALLS", "DosOpen"⟩,
  ⟨274, "DOSCALLS", "DosQueryCurrentDir"⟩, ⟨275, "DOSCALLS", "DosQueryCurrentDisk"⟩,
  ⟨276, "DOSCALLS", "DosQueryFHState"⟩, ⟨277, "DOSCALLS", "DosQueryFSAttach"⟩,
  ⟨278, "DOSCALLS", "DosQueryFSInfo"⟩, ⟨279, "DOSCALLS", "DosQueryFileInfo"⟩,
  ⟨280, "DOSCALLS", "DosWaitChild"⟩, ⟨281, "DOSCALLS", "DosRead"⟩, ⟨282, "DOSCALLS", "DosWrite"⟩,
  ⟨283, "DOSCALLS", "DosExecPgm"⟩, ⟨284, "DOSCALLS", "DosDevIOCtl"⟩,
  ⟨285, "DOSCALLS", "DosFSCtl"⟩, ⟨286, "DOSCALLS", "DosBeep"⟩,
  ⟨289, "DOSCALLS", "DosSetProcessCp"⟩, ⟨291, "DOSCALLS", "DosQueryCp"⟩,
  ⟨292, "DOSCALLS", "DosSetDateTime"⟩, ⟨299, "DOSCALLS", "DosAllocMem"⟩,
  ⟨300, "DOSCALLS", "DosAllocSharedMem"⟩, ⟨301, "DOSCALLS", "DosGetNamedSharedMem"⟩,
  ⟨302, "DOSCALLS", "DosGetSharedMem"⟩, ⟨304, "DOSCALLS", "DosFreeMem"⟩,
  ⟨305, "DOSCALLS", "DosSetMem"⟩, ⟨306, "DOSCALLS", "DosQueryMem"⟩,
  ⟨311, "DOSCALLS", "DosCreateThread"⟩, ⟨312, "DOSCALLS", "DosGetInfoBlocks"⟩,
  ⟨317, "DOSCALLS", "DosDebug"⟩, ⟨318, "DOSCALLS", "DosLoadModule"⟩,
  ⟨319, "DOSCALLS", "DosQueryModuleHandle"⟩, ⟨321, "DOSCALLS", "DosQueryProcAddr"⟩,
  ⟨322, "DOSCALLS", "DosFreeModule"⟩, ⟨323, "DOSCALLS", "DosQueryAppType"⟩,
  ⟨324, "DOSCALLS", "DosCreateEventSem"⟩, ⟨325, "DOSCALLS", "DosOpenEventSem"⟩,
  ⟨326, "DOSCALLS", "DosCloseEventSem"⟩, ⟨328, "DOSCALLS", "DosPostEventSem"⟩,
  ⟨329, "DOSCALLS", "DosWaitEventSem"⟩, ⟨331, "DOSCALLS", "DosCreateMutexSem"⟩,
  ⟨332, "DOSCALLS", "DosOpenMutexSem"⟩, ⟨333, "DOSCALLS", "DosCloseMutexSem"⟩,
  ⟨334, "DOSCALLS", "DosRequestMutexSem"⟩, ⟨335, "DOSCALLS", "DosReleaseMutexSem"⟩,
  ⟨337, "DOSCALLS", "DosCreateMuxWaitSem"⟩, ⟨339, "DOSCALLS", "DosCloseMuxWaitSem"⟩,
  ⟨340, "DOSCALLS", "DosWaitMuxWaitSem"⟩, ⟨342, "DOSCALLS", "DosDeleteMuxWaitSem"⟩,
  ⟨348, "DOSCALLS", "DosQuerySysInfo"⟩, ⟨349, "DOSCALLS", "DosWaitThread"⟩,
  ⟨352, "DOSCALLS", "DosGetResource"⟩, ⟨353, "DOSCALLS", "DosFreeResource"⟩,
  ⟨354, "DOSCALLS", "DosSetExceptionHandler"⟩, ⟨355, "DOSCALLS", "DosUnsetExceptionHandler"⟩,
  ⟨356, "DOSCALLS", "DosRaiseException"⟩, ⟨357, "DOSCALLS", "DosUnwindException"⟩,
  ⟨368, "DOSCALLS", "DosQuerySysState"⟩, ⟨372, "DOSCALLS", "DosEnumAttribute"⟩,
  ⟨373, "DOSCALLS", "DosQueryDBCSEnv"⟩, ⟨378, "DOSCALLS", "DosSetSignalExceptionFocus"⟩,
  ⟨380, "DOSCALLS", "DosEnterMustComplete"⟩, ⟨381, "DOSCALLS", "DosExitMustComplete"⟩,
  ⟨382, "DOSCALLS", "DosSetRelMaxFH"⟩, ⟨397, "DOSCALLS", "DosQueryCtryInfo"⟩,
  ⟨415, "DOSCALLS", "DosShutdown"⟩, ⟨418, "DOSCALLS", "DosAcknowledgeSignalException"⟩,
  ⟨425, "DOSCALLS", "DosFlatToSel"⟩, ⟨426, "DOSCALLS", "DosSelToFlat"⟩,
  ⟨428, "DOSCALLS", "DosSetFileLocks"⟩, ⟨572, "DOSCALLS", "DosQueryResourceSize"⟩,
  ⟨639, "DOSCALLS", "DosProtectSetFileLocks"⟩, ⟨873, "DOSCALLS", "DosSetExtLIBPATH"⟩,
  ⟨874, "DOSCALLS", "DosQueryExtLIBPATH"⟩, ⟨1024 + 9, "QUECALLS", "DosReadQueue"⟩,
  ⟨1024 + 10, "QUECALLS", "DosPurgeQueue"⟩, ⟨1024 + 11, "QUECALLS", "DosCloseQueue"⟩,
  ⟨1024 + 12, "QUECALLS", "DosQueryQueue"⟩, ⟨1024 + 14, "QUECALLS", "DosWriteQueue"⟩,
  ⟨1024 + 15, "QUECALLS", "DosOpenQueue"⟩, ⟨1024 + 16, "QUECALLS", "DosCreateQueue"⟩,
  ⟨nlsBase + 5, "NLS", "NlsQueryCp"⟩, ⟨nlsBase + 6, "NLS", "NlsQueryCtryInfo"⟩,
  ⟨nlsBase + 7, "NLS", "NlsMapCase"⟩, ⟨nlsBase + 8, "NLS", "NlsGetDBCSEv"⟩,
  ⟨msgBase + 3, "MSG", "DosPutMessage"⟩, ⟨msgBase + 6, "MSG", "DosGetMessage"⟩,
  ⟨mdmBase + 1, "MDM", "mciSendCommand"⟩, ⟨mdmBase + 2, "MDM", "mciSendString"⟩,
  ⟨mdmBase + 3, "MDM", "mciFreeBlock"⟩, ⟨mdmBase + 4, "MDM", "mciGetLastError"⟩,
  ⟨uconvBase + 1, "UCONV", "UniCreateUconvObject"⟩,
  ⟨uconvBase + 2, "UCONV", "UniFreeUconvObject"⟩, ⟨uconvBase + 3, "UCONV", "UniUconvToUcs"⟩,
  ⟨uconvBase + 4, "UCONV", "UniUconvFromUcs"⟩, ⟨uconvBase + 6, "UCONV", "UniMapCpToUcsCp"⟩,
  ⟨so32dllBase + 1, "SO32DLL", "accept"⟩, ⟨so32dllBase + 2, "SO32DLL", "bind"⟩,
  ⟨so32dllBase + 3, "SO32DLL", "connect"⟩, ⟨so32dllBase + 4, "SO32DLL", "gethostid"⟩,
  ⟨so32dllBase + 5, "SO32DLL", "gethostname"⟩, ⟨so32dllBase + 6, "SO32DLL", "getpeername"⟩,
  ⟨so32dllBase + 7, "SO32DLL", "getsockname"⟩, ⟨so32dllBase + 8, "SO32DLL", "getsockopt"⟩,
  ⟨so32dllBase + 10, "SO32DLL", "listen"⟩, ⟨so32dllBase + 11, "SO32DLL", "recv"⟩,
  ⟨so32dllBase + 12, "SO32DLL", "recvfrom"⟩, ⟨so32dllBase + 13, "SO32DLL", "select"⟩,
  ⟨so32dllBase + 14, "SO32DLL", "send"⟩, ⟨so32dllBase + 15, "SO32DLL", "sendto"⟩,
  ⟨so32dllBase + 16, "SO32DLL", "setsockopt"⟩, ⟨so32dllBase + 17, "SO32DLL", "shutdown"⟩,
  ⟨so32dllBase + 18, "SO32DLL", "sock_errno"⟩, ⟨so32dllBase + 19, "SO32DLL", "socket"⟩,
  ⟨so32dllBase + 20, "SO32DLL", "soclose"⟩, ⟨so32dllBase + 21, "SO32DLL", "psock_errno"⟩,
  ⟨so32dllBase + 22, "SO32DLL", "sock_init"⟩, ⟨so32dllBase + 40, "SO32DLL", "gethostbyname"⟩,
  ⟨so32dllBase + 41, "SO32DLL", "gethostbyaddr"⟩, ⟨so32dllBase + 42, "SO32DLL", "getservbyname"⟩,
  ⟨so32dllBase + 43, "SO32DLL", "getservbyport"⟩,
  ⟨so32dllBase + 44, "SO32DLL", "getprotobyname"⟩,
  ⟨so32dllBase + 45, "SO32DLL", "getprotobynumber"⟩, ⟨tcp32dllBase + 1, "TCP32DLL", "accept"⟩,
  ⟨tcp32dllBase + 2, "TCP32DLL", "bind"⟩, ⟨tcp32dllBase + 3, "TCP32DLL", "connect"⟩,
  ⟨tcp32dllBase + 6, "TCP32DLL", "getpeername"⟩, ⟨tcp32dllBase + 7, "TCP32DLL", "getsockname"⟩,
  ⟨tcp32dllBase + 8, "TCP32DLL", "getsockopt"⟩, ⟨tcp32dllBase + 10, "TCP32DLL", "listen"⟩,
  ⟨tcp32dllBase + 11, "TCP32DLL", "recv"⟩, ⟨tcp32dllBase + 12, "TCP32DLL", "recvfrom"⟩,
  ⟨tcp32dllBase + 13, "TCP32DLL", "select"⟩, ⟨tcp32dllBase + 14, "TCP32DLL", "send"⟩,
  ⟨tcp32dllBase + 15, "TCP32DLL", "sendto"⟩, ⟨tcp32dllBase + 16, "TCP32DLL", "setsockopt"⟩,
  ⟨tcp32dllBase + 17, "TCP32DLL", "shutdown"⟩, ⟨tcp32dllBase + 18, "TCP32DLL", "sock_errno"⟩,
  ⟨tcp32dllBase + 19, "TCP32DLL", "socket"⟩, ⟨tcp32dllBase + 20, "TCP32DLL", "soclose"⟩,
  ⟨tcp32dllBase + 22, "TCP32DLL", "sock_init"⟩, ⟨tcp32dllBase + 40, "TCP32DLL", "gethostbyname"⟩,
  ⟨tcp32dllBase + 41, "TCP32DLL", "gethostbyaddr"⟩,
  ⟨tcp32dllBase + 42, "TCP32DLL", "getservbyname"⟩,
  ⟨tcp32dllBase + 43, "TCP32DLL", "getservbyport"⟩,
  ⟨tcp32dllBase + 44, "TCP32DLL", "getprotobyname"⟩,
  ⟨tcp32dllBase + 45, "TCP32DLL", "getprotobynumber"⟩]

def findByModuleAndName (module name : String) : Option Nat :=
  (registry.find? fun e => e.module == module && e.name == name).map ApiEntry.ordinal

end Warpine.Loader
