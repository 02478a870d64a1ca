import Warpine.Loader.ApiRegistry
import Warpine.Loader.DllManager

/-! Import resolution: the emulated modules have fixed places in the stub area,
and everything else is looked up among the loaded DLLs. -/
namespace Warpine.Loader
open Warpine.Lib

/-- Where a module's stubs start, relative to the stub area. -/
def moduleBases : List (String × Nat) := [
  ("DOSCALLS", 0), ("QUECALLS", 1024), ("PMWIN", pmwinBase), ("PMGPI", pmgpiBase),
  ("KBDCALLS", kbdcallsBase), ("VIOCALLS", viocallsBase), ("SESMGR", sesmgrBase),
  ("NLS", nlsBase), ("MSG", msgBase), ("MDM", mdmBase), ("UCONV", uconvBase),
  ("SO32DLL", so32dllBase), ("TCP32DLL", tcp32dllBase)]

def builtinBase (module : String) : Option Nat :=
  (moduleBases.find? fun e => e.1 == module).map Prod.snd

/-- An unknown import gets the last stub. -/
def resolveImport (dllMgr : DllManager) (module : String) (ordinal : Nat) : Nat :=
  match builtinBase module with
  | some base => magicApiBase + base + ordinal
  | none => (dllMgr.resolveOrdinal module ordinal).getD (magicApiBase + (stubAreaSize - 1))

def viocallsNames : List (String × Nat) := [
  ("VioGetAnsi", 3), ("VioSetAnsi", 5), ("VioScrollUp", 7), ("VioScrollDn", 47),
  ("VioGetCurPos", 9), ("VioWrtCellStr", 10), ("VioSetCurPos", 15), ("VioWrtTTY", 19),
  ("VioGetMode", 21), ("VioSetMode", 22), ("VioReadCellStr", 24), ("VioWrtNAttr", 26),
  ("VioGetBuf", 31), ("VioSetCurType", 32), ("VioGetCurType", 27), ("VioCheckCharType", 39),
  ("VioSetCp", 42), ("VioShowBuf", 43), ("VioGetConfig", 46), ("VioWrtCharStrAtt", 48),
  ("VioSetState", 51), ("VioWrtNCell", 52)]

def kbdcallsNames : List (String × Nat) := [
  ("KbdCharIn", 4), ("KbdStringIn", 9), ("KbdGetStatus", 10), ("KbdFlushBuffer", 6)]

def findName (names : List (String × Nat)) (procName : String) : Option Nat :=
  (names.find? fun e => e.1 == procName).map Prod.snd

def ordinalOfName (module procName : String) : Option Nat :=
  if module = "VIOCALLS" then findName viocallsNames procName
  else if module = "KBDCALLS" then findName kbdcallsNames procName
  else findByModuleAndName module procName

/-- 0 where the name is not known. -/
def resolveImportByName (dllMgr : DllManager) (module procName : String) : Nat :=
  match ordinalOfName module procName with
  | some ordinal => resolveImport dllMgr module ordinal
  | none => 0

end Warpine.Loader
