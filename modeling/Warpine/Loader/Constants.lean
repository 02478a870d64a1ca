/-! The layout of the API stub area and of the tiled descriptors. -/
namespace Warpine.Loader

def magicApiBase : Nat := 0x01000000
def exitTrapAddr : Nat := 0x010003FF
def callbackRetTrap : Nat := 0x010003FE

def pmwinBase : Nat := 2048
def pmgpiBase : Nat := 3072
def kbdcallsBase : Nat := 4096
def viocallsBase : Nat := 5120
def sesmgrBase : Nat := 6144
def nlsBase : Nat := 7168
def msgBase : Nat := 8192
def mdmBase : Nat := 10240
def uconvBase : Nat := 12288
def so32dllBase : Nat := 13312
def tcp32dllBase : Nat := 14336
def stubAreaSize : Nat := 16384

/-- The guest memory that the loader allocates. -/
def guestMemSize : Nat := 256 * 1024 * 1024

def tileSize : Nat := 0x10000
def idtHandlerBase : Nat := 0x0008D800
def neThunkBase : Nat := 0x00F00000

/-- Data tiles start at this entry of the GDT. -/
def tiledSelStartIndex : Nat := 6

end Warpine.Loader
