import Warpine.Vfs.CacheCoherence
import Warpine.Vfs.Reach

/-! The two stores of extended attributes: sidecar files in a directory beside the file,
and attributes that the host keeps with the file itself. -/
namespace Warpine.Vfs
open Warpine.Lib Posix

def eaDir : Name := ".os2ea".toList

def eaSuffix : Name := ".ea".toList

/-- An entry of a sidecar file. The lengths are cut to one byte and to two. -/
def encodeEntry (ea : EaEntry) : List UInt8 :=
  let name := Utf8.toBytes ea.name
  [ea.flags, UInt8.ofNat name.length, UInt8.ofNat ea.value.length,
    UInt8.ofNat (ea.value.length / 256)] ++ name ++ ea.value

def encodeEntries (eas : List EaEntry) : List UInt8 := eas.flatMap encodeEntry

namespace HostDir

/-- Writes all attributes of a file, or removes its sidecar where there are none. -/
def sidecarWriteEas (s : HostDir) (hostPath : HostPath) (eas : List EaEntry) :
    VfsResult Unit × HostDir :=
  match sidecarEaPath hostPath with
  | none => (.error .pathNotFound, s)
  | some eaPath =>
      if eas = [] then
        (.ok (), { s with tree := (s.tree.unlink eaPath).toOption.getD s.tree })
      else
        let tree := (s.tree.mkdir eaPath.dropLast s.newAttrs).toOption.getD s.tree
        match tree.openFile eaPath true true true s.newAttrs with
        | .error _ => (.error .accessDenied, { s with tree })
        | .ok (file, opened) =>
            (.ok (), { s with
              tree := fun other =>
                if other = file then
                  (opened other).map fun node => { node with kind := .file (encodeEntries eas) }
                else opened other })

def sidecarSetEa (s : HostDir) (hostPath : HostPath) (ea : EaEntry) : VfsResult Unit × HostDir :=
  s.sidecarWriteEas hostPath (setEntry (sidecarReadEas s.tree hostPath) ea)

end HostDir

def sidecarGetEa (eas : List EaEntry) (name : String) : VfsResult EaEntry :=
  match eas.find? (·.name = name) with
  | some ea => .ok ea
  | none => .error .eaNotFound

/-- The attributes of each file in the namespace of extended attributes, by the rest of
their names: the flags, and then the value. -/
abbrev Xattrs := HostPath → List (String × List UInt8)

/-- The host takes names and paths that end with a zero. -/
def hasNul (name : String) : Bool := '\x00' ∈ name.toList

def xattrGetEa (attrs : List (String × List UInt8)) (name : String) : VfsResult EaEntry :=
  if hasNul name then .error .invalidParameter
  else match attrs.find? (·.1 = name) with
    | none => .error .eaNotFound
    | some (_, []) => .ok ⟨name, [], 0⟩
    | some (_, flags :: value) => .ok ⟨name, value, flags⟩

/-- Attributes without a name are passed over. -/
def xattrListEas (attrs : List (String × List UInt8)) : List EaEntry :=
  attrs.filterMap fun entry =>
    if entry.1 = "" then none else (xattrGetEa attrs entry.1).toOption

/-- `refuse` is the host's answer to a name and the bytes to be kept under it. -/
def xattrSetEa (refuse : String → List UInt8 → Option Os2Error)
    (attrs : List (String × List UInt8)) (ea : EaEntry) :
    VfsResult Unit × List (String × List UInt8) :=
  if hasNul ea.name then (.error .invalidParameter, attrs)
  else if ea.value = [] ∧ ea.flags = 0 then (.ok (), attrs.filter (·.1 ≠ ea.name))
  else match refuse ea.name (ea.flags :: ea.value) with
    | some e => (.error e, attrs)
    | none => (.ok (), attrs.filter (·.1 ≠ ea.name) ++ [(ea.name, ea.flags :: ea.value)])

inductive EaCall where
  | op (op : HostOp)
  | getEa (path : Path) (name : String)
  | setEa (path : Path) (ea : EaEntry)
  | enumEa (path : Path)

/-- A volume whose attributes are kept in both stores. -/
structure EaWorld where
  host : HostDir
  xattrs : Xattrs

namespace EaWorld

/-- What stands at a place takes its attributes along, or takes them with it. -/
def carried (xattrs : Xattrs) (op : HostOp) (touched : List HostPath) : Xattrs :=
  match op, touched with
  | .rename _ _, [source, target] => fun path =>
      if target <+: path then xattrs (source ++ path.drop target.length)
      else if source <+: path then []
      else xattrs path
  | .delete _, [place] | .deleteDir _, [place] => fun path =>
      if place <+: path then [] else xattrs path
  | _, _ => xattrs

variable (refuse : HostPath → String → List UInt8 → Option Os2Error) (w : EaWorld)

def exec : EaCall → EaWorld
  | .op op => ⟨w.host.exec op, carried w.xattrs op (w.host.touched op)⟩
  | .getEa path _ | .enumEa path => { w with host := (w.host.resolveExisting path).2 }
  | .setEa path ea => match w.host.resolveExisting path with
      | (.error _, s) => { w with host := s }
      | (.ok hostPath, s) =>
          { host := (s.sidecarSetEa hostPath ea).2
            xattrs := match s.tree.resolve hostPath with
              | .error _ => w.xattrs
              | .ok place => Function.update w.xattrs place
                  (xattrSetEa (refuse place) (w.xattrs place) ea).2 }

/-- The attributes of a file in either store. -/
def enumEa (xattrSupported : Bool) (path : Path) : VfsResult (List EaEntry) :=
  match w.host.resolveExisting path with
  | (.error e, _) => .error e
  | (.ok hostPath, s) =>
      if xattrSupported then match s.tree.resolve hostPath with
        | .error _ => .error .accessDenied
        | .ok place => .ok (xattrListEas (w.xattrs place))
      else .ok (sidecarReadEas s.tree hostPath)

def getEa (xattrSupported : Bool) (path : Path) (name : String) : VfsResult EaEntry :=
  match w.host.resolveExisting path with
  | (.error e, _) => .error e
  | (.ok hostPath, s) =>
      if xattrSupported then match s.tree.resolve hostPath with
        | .error _ => .error .accessDenied
        | .ok place => xattrGetEa (w.xattrs place) name
      else sidecarGetEa (sidecarReadEas s.tree hostPath) name

/-- A file of the volume, apart from the storage of the attributes. -/
structure FileAt (place : HostPath) : Prop where
  under : w.host.root <+: place
  below : place ≠ w.host.root
  outside : eaDir ∉ place
  there : (w.host.tree place).isSome

/-- Both stores have the same attributes for every file. -/
def SameEas : Prop :=
  ∀ path place s, w.host.resolveExisting path = (.ok place, s) → w.FileAt place →
    (∃ sidecar xattr, w.enumEa false path = .ok sidecar ∧ w.enumEa true path = .ok xattr ∧
      ∀ ea, ea ∈ sidecar ↔ ea ∈ xattr) ∧
    ∀ name, (w.getEa false path name).toOption = (w.getEa true path name).toOption

/-- A search lists the storage of the attributes. -/
def Shows : Prop :=
  ∃ dir names pattern attrFilter, w.host.tree.readDir dir = some names ∧
    ∃ entry ∈ w.host.capture dir names pattern attrFilter, entry.name = eaDir

end EaWorld

/-- A call that may store an attribute. -/
def EaCall.stores : EaCall → Prop
  | .setEa _ ea => ea.value ≠ [] ∨ ea.flags ≠ 0
  | _ => False

end Warpine.Vfs
