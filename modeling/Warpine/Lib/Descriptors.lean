import Mathlib.Algebra.Group.Nat.Defs
import Warpine.Lib.Table

/-! File descriptors. A descriptor has the rights it was opened with and a place of its
own in the file; what the files hold is shared. -/
namespace Warpine.Lib

structure OpenOptions where
  read : Bool
  write : Bool
  create : Bool
  truncate : Bool
deriving DecidableEq, Repr

structure Descriptor (φ : Type) where
  file : φ
  isDir : Bool
  read : Bool
  write : Bool
  offset : Nat
deriving DecidableEq, Repr

inductive FdError where
  | unknown
  | badDescriptor
  | isADirectory
  | invalidInput
deriving DecidableEq, Repr

/-- Bytes put over others from an offset on; a gap before them is filled with zeros. -/
def overwrite (data : List UInt8) (offset : Nat) (bytes : List UInt8) : List UInt8 :=
  if bytes = [] then data
  else data.take offset ++ List.replicate (offset - data.length) 0 ++ bytes ++
    data.drop (offset + bytes.length)

def resize (data : List UInt8) (size : Nat) : List UInt8 :=
  data.take size ++ List.replicate (size - data.length) 0

inductive SeekFrom where
  | start (offset : Int)
  | current (offset : Int)
  | finish (offset : Int)
deriving DecidableEq, Repr

structure FileTable (φ : Type) where
  descriptors : Table Nat (Descriptor φ)
  contents : φ → List UInt8

namespace FileTable

variable {φ : Type} [DecidableEq φ] (table : FileTable φ)

/-- Offsets and sizes are signed on the host. -/
def maxSize : Nat := 2 ^ 63

def update (file : φ) (data : List UInt8) : φ → List UInt8 := fun other =>
  if other = file then data else table.contents other

/-- At most `given` of the bytes asked for come. -/
def read (id len given : Nat) : Except FdError (List UInt8) × FileTable φ :=
  match table.descriptors id with
  | none => (.error .unknown, table)
  | some d =>
      if !d.read then (.error .badDescriptor, table)
      else if d.isDir then (.error .isADirectory, table)
      else
        let data := (((table.contents d.file).drop d.offset).take len).take given
        (.ok data, { table with
          descriptors := table.descriptors.insert id { d with offset := d.offset + data.length } })

/-- At most `taken` of the bytes go to the file. -/
def write (id : Nat) (buf : List UInt8) (taken : Nat) : Except FdError Nat × FileTable φ :=
  match table.descriptors id with
  | none => (.error .unknown, table)
  | some d =>
      if !d.write then (.error .badDescriptor, table)
      else
        let bytes := buf.take taken
        (.ok bytes.length,
          { descriptors := table.descriptors.insert id { d with offset := d.offset + bytes.length }
            contents := table.update d.file
              (overwrite (table.contents d.file) d.offset bytes) })

def seekTarget (d : Descriptor φ) : SeekFrom → Int
  | .start offset => offset
  | .current offset => d.offset + offset
  | .finish offset => (table.contents d.file).length + offset

def seek (id : Nat) (from_ : SeekFrom) : Except FdError Nat × FileTable φ :=
  match table.descriptors id with
  | none => (.error .unknown, table)
  | some d =>
      let target := table.seekTarget d from_
      if target < 0 ∨ maxSize ≤ target then (.error .invalidInput, table)
      else (.ok target.toNat, { table with
        descriptors := table.descriptors.insert id { d with offset := target.toNat } })

def setLen (id size : Nat) : Except FdError Unit × FileTable φ :=
  match table.descriptors id with
  | none => (.error .unknown, table)
  | some d =>
      if maxSize ≤ size ∨ !d.write then (.error .invalidInput, table)
      else (.ok (), { table with
        contents := table.update d.file (resize (table.contents d.file) size) })

/-- The rights of a descriptor, where it is open. -/
def Rights (id : Nat) (read write : Bool) : Prop :=
  ∀ d, table.descriptors id = some d → d.read = read ∧ d.write = write

section Rights

variable {table} {id : Nat} {read write : Bool}

omit [DecidableEq φ] in
/-- Without the right to read, nothing is read. -/
theorem read_denied (rights : table.Rights id false write) (len given : Nat) (data : List UInt8) :
    (table.read id len given).1 ≠ .ok data := by
  unfold FileTable.read
  cases found : table.descriptors id with
  | none => simp
  | some d => simp [(rights d found).1]

/-- Without the right to write, a write leaves everything as it is. -/
theorem write_denied (rights : table.Rights id read false) (buf : List UInt8) (taken : Nat) :
    (table.write id buf taken).2 = table := by
  unfold FileTable.write
  cases found : table.descriptors id with
  | none => rfl
  | some d => simp [(rights d found).2]

theorem setLen_denied (rights : table.Rights id read false) (size : Nat) :
    (table.setLen id size).2 = table := by
  unfold setLen
  cases found : table.descriptors id with
  | none => rfl
  | some d => simp [(rights d found).2]

/-- With it, the size of the file can be made another one. -/
theorem setLen_granted {d : Descriptor φ} (found : table.descriptors id = some d)
    (granted : d.write = true) :
    ∃ size, (table.setLen id size).2.contents d.file ≠ table.contents d.file := by
  have resized (size : Nat) (small : size < maxSize) :
      (table.setLen id size).2.contents d.file = resize (table.contents d.file) size := by
    simp [setLen, found, granted, Nat.not_le.mpr small, update]
  cases stored : table.contents d.file with
  | nil =>
    refine ⟨1, ?_⟩
    rw [resized 1 (by decide), stored]
    decide
  | cons byte rest =>
    refine ⟨0, ?_⟩
    rw [resized 0 (by decide), stored]
    simp [resize]

omit [DecidableEq φ] in
/-- Another place in the file leaves the rights as they are. -/
theorem Rights.moved (rights : table.Rights id read write) {other : Nat} {d : Descriptor φ}
    (found : table.descriptors other = some d) (offset : Nat) (contents : φ → List UInt8) :
    (FileTable.mk (table.descriptors.insert other { d with offset }) contents).Rights
      id read write := by
  intro after hafter
  rcases Table.insert_eq_some.mp hafter with ⟨rfl, rfl⟩ | ⟨_, hold⟩
  · exact rights d found
  · exact rights after hold

omit [DecidableEq φ] in
theorem rights_read (rights : table.Rights id read write) (other len given : Nat) :
    (table.read other len given).2.Rights id read write := by
  unfold FileTable.read
  cases found : table.descriptors other with
  | none => exact rights
  | some d =>
    dsimp only
    split
    · exact rights
    · split
      · exact rights
      · exact rights.moved found _ _

theorem rights_write (rights : table.Rights id read write) (other : Nat) (buf : List UInt8)
    (taken : Nat) : (table.write other buf taken).2.Rights id read write := by
  unfold FileTable.write
  cases found : table.descriptors other with
  | none => exact rights
  | some d =>
    dsimp only
    split
    · exact rights
    · exact rights.moved found _ _

omit [DecidableEq φ] in
theorem rights_seek (rights : table.Rights id read write) (other : Nat) (from_ : SeekFrom) :
    (table.seek other from_).2.Rights id read write := by
  unfold FileTable.seek
  cases found : table.descriptors other with
  | none => exact rights
  | some d =>
    dsimp only
    split
    · exact rights
    · exact rights.moved found _ _

theorem rights_setLen (rights : table.Rights id read write) (other size : Nat) :
    (table.setLen other size).2.Rights id read write := by
  unfold FileTable.setLen
  cases table.descriptors other with
  | none => exact rights
  | some d =>
    dsimp only
    split <;> exact rights

end Rights

end FileTable
end Warpine.Lib
