import Warpine.Pm.Templates
import Warpine.Pm.WindowCalls

/-! Dialog templates in guest memory: a header, the items, each with a fixed part and
variable data, and behind them the texts that the items point to. -/
namespace Warpine.Pm
open Warpine.Lib Warpine.Guest Warpine.Loader Template

def classNameOf (classOrd : UInt16) : String :=
  match classOrd.toNat with
  | 3 => "WC_BUTTON"
  | 5 => "WC_STATIC"
  | 6 => "WC_ENTRYFIELD"
  | 7 => "WC_LISTBOX"
  | _ => "WC_STATIC"

/-- The ordinals that the scan takes for a class. -/
def isClass (word : Nat) : Bool := 1 ≤ word && word ≤ 10

section Parse
variable (mem : GuestMemory) (base size : Nat)

def readI16 (addr : Nat) : Int16 := (readU16 mem addr).toInt16

/-- A text by its offset; an offset outside the template stands for no text. -/
def poolStr (offset : Nat) : String :=
  if 0 < offset ∧ offset < size then String.ofList (readNulStrAt mem base offset size).1 else ""

variable (itemsEnd : Nat)

/-- Goes on word by word to the next one that can be a class. -/
def skipVarData : Nat → Nat → Nat
  | 0, off => off
  | turns + 1, off =>
    if wrapAdd off 2 ≤ itemsEnd then
      if isClass (readU16 mem (wrapAdd base off)).toNat then off
      else skipVarData turns (wrapAdd off 2)
    else off

/-- The items from an offset on, of which so many remain. -/
def parseDlgItems : Nat → Nat → List DlgItem
  | 0, _ => []
  | remaining + 1, off =>
    if itemsEnd < wrapAdd off 20 then []
    else
      let addr := wrapAdd base off
      let classOrd := readU16 mem addr
      let textOff := (readU16 mem (wrapAdd addr 4)).toNat
      let off := wrapAdd off 10
      let addr := wrapAdd base off
      let x := readI16 mem addr
      let y := readI16 mem (wrapAdd addr 2)
      let cx := readI16 mem (wrapAdd addr 4)
      let cy := readI16 mem (wrapAdd addr 6)
      let id := readU16 mem (wrapAdd addr 8)
      let off := wrapAdd off 10
      let off := if 0 < remaining then skipVarData mem base itemsEnd itemsEnd off else itemsEnd
      let item : DlgItem := {
        x, y, cx, cy, id
        flStyle := wsVisible
        className := classNameOf classOrd
        text := poolStr mem base size textOff }
      item :: parseDlgItems remaining off

def parseDlgTemplate : Option DlgTemplate :=
  if size < 40 then none
  else
    let cItems := (readU16 mem (wrapAdd base 16)).toNat
    let titleOff := (readU16 mem (wrapAdd base 24)).toNat
    let x := readI16 mem (wrapAdd base 30)
    let y := readI16 mem (wrapAdd base 32)
    let cx := readI16 mem (wrapAdd base 34)
    let cy := readI16 mem (wrapAdd base 36)
    let title := poolStr mem base size titleOff
    let itemsEnd := if 0 < titleOff ∧ titleOff < size then titleOff else size
    let items := parseDlgItems mem base size itemsEnd cItems 50
    some { x, y, cx, cy, title, items }

end Parse

/-- A child control, with the parts of its record that the parser does not read. -/
structure DlgChild where
  classOrd : UInt16
  status : UInt16
  unread : Vector UInt8 4
  x : Int16
  y : Int16
  cx : Int16
  cy : Int16
  id : UInt16
  varData : List UInt8
  text : List Char

/-- A dialog, with the parts of its headers that the parser does not read. -/
structure DlgDescription where
  front : Vector UInt8 16
  beforeTitle : Vector UInt8 6
  afterTitle : Vector UInt8 4
  x : Int16
  y : Int16
  cx : Int16
  cy : Int16
  varData : Vector UInt8 12
  title : List Char
  items : List DlgChild

def i16Bytes (value : Int16) : List UInt8 := leBytes 2 value.toUInt16.toNat

namespace DlgChild

/-- The fixed part, with the offset of the item's text. -/
def fixed (item : DlgChild) (textOff : Nat) : List UInt8 :=
  leBytes 2 item.classOrd.toNat ++ leBytes 2 item.status.toNat ++ leBytes 2 textOff ++
    item.unread.toList ++
    (i16Bytes item.x ++ i16Bytes item.y ++ i16Bytes item.cx ++ i16Bytes item.cy ++
      leBytes 2 item.id.toNat)

def info (item : DlgChild) : DlgItem where
  x := item.x
  y := item.y
  cx := item.cx
  cy := item.cy
  id := item.id
  flStyle := wsVisible
  className := classNameOf item.classOrd
  text := String.ofList item.text

end DlgChild

/-- The items' records; the texts stand one behind the other. -/
def dlgItemBytes (textOff : Nat) : List DlgChild → List UInt8
  | [] => []
  | item :: rest =>
    item.fixed textOff ++ item.varData ++ dlgItemBytes (textOff + (item.text.length + 1)) rest

def dlgItemsLength (items : List DlgChild) : Nat :=
  (items.map fun item => 20 + item.varData.length).sum

def textPool (items : List DlgChild) : List UInt8 := items.flatMap fun item => nulStr item.text

namespace DlgDescription

variable (dlg : DlgDescription)

/-- What the parser makes of it. -/
def info : DlgTemplate where
  x := dlg.x
  y := dlg.y
  cx := dlg.cx
  cy := dlg.cy
  title := String.ofList dlg.title
  items := dlg.items.map DlgChild.info

def titleOff : Nat := 50 + dlgItemsLength dlg.items

def header : List UInt8 :=
  dlg.front.toList ++ leBytes 2 dlg.items.length ++ dlg.beforeTitle.toList ++
    leBytes 2 dlg.titleOff ++ dlg.afterTitle.toList ++
    (i16Bytes dlg.x ++ i16Bytes dlg.y ++ i16Bytes dlg.cx ++ i16Bytes dlg.cy) ++
    dlg.varData.toList

def encode : List UInt8 :=
  dlg.header ++ dlgItemBytes (dlg.titleOff + (dlg.title.length + 1)) dlg.items ++
    (nulStr dlg.title ++ textPool dlg.items)

end DlgDescription

/-- The offsets of the texts are words. -/
def OffsetsFit (textOff : Nat) : List DlgChild → Prop
  | [] => True
  | item :: rest => textOff < 2 ^ 16 ∧ OffsetsFit (textOff + (item.text.length + 1)) rest

/-- What the layout can hold: texts without a NUL, and words for the count of the items and
for every offset. -/
structure DlgDescription.Fits (dlg : DlgDescription) : Prop where
  title : ∀ c ∈ dlg.title, 0 < c.toNat ∧ c.toNat < 256
  texts : ∀ item ∈ dlg.items, ∀ c ∈ item.text, 0 < c.toNat ∧ c.toNat < 256
  count : dlg.items.length < 2 ^ 16
  titleOff : dlg.titleOff < 2 ^ 16
  offsets : OffsetsFit (dlg.titleOff + (dlg.title.length + 1)) dlg.items

/-- Whole words, none of which can be a class. -/
def NoClass : List UInt8 → Prop
  | [] => True
  | [_] => False
  | low :: high :: rest => isClass (leValue [low, high]) = false ∧ NoClass rest

/-- The scan comes from each item to the next: its variable data hide none that could be one,
and the next can. -/
def Findable : List DlgChild → Prop
  | item :: next :: rest =>
    NoClass item.varData ∧ isClass next.classOrd.toNat ∧ Findable (next :: rest)
  | _ => True

section Lengths

@[simp] theorem i16Bytes_length (value : Int16) : (i16Bytes value).length = 2 := by
  simp [i16Bytes]

@[simp] theorem DlgChild.fixed_length (item : DlgChild) (textOff : Nat) :
    (item.fixed textOff).length = 20 := by
  simp [DlgChild.fixed]

@[simp] theorem dlgItemBytes_length (textOff : Nat) (items : List DlgChild) :
    (dlgItemBytes textOff items).length = dlgItemsLength items := by
  induction items generalizing textOff with
  | nil => rfl
  | cons item rest ih => simp [dlgItemBytes, ih, dlgItemsLength, Nat.add_assoc]

@[simp] theorem DlgDescription.header_length (dlg : DlgDescription) : dlg.header.length = 50 := by
  simp [DlgDescription.header]

end Lengths

section Read
variable {mem : GuestMemory} {base size : Nat}

theorem wrapAdd_base {off : Nat} (k : Nat) (low : base + off + k < u32Size) :
    wrapAdd (wrapAdd base off) k = base + (off + k) := by
  have hbase : wrapAdd base off = base + off := wrapAdd_of_lt (by omega)
  rw [hbase, wrapAdd_of_lt low, Nat.add_assoc]

theorem readI16_eq {off : Nat} {value : Int16} (lies : Lies mem base off (i16Bytes value)) :
    readI16 mem (base + off) = value := by
  rw [readI16, readU16_eq lies, Int16.toInt16_toUInt16]

theorem poolStr_lies {off : Nat} {text : List Char} (small : mem.size ≤ guestMemSize)
    (chars : ∀ c ∈ text, 0 < c.toNat ∧ c.toNat < 256) (lies : Lies mem base off (nulStr text))
    (pos : 0 < off) (inside : off + (text.length + 1) ≤ size) :
    poolStr mem base size off = String.ofList text := by
  have here : 0 < off ∧ off < size := ⟨pos, by omega⟩
  rw [poolStr, if_pos here, readNulStrAt, readNulStr_lies small chars lies (by omega)]

/-- As many turns as bytes are enough for the scan. -/
theorem skipVarData_enough {itemsEnd : Nat} (small : itemsEnd + 2 < u32Size) (more turns : Nat)
    {off : Nat} (inside : off ≤ itemsEnd) (enough : itemsEnd ≤ off + turns) :
    skipVarData mem base itemsEnd (turns + more) off = skipVarData mem base itemsEnd turns off := by
  have hnext : wrapAdd off 2 = off + 2 := wrapAdd_of_lt (by omega)
  induction turns generalizing off with
  | zero =>
    cases more with
    | zero => rfl
    | succ more => rw [Nat.zero_add, skipVarData, skipVarData, hnext, if_neg (by omega)]
  | succ turns ih =>
    rw [Nat.add_right_comm, skipVarData, skipVarData, hnext]
    split
    · rename_i room
      rw [ih room (by omega) (wrapAdd_of_lt (by omega))]
    · rfl

/-- The scan stops at a class that stands behind words that are none. -/
theorem skipVarData_finds (small : mem.size ≤ guestMemSize) {itemsEnd : Nat}
    {data : List UInt8} {classOrd : UInt16} (isclass : isClass classOrd.toNat) {off turns : Nat}
    (clear : NoClass data) (lies : Lies mem base off (data ++ leBytes 2 classOrd.toNat))
    (inside : off + data.length + 2 ≤ itemsEnd) (enough : data.length < turns) :
    skipVarData mem base itemsEnd turns off = off + data.length := by
  induction data using NoClass.induct generalizing off turns with
  | case1 =>
    obtain ⟨turns, rfl⟩ := Nat.exists_eq_add_of_lt enough
    have hbound := lies.bound
    simp only [List.nil_append, leBytes_length, List.length_nil, Nat.zero_add] at lies hbound inside ⊢
    have hbase : wrapAdd base off = base + off := wrapAdd_within small (by omega)
    have hnext : wrapAdd off 2 = off + 2 := wrapAdd_within small (by omega)
    rw [skipVarData, hnext, if_pos (by omega), hbase, readU16_eq lies, if_pos isclass, Nat.add_zero]
  | case2 byte => exact clear.elim
  | case3 low high rest ih =>
    obtain ⟨turns, rfl⟩ : ∃ n, turns = n + 1 := ⟨turns - 1, by omega⟩
    obtain ⟨other, clear⟩ := clear
    have hword : [low, high] = leBytes 2 (leValue [low, high]) := (leBytes_leValue [low, high]).symm
    have hbound := lies.bound
    obtain ⟨hhead, htail⟩ := Lies.append.mp
      (show Lies mem base off ([low, high] ++ (rest ++ leBytes 2 classOrd.toNat)) from lies)
    rw [hword] at hhead
    have hread := readU16_toNat hhead (by simpa using leValue_lt [low, high])
    simp only [List.length_append, List.length_cons, leBytes_length, List.length_nil] at *
    have hbase : wrapAdd base off = base + off := wrapAdd_within small (by omega)
    have hnext : wrapAdd off 2 = off + 2 := wrapAdd_within small (by omega)
    rw [skipVarData, hnext, if_pos (by omega), hbase, hread, if_neg (by simp [other]),
      ih clear htail (by omega) (by omega)]
    omega

/-- The words of an item's fixed part. -/
theorem fixed_reads {item : DlgChild} {off textOff : Nat} (word : textOff < 2 ^ 16)
    (lies : Lies mem base off (item.fixed textOff)) :
    readU16 mem (base + off) = item.classOrd ∧
      (readU16 mem (base + (off + 4))).toNat = textOff ∧
      readI16 mem (base + (off + 10)) = item.x ∧ readI16 mem (base + (off + 12)) = item.y ∧
      readI16 mem (base + (off + 14)) = item.cx ∧ readI16 mem (base + (off + 16)) = item.cy ∧
      readU16 mem (base + (off + 18)) = item.id := by
  simp only [DlgChild.fixed, Lies.append, List.length_append, leBytes_length, i16Bytes_length,
    Vector.length_toList, Nat.reduceAdd, Nat.add_assoc] at lies
  obtain ⟨⟨⟨⟨hclass, -⟩, htext⟩, -⟩, ⟨⟨⟨hx, hy⟩, hcx⟩, hcy⟩, hid⟩ := lies
  exact ⟨readU16_eq hclass, readU16_toNat htext word, readI16_eq hx, readI16_eq hy,
    readI16_eq hcx, readI16_eq hcy, readU16_eq hid⟩

/-- One turn, where an item's record and its text stand. -/
theorem parseDlgItems_turn (small : mem.size ≤ guestMemSize) (remaining : Nat)
    {itemsEnd textOff off : Nat} {item : DlgChild}
    (chars : ∀ c ∈ item.text, 0 < c.toNat ∧ c.toNat < 256)
    (record : Lies mem base off (item.fixed textOff)) (room : off + 20 ≤ itemsEnd)
    (text : Lies mem base textOff (nulStr item.text)) (pos : 0 < textOff)
    (inside : textOff + (item.text.length + 1) ≤ size) (word : textOff < 2 ^ 16) :
    parseDlgItems mem base size itemsEnd (remaining + 1) off =
      item.info :: parseDlgItems mem base size itemsEnd remaining
        (if 0 < remaining then skipVarData mem base itemsEnd itemsEnd (off + 20)
          else itemsEnd) := by
  have hbound := record.bound
  rw [DlgChild.fixed_length] at hbound
  have low : base + off + 20 < u32Size := by
    simp only [guestMemSize, u32Size] at *
    omega
  obtain ⟨hclass, htext, hx, hy, hcx, hcy, hid⟩ := fixed_reads word record
  have hbase : wrapAdd base off = base + off := wrapAdd_of_lt (by omega)
  have hten : wrapAdd off 10 = off + 10 := wrapAdd_of_lt (by omega)
  have htwenty : wrapAdd (off + 10) 10 = off + 20 := wrapAdd_of_lt (by omega)
  have hend : wrapAdd off 20 = off + 20 := wrapAdd_of_lt (by omega)
  have hfour : wrapAdd (base + off) 4 = base + (off + 4) := by
    rw [← hbase, wrapAdd_base 4 (by omega)]
  have hsecond : wrapAdd base (off + 10) = base + (off + 10) := wrapAdd_of_lt (by omega)
  have hfield (k : Nat) (small : k < 10) :
      wrapAdd (base + (off + 10)) k = base + (off + (10 + k)) := by
    rw [← hsecond, wrapAdd_base k (by omega), Nat.add_assoc]
  rw [parseDlgItems, hend, if_neg (by omega)]
  simp only [hbase, hten, htwenty, hfour, hsecond, hfield, hclass, htext, hx, hy, hcx, hcy, hid,
    poolStr_lies small chars text pos inside, DlgChild.info, Nat.reduceAdd, Nat.reduceLT]

/-- The items from an offset on, with their texts in the pool. -/
theorem parseDlgItems_encode (small : mem.size ≤ guestMemSize) {itemsEnd textOff off : Nat}
    {items : List DlgChild} (findable : Findable items)
    (chars : ∀ item ∈ items, ∀ c ∈ item.text, 0 < c.toNat ∧ c.toNat < 256)
    (records : Lies mem base off (dlgItemBytes textOff items))
    (stop : off + dlgItemsLength items = itemsEnd)
    (texts : Lies mem base textOff (textPool items)) (pos : 0 < textOff)
    (inside : textOff + (textPool items).length ≤ size)
    (words : OffsetsFit textOff items) :
    parseDlgItems mem base size itemsEnd items.length off = items.map DlgChild.info := by
  induction items generalizing textOff off with
  | nil => rfl
  | cons item rest ih =>
    obtain ⟨hchars, hrest⟩ := List.forall_mem_cons.mp chars
    have hlength : dlgItemsLength (item :: rest) =
        20 + item.varData.length + dlgItemsLength rest := by
      simp [dlgItemsLength]
    rw [hlength] at stop
    obtain ⟨hrecord, hbehind⟩ := Lies.append.mp records
    obtain ⟨hfixed, hvar⟩ := Lies.append.mp hrecord
    rw [textPool, List.flatMap_cons] at texts
    obtain ⟨htext, hpool⟩ := Lies.append.mp texts
    have hpoolLength : (textPool (item :: rest)).length =
        (item.text.length + 1) + (textPool rest).length := by
      simp [textPool]
    rw [hpoolLength] at inside
    obtain ⟨word, words⟩ := words
    simp only [nulStr_length, DlgChild.fixed_length, List.length_append] at hpool hvar hbehind
    rw [List.length_cons, parseDlgItems_turn small rest.length hchars hfixed (by omega) htext pos
      (by omega) word, List.map_cons]
    congr 1
    cases rest with
    | nil => rfl
    | cons next rest =>
      obtain ⟨clear, isclass, findable⟩ := findable
      have hnext : Lies mem base (off + (20 + item.varData.length))
          (leBytes 2 next.classOrd.toNat) := by
        have hfixed := (Lies.append.mp (Lies.append.mp hbehind).1).1
        simp only [DlgChild.fixed, List.append_assoc] at hfixed
        exact (Lies.append.mp hfixed).1
      have hscan : Lies mem base (off + 20) (item.varData ++ leBytes 2 next.classOrd.toNat) :=
        Lies.append.mpr ⟨hvar, hnext.at_offset (by omega)⟩
      have hlater : 20 ≤ dlgItemsLength (next :: rest) := by
        simp only [dlgItemsLength, List.map_cons, List.sum_cons]
        omega
      rw [if_pos (by simp), skipVarData_finds small isclass clear hscan (by omega) (by omega)]
      exact ih findable hrest (hbehind.at_offset (by omega)) (by omega) hpool (by omega) (by omega)
        words

/-- The words of the headers. -/
theorem header_reads {dlg : DlgDescription} (count : dlg.items.length < 2 ^ 16)
    (word : dlg.titleOff < 2 ^ 16) (lies : Lies mem base 0 dlg.header) :
    (readU16 mem (base + 16)).toNat = dlg.items.length ∧
      (readU16 mem (base + 24)).toNat = dlg.titleOff ∧
      readI16 mem (base + 30) = dlg.x ∧ readI16 mem (base + 32) = dlg.y ∧
      readI16 mem (base + 34) = dlg.cx ∧ readI16 mem (base + 36) = dlg.cy := by
  simp only [DlgDescription.header, Lies.append, List.length_append, leBytes_length,
    i16Bytes_length, Vector.length_toList, Nat.reduceAdd] at lies
  obtain ⟨⟨⟨⟨⟨⟨-, hcount⟩, -⟩, htitle⟩, -⟩, ⟨⟨hx, hy⟩, hcx⟩, hcy⟩, -⟩ := lies
  exact ⟨readU16_toNat hcount count, readU16_toNat htitle word, readI16_eq hx, readI16_eq hy,
    readI16_eq hcx, readI16_eq hcy⟩

end Read

/-- Two controls, the first with the given variable data. -/
def twoControls (varData : List UInt8) : DlgDescription where
  front := Vector.replicate 16 0
  beforeTitle := Vector.replicate 6 0
  afterTitle := Vector.replicate 4 0
  x := 10
  y := 20
  cx := 200
  cy := -1
  varData := Vector.replicate 12 0
  title := ['T']
  items := [
    { classOrd := 3, status := 0, unread := Vector.replicate 4 0, x := 1, y := 2, cx := 30, cy := 12
      id := 100, varData, text := ['O', 'K'] },
    { classOrd := 6, status := 0, unread := Vector.replicate 4 0, x := 1, y := 20, cx := 60, cy := 12
      id := 101, varData := [5], text := [] }]

def dialogMemory (dlg : DlgDescription) : GuestMemory :=
  GuestMemory.putBytes { size := 256, bytes := fun _ => 0 } 16 dlg.encode

theorem twoControls_fits (varData : List UInt8) (short : varData.length < 10) :
    (twoControls varData).Fits where
  title := by simp [twoControls]
  texts := by simp [twoControls]
  count := by simp [twoControls]
  titleOff := by
    simp only [DlgDescription.titleOff, dlgItemsLength, twoControls, List.map_cons, List.map_nil,
      List.sum_cons, List.sum_nil, List.length_cons, List.length_nil]
    omega
  offsets := by
    simp only [OffsetsFit, DlgDescription.titleOff, dlgItemsLength, twoControls, List.map_cons,
      List.map_nil, List.sum_cons, List.sum_nil, List.length_cons, List.length_nil, and_true]
    omega

end Warpine.Pm
