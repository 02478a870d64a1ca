import Warpine.Pm.Templates

/-! Menu templates in guest memory. A template is a block: a header with the count of
its items, and the items, of which each submenu is followed by a block of its own. -/
namespace Warpine.Pm
open Warpine.Lib Warpine.Guest Warpine.Loader

def misSeparator : UInt16 := 0x0004
def misSubmenu : UInt16 := 0x0010
def misEnd : UInt16 := 0x8000

structure MenuItem where
  id : UInt16
  style : UInt16
  attr : UInt16
  text : List Char
  children : List MenuItem

section Parse
open Template
variable (mem : GuestMemory) (base size : Nat)

/-- The block behind a submenu's item, its items taken by `parse`. -/
def menuChildren (parse : Nat → Nat → List MenuItem × Nat) (style : UInt16) (offset : Nat) :
    List MenuItem × Nat :=
  if style &&& misSubmenu ≠ 0 then
    if wrapAdd offset 10 ≤ size then
      let childCount := (readU16 mem (wrapAdd (wrapAdd base offset) 8)).toNat
      parse childCount (wrapAdd offset 10)
    else ([], offset)
  else ([], offset)

/-- The turns of the loop, with the items that remain where they are counted. Each turn
moves on by the fixed part of an item, so that as many turns as bytes are enough. -/
def menuItemTurns : Nat → Bool → Nat → Nat → List MenuItem × Nat
  | 0, _, _, offset => ([], offset)
  | turns + 1, useCount, remaining, offset =>
    if useCount && remaining == 0 then ([], offset)
    else if size < wrapAdd offset 6 then ([], offset)
    else
      let addr := wrapAdd base offset
      let rawStyle := readU16 mem addr
      let attr := readU16 mem (wrapAdd addr 2)
      let id := readU16 mem (wrapAdd addr 4)
      let offset := wrapAdd offset 6
      let isLast := !useCount && rawStyle &&& misEnd != 0
      let style := rawStyle &&& ~~~misEnd
      let (text, offset) :=
        if style &&& misSeparator = 0 then readNulStrAt mem base offset size else ([], offset)
      let (children, offset) := menuChildren mem base size
        (fun count => menuItemTurns turns (0 < count) count) style offset
      let item : MenuItem := { id, style, attr, text, children }
      if isLast then ([item], offset)
      else
        let remaining := if useCount then remaining - 1 else remaining
        let (items, offset) := menuItemTurns turns useCount remaining offset
        (item :: items, offset)

/-- A count of zero stands for a list that its last item ends. -/
def parseMenuItems (offset count : Nat) : List MenuItem × Nat :=
  menuItemTurns mem base size size (0 < count) count offset

def parseMenuTemplate : List MenuItem :=
  if size < 10 then []
  else
    let itemCount := (readU16 mem (wrapAdd base 8)).toNat
    (parseMenuItems mem base size 10 itemCount).1

end Parse

section Encode
variable (codepage reserved : UInt16)

def menuHeader (length count : Nat) : List UInt8 :=
  leBytes 4 (10 + length) ++ leBytes 2 codepage.toNat ++ leBytes 2 reserved.toNat ++
    leBytes 2 count

mutual

/-- The bytes of an item, and of the block behind it where it is a submenu. -/
def MenuItem.encode (item : MenuItem) : List UInt8 :=
  match item with
  | ⟨id, style, attr, text, children⟩ =>
    leBytes 2 style.toNat ++ leBytes 2 attr.toNat ++ leBytes 2 id.toNat ++
      ((if style &&& misSeparator = 0 then Template.nulStr text else []) ++
      (if style &&& misSubmenu ≠ 0 then
        menuHeader codepage reserved (encodeItems children).length children.length ++
          encodeItems children
      else []))

def encodeItems (items : List MenuItem) : List UInt8 :=
  match items with
  | [] => []
  | item :: rest => item.encode ++ encodeItems rest

end

def menuBlock (items : List MenuItem) : List UInt8 :=
  menuHeader codepage reserved (encodeItems codepage reserved items).length items.length ++
    encodeItems codepage reserved items

end Encode

mutual

/-- What the layout can hold: the count of a block is a word, the text of an item has no
NUL, a separator has none, and only a submenu has items of its own. -/
def MenuItem.Fits (item : MenuItem) : Prop :=
  match item with
  | ⟨_, style, _, text, children⟩ =>
    (∀ c ∈ text, 0 < c.toNat ∧ c.toNat < 256) ∧ (style &&& misSeparator ≠ 0 → text = []) ∧
      (style &&& misSubmenu = 0 → children = []) ∧ children.length < 2 ^ 16 ∧ ItemsFit children

def ItemsFit (items : List MenuItem) : Prop :=
  match items with
  | [] => True
  | item :: rest => item.Fits ∧ ItemsFit rest

end

mutual

/-- No style has the bit that marks a last item, and no block without items has anything
behind it; `more` says whether something follows. -/
def MenuItem.Plain (more : Bool) (item : MenuItem) : Prop :=
  match item with
  | ⟨_, style, _, _, children⟩ =>
    style &&& misEnd = 0 ∧
      (style &&& misSubmenu ≠ 0 → (children = [] → more = false) ∧ ItemsPlain more children)

def ItemsPlain (more : Bool) (items : List MenuItem) : Prop :=
  match items with
  | [] => True
  | item :: rest => item.Plain (more || !rest.isEmpty) ∧ ItemsPlain more rest

end

theorem MenuItem.fits_iff (item : MenuItem) : item.Fits ↔
    (∀ c ∈ item.text, 0 < c.toNat ∧ c.toNat < 256) ∧
      (item.style &&& misSeparator ≠ 0 → item.text = []) ∧
      (item.style &&& misSubmenu = 0 → item.children = []) ∧ item.children.length < 2 ^ 16 ∧
      ItemsFit item.children := by
  cases item
  rfl

/-- What a block of a submenu has to be, with `more` for what follows it. -/
def BlockPlain (more : Bool) (children : List MenuItem) : Prop :=
  (children = [] → more = false) ∧ ItemsPlain more children

theorem MenuItem.plain_iff (more : Bool) (item : MenuItem) : item.Plain more ↔
    item.style &&& misEnd = 0 ∧ (item.style &&& misSubmenu ≠ 0 → BlockPlain more item.children) := by
  cases item
  rfl

section Layout
variable (codepage reserved : UInt16)

@[simp] theorem menuHeader_length (length count : Nat) :
    (menuHeader codepage reserved length count).length = 10 := by
  simp [menuHeader]

theorem MenuItem.six_le_length (item : MenuItem) :
    6 ≤ (item.encode codepage reserved).length := by
  cases item
  simp only [MenuItem.encode, List.length_append, leBytes_length]
  omega

/-- What stands behind an item of a template: nothing, or at least the fixed part of
another item. -/
def Follows (rest : List UInt8) : Prop := rest = [] ∨ 6 ≤ rest.length

variable {codepage reserved} {items : List MenuItem} {rest : List UInt8}

theorem Follows.behind (follows : Follows rest) :
    Follows (encodeItems codepage reserved items ++ rest) := by
  cases items with
  | nil => simpa [encodeItems] using follows
  | cons item items =>
    have := item.six_le_length codepage reserved
    right
    simp only [encodeItems, List.length_append]
    omega

theorem followed_items : (encodeItems codepage reserved items ++ rest).isEmpty =
    (items.isEmpty && rest.isEmpty) := by
  cases items with
  | nil => simp [encodeItems]
  | cons item items =>
    have := item.six_le_length codepage reserved
    have nonempty : encodeItems codepage reserved (item :: items) ≠ [] := by
      intro empty
      have := congrArg List.length empty
      simp only [encodeItems, List.length_append, List.length_nil] at this
      omega
    simp [nonempty]

end Layout

theorem strip_separator (style : UInt16) :
    style &&& ~~~misEnd &&& misSeparator = style &&& misSeparator := by
  rw [UInt16.and_assoc]
  rfl

theorem strip_submenu (style : UInt16) :
    style &&& ~~~misEnd &&& misSubmenu = style &&& misSubmenu := by
  rw [UInt16.and_assoc]
  rfl

theorem strip_eq_iff (style : UInt16) :
    style &&& ~~~misEnd = style ↔ style &&& misEnd = 0 := by
  constructor
  · intro same
    rw [← same, UInt16.and_assoc]
    simp
  · intro clear
    have distrib : style &&& (~~~misEnd ||| misEnd) =
        (style &&& ~~~misEnd) ||| (style &&& misEnd) :=
      UInt16.toBitVec_inj.mp BitVec.and_or_distrib_left
    calc style &&& ~~~misEnd = (style &&& ~~~misEnd) ||| (style &&& misEnd) := by
          rw [clear, UInt16.or_zero]
      _ = style &&& -1 := distrib.symm
      _ = style := UInt16.and_neg_one

/-- A parse that gives the items exactly when a condition holds, and then stops behind them. -/
structure Reads (out : List MenuItem × Nat) (items : List MenuItem) (plain : Prop) (stop : Nat) :
    Prop where
  exact_iff : out.1 = items ↔ plain
  stops : plain → out.2 = stop

section Parse
open Template
variable {mem : GuestMemory} {base size : Nat}

/-- Without a count an item is taken wherever one has room. -/
theorem menuItemTurns_open {turns remaining offset : Nat} (room : wrapAdd offset 6 ≤ size) :
    (menuItemTurns mem base size (turns + 1) false remaining offset).1 ≠ [] := by
  rw [menuItemTurns]
  simp only [Bool.false_and, Bool.false_eq_true, if_false, Nat.not_lt.mpr room]
  split <;> simp

variable {codepage reserved : UInt16}

/-- What the turns read of counted items. -/
def TurnsRead (mem : GuestMemory) (base size : Nat) (codepage reserved : UInt16) (turns : Nat) :
    Prop :=
  ∀ items offset rest, ItemsFit items →
    Lies mem base offset (encodeItems codepage reserved items ++ rest) →
    size = offset + (encodeItems codepage reserved items ++ rest).length →
    size ≤ offset + turns → Follows rest →
    Reads (menuItemTurns mem base size turns true items.length offset) items
      (ItemsPlain (!rest.isEmpty) items) (offset + (encodeItems codepage reserved items).length)

theorem TurnsRead.block {turns offset : Nat} {items : List MenuItem} {rest : List UInt8}
    (small : mem.size ≤ guestMemSize)
    (read : TurnsRead mem base size codepage reserved turns) (fits : ItemsFit items)
    (lies : Lies mem base offset (encodeItems codepage reserved items ++ rest))
    (hsize : size = offset + (encodeItems codepage reserved items ++ rest).length)
    (enough : size ≤ offset + turns) (follows : Follows rest) :
    Reads (menuItemTurns mem base size turns (0 < items.length) items.length offset) items
      (BlockPlain (!rest.isEmpty) items)
      (offset + (encodeItems codepage reserved items).length) := by
  have hbound := lies.bound
  have haddr : wrapAdd offset 6 = offset + 6 := wrapAdd_of_lt (by
    simp only [guestMemSize, u32Size] at *
    omega)
  cases items with
  | cons item items =>
    have := read (item :: items) offset rest fits lies hsize enough follows
    simpa [BlockPlain] using this
  | nil =>
    simp only [encodeItems, List.nil_append, List.length_nil, Nat.add_zero] at *
    rcases follows with rfl | room
    · have hout : menuItemTurns mem base size turns (decide (0 < 0)) 0 offset = ([], offset) := by
        cases turns with
        | zero => rfl
        | succ turns =>
          rw [menuItemTurns, haddr]
          simp [hsize]
      rw [hout]
      exact ⟨by simp [BlockPlain, ItemsPlain], by simp⟩
    · have nonempty : rest ≠ [] := by
        rintro rfl
        simp at room
      obtain ⟨turns, rfl⟩ : ∃ n, turns = n + 1 := ⟨turns - 1, by omega⟩
      have taken : (menuItemTurns mem base size (turns + 1) false 0 offset).1 ≠ [] :=
        menuItemTurns_open (by omega)
      refine ⟨?_, ?_⟩
      · simpa [BlockPlain, nonempty, ItemsPlain] using taken
      · simp [BlockPlain, nonempty]

/-- The block of a submenu, or nothing where the item is none. -/
def childBlock (codepage reserved style : UInt16) (children : List MenuItem) : List UInt8 :=
  if style &&& misSubmenu ≠ 0 then menuBlock codepage reserved children else []

theorem menuChildren_reads {turns offset : Nat} {style : UInt16} {children : List MenuItem}
    {rest : List UInt8} (small : mem.size ≤ guestMemSize)
    (read : TurnsRead mem base size codepage reserved turns) (fits : ItemsFit children)
    (count : children.length < 2 ^ 16) (leaf : style &&& misSubmenu = 0 → children = [])
    (lies : Lies mem base offset (childBlock codepage reserved style children ++ rest))
    (hsize : size = offset + (childBlock codepage reserved style children ++ rest).length)
    (enough : size ≤ offset + turns) (follows : Follows rest) :
    Reads (menuChildren mem base size (fun count => menuItemTurns mem base size turns (0 < count)
        count) (style &&& ~~~misEnd) offset) children
      (style &&& misSubmenu ≠ 0 → BlockPlain (!rest.isEmpty) children)
      (offset + (childBlock codepage reserved style children).length) := by
  have hbound := lies.bound
  by_cases submenu : style &&& misSubmenu = 0
  · simp only [menuChildren, strip_submenu, childBlock, submenu, leaf submenu]
    exact ⟨by simp, by simp⟩
  · simp only [childBlock, ne_eq, submenu, not_false_eq_true, if_true, menuBlock,
      List.append_assoc] at lies hsize hbound ⊢
    obtain ⟨hheader, hitems⟩ := Lies.append.mp lies
    simp only [menuHeader_length, List.length_append] at hsize hbound hitems
    have hten : wrapAdd offset 10 = offset + 10 := wrapAdd_within small (by omega)
    have haddr : wrapAdd (wrapAdd base offset) 8 = base + (offset + 8) := by
      rw [wrapAdd_of_lt (a := base) (b := offset), wrapAdd_of_lt, Nat.add_assoc]
      all_goals
        simp only [guestMemSize, u32Size] at *
        omega
    have hcount : (readU16 mem (base + (offset + 8))).toNat = children.length := by
      apply readU16_toNat _ count
      unfold menuHeader at hheader
      simpa using (Lies.append.mp hheader).2
    have hroom : offset + 10 ≤ size := by omega
    have hblock := read.block small fits hitems (by simp only [List.length_append]; omega)
      (by omega) follows
    simp only [menuChildren, strip_submenu, ne_eq, submenu, not_false_eq_true, if_true, hten,
      hroom, haddr, hcount, forall_const, List.length_append, menuHeader_length]
    rw [← Nat.add_assoc]
    exact hblock

/-- The text of an item, or nothing where the item is a separator. -/
def textBytes (style : UInt16) (text : List Char) : List UInt8 :=
  if style &&& misSeparator = 0 then nulStr text else []

theorem readText {offset : Nat} {style : UInt16} {text : List Char}
    (small : mem.size ≤ guestMemSize) (chars : ∀ c ∈ text, 0 < c.toNat ∧ c.toNat < 256)
    (none_ : style &&& misSeparator ≠ 0 → text = [])
    (lies : Lies mem base offset (textBytes style text))
    (room : offset + (textBytes style text).length ≤ size) :
    (if style &&& ~~~misEnd &&& misSeparator = 0 then readNulStrAt mem base offset size
      else ([], offset)) = (text, offset + (textBytes style text).length) := by
  rw [strip_separator]
  unfold textBytes at *
  by_cases separator : style &&& misSeparator = 0
  · simp only [separator, if_true, nulStr_length] at lies room ⊢
    exact readNulStr_lies small chars lies (by omega)
  · simp [separator, none_ separator]

/-- One turn, where the bytes of an item stand. -/
theorem menuItemTurns_turn (turns n : Nat) {offset : Nat} {item : MenuItem} {rest : List UInt8}
    (small : mem.size ≤ guestMemSize) (fits : item.Fits)
    (lies : Lies mem base offset (item.encode codepage reserved ++ rest))
    (hsize : size = offset + (item.encode codepage reserved ++ rest).length) :
    ∃ body, Lies mem base body
        (childBlock codepage reserved item.style item.children ++ rest) ∧
      size = body + (childBlock codepage reserved item.style item.children ++ rest).length ∧
      offset + 6 ≤ body ∧
      menuItemTurns mem base size (turns + 1) true (n + 1) offset =
        let below := menuChildren mem base size
          (fun count => menuItemTurns mem base size turns (0 < count) count)
          (item.style &&& ~~~misEnd) body
        let behind := menuItemTurns mem base size turns true n below.2
        ({ item with style := item.style &&& ~~~misEnd, children := below.1 } :: behind.1,
          behind.2) := by
  obtain ⟨id, style, attr, text, children⟩ := item
  obtain ⟨chars, none_, -⟩ := fits
  have hencode : MenuItem.encode codepage reserved ⟨id, style, attr, text, children⟩ ++ rest =
      leBytes 2 style.toNat ++ (leBytes 2 attr.toNat ++ (leBytes 2 id.toNat ++
        (textBytes style text ++ (childBlock codepage reserved style children ++ rest)))) := by
    simp only [MenuItem.encode, textBytes, childBlock, menuBlock, List.append_assoc]
  rw [hencode] at lies hsize
  have hbound := lies.bound
  obtain ⟨hstyle, lies⟩ := Lies.append.mp lies
  obtain ⟨hattr, lies⟩ := Lies.append.mp lies
  obtain ⟨hid, lies⟩ := Lies.append.mp lies
  obtain ⟨htext, lies⟩ := Lies.append.mp lies
  simp only [List.length_append, leBytes_length, Nat.add_assoc, Nat.reduceAdd] at *
  refine ⟨offset + (6 + (textBytes style text).length), lies, by omega, by omega, ?_⟩
  have hsix : wrapAdd offset 6 = offset + 6 := wrapAdd_within small (by omega)
  have haddr : wrapAdd base offset = base + offset := wrapAdd_within small (by omega)
  have htwo : wrapAdd (base + offset) 2 = base + (offset + 2) := wrapAdd_within small (by omega)
  have hfour : wrapAdd (base + offset) 4 = base + (offset + 4) := wrapAdd_within small (by omega)
  have hread := readText small chars none_ htext (by omega : _ ≤ size)
  rw [menuItemTurns, if_neg (by simp), hsix, if_neg (by omega)]
  simp only [haddr, htwo, hfour, readU16_eq hstyle, readU16_eq hattr, readU16_eq hid, hread,
    Bool.not_true, Bool.false_and, Bool.false_eq_true, if_false, if_true, Nat.add_sub_cancel,
    Nat.add_assoc]

theorem item_exact_iff {item : MenuItem} {below : List MenuItem × Nat} {more : Bool} {stop : Nat}
    (read : Reads below item.children
      (item.style &&& misSubmenu ≠ 0 → BlockPlain more item.children) stop) :
    { item with style := item.style &&& ~~~misEnd, children := below.1 } = item ↔
      item.Plain more := by
  rw [item.plain_iff, ← strip_eq_iff, ← read.exact_iff]
  cases item
  simp

/-- Where an item and its block are not read as they were written, what is read differs
from them there; so the items behind, read at the wrong place, need not be followed. -/
theorem turnsRead (small : mem.size ≤ guestMemSize) (turns : Nat) :
    TurnsRead mem base size codepage reserved turns := by
  induction turns with
  | zero =>
    intro items offset rest _ _ hsize enough _
    cases items with
    | nil => exact ⟨by simp [menuItemTurns, ItemsPlain], by simp [menuItemTurns, encodeItems]⟩
    | cons item tail =>
      have := item.six_le_length codepage reserved
      simp only [encodeItems, List.length_append] at hsize
      omega
  | succ turns ih =>
    intro items offset rest fits lies hsize enough follows
    cases items with
    | nil => exact ⟨by simp [menuItemTurns, ItemsPlain], by simp [menuItemTurns, encodeItems]⟩
    | cons item tail =>
      obtain ⟨hitem, htail⟩ := fits
      rw [encodeItems, List.append_assoc] at lies hsize
      obtain ⟨body, hbody, hsize', hbelow, hturn⟩ :=
        menuItemTurns_turn turns tail.length small hitem lies hsize
      obtain ⟨-, -, leaf, count, hfits⟩ := item.fits_iff.mp hitem
      have hchildren := menuChildren_reads small ih hfits count leaf hbody hsize' (by omega)
        follows.behind
      rw [followed_items] at hchildren
      have hhead := item_exact_iff hchildren
      simp only [List.length_append] at hsize hsize'
      have hnext (plain : item.Plain (!(tail.isEmpty && rest.isEmpty))) :=
        hchildren.stops ((item.plain_iff _).mp plain).2
      have hbehind (plain : item.Plain (!(tail.isEmpty && rest.isEmpty))) := by
        have := ih tail _ rest htail (Lies.append.mp hbody).2
          (by simp only [List.length_append]; omega) (by omega) follows
        rwa [← hnext plain] at this
      rw [List.length_cons, hturn]
      have hmore : (!(tail.isEmpty && rest.isEmpty)) = (!rest.isEmpty || !tail.isEmpty) := by
        simp [Bool.or_comm]
      rw [hmore] at hhead hbehind hnext
      refine ⟨?_, ?_⟩
      · rw [List.cons.injEq, hhead, ItemsPlain]
        exact and_congr_right fun plain => (hbehind plain).exact_iff
      · rintro ⟨hplain, hrest⟩
        rw [(hbehind hplain).stops hrest, hnext hplain, encodeItems, List.length_append]
        omega

section Turns
variable (mem : GuestMemory) (base size : Nat)

theorem readNulStr_stop (left offset : Nat) :
    offset ≤ (readNulStr mem base left offset).2 ∧
      (readNulStr mem base left offset).2 ≤ offset + left := by
  induction left generalizing offset with
  | zero => simp [readNulStr]
  | succ left ih =>
    have := ih (offset + 1)
    rw [readNulStr]
    split
    · simp only
      omega
    · dsimp only
      omega

/-- Where a parse stops: not before its start, and within the template. -/
def StopsWithin (size offset : Nat) (out : List MenuItem × Nat) : Prop :=
  offset ≤ out.2 ∧ out.2 ≤ size

theorem textStop (style : UInt16) {offset : Nat} (inside : offset ≤ size) :
    offset ≤ (if style &&& misSeparator = 0 then readNulStrAt mem base offset size
        else ([], offset)).2 ∧
      (if style &&& misSeparator = 0 then readNulStrAt mem base offset size
        else ([], offset)).2 ≤ size := by
  have := readNulStr_stop mem base (size - offset) offset
  split
  · unfold readNulStrAt
    omega
  · exact ⟨le_refl _, inside⟩

theorem menuChildren_stop {parse : Nat → Nat → List MenuItem × Nat} (style : UInt16)
    {offset : Nat} (small : size + 10 < u32Size) (inside : offset ≤ size)
    (stop : ∀ count next, next ≤ size → StopsWithin size next (parse count next)) :
    StopsWithin size offset (menuChildren mem base size parse style offset) := by
  have hten : wrapAdd offset 10 = offset + 10 := wrapAdd_of_lt (by omega)
  have same : StopsWithin size offset (([] : List MenuItem), offset) := ⟨le_refl _, inside⟩
  unfold menuChildren
  rw [hten]
  split
  · split
    · rename_i room
      obtain ⟨low, high⟩ := stop (readU16 mem (wrapAdd (wrapAdd base offset) 8)).toNat _ room
      exact ⟨(Nat.le_add_right offset 10).trans low, high⟩
    · exact same
  · exact same

theorem menuItemTurns_stop (small : size + 10 < u32Size) (turns : Nat) :
    ∀ useCount remaining offset, offset ≤ size →
      StopsWithin size offset (menuItemTurns mem base size turns useCount remaining offset) := by
  induction turns with
  | zero => exact fun _ _ _ inside => ⟨le_refl _, inside⟩
  | succ turns ih =>
    intro useCount remaining offset inside
    have hsix : wrapAdd offset 6 = offset + 6 := wrapAdd_of_lt (by omega)
    rw [menuItemTurns, hsix]
    split
    · exact ⟨le_refl _, inside⟩
    split
    · exact ⟨le_refl _, inside⟩
    rename_i room
    have htext := textStop mem base size (readU16 mem (wrapAdd base offset) &&& ~~~misEnd)
      (Nat.not_lt.mp room)
    dsimp only
    generalize readU16 mem (wrapAdd base offset) &&& ~~~misEnd = style at htext ⊢
    generalize (if style &&& misSeparator = 0 then _ else _ : List Char × Nat) = text at htext ⊢
    have hbelow := menuChildren_stop mem base size style small htext.2
      fun count next inside => ih (0 < count) count next inside
    generalize menuChildren mem base size _ style text.2 = below at hbelow ⊢
    split
    · exact ⟨by have := hbelow.1; have := htext.1; dsimp only; omega, hbelow.2⟩
    · obtain ⟨low, high⟩ := ih useCount (if useCount then remaining - 1 else remaining) _ hbelow.2
      exact ⟨by have := hbelow.1; have := htext.1; dsimp only; omega, high⟩

theorem menuChildren_congr {parse : Nat → Nat → List MenuItem × Nat}
    (other : Nat → Nat → List MenuItem × Nat) {style : UInt16} {offset : Nat} (same : ∀ count, wrapAdd offset 10 ≤ size →
      parse count (wrapAdd offset 10) = other count (wrapAdd offset 10)) :
    menuChildren mem base size parse style offset =
      menuChildren mem base size other style offset := by
  unfold menuChildren
  split
  · split
    · rename_i room
      exact same _ room
    · rfl
  · rfl

/-- As many turns as bytes are enough: the loop would take no more. -/
theorem menuItemTurns_enough (small : size + 10 < u32Size) (more turns : Nat) :
    ∀ useCount remaining offset, offset ≤ size → size ≤ offset + turns →
      menuItemTurns mem base size (turns + more) useCount remaining offset =
        menuItemTurns mem base size turns useCount remaining offset := by
  induction turns with
  | zero =>
    intro useCount remaining offset inside enough
    cases more with
    | zero => rfl
    | succ more =>
      have hsix : wrapAdd offset 6 = offset + 6 := wrapAdd_of_lt (by omega)
      have over_ : size < offset + 6 := by omega
      rw [Nat.zero_add, menuItemTurns, menuItemTurns, hsix, if_pos over_, ite_self]
  | succ turns ih =>
    intro useCount remaining offset inside enough
    have hsix : wrapAdd offset 6 = offset + 6 := wrapAdd_of_lt (by omega)
    rw [Nat.add_right_comm, menuItemTurns, menuItemTurns, hsix]
    split
    · rfl
    split
    · rfl
    rename_i room
    have htext := textStop mem base size (readU16 mem (wrapAdd base offset) &&& ~~~misEnd)
      (Nat.not_lt.mp room)
    dsimp only
    generalize readU16 mem (wrapAdd base offset) &&& ~~~misEnd = style at htext ⊢
    generalize (if style &&& misSeparator = 0 then _ else _ : List Char × Nat) = text at htext ⊢
    have hbelow := menuChildren_stop mem base size style small htext.2
      fun count next inside => menuItemTurns_stop mem base size small turns (0 < count) count next inside
    have hten : wrapAdd text.2 10 = text.2 + 10 := wrapAdd_of_lt (by omega)
    rw [menuChildren_congr mem base size
      (fun count => menuItemTurns mem base size turns (0 < count) count)
      fun count inside => ih (0 < count) count _ inside (by omega)]
    generalize menuChildren mem base size _ style text.2 = below at hbelow ⊢
    rw [ih useCount _ below.2 hbelow.2 (by have := hbelow.1; omega)]

theorem parseMenuItems_enough {turns offset : Nat} (small : size + 10 < u32Size)
    (inside : offset ≤ size) (enough : size ≤ turns) (count : Nat) :
    menuItemTurns mem base size turns (0 < count) count offset =
      parseMenuItems mem base size offset count := by
  obtain ⟨more, rfl⟩ := Nat.exists_eq_add_of_le enough
  exact menuItemTurns_enough mem base size small more size _ _ _ inside (by omega)

end Turns

end Parse

section Template
variable {mem : GuestMemory} {base : Nat} {codepage reserved : UInt16} {items : List MenuItem}

/-- A template is read back as the items it was written from exactly when none has the style
bit of a last item and nothing follows a submenu without items. -/
theorem parseMenuTemplate_iff (small : mem.size ≤ guestMemSize) (fits : ItemsFit items)
    (count : items.length < 2 ^ 16)
    (lies : mem.slice base (menuBlock codepage reserved items).length =
      some (menuBlock codepage reserved items)) :
    parseMenuTemplate mem base (menuBlock codepage reserved items).length = items ↔
      ItemsPlain false items := by
  have whole : Template.Lies mem base 0 (menuBlock codepage reserved items) := lies
  have hbound := whole.bound
  obtain ⟨hheader, hitems⟩ := Template.Lies.append.mp whole
  rw [menuHeader_length, Nat.zero_add] at hitems
  have hlength : (menuBlock codepage reserved items).length =
      10 + (encodeItems codepage reserved items ++ []).length := by
    simp [menuBlock]
  have haddr : wrapAdd base 8 = base + (0 + 8) := Template.wrapAdd_within small (by omega)
  have hcount : (Template.readU16 mem (base + (0 + 8))).toNat = items.length := by
    apply Template.readU16_toNat _ count
    unfold menuHeader at hheader
    simpa using (Template.Lies.append.mp hheader).2
  have hread := TurnsRead.block small (turnsRead small _) fits
    (by rwa [List.append_nil]) hlength (Nat.le_add_left _ _) (.inl rfl)
  have hroom : ¬(menuBlock codepage reserved items).length < 10 := by omega
  rw [parseMenuTemplate, if_neg hroom, haddr]
  dsimp only
  rw [hcount, parseMenuItems, hread.exact_iff]
  simp [BlockPlain]

def fileMenu : List MenuItem := [
  { id := 200, style := misSubmenu, attr := 0, text := ['F'], children := [
    { id := 201, style := 1, attr := 0, text := ['A'], children := [] },
    { id := 0, style := misSeparator, attr := 0, text := [], children := [] }] },
  { id := 300, style := misSubmenu, attr := 0, text := ['H'], children := [] }]

def templateMemory (items : List MenuItem) : GuestMemory :=
  GuestMemory.putBytes { size := 128, bytes := fun _ => 0 } 16 (menuBlock 850 4 items)

theorem parseMenuTemplate_file :
    parseMenuTemplate (templateMemory fileMenu) 16 (menuBlock 850 4 fileMenu).length = fileMenu :=
  (parseMenuTemplate_iff (by decide) (by simp [fileMenu, ItemsFit, MenuItem.Fits]; decide)
    (by decide) (GuestMemory.slice_putBytes _ (by decide))).mpr
    (by simp [fileMenu, ItemsPlain, MenuItem.Plain]; decide)

/-- A submenu without items takes in the item behind it. -/
def emptyMenu : List MenuItem := [
  { id := 200, style := misSubmenu, attr := 0, text := ['F'], children := [] },
  { id := 300, style := 1, attr := 0, text := ['H'], children := [] }]

theorem empty_submenu_swallows :
    ¬∀ (mem : GuestMemory) (base : Nat) (codepage reserved : UInt16) (items : List MenuItem),
      mem.size ≤ guestMemSize → ItemsFit items → items.length < 2 ^ 16 →
      mem.slice base (menuBlock codepage reserved items).length =
        some (menuBlock codepage reserved items) →
      parseMenuTemplate mem base (menuBlock codepage reserved items).length = items := by
  intro claim
  have same := claim (templateMemory emptyMenu) 16 850 4 emptyMenu (by decide)
    (by simp [emptyMenu, ItemsFit, MenuItem.Fits]; decide) (by decide)
    (GuestMemory.slice_putBytes _ (by decide))
  have one : (parseMenuTemplate (templateMemory emptyMenu) 16
      (menuBlock 850 4 emptyMenu).length).length = 1 := by decide
  rw [same] at one
  exact absurd one (by decide)

end Template

end Warpine.Pm
