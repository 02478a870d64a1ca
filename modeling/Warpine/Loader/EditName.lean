import Mathlib.Data.List.DropRight
import Mathlib.Tactic.SplitIfs
import Warpine.Lib.Fields
import Warpine.Lib.Utf8
import Warpine.Loader.CodepageStrings

/-! The wildcard transformation of a name: an edit mask is walked byte by byte beside the
bytes of the source, and the bytes that are taken become characters. -/
namespace Warpine.Loader
open Warpine.Lib Warpine.Vfs

def period : UInt8 := 0x2E

/-- A byte cast to a character. -/
def asChar (byte : UInt8) : Char := Char.ofNat byte.toNat

/-- The source is given from its cursor on. -/
def editBytes : List UInt8 → List UInt8 → Path
  | [], _ => []
  | eb :: edit, src =>
    if eb = 0x2A then
      (src.takeWhile (· ≠ period)).map asChar ++ editBytes edit (src.dropWhile (· ≠ period))
    else if eb = 0x3F then
      match src with
      | byte :: rest =>
        if byte = period then editBytes edit (byte :: rest) else asChar byte :: editBytes edit rest
      | [] => editBytes edit []
    else if eb = period then '.' :: editBytes edit ((src.dropWhile (· ≠ period)).drop 1)
    else
      match src with
      | byte :: rest => asChar eb :: editBytes edit (if byte = period then byte :: rest else rest)
      | [] => asChar eb :: editBytes edit []

def applyEditName (source edit : Path) : Path :=
  editBytes (edit.flatMap Utf8.encodeChar) (source.flatMap Utf8.encodeChar)

/-- One component of a mask at one of the name: a star stands for what is left, a question
mark for one character, and any other character takes the place of one. -/
def editPart : Path → Path → Path
  | [], _ => []
  | c :: mask, part =>
    if c = '*' then part ++ editPart mask []
    else if c = '?' then part.head?.toList ++ editPart mask part.tail
    else c :: editPart mask part.tail

/-- The components of the name beside those of the mask; one that is missing is empty. -/
def editParts : List Path → List Path → List Path
  | [], _ => []
  | mask :: masks, [] => editPart mask [] :: editParts masks []
  | mask :: masks, part :: parts => editPart mask part :: editParts masks parts

def editName (source edit : Path) : Path :=
  ['.'].intercalate (editParts (edit.splitOn '.') (source.splitOn '.'))

/-- The mask for any name. -/
def anyName : Path := ['*', '.', '*']

structure EditRight (source edit result : Path) : Prop where
  parts : ¬ (edit = anyName ∧ '.' ∈ source) → result = editName source edit
  star : edit = ['*'] → '.' ∉ source → result = source
  starStar : edit = anyName → '.' ∈ source → result = source
  unaltered : ∀ c ∈ result, c ∈ source ∨ c ∈ edit

/-- The bytes of a text, each as a character. -/
def spell (text : Path) : Path := (text.flatMap Utf8.encodeChar).map asChar

/-- The mask takes over what stands at that place of the component. -/
def Copies : Path → Nat → Prop
  | [], _ => False
  | c :: mask, place =>
    if c = '*' then True
    else match place with
      | 0 => c = '?'
      | place + 1 => Copies mask place

/-- The component of a name, none where there are fewer. -/
def partAt (source : Path) (i : Nat) : Path := ((source.splitOn '.')[i]?).getD []

/-- The bytes tell the same as the characters: the mask has one byte a character, and at each
place that it copies the byte is the character. The mask for any name sees two components. -/
def BytesTell (source edit : Path) : Prop :=
  if edit = anyName ∧ '.' ∈ source then (∀ c ∈ source, isAscii c) ∧ source.count '.' = 1
  else (∀ c ∈ edit, isAscii c) ∧
    ∀ i mask, (edit.splitOn '.')[i]? = some mask → ∀ place, Copies mask place →
      (spell (partAt source i))[place]? = (partAt source i)[place]?

section Loop

/-- The components behind the first dot. -/
def laterParts (text : Path) : List Path :=
  match text.dropWhile (· ≠ '.') with
  | [] => []
  | _ :: rest => rest.splitOn '.'

theorem splitOn_dot (text : Path) :
    text.splitOn '.' = text.takeWhile (· ≠ '.') :: laterParts text := by
  induction text with
  | nil => rfl
  | cons c text ih =>
    rw [List.splitOn_cons_eq_if_modifyHead]
    by_cases h : c = '.'
    · subst h
      rfl
    · have hne : (c == '.') = false := beq_false_of_ne h
      have later : laterParts (c :: text) = laterParts text := by
        simp [laterParts, h]
      rw [hne, ih, later]
      simp [h]

theorem laterParts_dropWhile (text : Path) :
    laterParts (text.dropWhile (· ≠ '.')) = laterParts text := by
  simp only [laterParts]
  rw [List.dropWhile_idempotent]

theorem takeWhile_dropWhile_dot (text : Path) :
    (text.dropWhile (· ≠ '.')).takeWhile (· ≠ '.') = [] := by
  induction text with
  | nil => rfl
  | cons c text ih =>
    by_cases h : c = '.'
    · simp [h]
    · simpa [List.dropWhile_cons, h] using ih

theorem editParts_splitOn (mask : Path) (masks : List Path) (text : Path) :
    editParts (mask :: masks) (text.splitOn '.') =
      editPart mask (text.takeWhile (· ≠ '.')) :: editParts masks (laterParts text) := by
  rw [splitOn_dot]
  rfl

/-- A text that has ended is a missing component. -/
theorem editParts_empty (masks : List Path) : editParts masks [[]] = editParts masks [] := by
  cases masks with
  | nil => rfl
  | cons mask masks => cases masks <;> rfl

/-- Behind the next dot. -/
theorem editParts_past_dot (masks : List Path) (text : Path) :
    editParts masks (((text.dropWhile (· ≠ '.')).drop 1).splitOn '.') =
      editParts masks (laterParts text) := by
  unfold laterParts
  cases h : text.dropWhile (· ≠ '.') with
  | nil => exact editParts_empty masks
  | cons c rest => rfl

theorem asChar_toNat (byte : UInt8) : (asChar byte).toNat = byte.toNat := by
  have small := byte.toNat_lt
  exact toNat_ofNat (by omega)

theorem asChar_inj {byte other : UInt8} : asChar byte = asChar other ↔ byte = other := by
  constructor
  · intro h
    apply UInt8.toNat_inj.mp
    rw [← asChar_toNat, h, asChar_toNat]
  · exact congrArg asChar

theorem asChar_star {byte : UInt8} : asChar byte = '*' ↔ byte = 0x2A := @asChar_inj byte 0x2A
theorem asChar_query {byte : UInt8} : asChar byte = '?' ↔ byte = 0x3F := @asChar_inj byte 0x3F
theorem asChar_dot {byte : UInt8} : asChar byte = '.' ↔ byte = period := @asChar_inj byte period

theorem asChar_takeWhile (src : List UInt8) :
    (src.takeWhile (· ≠ period)).map asChar = (src.map asChar).takeWhile (· ≠ '.') := by
  rw [List.takeWhile_map]
  congr 2
  funext byte
  simp [asChar_dot]

theorem asChar_dropWhile (src : List UInt8) :
    (src.dropWhile (· ≠ period)).map asChar = (src.map asChar).dropWhile (· ≠ '.') := by
  rw [List.dropWhile_map]
  congr 2
  funext byte
  simp [asChar_dot]

theorem editParts_ne_nil (mask : Path) (masks parts : List Path) :
    editParts (mask :: masks) parts ≠ [] := by
  cases parts <;> exact List.cons_ne_nil _ _

/-- The walk over the bytes is the edit of the components that the bytes spell. -/
theorem editBytes_eq (edit src : List UInt8) :
    editBytes edit src = ['.'].intercalate
      (editParts ((edit.map asChar).splitOn '.') ((src.map asChar).splitOn '.')) := by
  induction edit generalizing src with
  | nil =>
    rw [List.map_nil, List.splitOn_nil, editParts_splitOn]
    rfl
  | cons eb edit ih =>
    have split := splitOn_dot (edit.map asChar)
    generalize (edit.map asChar).takeWhile (· ≠ '.') = mask at split
    generalize laterParts (edit.map asChar) = masks at split
    rw [split] at ih
    rw [List.map_cons, List.splitOn_cons_eq_if_modifyHead, split]
    unfold editBytes
    by_cases hdot : eb = period
    · have isDot : (asChar eb == '.') = true := beq_iff_eq.mpr (asChar_dot.mpr hdot)
      rw [if_neg (by rw [hdot]; decide), if_neg (by rw [hdot]; decide), if_pos hdot, ih,
        List.map_drop, asChar_dropWhile, editParts_past_dot, isDot, if_pos rfl,
        editParts_splitOn, List.intercalate_cons_of_ne_nil (editParts_ne_nil _ _ _)]
      rfl
    have noDot : (asChar eb == '.') = false := beq_false_of_ne (mt asChar_dot.mp hdot)
    rw [noDot, if_neg Bool.false_ne_true, List.modifyHead_cons, editParts_splitOn]
    simp only [editParts_splitOn] at ih
    by_cases star : eb = 0x2A
    · -- the cursor stops in front of the dot, with nothing left of the component
      rw [if_pos star, ih, asChar_takeWhile, asChar_dropWhile, takeWhile_dropWhile_dot,
        laterParts_dropWhile, asChar_star.mpr star, ← intercalate_append_head]
      rfl
    rw [if_neg star]
    by_cases query : eb = 0x3F
    · rw [if_pos query]
      cases src with
      | nil =>
        rw [ih, asChar_query.mpr query]
        rfl
      | cons byte rest =>
        dsimp only
        by_cases stop : byte = period
        · rw [if_pos stop, ih, List.map_cons, asChar_dot.mpr stop, asChar_query.mpr query]
          rfl
        · have go : asChar byte ≠ '.' := mt asChar_dot.mp stop
          rw [if_neg stop, ih, ← List.intercalate_cons_cons_left, asChar_query.mpr query]
          simp [laterParts, go, editPart]
    · have notStar : asChar eb ≠ '*' := mt asChar_star.mp star
      have notQuery : asChar eb ≠ '?' := mt asChar_query.mp query
      rw [if_neg query, if_neg hdot, editPart, if_neg notStar, if_neg notQuery,
        List.intercalate_cons_cons_left]
      cases src with
      | nil => rw [ih]; rfl
      | cons byte rest =>
        dsimp only
        rw [ih]
        by_cases stop : byte = period
        · rw [if_pos stop, List.map_cons, asChar_dot.mpr stop]
          rfl
        · have go : asChar byte ≠ '.' := mt asChar_dot.mp stop
          rw [if_neg stop]
          simp [laterParts, go]

end Loop

section Spelling

theorem spell_append (front back : Path) : spell (front ++ back) = spell front ++ spell back := by
  simp [spell]

theorem spell_cons (c : Char) (text : Path) : spell (c :: text) = spell [c] ++ spell text :=
  spell_append [c] text

/-- A character of ASCII is its byte. -/
theorem spell_ascii {c : Char} (h : isAscii c = true) : spell [c] = [c] := by
  have small : c.toNat < 128 := of_decide_eq_true h
  simp only [spell, List.flatMap_singleton, Utf8.encodeChar, if_pos small, List.map_cons,
    List.map_nil, asChar, Utf8.byte_toNat (show c.toNat < 256 by omega), Char.ofNat_toNat]

/-- Any other is two bytes or more, none of ASCII. -/
theorem spell_other {c : Char} (h : isAscii c = false) :
    2 ≤ (spell [c]).length ∧ ∀ d ∈ spell [c], isAscii d = false := by
  have large : ¬ c.toNat < 128 := of_decide_eq_false h
  have valid : c.toNat < 0x110000 := by
    have := c.valid
    simp only [UInt32.isValidChar, Nat.isValidChar] at this
    change c.val.toNat < 0x110000
    omega
  have lead : ∀ n, 0x80 ≤ n → n < 256 → isAscii (asChar (UInt8.ofNat n)) = false := by
    intro n low high
    rw [isAscii, asChar_toNat, Utf8.byte_toNat high]
    exact decide_eq_false (by omega)
  have low : ∀ n unit, isAscii (asChar (Utf8.lowBits n unit)) = false := by
    intro n unit
    rw [isAscii, asChar_toNat, Utf8.lowBits_toNat]
    exact decide_eq_false (by omega)
  simp only [spell, List.flatMap_singleton, Utf8.encodeChar, if_neg large]
  split_ifs
  · simp only [List.map_cons, List.map_nil, List.forall_mem_cons, List.length_cons]
    exact ⟨by omega, lead _ (by omega) (by omega), low _ _, List.forall_mem_nil _⟩
  · simp only [List.map_cons, List.map_nil, List.forall_mem_cons, List.length_cons]
    exact ⟨by omega, lead _ (by omega) (by omega), low _ _, low _ _, List.forall_mem_nil _⟩
  · simp only [List.map_cons, List.map_nil, List.forall_mem_cons, List.length_cons]
    exact ⟨by omega, lead _ (by omega) (by omega), low _ _, low _ _, low _ _,
      List.forall_mem_nil _⟩

theorem spell_plain {text : Path} (h : ∀ c ∈ text, isAscii c = true) : spell text = text := by
  induction text with
  | nil => rfl
  | cons c text ih =>
    rw [List.forall_mem_cons] at h
    rw [spell_cons, spell_ascii h.1, ih h.2]
    rfl

theorem spell_length (text : Path) : text.length ≤ (spell text).length := by
  induction text with
  | nil => exact Nat.zero_le _
  | cons c text ih =>
    rw [spell_cons, List.length_append, List.length_cons]
    cases h : isAscii c with
    | true =>
      rw [spell_ascii h, List.length_singleton]
      omega
    | false =>
      have := (spell_other h).1
      omega

/-- The bytes are as many as the characters only where they are the same. -/
theorem spell_longer {text : Path} (h : ¬ ∀ c ∈ text, isAscii c = true) :
    text.length < (spell text).length := by
  induction text with
  | nil => exact absurd (List.forall_mem_nil _) h
  | cons c text ih =>
    rw [spell_cons, List.length_append, List.length_cons]
    cases hc : isAscii c with
    | true =>
      have rest : ¬ ∀ d ∈ text, isAscii d = true := fun all =>
        h (List.forall_mem_cons.mpr ⟨hc, all⟩)
      rw [spell_ascii hc, List.length_singleton]
      have := ih rest
      omega
    | false =>
      have two := (spell_other hc).1
      have := spell_length text
      omega

theorem spell_eq_iff (text : Path) : spell text = text ↔ ∀ c ∈ text, isAscii c = true := by
  constructor
  · intro same
    by_contra other
    have := spell_longer other
    rw [same] at this
    omega
  · exact spell_plain

/-- What is not of ASCII is told by two of its kind at least. -/
theorem count_spell (text : Path) :
    2 * text.countP (! isAscii ·) ≤ (spell text).countP (! isAscii ·) := by
  induction text with
  | nil => exact Nat.le_refl _
  | cons c text ih =>
    rw [spell_cons, List.countP_append, List.countP_cons]
    cases h : isAscii c with
    | true =>
      simp only [Bool.not_true, Bool.false_eq_true, if_false]
      omega
    | false =>
      have all : (spell [c]).countP (! isAscii ·) = (spell [c]).length :=
        List.countP_eq_length.mpr fun d hd => by simp [(spell_other h).2 d hd]
      have two := (spell_other h).1
      simp only [Bool.not_false, if_true]
      omega

/-- The bytes have their dots where the text has them. -/
theorem splitOn_spell (text : Path) : (spell text).splitOn '.' = (text.splitOn '.').map spell := by
  induction text with
  | nil => rfl
  | cons c text ih =>
    rw [spell_cons, List.splitOn_cons_eq_if_modifyHead]
    by_cases hdot : c = '.'
    · subst hdot
      change ('.' :: spell text).splitOn '.' = _
      rw [List.splitOn_cons_eq_if_modifyHead, ih]
      rfl
    · have none_ : '.' ∉ spell [c] := by
        intro member
        cases h : isAscii c with
        | true =>
          rw [spell_ascii h, List.mem_singleton] at member
          exact hdot member.symm
        | false => exact absurd ((spell_other h).2 '.' member) (by decide)
      rw [splitOn_append_of_not_mem none_, ih, beq_false_of_ne hdot]
      cases text.splitOn '.' with
      | nil => rfl
      | cons part parts => simp [spell_cons c part]

end Spelling

section Part

theorem editPart_length_mono (mask : Path) {part longer : Path}
    (h : part.length ≤ longer.length) :
    (editPart mask part).length ≤ (editPart mask longer).length := by
  induction mask generalizing part longer with
  | nil => exact Nat.le_refl _
  | cons c mask ih =>
    have tails : part.tail.length ≤ longer.tail.length := by
      rw [List.length_tail, List.length_tail]
      omega
    have rest := ih tails
    unfold editPart
    split_ifs
    · rw [List.length_append, List.length_append]
      omega
    · have heads : part.head?.toList.length ≤ longer.head?.toList.length := by
        cases part <;> cases longer <;> simp at h ⊢
      rw [List.length_append, List.length_append]
      exact Nat.add_le_add heads rest
    · rw [List.length_cons, List.length_cons]
      omega

/-- One character less in the component is at most one less in the result. -/
theorem editPart_length_tail (mask part : Path) :
    (editPart mask part).length ≤ (editPart mask part.tail).length + 1 := by
  induction mask generalizing part with
  | nil => exact Nat.zero_le _
  | cons c mask ih =>
    have rest := ih part.tail
    unfold editPart
    split_ifs
    · rw [List.length_append, List.length_append, List.length_tail]
      omega
    · rw [List.length_append, List.length_append]
      match part with
      | [] => simp
      | [_] => simp [Nat.add_comm]
      | _ :: _ :: _ =>
        simp only [List.tail_cons, List.head?_cons, Option.toList_some,
          List.length_singleton] at rest ⊢
        omega
    · rw [List.length_cons, List.length_cons]
      omega

theorem editPart_length_drop (mask part : Path) (count : Nat) :
    (editPart mask part).length ≤ (editPart mask (part.drop count)).length + count := by
  induction count with
  | zero => exact Nat.le_refl _
  | succ count ih =>
    have step := editPart_length_tail mask (part.drop count)
    rw [List.tail_drop] at step
    omega

/-- Characters that are no wildcards stand for themselves. -/
theorem editPart_literals {front : Path} (h : ∀ c ∈ front, isAscii c = false) (mask part : Path) :
    editPart (front ++ mask) part = front ++ editPart mask (part.drop front.length) := by
  induction front generalizing part with
  | nil => rfl
  | cons c front ih =>
    rw [List.forall_mem_cons] at h
    have notStar : c ≠ '*' := by rintro rfl; exact absurd h.1 (by decide)
    have notQuery : c ≠ '?' := by rintro rfl; exact absurd h.1 (by decide)
    rw [List.cons_append, editPart, if_neg notStar, if_neg notQuery, ih h.2, List.length_cons]
    cases part <;> simp

/-- A mask of bytes gives no shorter results. -/
theorem editPart_spell_length (mask part : Path) :
    (editPart mask part).length ≤ (editPart (spell mask) part).length := by
  induction mask generalizing part with
  | nil => exact Nat.le_refl _
  | cons c mask ih =>
    rw [spell_cons]
    cases h : isAscii c with
    | true =>
      rw [spell_ascii h, List.singleton_append]
      unfold editPart
      split_ifs
      · rw [List.length_append, List.length_append]
        exact Nat.add_le_add_left (ih []) _
      · rw [List.length_append, List.length_append]
        exact Nat.add_le_add_left (ih part.tail) _
      · rw [List.length_cons, List.length_cons]
        exact Nat.add_le_add_right (ih part.tail) 1
    | false =>
      obtain ⟨two, others⟩ := spell_other h
      have notStar : c ≠ '*' := by rintro rfl; exact absurd h (by decide)
      have notQuery : c ≠ '?' := by rintro rfl; exact absurd h (by decide)
      have drops := editPart_length_drop (spell mask) part.tail ((spell [c]).length - 1)
      rw [← List.drop_one, List.drop_drop, Nat.add_sub_cancel' (by omega)] at drops
      have rest := ih part.tail
      rw [← List.drop_one] at rest
      rw [editPart_literals others, editPart, if_neg notStar, if_neg notQuery, List.length_append,
        List.length_cons, ← List.drop_one]
      omega

theorem editPart_count (mask : Path) {part : Path} (h : ∀ c ∈ part, isAscii c = true) :
    (editPart mask part).countP (! isAscii ·) = mask.countP (! isAscii ·) := by
  induction mask generalizing part with
  | nil => rfl
  | cons c mask ih =>
    have tail : ∀ d ∈ part.tail, isAscii d = true := fun d hd => h d (List.mem_of_mem_tail hd)
    unfold editPart
    split_ifs with star query
    · have plain : part.countP (! isAscii ·) = 0 := List.countP_eq_zero.mpr (by simpa using h)
      rw [List.countP_append, plain, ih (List.forall_mem_nil _), star]
      simp [isAscii]
    · have plain : part.head?.toList.countP (! isAscii ·) = 0 :=
        List.countP_eq_zero.mpr (by simpa using fun d hd => h d (List.mem_of_head? hd))
      rw [List.countP_append, plain, ih tail, query]
      simp [isAscii]
    · rw [List.countP_cons, List.countP_cons, ih tail]

/-- What the bytes are to the characters they spell, also from any place on. -/
def Told (spelled part : Path) : Prop :=
  (spelled = part ∧ ∀ c ∈ part, isAscii c = true) ∨ part.length < spelled.length

theorem told_spell (part : Path) : Told (spell part) part := by
  by_cases plain : ∀ c ∈ part, isAscii c = true
  · exact Or.inl ⟨spell_plain plain, plain⟩
  · exact Or.inr (spell_longer plain)

theorem Told.length {spelled part : Path} (h : Told spelled part) :
    part.length ≤ spelled.length := by
  rcases h with ⟨rfl, _⟩ | longer
  · exact Nat.le_refl _
  · exact Nat.le_of_lt longer

theorem Told.tail {spelled part : Path} (h : Told spelled part) :
    Told spelled.tail part.tail := by
  rcases h with ⟨rfl, plain⟩ | longer
  · exact Or.inl ⟨rfl, fun c hc => plain c (List.mem_of_mem_tail hc)⟩
  · match spelled, part, longer with
    | _ :: spelled, _ :: part, longer => exact Or.inr (Nat.lt_of_succ_lt_succ longer)
    | [_], [], _ => exact Or.inl ⟨rfl, List.forall_mem_nil _⟩
    | _ :: d :: spelled, [], _ => exact Or.inr (Nat.zero_lt_succ _)

/-- A character of the mask that is not of ASCII is never edited in right. -/
theorem editPart_other {c : Char} (h : isAscii c = false) (mask : Path) {spelled part : Path}
    (told : Told spelled part) :
    editPart (spell (c :: mask)) spelled ≠ editPart (c :: mask) part := by
  intro same
  have notStar : c ≠ '*' := by rintro rfl; exact absurd h (by decide)
  have notQuery : c ≠ '?' := by rintro rfl; exact absurd h (by decide)
  rcases told with ⟨rfl, plain⟩ | longer
  · -- as many bytes as characters would not be of ASCII, and there are twice as many
    have counts := congrArg (List.countP (! isAscii ·)) same
    rw [editPart_count _ plain, editPart_count _ plain] at counts
    have twice := count_spell (c :: mask)
    simp only [List.countP_cons, h, Bool.not_false, if_true] at counts twice
    omega
  · obtain ⟨two, others⟩ := spell_other h
    have lengths := congrArg List.length same
    rw [spell_cons, editPart_literals others, editPart, if_neg notStar, if_neg notQuery,
      List.length_append, List.length_cons] at lengths
    have drops := editPart_length_drop (spell mask) (spelled.drop 2) ((spell [c]).length - 2)
    rw [List.drop_drop, Nat.add_sub_cancel' two] at drops
    have bytes := editPart_spell_length mask (spelled.drop 2)
    have shorter : (editPart mask part.tail).length ≤ (editPart mask (spelled.drop 2)).length := by
      apply editPart_length_mono
      rw [List.length_tail, List.length_drop]
      omega
    omega

/-- A question mark takes over the first characters. -/
theorem editPart_query_iff (mask other : Path) {spelled part : Path} (told : Told spelled part)
    (longer : (editPart other part.tail).length ≤ (editPart mask spelled.tail).length) :
    spelled.head?.toList ++ editPart mask spelled.tail =
        part.head?.toList ++ editPart other part.tail ↔
      spelled[0]? = part[0]? ∧ editPart mask spelled.tail = editPart other part.tail := by
  match spelled, part with
  | [], [] => simp
  | [], _ :: _ => exact absurd told.length (Nat.not_succ_le_zero _)
  | c :: spelled, d :: part => simp
  | c :: spelled, [] =>
    constructor
    · intro same
      have lengths := congrArg List.length same
      rw [List.length_append, List.length_append] at lengths
      simp only [List.head?_cons, List.head?_nil, Option.toList_some, Option.toList_none,
        List.length_singleton, List.length_nil] at lengths
      omega
    · intro ⟨first, _⟩
      cases first

/-- A component is edited right just where the mask is of ASCII and copies only places where
the byte is the character. -/
theorem editPart_eq_iff (mask : Path) {spelled part : Path} (told : Told spelled part) :
    editPart (spell mask) spelled = editPart mask part ↔ (∀ c ∈ mask, isAscii c = true) ∧
      ∀ place, Copies mask place → spelled[place]? = part[place]? := by
  induction mask generalizing spelled part with
  | nil => simp [spell, editPart, Copies]
  | cons c mask ih =>
    cases hc : isAscii c with
    | false =>
      have wrong := editPart_other hc mask told
      simp [wrong, hc]
    | true =>
      rw [spell_cons, spell_ascii hc, List.singleton_append, List.forall_mem_cons]
      have noMore := ih (Or.inl ⟨rfl, List.forall_mem_nil _⟩ : Told [] [])
      have later := ih told.tail
      simp only [List.getElem?_tail] at later
      unfold editPart
      split_ifs with star query
      · subst star
        constructor
        · intro same
          have rests := editPart_spell_length mask []
          have lengths := congrArg List.length same
          have enough := told.length
          rw [List.length_append, List.length_append] at lengths
          have both := List.append_inj same (by omega)
          exact ⟨⟨rfl, (noMore.mp both.2).1⟩, fun place _ => by rw [both.1]⟩
        · intro ⟨⟨_, plain⟩, places⟩
          have all : spelled = part := List.ext_getElem? fun place =>
            places place (by simp [Copies])
          rw [all, noMore.mpr ⟨plain, fun place _ => rfl⟩]
      · have longer : (editPart mask part.tail).length ≤
            (editPart (spell mask) spelled.tail).length :=
          Nat.le_trans (editPart_spell_length mask _) (editPart_length_mono _ told.tail.length)
        rw [editPart_query_iff (spell mask) mask told longer, later]
        constructor
        · intro ⟨first, plain, places⟩
          refine ⟨⟨hc, plain⟩, fun place copies => ?_⟩
          cases place with
          | zero => exact first
          | succ place => exact places place (by simpa [Copies, star] using copies)
        · intro ⟨⟨_, plain⟩, places⟩
          exact ⟨places 0 (by simp [Copies, query]), plain, fun place copies =>
            places (place + 1) (by simpa [Copies, star] using copies)⟩
      · rw [List.cons_inj_right, later]
        constructor
        · intro ⟨plain, places⟩
          refine ⟨⟨hc, plain⟩, fun place copies => ?_⟩
          cases place with
          | zero => simp [Copies, star, query] at copies
          | succ place => exact places place (by simpa [Copies, star] using copies)
        · intro ⟨⟨_, plain⟩, places⟩
          exact ⟨plain, fun place copies =>
            places (place + 1) (by simpa [Copies, star] using copies)⟩

theorem mem_editPart {mask part : Path} {c : Char} (h : c ∈ editPart mask part) :
    c ∈ mask ∨ c ∈ part := by
  induction mask generalizing part with
  | nil => exact absurd h List.not_mem_nil
  | cons d mask ih =>
    unfold editPart at h
    split_ifs at h
    · rcases List.mem_append.mp h with here | later
      · exact Or.inr here
      · exact Or.inl (List.mem_cons_of_mem _ ((ih later).resolve_right List.not_mem_nil))
    · rcases List.mem_append.mp h with here | later
      · exact Or.inr (List.mem_of_head? (Option.mem_toList.mp here))
      · exact (ih later).imp (List.mem_cons_of_mem _) List.mem_of_mem_tail
    · rcases List.mem_cons.mp h with rfl | later
      · exact Or.inl List.mem_cons_self
      · exact (ih later).imp (List.mem_cons_of_mem _) List.mem_of_mem_tail

end Part

section Name

theorem getElem?_editParts (masks parts : List Path) (i : Nat) :
    (editParts masks parts)[i]? =
      masks[i]?.map fun mask => editPart mask ((parts[i]?).getD []) := by
  induction masks generalizing parts i with
  | nil => rfl
  | cons mask masks ih => cases parts <;> cases i <;> simp [editParts, ih]

theorem length_editParts (masks parts : List Path) :
    (editParts masks parts).length = masks.length := by
  induction masks generalizing parts with
  | nil => rfl
  | cons mask masks ih => cases parts <;> simp [editParts, ih]

/-- Each component of the result comes from one of the mask and one of the name or none. -/
theorem mem_editParts {masks parts : List Path} {result : Path}
    (h : result ∈ editParts masks parts) {c : Char} (inside : c ∈ result) :
    (∃ mask ∈ masks, c ∈ mask) ∨ ∃ part ∈ parts, c ∈ part := by
  obtain ⟨i, at_i⟩ := List.mem_iff_getElem?.mp h
  rw [getElem?_editParts, Option.map_eq_some_iff] at at_i
  obtain ⟨mask, masked, rfl⟩ := at_i
  rcases mem_editPart inside with fromMask | fromPart
  · exact Or.inl ⟨mask, List.mem_of_getElem? masked, fromMask⟩
  · right
    cases found : parts[i]? with
    | none => simp [found] at fromPart
    | some part =>
      rw [found] at fromPart
      exact ⟨part, List.mem_of_getElem? found, fromPart⟩

theorem editName_chars {source edit : Path} {c : Char} (h : c ∈ editName source edit) :
    c ∈ source ∨ c ∈ edit := by
  rcases mem_intercalate h with ⟨rfl, several⟩ | ⟨result, member, inside⟩
  · rw [length_editParts, length_splitOn] at several
    exact Or.inr (List.count_pos_iff.mp (by omega))
  · rcases mem_editParts member inside with ⟨mask, masked, here⟩ | ⟨part, found, here⟩
    · exact Or.inr (mem_of_mem_splitOn masked here)
    · exact Or.inl (mem_of_mem_splitOn found here)

theorem applyEditName_eq (source edit : Path) :
    applyEditName source edit = editName (spell source) (spell edit) :=
  editBytes_eq _ _

/-- Names of edited components are the same only with the same components. -/
theorem editName_eq_iff (source edit other mask : Path) :
    editName source edit = editName other mask ↔
      editParts (edit.splitOn '.') (source.splitOn '.') =
        editParts (mask.splitOn '.') (other.splitOn '.') := by
  have splits : ∀ name wild : Path, (editName name wild).splitOn '.' =
      editParts (wild.splitOn '.') (name.splitOn '.') := by
    intro name wild
    apply List.splitOn_intercalate
    · intro result member hdot
      rcases mem_editParts member hdot with ⟨part, found, here⟩ | ⟨part, found, here⟩
      · exact not_mem_of_mem_splitOn found here
      · exact not_mem_of_mem_splitOn found here
    · rw [splitOn_dot wild]
      exact editParts_ne_nil _ _ _
  constructor
  · intro same
    rw [← splits, same, splits]
  · exact congrArg _

/-- The whole name is edited right just where each component is. -/
theorem applyEditName_eq_iff (source edit : Path) :
    applyEditName source edit = editName source edit ↔ (∀ c ∈ edit, isAscii c) ∧
      ∀ i mask, (edit.splitOn '.')[i]? = some mask → ∀ place, Copies mask place →
        (spell (partAt source i))[place]? = (partAt source i)[place]? := by
  have partwise : ∀ i, (editParts ((spell edit).splitOn '.') ((spell source).splitOn '.'))[i]? =
        (editParts (edit.splitOn '.') (source.splitOn '.'))[i]? ↔
      ∀ mask, (edit.splitOn '.')[i]? = some mask → (∀ c ∈ mask, isAscii c = true) ∧
        ∀ place, Copies mask place →
          (spell (partAt source i))[place]? = (partAt source i)[place]? := by
    intro i
    rw [getElem?_editParts, getElem?_editParts, splitOn_spell, splitOn_spell, List.getElem?_map,
      List.getElem?_map]
    have spelled : ((Option.map spell (source.splitOn '.')[i]?).getD []) =
        spell (partAt source i) := by
      unfold partAt
      cases (source.splitOn '.')[i]? <;> rfl
    rw [spelled]
    cases (edit.splitOn '.')[i]? with
    | none => simp
    | some mask =>
      simp only [Option.map_some, Option.some_inj, forall_eq']
      exact editPart_eq_iff mask (told_spell _)
  rw [applyEditName_eq, editName_eq_iff, List.ext_getElem?_iff]
  simp only [partwise]
  constructor
  · intro all
    refine ⟨fun c hc => ?_, fun i mask masked => (all i mask masked).2⟩
    rw [← @List.intercalate_splitOn _ edit _ _ '.'] at hc
    rcases mem_intercalate hc with ⟨rfl, _⟩ | ⟨mask, member, inside⟩
    · rfl
    · obtain ⟨i, masked⟩ := List.mem_iff_getElem?.mp member
      exact (all i mask masked).1 c inside
  · intro ⟨plain, places⟩ i mask masked
    exact ⟨fun c hc => plain c (mem_of_mem_splitOn (List.mem_of_getElem? masked) hc),
      places i mask masked⟩

theorem spell_anyName : spell anyName = anyName := rfl

/-- The mask for any name keeps two components. -/
theorem editName_anyName {source : Path} (several : '.' ∈ source) :
    editName source anyName = ['.'].intercalate ((source.splitOn '.').take 2) := by
  have count := length_splitOn (x := '.') source
  have positive := List.count_pos_iff.mpr several
  match split : source.splitOn '.' with
  | [] => exact absurd split (List.splitOn_ne_nil _ _)
  | [_] =>
    rw [split, List.length_singleton] at count
    omega
  | first :: second :: later =>
    rw [editName, split]
    simp [anyName, editParts, editPart, List.splitOn_cons_eq_if_modifyHead]

theorem applyEditName_anyName_iff {source : Path} (several : '.' ∈ source) :
    applyEditName source anyName = source ↔
      (∀ c ∈ source, isAscii c) ∧ source.count '.' = 1 := by
  have dots : (spell source).count '.' = source.count '.' := by
    have lengths := congrArg List.length (splitOn_spell source)
    rw [List.length_map, length_splitOn, length_splitOn] at lengths
    omega
  have positive := List.count_pos_iff.mpr several
  have spelledDot : '.' ∈ spell source := List.count_pos_iff.mp (dots ▸ positive)
  have count := length_splitOn (x := '.') source
  have spelled := length_splitOn (x := '.') (spell source)
  rw [applyEditName_eq, spell_anyName, editName_anyName spelledDot, ← spell_eq_iff]
  constructor
  · intro same
    -- both are joined of parts without dots, so the parts are the same
    have parts : ((spell source).splitOn '.').take 2 = source.splitOn '.' := by
      rw [← same, List.splitOn_intercalate, same]
      · exact fun part member => not_mem_of_mem_splitOn (List.mem_of_mem_take member)
      · intro none_
        have := congrArg List.length none_
        rw [List.length_take, List.length_nil] at this
        omega
    have two := congrArg List.length parts
    rw [List.length_take] at two
    rw [List.take_of_length_le (by omega)] at parts
    refine ⟨?_, by omega⟩
    rw [← @List.intercalate_splitOn _ (spell source) _ _ '.', parts, List.intercalate_splitOn]
  · intro ⟨plain, one⟩
    rw [plain, List.take_of_length_le (by omega), List.intercalate_splitOn]

theorem editName_star {source : Path} (whole : '.' ∉ source) : editName source ['*'] = source := by
  rw [editName, List.splitOn_eq_singleton whole]
  simp [editParts, editPart, List.splitOn_cons_eq_if_modifyHead]

/-- The edited name is right just where the bytes tell the same as the characters. -/
theorem applyEditName_right_iff (source edit : Path) :
    EditRight source edit (applyEditName source edit) ↔ BytesTell source edit := by
  unfold BytesTell
  by_cases any : edit = anyName ∧ '.' ∈ source
  · obtain ⟨rfl, several⟩ := any
    rw [if_pos ⟨rfl, several⟩, ← applyEditName_anyName_iff several]
    constructor
    · exact fun right => right.starStar rfl several
    · intro same
      refine ⟨fun other => absurd ⟨rfl, several⟩ other, fun star => absurd star (by decide),
        fun _ _ => same, ?_⟩
      rw [same]
      exact fun c => Or.inl
  · rw [if_neg any, ← applyEditName_eq_iff]
    constructor
    · exact fun right => right.parts any
    · intro same
      rw [same]
      refine ⟨fun _ => rfl, fun star whole => ?_, fun all several => absurd ⟨all, several⟩ any,
        fun c => editName_chars⟩
      rw [star, editName_star whole]

example : applyEditName "readme.txt".toList "*.bak".toList = "readme.bak".toList := by decide

/-- An accent takes two bytes, and a name of three components loses the last. -/
theorem accent_edited_wrong :
    (applyEditName ['é'] ['*'] = ['Ã', '©'] ∧ ¬ EditRight ['é'] ['*'] (applyEditName ['é'] ['*'])) ∧
    applyEditName "a.b.c".toList anyName = "a.b".toList ∧
    ¬ EditRight "a.b.c".toList anyName (applyEditName "a.b.c".toList anyName) := by
  refine ⟨⟨by decide, fun right => ?_⟩, by decide, fun right => ?_⟩
  · exact absurd (right.star rfl (by decide)) (by decide)
  · exact absurd (right.starStar rfl (by decide)) (by decide)

end Name

end Warpine.Loader
