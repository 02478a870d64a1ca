import Warpine.Vcpu.Callbacks

/-! Structured exception handling. The head of a chain of registration records is the
first word of a thread information block, and every call reads and writes the one of the
main thread. -/
namespace Warpine.Vcpu
open Warpine.Lib Warpine.Guest Warpine.Loader

def tibBase : Nat := 0x00090000
def pibBase : Nat := 0x00091000
def tibExchainOffset : Nat := 0x00
def dynamicAllocBase : Nat := 0x02000000

def errorInvalidParameter : Nat := 87
def errorNestingNotAllowed : Nat := 215

def ehNoncontinuable : Nat := 0x01
def contextFull : Nat := 0x07

def ctxFlags : Nat := 0x00
def ctxGs : Nat := 0x8C
def ctxFs : Nat := 0x90
def ctxEs : Nat := 0x94
def ctxDs : Nat := 0x98
def ctxCs : Nat := 0xBC
def ctxSs : Nat := 0xC8
def contextRecordSize : Nat := 0xCC

def errNum : Nat := 0x00
def errFlags : Nat := 0x04
def errNested : Nat := 0x08
def errAddr : Nat := 0x0C
def errCparms : Nat := 0x10
def errParams : Nat := 0x14
def exceptionReportSize : Nat := 0x38

def xcptAccessViolation : Nat := 0xC0000005
def xcptFatalException : Nat := 0xC000FFFF

/-- The exception of an x86 vector. -/
def xcptCodeForVector : Nat → Nat
  | 0 => 0xC000009B
  | 1 => 0xC000000A
  | 3 => 0xC0000009
  | 4 => 0xC0000097
  | 5 => xcptAccessViolation
  | 6 | 7 => 0xC000001C
  | 10 | 11 => xcptAccessViolation
  | 12 => 0xC0000003
  | 13 | 14 => xcptAccessViolation
  | 16 => 0xC000004A
  | 17 => 0xC000009E
  | 19 => 0xC000004A
  | _ => xcptFatalException

/-- The words of an exception report, by their offsets. -/
def exceptionReport (xcptCode flags excAddr : Nat) (params : List Nat) : List (Nat × Nat) :=
  [(errNum, xcptCode), (errFlags, flags), (errNested, 0), (errAddr, excAddr),
    (errCparms, min params.length 9)] ++
    (List.range 9).map fun i => (errParams + i * 4, params[i]?.getD 0)

/-- The words of a context record: an empty state of the FPU, and the registers. -/
def contextRecord (ctx : FaultContext) : List (Nat × Nat) :=
  ((List.range 34).map fun i => (4 + i * 4, 0)) ++
    [(ctxFlags, contextFull), (ctxGs, ctx.gs), (ctxFs, ctx.fs), (ctxEs, ctx.es), (ctxDs, ctx.ds),
      (ctxEdi, ctx.edi), (ctxEsi, ctx.esi), (ctxEax, ctx.eax), (ctxEbx, ctx.ebx),
      (ctxEcx, ctx.ecx), (ctxEdx, ctx.edx), (ctxEbp, ctx.ebp), (ctxEip, ctx.eip),
      (ctxCs, ctx.cs), (ctxEflags, ctx.eflags), (ctxEsp, ctx.esp), (ctxSs, ctx.ss)]

def wordsAt (addr : Nat) (words : List (Nat × Nat)) : List (Nat × List UInt8) :=
  words.map fun word => (addr + word.1, leBytes 4 word.2)

/-- What the calls of a thread share with the others. -/
structure SehMemory where
  mem : GuestMemory
  memMgr : MemoryManager

namespace SehMemory

variable (seh : SehMemory)

def chainHead (tib : Nat) : Nat := (seh.mem.read 4 (tib + tibExchainOffset)).getD xcptChainEnd

def prevStructure (regRec : Nat) : Nat := (seh.mem.read 4 (regRec + xerrecPrev)).getD xcptChainEnd

def exceptionHandler (regRec : Nat) : Nat := (seh.mem.read 4 (regRec + xerrecHandler)).getD 0

def write (addr value : Nat) : Option SehMemory :=
  (seh.mem.write 4 addr value).map fun mem => { seh with mem }

def writeAll (addr : Nat) (words : List (Nat × Nat)) : Option SehMemory :=
  (seh.mem.writeAll (wordsAt addr words)).map fun mem => { seh with mem }

def alloc (size : Nat) : Option (Nat × SehMemory) :=
  (seh.memMgr.alloc size).map fun (addr, memMgr) => (addr, { seh with memMgr })

end SehMemory

/-- A head that no record stands at. -/
def NoHandlers (head : Nat) : Prop := head = xcptChainEnd ∨ head = 0 ∨ 0x08000000 ≤ head

instance (head : Nat) : Decidable (NoHandlers head) :=
  inferInstanceAs (Decidable (_ ∨ _))

def threadStackSize (cbStack : Nat) : Nat := if cbStack = 0 then 65536 else cbStack

namespace SehMemory

/-- `none` is a panic of the host, here and below. -/
def dosSetExceptionHandler (seh : SehMemory) (pregRec : Nat) : Option (Nat × SehMemory) :=
  if pregRec = 0 then some (errorInvalidParameter, seh)
  else do
    let curHead := seh.chainHead tibBase
    let seh ← seh.write (pregRec + xerrecPrev) curHead
    let seh ← seh.write (tibBase + tibExchainOffset) pregRec
    some (0, seh)

def dosUnsetExceptionHandler (seh : SehMemory) (pregRec : Nat) : Option (Nat × SehMemory) :=
  if pregRec = 0 then some (errorInvalidParameter, seh)
  else do
    let prev := seh.prevStructure pregRec
    let seh ← seh.write (tibBase + tibExchainOffset) prev
    some (0, seh)

/-- The walk over the records that are skipped only logs them. -/
def dosUnwindException (seh : SehMemory) (pRegRec : Nat) : Option (Nat × SehMemory) := do
  let seh ← seh.write (tibBase + tibExchainOffset) pRegRec
  some (0, seh)

def allocExceptionRecords (seh : SehMemory) (fault : FaultContext) (xcptCode flags excAddr : Nat)
    (params : List Nat) : Option (Nat × Nat × SehMemory) := do
  let (excReport, seh) ← seh.alloc exceptionReportSize
  let (ctxRecord, seh) ← seh.alloc contextRecordSize
  let seh ← seh.writeAll excReport (exceptionReport xcptCode flags excAddr params)
  let seh ← seh.writeAll ctxRecord (contextRecord fault)
  some (excReport, ctxRecord, seh)

/-- No dispatch where the chain is exhausted: the guest crashes. -/
def tryHwExceptionDispatch (seh : SehMemory) (fault : FaultContext) (vector : Nat) :
    Option (Option ExceptionDispatch × SehMemory) :=
  let xcptCode := xcptCodeForVector vector
  let flags :=
    if xcptCode = xcptAccessViolation ∨ xcptCode = xcptFatalException then ehNoncontinuable else 0
  let params := if vector = 14 then [0, fault.eip] else []
  let chainHead := seh.chainHead tibBase
  if NoHandlers chainHead then some (none, seh)
  else
    let handlerAddr := seh.exceptionHandler chainHead
    if handlerAddr = 0 then some (none, seh)
    else do
      let nextHandler := seh.prevStructure chainHead
      let (excReport, ctxRecord, seh) ←
        seh.allocExceptionRecords fault xcptCode flags fault.eip params
      some (some { handlerAddr, excReport, regRec := chainHead, ctxRecord, saved := fault,
                   nextHandler, guestAllocs := [excReport, ctxRecord] }, seh)

def dosRaiseException (seh : SehMemory) (pExcRec : Nat) : Option (ApiResult × SehMemory) :=
  if pExcRec = 0 then some (.normal errorInvalidParameter, seh)
  else
    let excAddr := (seh.mem.read 4 (pExcRec + errAddr)).getD 0
    let chainHead := seh.chainHead tibBase
    if NoHandlers chainHead then some (.normal errorNestingNotAllowed, seh)
    else
      let handlerAddr := seh.exceptionHandler chainHead
      if handlerAddr = 0 then some (.normal errorInvalidParameter, seh)
      else do
        let nextHandler := seh.prevStructure chainHead
        let saved : FaultContext :=
          { eax := 0, ebx := 0, ecx := 0, edx := 0, esi := 0, edi := 0, ebp := 0, esp := 0
            eip := excAddr, eflags := 2
            cs := 0x08, ds := 0x10, es := 0x10, fs := 0x18, gs := 0x10, ss := 0x10 }
        let (ctxRecord, seh) ← seh.alloc contextRecordSize
        let seh ← seh.writeAll ctxRecord (contextRecord saved)
        some (.exceptionDispatch { handlerAddr, excReport := pExcRec, regRec := chainHead
                                   ctxRecord, saved, nextHandler, guestAllocs := [ctxRecord] }, seh)

def placeThread (seh : SehMemory) (stackBase stackSize tid ptidPtr param : Nat) :
    Option (Nat × SehMemory) := do
  let (tibAddr, seh) ← seh.alloc 4096
  let seh ← seh.write (tibAddr + 0x18) tibAddr
  let seh ← seh.write (tibAddr + 0x30) pibBase
  let spAddr := stackBase + stackSize - 12
  let seh ← seh.write spAddr exitTrapAddr
  let seh ← seh.write (spAddr + 4) param
  some (tibAddr, { seh with mem := seh.mem.put 4 ptidPtr tid })

/-- The new thread gets a stack, and an information block of its own. -/
def dosCreateThread (seh : SehMemory) (tid ptidPtr param cbStack : Nat) :
    Option (Option Nat × SehMemory) :=
  let stackSize := threadStackSize cbStack
  match seh.alloc stackSize with
  | none => some (none, seh)
  | some (stackBase, seh) =>
      (seh.placeThread stackBase stackSize tid ptidPtr param).map fun (tibAddr, seh) =>
        (some tibAddr, seh)

/-- Memory that the allocator leaves alone. -/
structure Holds (seh : SehMemory) (words : List (Nat × Nat)) : Prop where
  layout : seh.memMgr.Layout dynamicAllocBase
  held : ∀ word ∈ words, seh.memMgr.Held dynamicAllocBase word.1 word.2

/-- What a call leaves as it was. -/
structure Keeps (words : List (Nat × Nat)) (seh next : SehMemory) : Prop where
  holds : next.Holds words
  same : ∀ word ∈ words, next.mem.slice word.1 word.2 = seh.mem.slice word.1 word.2

def ApartFrom (words : List (Nat × Nat)) (addr len : Nat) : Prop :=
  ∀ word ∈ words, Apart addr len word.1 word.2

instance (words : List (Nat × Nat)) (addr len : Nat) : Decidable (ApartFrom words addr len) :=
  inferInstanceAs (Decidable (∀ _ ∈ words, _))

variable {seh middle next : SehMemory} {words : List (Nat × Nat)}

theorem ApartFrom.shrink {addr len low n : Nat} (apart : ApartFrom words addr len)
    (start : addr ≤ low) (stop : low + n ≤ addr + len) : ApartFrom words low n :=
  fun word member => (apart word member).shrink start stop

theorem Holds.sub {fewer : List (Nat × Nat)} (holds : seh.Holds words)
    (sub : ∀ word ∈ fewer, word ∈ words) : seh.Holds fewer :=
  ⟨holds.layout, fun word member => holds.held word (sub word member)⟩

theorem Keeps.sub {fewer : List (Nat × Nat)} (keeps : Keeps words seh next)
    (sub : ∀ word ∈ fewer, word ∈ words) : Keeps fewer seh next :=
  ⟨keeps.holds.sub sub, fun word member => keeps.same word (sub word member)⟩

theorem Keeps.refl (holds : seh.Holds words) : Keeps words seh seh := ⟨holds, fun _ _ => rfl⟩

theorem Keeps.trans (first : Keeps words seh middle) (second : Keeps words middle next) :
    Keeps words seh next :=
  ⟨second.holds, fun word member => (second.same word member).trans (first.same word member)⟩

theorem Keeps.read (keeps : Keeps words seh next) {word : Nat × Nat} (member : word ∈ words)
    {width : Nat} (inside : word.2 = width) :
    next.mem.read width word.1 = seh.mem.read width word.1 := by
  subst inside
  exact congrArg (Option.map leValue) (keeps.same word member)

theorem write_keeps {addr value : Nat} (holds : seh.Holds words)
    (h : seh.write addr value = some next) (apart : ApartFrom words addr 4) :
    Keeps words seh next := by
  obtain ⟨mem, hmem, rfl⟩ := Option.map_eq_some_iff.mp h
  exact ⟨⟨holds.layout, holds.held⟩,
    fun word member => GuestMemory.slice_write_apart hmem (apart word member)⟩

theorem write_read {addr value : Nat} (h : seh.write addr value = some next)
    (small : value < u32Size) : next.mem.read 4 addr = some value := by
  obtain ⟨mem, hmem, rfl⟩ := Option.map_eq_some_iff.mp h
  exact GuestMemory.read_write hmem small

theorem write_chainHead {tib value : Nat} (h : seh.write (tib + tibExchainOffset) value = some next)
    (small : value < u32Size) : next.chainHead tib = value :=
  congrArg (Option.getD · xcptChainEnd) (write_read h small)

theorem write_prevStructure {regRec value : Nat}
    (h : seh.write (regRec + xerrecPrev) value = some next) (small : value < u32Size) :
    next.prevStructure regRec = value :=
  congrArg (Option.getD · xcptChainEnd) (write_read h small)

theorem write_memMgr {addr value : Nat} (h : seh.write addr value = some next) :
    next.memMgr = seh.memMgr := by
  obtain ⟨mem, _, rfl⟩ := Option.map_eq_some_iff.mp h
  rfl

theorem chainHead_lt (tib : Nat) : seh.chainHead tib < u32Size := by
  unfold chainHead
  cases h : seh.mem.read 4 (tib + tibExchainOffset) with
  | none => decide
  | some word => exact GuestMemory.read_lt h

theorem prevStructure_lt (regRec : Nat) : seh.prevStructure regRec < u32Size := by
  unfold prevStructure
  cases h : seh.mem.read 4 (regRec + xerrecPrev) with
  | none => decide
  | some word => exact GuestMemory.read_lt h

theorem writeAll_keeps {addr len : Nat} {fields : List (Nat × Nat)} (holds : seh.Holds words)
    (h : seh.writeAll addr fields = some next) (inside : ∀ field ∈ fields, field.1 + 4 ≤ len)
    (apart : ApartFrom words addr len) : Keeps words seh next := by
  obtain ⟨mem, hmem, rfl⟩ := Option.map_eq_some_iff.mp h
  refine ⟨⟨holds.layout, holds.held⟩, fun word member => ?_⟩
  apply seh.mem.slice_writeAll_apart hmem
  intro write hwrite
  obtain ⟨field, hfield, rfl⟩ := List.mem_map.mp hwrite
  have hlen := inside field hfield
  rw [leBytes_length]
  exact (apart word member).shrink (Nat.le_add_right _ _) (by dsimp only; omega)

/-- A new block is apart from all memory that is held. -/
theorem alloc_spec {size addr : Nat} (holds : seh.Holds words) (nonzero : size ≠ 0)
    (h : seh.alloc size = some (addr, next)) :
    next.mem = seh.mem ∧ next.Holds ((addr, size) :: words) ∧ ApartFrom words addr size := by
  obtain ⟨⟨base, memMgr⟩, hmgr, hpair⟩ := Option.map_eq_some_iff.mp h
  obtain ⟨rfl, rfl⟩ := Prod.mk.inj hpair
  have hheld : ∀ word ∈ words, memMgr.Held dynamicAllocBase word.1 word.2 :=
    fun word member => (holds.held word member).alloc hmgr
  refine ⟨rfl, ⟨(MemoryManager.layout_alloc holds.layout nonzero hmgr).1, ?_⟩, ?_⟩
  · exact List.forall_mem_cons.mpr ⟨MemoryManager.held_alloc hmgr, hheld⟩
  · exact fun word member => holds.layout.alloc_apart hmgr (holds.held word member)

theorem alloc_keeps {size addr : Nat} (holds : seh.Holds words) (nonzero : size ≠ 0)
    (h : seh.alloc size = some (addr, next)) : Keeps words seh next := by
  obtain ⟨same, hnext, _⟩ := alloc_spec holds nonzero h
  exact ⟨hnext.sub fun word member => List.mem_cons_of_mem _ member, fun _ _ => by rw [same]⟩

theorem exceptionReport_inside {xcptCode flags excAddr : Nat} {params : List Nat} :
    ∀ field ∈ exceptionReport xcptCode flags excAddr params, field.1 + 4 ≤ exceptionReportSize := by
  intro field member
  rcases List.mem_append.mp member with fixed | param
  · have hoffset : field.1 ∈ [errNum, errFlags, errNested, errAddr, errCparms] :=
      List.mem_map_of_mem (f := Prod.fst) fixed
    revert hoffset
    generalize field.1 = offset
    revert offset
    decide
  · obtain ⟨i, hi, rfl⟩ := List.mem_map.mp param
    have := List.mem_range.mp hi
    simp only [errParams, exceptionReportSize]
    omega

theorem contextRecord_inside {ctx : FaultContext} :
    ∀ field ∈ contextRecord ctx, field.1 + 4 ≤ contextRecordSize := by
  intro field member
  rcases List.mem_append.mp member with fpu | register
  · obtain ⟨i, hi, rfl⟩ := List.mem_map.mp fpu
    have := List.mem_range.mp hi
    simp only [contextRecordSize]
    omega
  · have hoffset : field.1 ∈ [ctxFlags, ctxGs, ctxFs, ctxEs, ctxDs, ctxEdi, ctxEsi, ctxEax, ctxEbx,
        ctxEcx, ctxEdx, ctxEbp, ctxEip, ctxCs, ctxEflags, ctxEsp, ctxSs] :=
      List.mem_map_of_mem (f := Prod.fst) register
    revert hoffset
    generalize field.1 = offset
    revert offset
    decide

theorem allocExceptionRecords_keeps {fault : FaultContext} {xcptCode flags excAddr : Nat}
    {params : List Nat} {excReport ctxRecord : Nat} (holds : seh.Holds words)
    (h : seh.allocExceptionRecords fault xcptCode flags excAddr params =
      some (excReport, ctxRecord, next)) : Keeps words seh next := by
  obtain ⟨⟨report, first⟩, hreport, h⟩ := Option.bind_eq_some_iff.mp h
  obtain ⟨⟨record, second⟩, hrecord, h⟩ := Option.bind_eq_some_iff.mp h
  obtain ⟨third, hthird, h⟩ := Option.bind_eq_some_iff.mp h
  obtain ⟨fourth, hfourth, h⟩ := Option.bind_eq_some_iff.mp h
  cases h
  have keepsFirst := alloc_keeps holds (by decide) hreport
  have keepsSecond := alloc_keeps keepsFirst.holds (by decide) hrecord
  have keepsThird := writeAll_keeps keepsSecond.holds hthird exceptionReport_inside
    (alloc_spec holds (by decide) hreport).2.2
  have keepsFourth := writeAll_keeps keepsThird.holds hfourth contextRecord_inside
    (alloc_spec keepsFirst.holds (by decide) hrecord).2.2
  exact ((keepsFirst.trans keepsSecond).trans keepsThird).trans keepsFourth

/-- The handler called is the one at the head of the chain. -/
structure FromChain (seh : SehMemory) (dispatch : ExceptionDispatch) : Prop where
  regRec : dispatch.regRec = seh.chainHead tibBase
  handlers : ¬NoHandlers dispatch.regRec
  handler : dispatch.handlerAddr = seh.exceptionHandler dispatch.regRec
  nonzero : dispatch.handlerAddr ≠ 0
  next : dispatch.nextHandler = seh.prevStructure dispatch.regRec

theorem tryHwExceptionDispatch_spec {fault : FaultContext} {vector : Nat}
    {result : Option ExceptionDispatch} (holds : seh.Holds words)
    (h : seh.tryHwExceptionDispatch fault vector = some (result, next)) :
    Keeps words seh next ∧ ∀ dispatch, result = some dispatch → seh.FromChain dispatch := by
  simp only [tryHwExceptionDispatch] at h
  split at h
  · cases h
    exact ⟨.refl holds, by simp⟩
  rename_i some
  split at h
  · cases h
    exact ⟨.refl holds, by simp⟩
  rename_i nonzero
  obtain ⟨⟨excReport, ctxRecord, after⟩, halloc, h⟩ := Option.bind_eq_some_iff.mp h
  cases h
  refine ⟨allocExceptionRecords_keeps holds halloc, ?_⟩
  rintro dispatch ⟨⟩
  exact ⟨rfl, some, rfl, nonzero, rfl⟩

theorem dosRaiseException_spec {pExcRec : Nat} {result : ApiResult} (holds : seh.Holds words)
    (h : seh.dosRaiseException pExcRec = some (result, next)) :
    Keeps words seh next ∧
      ∀ dispatch, result = .exceptionDispatch dispatch → seh.FromChain dispatch := by
  simp only [dosRaiseException] at h
  split at h
  · cases h
    exact ⟨.refl holds, by simp⟩
  split at h
  · cases h
    exact ⟨.refl holds, by simp⟩
  rename_i some
  split at h
  · cases h
    exact ⟨.refl holds, by simp⟩
  rename_i nonzero
  obtain ⟨⟨ctxRecord, first⟩, hrecord, h⟩ := Option.bind_eq_some_iff.mp h
  obtain ⟨second, hsecond, h⟩ := Option.bind_eq_some_iff.mp h
  cases h
  have keepsFirst := alloc_keeps holds (by decide) hrecord
  have keepsSecond := writeAll_keeps keepsFirst.holds hsecond contextRecord_inside
    (alloc_spec holds (by decide) hrecord).2.2
  refine ⟨keepsFirst.trans keepsSecond, ?_⟩
  rintro dispatch ⟨⟩
  exact ⟨rfl, some, rfl, nonzero, rfl⟩

/-- A thread that is created finds the first word of its block as the block had it. -/
theorem dosCreateThread_spec {tid ptidPtr param cbStack : Nat} {result : Option Nat}
    (holds : seh.Holds ((ptidPtr, 4) :: words)) (apart : ApartFrom words ptidPtr 4)
    (room : 12 ≤ threadStackSize cbStack)
    (h : seh.dosCreateThread tid ptidPtr param cbStack = some (result, next)) :
    (result = none ∧ next = seh) ∨
      ∃ tib, result = some tib ∧ Keeps ((tib, 4) :: words) seh next ∧ ApartFrom words tib 4 := by
  unfold dosCreateThread at h
  generalize threadStackSize cbStack = stackSize at h room
  dsimp only at h
  split at h
  · cases h
    exact .inl ⟨rfl, rfl⟩
  rename_i stackBase first hstack
  obtain ⟨⟨tib, last⟩, hplace, hpair⟩ := Option.map_eq_some_iff.mp h
  cases hpair
  clear h
  obtain ⟨⟨tib, second⟩, htib, h⟩ := Option.bind_eq_some_iff.mp hplace
  obtain ⟨third, hthird, h⟩ := Option.bind_eq_some_iff.mp h
  obtain ⟨fourth, hfourth, h⟩ := Option.bind_eq_some_iff.mp h
  obtain ⟨fifth, hfifth, h⟩ := Option.bind_eq_some_iff.mp h
  obtain ⟨sixth, hsixth, h⟩ := Option.bind_eq_some_iff.mp h
  cases h
  obtain ⟨sameFirst, holdsFirst, apartStack⟩ := alloc_spec holds (by omega) hstack
  obtain ⟨sameSecond, holdsSecond, apartTib⟩ := alloc_spec holdsFirst (by omega) htib
  have stackTib := apartTib _ List.mem_cons_self
  have ptidTib := apartTib _ (List.mem_cons_of_mem _ List.mem_cons_self)
  have wordsStack : ApartFrom words stackBase (stackSize) :=
    fun word member => apartStack word (List.mem_cons_of_mem _ member)
  have wordsTib : ApartFrom words tib 4096 := fun word member =>
    apartTib word (List.mem_cons_of_mem _ (List.mem_cons_of_mem _ member))
  have keepsSecond : Keeps ((tib, 4) :: words) seh second := by
    refine ⟨⟨holdsSecond.layout, List.forall_mem_cons.mpr ⟨?_, ?_⟩⟩, ?_⟩
    · exact (holdsSecond.held _ List.mem_cons_self).shrink (Nat.le_refl _) (by simp)
    · exact fun word member => holdsSecond.held word
        (List.mem_cons_of_mem _ (List.mem_cons_of_mem _ (List.mem_cons_of_mem _ member)))
    · exact fun word _ => by rw [sameSecond, sameFirst]
  have apartWord {addr : Nat} (tibWord : Apart addr 4 tib 4) (others : ApartFrom words addr 4) :
      ApartFrom ((tib, 4) :: words) addr 4 := List.forall_mem_cons.mpr ⟨tibWord, others⟩
  have keepsThird := write_keeps keepsSecond.holds hthird
    (apartWord (.inr (by omega)) (wordsTib.shrink (by omega) (by omega)))
  have keepsFourth := write_keeps keepsThird.holds hfourth
    (apartWord (.inr (by omega)) (wordsTib.shrink (by omega) (by omega)))
  have stackWord {low : Nat} (start : stackBase ≤ low)
      (stop : low + 4 ≤ stackBase + stackSize) :
      ApartFrom ((tib, 4) :: words) low 4 :=
    apartWord ((stackTib.symm.shrink start stop).symm.shrink (Nat.le_refl _) (by omega)).symm
      (wordsStack.shrink start stop)
  have keepsFifth := write_keeps keepsFourth.holds hfifth (stackWord (by omega) (by omega))
  have keepsSixth := write_keeps keepsFifth.holds hsixth (stackWord (by omega) (by omega))
  have keepsLast : Keeps ((tib, 4) :: words) sixth
      { sixth with mem := sixth.mem.put 4 ptidPtr tid } := by
    refine ⟨⟨keepsSixth.holds.layout, keepsSixth.holds.held⟩, fun word member => ?_⟩
    apply GuestMemory.slice_put_apart
    exact apartWord (ptidTib.shrink (Nat.le_refl _) (by omega)).symm apart word member
  refine .inr ⟨tib, rfl, ?_, wordsTib.shrink (Nat.le_refl _) (by omega)⟩
  exact (((((keepsSecond.trans keepsThird).trans keepsFourth).trans keepsFifth).trans
    keepsSixth).trans keepsLast)

end SehMemory
end Warpine.Vcpu
