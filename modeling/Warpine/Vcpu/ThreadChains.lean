import Mathlib.Data.List.TakeWhile
import Mathlib.Logic.Function.Basic
import Warpine.Lib.Run
import Warpine.Vcpu.Seh

/-! The handler chains of all threads of a guest, over any calls. A thread has its own
information block, and the calls use the one of the main thread. -/
namespace Warpine.Vcpu
open Warpine.Lib Warpine.Guest Warpine.Loader

namespace SehMemory

variable (seh : SehMemory)

/-- The records from an address on, up to the end of the chain. -/
def Links (head : Nat) : List Nat → Prop
  | [] => head = xcptChainEnd
  | regRec :: rest => head = regRec ∧ Links (seh.prevStructure regRec) rest

/-- The records that a head leads to. -/
def Chain (head : Nat) : List Nat → Prop
  | [] => NoHandlers head
  | regRec :: rest => seh.Links head (regRec :: rest)

variable {seh} {head : Nat} {regRec : Nat} {records : List Nat}

theorem Links.chain (h : seh.Links head records) : seh.Chain head records := by
  cases records with
  | nil => exact .inl h
  | cons => exact h

theorem Chain.tail (h : seh.Chain head (regRec :: records)) :
    seh.Chain (seh.prevStructure regRec) records :=
  Links.chain h.2

theorem Chain.links (h : seh.Chain head records) (ends : records = [] → head = xcptChainEnd) :
    seh.Links head records := by
  cases records with
  | nil => exact ends rfl
  | cons => exact h

theorem Links.congr {next : SehMemory} (h : seh.Links head records)
    (same : ∀ regRec ∈ records, next.prevStructure regRec = seh.prevStructure regRec) :
    next.Links head records := by
  induction records generalizing head with
  | nil => exact h
  | cons regRec rest ih =>
    obtain ⟨rfl, hrest⟩ := h
    obtain ⟨hfirst, hothers⟩ := List.forall_mem_cons.mp same
    exact ⟨rfl, hfirst ▸ ih hrest hothers⟩

theorem Chain.congr {next : SehMemory} (h : seh.Chain head records)
    (same : ∀ regRec ∈ records, next.prevStructure regRec = seh.prevStructure regRec) :
    next.Chain head records := by
  cases records with
  | nil => exact h
  | cons => exact Links.congr h same

/-- What is left of a chain that is unwound to one of its records. -/
theorem Links.dropWhile (h : seh.Links head records) (member : regRec ∈ records) :
    seh.Chain regRec (records.dropWhile (· ≠ regRec)) := by
  induction records generalizing head with
  | nil => contradiction
  | cons first rest ih =>
    by_cases here : first = regRec
    · subst here
      rw [List.dropWhile_cons_of_neg (by simp)]
      exact ⟨rfl, h.2⟩
    · rw [List.dropWhile_cons_of_pos (by simpa using here)]
      exact ih h.2 ((List.mem_cons.mp member).resolve_left (Ne.symm here))

end SehMemory

/-- A guest: the blocks of the threads it created, and what each thread has set and not
unset, the newest record first. -/
structure Threads extends SehMemory where
  tibs : List Nat
  registered : Nat → List Nat

inductive SehCall where
  | set (thread : Nat) (pregRec : UInt32)
  | unset (thread : Nat) (pregRec : UInt32)
  | unwind (thread : Nat) (pRegRec : UInt32)
  | create (thread : Nat) (ptidPtr param cbStack : UInt32)
  | fault (thread : Nat) (context : FaultContext) (vector : Nat)
  | raise (thread : Nat) (pExcRec : UInt32)

def SehCall.thread : SehCall → Nat
  | .set thread _ | .unset thread _ | .unwind thread _ | .create thread .. | .fault thread ..
  | .raise thread _ => thread

def ApiResult.dispatch : ApiResult → Option ExceptionDispatch
  | .exceptionDispatch dispatch => some dispatch
  | _ => none

/-- The words that the chains stand in: the heads, and both words of each record. -/
def recordWords (tibs records : List Nat) : List (Nat × Nat) :=
  tibs.map (fun tib => (tib + tibExchainOffset, 4)) ++
    records.flatMap fun regRec => [(regRec + xerrecPrev, 4), (regRec + xerrecHandler, 4)]

def chainWords (tibs records : List Nat) : List (Nat × Nat) :=
  (tibBase + tibExchainOffset, 4) :: recordWords tibs records

namespace Threads

variable (state : Threads)

/-- The base of the FS segment of a thread. -/
def fsBase : Nat → Option Nat
  | 0 => some tibBase
  | thread + 1 => state.tibs[thread]?

def returned (thread : Nat) (change : List Nat → List Nat) : Nat × SehMemory → Threads
  | (code, seh) =>
      let registered := if code = 0 then
        Function.update state.registered thread (change (state.registered thread))
      else state.registered
      { state with toSehMemory := seh, registered }

/-- A call, with the handler that it calls in turn. -/
def exec (call : SehCall) : Option (Option ExceptionDispatch × Threads) :=
  (state.fsBase call.thread).bind fun _ => match call with
  | .set thread pregRec => (state.dosSetExceptionHandler pregRec.toNat).map fun out =>
      (none, state.returned thread (pregRec.toNat :: ·) out)
  | .unset thread pregRec => (state.dosUnsetExceptionHandler pregRec.toNat).map fun out =>
      (none, state.returned thread (·.erase pregRec.toNat) out)
  | .unwind thread pRegRec => (state.dosUnwindException pRegRec.toNat).map fun out =>
      (none, state.returned thread (·.dropWhile (· ≠ pRegRec.toNat)) out)
  | .create _ ptidPtr param cbStack =>
      (state.dosCreateThread (state.tibs.length + 1) ptidPtr.toNat param.toNat cbStack.toNat).map
        fun (tib, seh) =>
          (none, { state with toSehMemory := seh, tibs := state.tibs ++ tib.toList })
  | .fault _ context vector => (state.tryHwExceptionDispatch context vector).map
      fun (dispatch, seh) => (dispatch, { state with toSehMemory := seh })
  | .raise _ pExcRec => (state.dosRaiseException pExcRec.toNat).map
      fun (result, seh) => (result.dispatch, { state with toSehMemory := seh })

/-- The records of all threads. -/
def records : List Nat := (List.range (state.tibs.length + 1)).flatMap state.registered

def words : List (Nat × Nat) := chainWords state.tibs state.records

/-- Each thread finds its own records, in the block that its own FS segment stands at. -/
def OwnChains : Prop := ∀ thread base, state.fsBase thread = some base →
  state.Chain (state.chainHead base) (state.registered thread)

/-- The thread set the record of the handler, and the next one in turn. -/
structure OwnHandler (thread : Nat) (dispatch : ExceptionDispatch) : Prop where
  own : ∃ rest, state.registered thread = dispatch.regRec :: rest ∧
    dispatch.nextHandler = rest.head?.getD xcptChainEnd
  handler : dispatch.handlerAddr = state.exceptionHandler dispatch.regRec

/-- Memory of the guest's own, apart from what the chains stand in. -/
def Usable (addr len : Nat) : Prop :=
  state.memMgr.Held dynamicAllocBase addr len ∧ SehMemory.ApartFrom state.words addr len

/-- Where the allocator will place the block of the next thread. -/
def nextTib (cbStack : Nat) : Option Nat := do
  let (_, memMgr) ← state.memMgr.alloc (threadStackSize cbStack)
  let (tib, _) ← memMgr.alloc 4096
  some tib

/-- Only the main thread sets records, and it takes them back from the newest on. The
others raise nothing while it has handlers. -/
def Allowed : Option SehCall → Prop
  | none => True
  | some (.set thread pregRec) => pregRec = 0 ∨ thread = 0 ∧ state.Usable pregRec.toNat 8 ∧
      (state.registered 0 = [] → state.chainHead tibBase = xcptChainEnd)
  | some (.unset thread pregRec) => pregRec = 0 ∨
      thread = 0 ∧ (state.registered 0).head? = some pregRec.toNat ∨
      pregRec.toNat ∉ state.registered thread ∧
        state.prevStructure pregRec.toNat = state.chainHead tibBase
  | some (.unwind thread pRegRec) =>
      if thread = 0 then pRegRec.toNat ∈ state.registered 0 ∨ NoHandlers pRegRec.toNat
      else pRegRec.toNat = state.chainHead tibBase
  | some (.create _ ptidPtr _ cbStack) => state.Usable ptidPtr.toNat 4 ∧
      12 ≤ threadStackSize cbStack.toNat ∧
      ∀ tib, state.nextTib cbStack.toNat = some tib → NoHandlers (state.chainHead tib)
  | some (.fault thread ..) | some (.raise thread _) => thread = 0 ∨
      NoHandlers (state.chainHead tibBase) ∨
      state.exceptionHandler (state.chainHead tibBase) = 0

/-- A guest that has just been set up. -/
structure Fresh : Prop where
  layout : state.memMgr.Layout dynamicAllocBase
  head : state.chainHead tibBase = xcptChainEnd
  alone : state.tibs = []
  unregistered : ∀ thread, state.registered thread = []

end Threads

/-- Between the calls anything may happen that keeps the chains and the memory they are in. -/
inductive SehStep : Step Threads (Option SehCall) where
  | call {state next : Threads} {call : SehCall} {dispatch : Option ExceptionDispatch}
      (h : state.exec call = some (dispatch, next)) : SehStep state (some call) next
  | other {state : Threads} {seh : SehMemory}
      (keeps : SehMemory.Keeps state.words state.toSehMemory seh) :
      SehStep state none { state with toSehMemory := seh }

namespace Threads

/-- What every allowed step keeps. -/
structure Inv (state : Threads) : Prop where
  holds : state.Holds (chainWords state.tibs (state.registered 0))
  apart : SehMemory.ApartFrom (recordWords state.tibs (state.registered 0))
    (tibBase + tibExchainOffset) 4
  chain : state.Chain (state.chainHead tibBase) (state.registered 0)
  idle : ∀ tib ∈ state.tibs, NoHandlers (state.chainHead tib)
  alone : ∀ thread, thread ≠ 0 → state.registered thread = []

variable {state next : Threads}

theorem Inv.words_eq (inv : state.Inv) :
    state.words = chainWords state.tibs (state.registered 0) := by
  have others : (List.range state.tibs.length).flatMap (state.registered ∘ Nat.succ) = [] := by
    apply List.flatMap_eq_nil_iff.mpr
    exact fun thread _ => inv.alone _ (Nat.succ_ne_zero thread)
  have records : state.records = state.registered 0 := by
    rw [records, List.range_succ_eq_map, List.flatMap_cons, List.flatMap_map]
    simpa using others
  rw [words, records]

theorem mem_chainWords_head {tibs records : List Nat} {tib : Nat}
    (member : tib = tibBase ∨ tib ∈ tibs) :
    (tib + tibExchainOffset, 4) ∈ chainWords tibs records := by
  rcases member with rfl | member
  · exact List.mem_cons_self
  · have head := List.mem_map_of_mem (f := fun tib => (tib + tibExchainOffset, 4)) member
    exact List.mem_cons_of_mem _ (List.mem_append_left _ head)

theorem mem_recordWords {tibs records : List Nat} {regRec : Nat} (member : regRec ∈ records) :
    (regRec + xerrecPrev, 4) ∈ recordWords tibs records ∧
      (regRec + xerrecHandler, 4) ∈ recordWords tibs records := by
  constructor <;>
    exact List.mem_append_right _ (List.mem_flatMap.mpr ⟨regRec, member, by simp⟩)

theorem recordWords_sub {tibs records fewer : List Nat} (sub : ∀ regRec ∈ fewer, regRec ∈ records) :
    ∀ word ∈ recordWords tibs fewer, word ∈ recordWords tibs records := by
  intro word member
  rcases List.mem_append.mp member with head | record
  · exact List.mem_append_left _ head
  · obtain ⟨regRec, hregRec, hword⟩ := List.mem_flatMap.mp record
    exact List.mem_append_right _ (List.mem_flatMap.mpr ⟨regRec, sub regRec hregRec, hword⟩)

theorem chainWords_sub {tibs records fewer : List Nat} (sub : ∀ regRec ∈ fewer, regRec ∈ records) :
    ∀ word ∈ chainWords tibs fewer, word ∈ chainWords tibs records := by
  intro word member
  rcases List.mem_cons.mp member with rfl | member
  · exact List.mem_cons_self
  · exact List.mem_cons_of_mem _ (recordWords_sub sub word member)

section Keeping

variable {seh after : SehMemory} {tibs records : List Nat}

theorem keeps_chainHead (keeps : SehMemory.Keeps (chainWords tibs records) seh after) {tib : Nat}
    (member : tib = tibBase ∨ tib ∈ tibs) : after.chainHead tib = seh.chainHead tib :=
  congrArg (Option.getD · xcptChainEnd) (keeps.read (mem_chainWords_head member) rfl)

theorem keeps_prevStructure (keeps : SehMemory.Keeps (recordWords tibs records) seh after)
    {regRec : Nat} (member : regRec ∈ records) :
    after.prevStructure regRec = seh.prevStructure regRec :=
  congrArg (Option.getD · xcptChainEnd) (keeps.read (mem_recordWords member).1 rfl)

theorem Inv.keeps (inv : state.Inv)
    (keeps : SehMemory.Keeps (chainWords state.tibs (state.registered 0)) state.toSehMemory after) :
    Inv { state with toSehMemory := after } where
  holds := keeps.holds
  apart := inv.apart
  chain := by
    have links := keeps.sub (fun _ member => List.mem_cons_of_mem _ member)
    have head : after.chainHead tibBase = state.chainHead tibBase :=
      keeps_chainHead keeps (.inl rfl)
    exact head ▸ inv.chain.congr fun _ member => keeps_prevStructure links member
  idle := fun tib member => keeps_chainHead keeps (.inr member) ▸ inv.idle tib member
  alone := inv.alone

/-- A new head, for a chain that the memory has already. -/
theorem Inv.setHead (inv : state.Inv) {value : Nat}
    (h : state.write (tibBase + tibExchainOffset) value = some after) (small : value < u32Size)
    (holds : state.Holds (chainWords state.tibs records))
    (apart : SehMemory.ApartFrom (recordWords state.tibs records) (tibBase + tibExchainOffset) 4)
    (chain : state.Chain value records) :
    Inv { state with
      toSehMemory := after, registered := Function.update state.registered 0 records } := by
  have rest : ∀ word ∈ recordWords state.tibs records,
      word ∈ chainWords state.tibs records := fun _ member => List.mem_cons_of_mem _ member
  have keeps := SehMemory.write_keeps (holds.sub rest) h apart
  have head := SehMemory.write_chainHead h small
  have first : Function.update state.registered 0 records 0 = records := Function.update_self ..
  refine ⟨?_, ?_, ?_, ?_, ?_⟩
  · dsimp only
    rw [first]
    refine ⟨keeps.holds.layout, List.forall_mem_cons.mpr ⟨.inl (by decide), keeps.holds.held⟩⟩
  · dsimp only
    rwa [first]
  · dsimp only
    rw [first, head]
    exact chain.congr fun _ member => keeps_prevStructure keeps member
  · intro tib member
    have idle := inv.idle tib member
    have word : (tib + tibExchainOffset, 4) ∈ recordWords state.tibs records :=
      List.mem_append_left _
        (List.mem_map_of_mem (f := fun tib => (tib + tibExchainOffset, 4)) member)
    have same : after.chainHead tib = state.chainHead tib :=
      congrArg (Option.getD · xcptChainEnd) (keeps.read word rfl)
    dsimp only
    rwa [same]
  · intro thread other
    exact (Function.update_of_ne other ..).trans (inv.alone thread other)

/-- The head written anew as it was. -/
theorem Inv.sameHead (inv : state.Inv) {value : Nat}
    (h : state.write (tibBase + tibExchainOffset) value = some after)
    (same : value = state.chainHead tibBase) : Inv { state with toSehMemory := after } := by
  have small : value < u32Size := same ▸ SehMemory.chainHead_lt _
  have kept := inv.setHead h small inv.holds inv.apart (same ▸ inv.chain)
  rwa [Function.update_eq_self] at kept

end Keeping

section Calls

variable {thread code : Nat} {change : List Nat → List Nat} {after : SehMemory}

theorem returned_of_ne (h : code ≠ 0) :
    state.returned thread change (code, after) = { state with toSehMemory := after } := by
  simp [returned, h]

theorem returned_zero : state.returned thread change (0, after) =
    { state with
      toSehMemory := after
      registered := Function.update state.registered thread (change (state.registered thread)) } :=
  rfl

theorem returned_same (h : change (state.registered thread) = state.registered thread) :
    state.returned thread change (0, after) = { state with toSehMemory := after } := by
  rw [returned_zero, h, Function.update_eq_self]

theorem recordWords_cons {tibs records : List Nat} {regRec : Nat} {motive : Nat × Nat → Prop}
    (prev : motive (regRec + xerrecPrev, 4)) (handler : motive (regRec + xerrecHandler, 4))
    (rest : ∀ word ∈ recordWords tibs records, motive word) :
    ∀ word ∈ recordWords tibs (regRec :: records), motive word := by
  intro word member
  rcases List.mem_append.mp member with head | record
  · exact rest word (List.mem_append_left _ head)
  · rcases List.mem_append.mp (List.flatMap_cons ▸ record) with here | later
    · rcases List.mem_pair.mp here with rfl | rfl
      · exact prev
      · exact handler
    · exact rest word (List.mem_append_right _ later)

theorem Inv.set (inv : state.Inv) {pregRec : UInt32}
    (allowed : state.Allowed (some (.set thread pregRec)))
    (h : state.dosSetExceptionHandler pregRec.toNat = some (code, after)) :
    Inv (state.returned thread (pregRec.toNat :: ·) (code, after)) := by
  unfold SehMemory.dosSetExceptionHandler at h
  split at h
  · cases h
    rwa [returned_of_ne (by decide)]
  rename_i nonzero
  obtain ⟨middle, hmiddle, h⟩ := Option.bind_eq_some_iff.mp h
  obtain ⟨last, hlast, h⟩ := Option.bind_eq_some_iff.mp h
  cases h
  have given : pregRec ≠ 0 := fun zero => nonzero (zero ▸ rfl)
  obtain ⟨rfl, ⟨held, apart⟩, ends⟩ := allowed.resolve_left given
  rw [inv.words_eq] at apart
  have prevApart : SehMemory.ApartFrom _ (pregRec.toNat + xerrecPrev) 4 :=
    apart.shrink (Nat.le_add_right _ _) (by simp only [xerrecPrev]; omega)
  have handlerApart : SehMemory.ApartFrom _ (pregRec.toNat + xerrecHandler) 4 :=
    apart.shrink (Nat.le_add_right _ _) (by simp only [xerrecHandler]; omega)
  have invMiddle := inv.keeps (SehMemory.write_keeps inv.holds hmiddle prevApart)
  have head : middle.chainHead tibBase = state.chainHead tibBase :=
    keeps_chainHead (SehMemory.write_keeps inv.holds hmiddle prevApart) (.inl rfl)
  have linked : middle.prevStructure pregRec.toNat = middle.chainHead tibBase :=
    (SehMemory.write_prevStructure hmiddle (SehMemory.chainHead_lt tibBase)).trans head.symm
  have mine : middle.memMgr.Held dynamicAllocBase pregRec.toNat 8 :=
    SehMemory.write_memMgr hmiddle ▸ held
  have ownHead := apart _ List.mem_cons_self
  refine invMiddle.setHead hlast pregRec.toNat_lt ⟨invMiddle.holds.layout, ?_⟩ ?_ ?_
  · refine List.forall_mem_cons.mpr ⟨.inl (by decide), recordWords_cons ?_ ?_ ?_⟩
    · exact mine.shrink (Nat.le_add_right _ _) (by simp only [xerrecPrev]; omega)
    · exact mine.shrink (Nat.le_add_right _ _) (by simp only [xerrecHandler]; omega)
    · exact fun word member => invMiddle.holds.held word (List.mem_cons_of_mem _ member)
  · refine recordWords_cons ?_ ?_ invMiddle.apart
    · exact (prevApart _ List.mem_cons_self).symm
    · exact (handlerApart _ List.mem_cons_self).symm
  · exact ⟨rfl, linked ▸ invMiddle.chain.links fun none => head.trans (ends none)⟩

theorem Inv.unset (inv : state.Inv) {pregRec : UInt32}
    (allowed : state.Allowed (some (.unset thread pregRec)))
    (h : state.dosUnsetExceptionHandler pregRec.toNat = some (code, after)) :
    Inv (state.returned thread (·.erase pregRec.toNat) (code, after)) := by
  unfold SehMemory.dosUnsetExceptionHandler at h
  split at h
  · cases h
    rwa [returned_of_ne (by decide)]
  rename_i nonzero
  obtain ⟨last, hlast, h⟩ := Option.bind_eq_some_iff.mp h
  cases h
  have given : pregRec ≠ 0 := fun zero => nonzero (zero ▸ rfl)
  rcases allowed.resolve_left given with ⟨rfl, newest⟩ | ⟨unknown, same⟩
  · obtain ⟨rest, hrecords⟩ := List.head?_eq_some_iff.mp newest
    have sub : ∀ regRec ∈ rest, regRec ∈ state.registered 0 :=
      fun regRec member => hrecords ▸ List.mem_cons_of_mem _ member
    have chain := (hrecords ▸ inv.chain : state.Chain _ (pregRec.toNat :: rest)).tail
    have kept := inv.setHead hlast (SehMemory.prevStructure_lt _)
      (inv.holds.sub (chainWords_sub sub)) (fun word member => inv.apart word
        (recordWords_sub sub word member)) chain
    rwa [returned_zero, hrecords, List.erase_cons_head]
  · rw [returned_same (List.erase_of_not_mem unknown)]
    exact inv.sameHead hlast same

theorem Inv.unwind (inv : state.Inv) {pRegRec : UInt32}
    (allowed : state.Allowed (some (.unwind thread pRegRec)))
    (h : state.dosUnwindException pRegRec.toNat = some (code, after)) :
    Inv (state.returned thread (·.dropWhile (· ≠ pRegRec.toNat)) (code, after)) := by
  obtain ⟨last, hlast, h⟩ := Option.bind_eq_some_iff.mp h
  cases h
  simp only [Allowed] at allowed
  split at allowed
  · rename_i main
    subst main
    have sub : ∀ regRec ∈ (state.registered 0).dropWhile (· ≠ pRegRec.toNat),
        regRec ∈ state.registered 0 :=
      fun regRec member => (List.dropWhile_suffix _).subset member
    have chain : state.Chain pRegRec.toNat
        ((state.registered 0).dropWhile (· ≠ pRegRec.toNat)) := by
      by_cases member : pRegRec.toNat ∈ state.registered 0
      · have some : state.registered 0 ≠ [] := List.ne_nil_of_mem member
        exact (inv.chain.links fun none => absurd none some).dropWhile member
      · have gone : (state.registered 0).dropWhile (· ≠ pRegRec.toNat) = [] := by
          rw [List.dropWhile_eq_nil_iff]
          intro regRec hregRec
          simpa using ne_of_mem_of_not_mem hregRec member
        rw [gone]
        exact allowed.resolve_left member
    exact inv.setHead hlast pRegRec.toNat_lt (inv.holds.sub (chainWords_sub sub))
      (fun word member => inv.apart word (recordWords_sub sub word member)) chain
  · rename_i other
    rw [returned_same (by rw [inv.alone thread other, List.dropWhile_nil])]
    exact inv.sameHead hlast allowed

theorem nextTib_of_create {tid ptidPtr param cbStack tib : Nat}
    (h : state.dosCreateThread tid ptidPtr param cbStack = some (some tib, after)) :
    state.nextTib cbStack = some tib := by
  unfold SehMemory.dosCreateThread at h
  unfold nextTib
  generalize threadStackSize cbStack = stackSize at h ⊢
  dsimp only at h
  split at h
  · cases h
  rename_i stackBase first hstack
  obtain ⟨⟨placed, last⟩, hplace, hpair⟩ := Option.map_eq_some_iff.mp h
  obtain rfl : placed = tib := Option.some.inj (congrArg Prod.fst hpair)
  obtain ⟨⟨base, second⟩, htib, hplace⟩ := Option.bind_eq_some_iff.mp hplace
  obtain ⟨third, _, hplace⟩ := Option.bind_eq_some_iff.mp hplace
  obtain ⟨fourth, _, hplace⟩ := Option.bind_eq_some_iff.mp hplace
  obtain ⟨fifth, _, hplace⟩ := Option.bind_eq_some_iff.mp hplace
  obtain ⟨sixth, _, hplace⟩ := Option.bind_eq_some_iff.mp hplace
  obtain rfl : base = placed := congrArg Prod.fst (Option.some.inj hplace)
  obtain ⟨⟨_, memMgr⟩, hfirst, hpair⟩ := Option.map_eq_some_iff.mp hstack
  cases hpair
  obtain ⟨⟨_, last⟩, hsecond, hpair⟩ := Option.map_eq_some_iff.mp htib
  cases hpair
  simp [hfirst, hsecond]

theorem Inv.create (inv : state.Inv) {ptidPtr param cbStack : UInt32} {result : Option Nat}
    (allowed : state.Allowed (some (.create thread ptidPtr param cbStack)))
    (h : state.dosCreateThread (state.tibs.length + 1) ptidPtr.toNat param.toNat cbStack.toNat =
      some (result, after)) :
    Inv { state with toSehMemory := after, tibs := state.tibs ++ result.toList } := by
  obtain ⟨⟨held, apart⟩, room, idle⟩ := allowed
  rw [inv.words_eq] at apart
  have holds : state.Holds ((ptidPtr.toNat, 4) :: chainWords state.tibs (state.registered 0)) :=
    ⟨inv.holds.layout, List.forall_mem_cons.mpr ⟨held, inv.holds.held⟩⟩
  rcases SehMemory.dosCreateThread_spec holds apart room h with ⟨rfl, rfl⟩ | ⟨tib, rfl, keeps, new⟩
  · simpa using inv
  · have kept := inv.keeps (keeps.sub fun _ member => List.mem_cons_of_mem _ member)
    have same : after.chainHead tib = state.chainHead tib :=
      congrArg (Option.getD · xcptChainEnd) (keeps.read List.mem_cons_self rfl)
    have widened {motive : Nat × Nat → Prop} (here : motive (tib, 4))
        (old : ∀ word ∈ recordWords state.tibs (state.registered 0), motive word) :
        ∀ word ∈ recordWords (state.tibs ++ [tib]) (state.registered 0), motive word := by
      intro word member
      rcases List.mem_append.mp member with head | record
      · rw [List.map_append] at head
        rcases List.mem_append.mp head with early | last
        · exact old word (List.mem_append_left _ early)
        · exact List.mem_singleton.mp last ▸ here
      · exact old word (List.mem_append_right _ record)
    refine ⟨⟨kept.holds.layout, ?_⟩, ?_, kept.chain, ?_, kept.alone⟩
    · refine List.forall_mem_cons.mpr ⟨.inl (by decide), widened ?_ ?_⟩
      · exact keeps.holds.held _ List.mem_cons_self
      · exact fun word member => kept.holds.held word (List.mem_cons_of_mem _ member)
    · exact widened (new _ List.mem_cons_self).symm kept.apart
    · intro other member
      rcases List.mem_append.mp member with early | last
      · exact kept.idle other early
      · obtain rfl := List.mem_singleton.mp last
        dsimp only
        rw [same]
        exact idle other (nextTib_of_create h)

theorem exec_inv {call : SehCall} {dispatch : Option ExceptionDispatch} (inv : state.Inv)
    (allowed : state.Allowed (some call)) (h : state.exec call = some (dispatch, next)) :
    next.Inv := by
  obtain ⟨base, _, h⟩ := Option.bind_eq_some_iff.mp h
  cases call with
  | set =>
    obtain ⟨⟨code, seh⟩, hcall, hpair⟩ := Option.map_eq_some_iff.mp h
    cases hpair
    exact inv.set allowed hcall
  | unset =>
    obtain ⟨⟨code, seh⟩, hcall, hpair⟩ := Option.map_eq_some_iff.mp h
    cases hpair
    exact inv.unset allowed hcall
  | unwind =>
    obtain ⟨⟨code, seh⟩, hcall, hpair⟩ := Option.map_eq_some_iff.mp h
    cases hpair
    exact inv.unwind allowed hcall
  | create =>
    obtain ⟨⟨tib, seh⟩, hcall, hpair⟩ := Option.map_eq_some_iff.mp h
    cases hpair
    exact inv.create allowed hcall
  | fault =>
    obtain ⟨⟨result, seh⟩, hcall, hpair⟩ := Option.map_eq_some_iff.mp h
    cases hpair
    exact inv.keeps (SehMemory.tryHwExceptionDispatch_spec inv.holds hcall).1
  | raise =>
    obtain ⟨⟨result, seh⟩, hcall, hpair⟩ := Option.map_eq_some_iff.mp h
    cases hpair
    exact inv.keeps (SehMemory.dosRaiseException_spec inv.holds hcall).1

theorem step_inv {label : Option SehCall} (inv : state.Inv) (allowed : state.Allowed label)
    (step : SehStep state label next) : next.Inv := by
  cases step with
  | call h => exact exec_inv inv allowed h
  | other keeps => exact inv.keeps (inv.words_eq ▸ keeps)

/-- A handler from the chain of the main thread is one that this thread set. -/
theorem Inv.ownHandler (inv : state.Inv) {dispatch : ExceptionDispatch}
    (found : state.FromChain dispatch) : state.OwnHandler 0 dispatch := by
  refine ⟨?_, found.handler⟩
  have chain := inv.chain
  cases hrecords : state.registered 0 with
  | nil =>
    rw [hrecords, ← found.regRec] at chain
    exact absurd chain found.handlers
  | cons first rest =>
    rw [hrecords, ← found.regRec] at chain
    obtain ⟨rfl, links⟩ := chain
    refine ⟨rest, rfl, found.next.trans ?_⟩
    cases rest with
    | nil => exact links
    | cons => exact links.1

theorem exec_ownHandler {call : SehCall} {dispatch : ExceptionDispatch} (inv : state.Inv)
    (allowed : state.Allowed (some call))
    (h : state.exec call = some (some dispatch, next)) : state.OwnHandler call.thread dispatch := by
  obtain ⟨base, _, h⟩ := Option.bind_eq_some_iff.mp h
  have own {thread : Nat} (found : state.FromChain dispatch)
      (quiet : thread = 0 ∨ NoHandlers (state.chainHead tibBase) ∨
        state.exceptionHandler (state.chainHead tibBase) = 0) :
      state.OwnHandler thread dispatch := by
    rcases quiet with rfl | none | null
    · exact inv.ownHandler found
    · exact absurd (found.regRec ▸ none) found.handlers
    · exact absurd (found.handler.trans (found.regRec ▸ null)) found.nonzero
  cases call with
  | fault =>
    obtain ⟨⟨result, seh⟩, hcall, hpair⟩ := Option.map_eq_some_iff.mp h
    obtain rfl : result = some dispatch := congrArg Prod.fst hpair
    exact own ((SehMemory.tryHwExceptionDispatch_spec inv.holds hcall).2 _ rfl) allowed
  | raise =>
    obtain ⟨⟨result, seh⟩, hcall, hpair⟩ := Option.map_eq_some_iff.mp h
    have hresult : result.dispatch = some dispatch := congrArg Prod.fst hpair
    unfold ApiResult.dispatch at hresult
    split at hresult
    · cases hresult
      exact own ((SehMemory.dosRaiseException_spec inv.holds hcall).2 _ rfl) allowed
    · contradiction
  | _ =>
    obtain ⟨_, _, hpair⟩ := Option.map_eq_some_iff.mp h
    cases congrArg Prod.fst hpair

end Calls

theorem Inv.ownChains (inv : state.Inv) : state.OwnChains := by
  intro thread base stands
  cases thread with
  | zero =>
    obtain rfl := Option.some.inj stands
    exact inv.chain
  | succ thread =>
    rw [inv.alone _ (Nat.succ_ne_zero thread)]
    exact inv.idle base (List.mem_of_getElem? stands)

theorem Fresh.inv (fresh : state.Fresh) : state.Inv where
  holds := ⟨fresh.layout, by
    rw [fresh.unregistered, fresh.alone]
    exact List.forall_mem_cons.mpr ⟨.inl (by decide), by simp [recordWords]⟩⟩
  apart := by
    rw [fresh.unregistered, fresh.alone]
    simp [recordWords, SehMemory.ApartFrom]
  chain := by
    rw [fresh.unregistered, fresh.head]
    exact .inl rfl
  idle := by simp [fresh.alone]
  alone := fun thread _ => fresh.unregistered thread

/-- Over any allowed run each thread has its own chain, and a fault or a raised exception
calls a handler of its own thread. -/
theorem allowed_chains_own {start finish : Threads} {labels : List (Option SehCall)}
    (fresh : start.Fresh) (run : Run (Step.guarded SehStep Allowed) start labels finish) :
    finish.OwnChains ∧ ∀ call dispatch after, finish.Allowed (some call) →
      finish.exec call = some (some dispatch, after) → finish.OwnHandler call.thread dispatch := by
  have inv : finish.Inv := run.invariant Inv
    (fun _ _ _ inv step => step_inv inv step.1 step.2) fresh.inv
  exact ⟨inv.ownChains, fun _ _ _ allowed h => exec_ownHandler inv allowed h⟩

/-- A guest of 64 MB, with an empty chain and a record of a handler at `0x20000`. -/
def sample : Threads where
  mem := ⟨0x4000000, fun i =>
    if 0x90000 ≤ i ∧ i < 0x90004 then 0xFF else if i = 0x20005 then 0x50 else 0⟩
  memMgr := .new 0x2000000 0x6000000
  tibs := []
  registered := fun _ => []

theorem sample_fresh : sample.Fresh where
  layout := MemoryManager.layout_new 0x2000000 0x6000000
  head := by decide
  alone := rfl
  unregistered := fun _ => rfl

def sampleFault : FaultContext := ⟨0, 0, 0, 0, 0, 0, 0, 0x40000, 0x10000, 2, 8, 16, 16, 24, 16, 16⟩

/-- The main thread sets its record, and a fault calls the handler. -/
theorem allowed_chains_own_main : ∃ (set : Threads) (dispatch : ExceptionDispatch),
    set.OwnChains ∧ set.registered 0 = [0x20000] ∧ set.OwnHandler 0 dispatch := by
  have result : ((sample.exec (.set 0 0x20000)).bind fun set =>
      (set.2.exec (.fault 0 sampleFault 13)).map fun out =>
        (set.2.registered 0, out.1.isSome)) = some ([0x20000], true) := by decide
  obtain ⟨⟨_, set⟩, hset, hfault⟩ := Option.bind_eq_some_iff.mp result
  obtain ⟨⟨dispatched, after⟩, hexec, hresult⟩ := Option.map_eq_some_iff.mp hfault
  obtain ⟨hrecords, hdispatched⟩ := Prod.mk.inj hresult
  obtain ⟨dispatch, rfl⟩ := Option.isSome_iff_exists.mp hdispatched
  have allowed : sample.Allowed (some (.set 0 0x20000)) :=
    .inr ⟨rfl, ⟨by decide, by decide⟩, fun _ => by decide⟩
  have own := allowed_chains_own sample_fresh (.cons ⟨allowed, .call hset⟩ (.nil set))
  have main : set.Allowed (some (.fault 0 sampleFault 13)) := .inl rfl
  exact ⟨set, dispatch, own.1, hrecords, own.2 _ dispatch after main hexec⟩

/-- A record that a second thread sets is in the chain of the main thread. -/
theorem record_in_main_chain : ¬∀ (start finish : Threads) (labels : List (Option SehCall)),
    start.Fresh → Run SehStep start labels finish →
      finish.OwnChains ∧ ∀ call dispatch after,
        finish.exec call = some (some dispatch, after) → finish.OwnHandler call.thread dispatch := by
  intro all
  have result : ((sample.exec (.create 0 0x30000 0 0)).bind fun created =>
      (created.2.exec (.set 1 0x20000)).map fun out =>
        (out.2.registered 0, out.2.chainHead tibBase)) = some ([], 0x20000) := by decide
  obtain ⟨⟨_, created⟩, hcreate, hset⟩ := Option.bind_eq_some_iff.mp result
  obtain ⟨⟨_, set⟩, hexec, hresult⟩ := Option.map_eq_some_iff.mp hset
  have hrecords : set.registered 0 = [] := congrArg Prod.fst hresult
  have hhead : set.chainHead tibBase = 0x20000 := congrArg Prod.snd hresult
  have chain := (all _ _ _ sample_fresh
    (.cons (.call hcreate) (.cons (.call hexec) (.nil set)))).1 0 tibBase rfl
  rw [hrecords, hhead] at chain
  have none : NoHandlers 0x20000 := chain
  exact absurd none (by decide)

end Threads
end Warpine.Vcpu
