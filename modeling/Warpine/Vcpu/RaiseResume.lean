import Warpine.Vcpu.CallbackStack
import Warpine.Vcpu.Seh

/-! What the registers are after `DosRaiseException`, where a handler continues the
execution. They travel through a context record in the guest's memory, which the call
fills with zeros. -/
namespace Warpine.Vcpu
open Warpine.Lib Warpine.Guest Warpine.Loader

namespace SehMemory

/-- The words of a record do not overlap where their offsets do not. -/
theorem wordsAt_apart {words : List (Nat × Nat)} (addr : Nat)
    (apart : (words.map Prod.fst).Pairwise fun one other => Apart one 4 other 4) :
    (wordsAt addr words).Pairwise ByteStore.WritesApart := by
  apply List.pairwise_map.mpr
  apply (List.pairwise_map.mp apart).imp
  intro one other h
  simp only [ByteStore.WritesApart, Apart, leBytes_length] at h ⊢
  omega

theorem contextRecord_apart (ctx : FaultContext) :
    ((contextRecord ctx).map Prod.fst).Pairwise fun one other => Apart one 4 other 4 := by
  have offsets : (contextRecord ctx).map Prod.fst = (contextRecord
      ⟨0, 0, 0, 0, 0, 0, 0, 0, 0, 0, 0, 0, 0, 0, 0, 0⟩).map Prod.fst := rfl
  rw [offsets]
  decide

variable {seh next : SehMemory}

/-- Each word of a record is there once the record is written. -/
theorem writeAll_read {addr : Nat} {words : List (Nat × Nat)}
    (apart : (words.map Prod.fst).Pairwise fun one other => Apart one 4 other 4)
    (h : seh.writeAll addr words = some next) {offset value : Nat}
    (member : (offset, value) ∈ words) (small : value < u32Size) :
    next.mem.read 4 (addr + offset) = some value := by
  obtain ⟨mem, hmem, rfl⟩ := Option.map_eq_some_iff.mp h
  have there := seh.mem.slice_writeAll hmem (wordsAt_apart addr apart)
    (List.mem_map.mpr ⟨(offset, value), member, rfl⟩)
  rw [leBytes_length] at there
  exact (GuestMemory.read_eq_some _).mpr ⟨small, there⟩

/-- The context that the call makes up. -/
def raisedContext (excAddr : Nat) : FaultContext :=
  { eax := 0, ebx := 0, ecx := 0, edx := 0, esi := 0, edi := 0, ebp := 0, esp := 0
    eip := excAddr, eflags := 2, cs := 0x08, ds := 0x10, es := 0x10, fs := 0x18, gs := 0x10
    ss := 0x10 }

theorem dosRaiseException_record {pExcRec : Nat} {dispatch : ExceptionDispatch}
    (h : seh.dosRaiseException pExcRec = some (.exceptionDispatch dispatch, next)) :
    ∃ (before : SehMemory) (excAddr : Nat), before.mem = seh.mem ∧
      before.writeAll dispatch.ctxRecord (contextRecord (raisedContext excAddr)) = some next := by
  simp only [dosRaiseException] at h
  split at h
  · cases h
  split at h
  · cases h
  split at h
  · cases h
  obtain ⟨⟨ctxRecord, before⟩, halloc, h⟩ := Option.bind_eq_some_iff.mp h
  obtain ⟨after, hafter, h⟩ := Option.bind_eq_some_iff.mp h
  cases h
  obtain ⟨⟨base, memMgr⟩, _, hpair⟩ := Option.map_eq_some_iff.mp halloc
  cases hpair
  exact ⟨⟨seh.mem, memMgr⟩, _, rfl, hafter⟩

/-- A record that is written lies in the guest's memory, which keeps its size. -/
theorem writeAll_inside {addr : Nat} {ctx : FaultContext}
    (h : seh.writeAll addr (contextRecord ctx) = some next) :
    addr + contextRecordSize ≤ next.mem.size ∧ next.mem.size = seh.mem.size := by
  obtain ⟨mem, hmem, rfl⟩ := Option.map_eq_some_iff.mp h
  obtain ⟨bounds, rfl⟩ := (seh.mem.writeAll_eq_some).mp hmem
  have last := bounds (addr + ctxSs, leBytes 4 ctx.ss)
    (List.mem_map.mpr ⟨(ctxSs, ctx.ss), by simp [contextRecord], rfl⟩)
  simp only [GuestMemory.inBounds, leBytes_length, decide_eq_true_eq, ctxSs] at last
  exact ⟨last, rfl⟩

end SehMemory

/-- Two memories that have the same bytes in a range have the same words there. -/
theorem read_of_slice {mem other : GuestMemory} {base len offset : Nat}
    (same : other.slice base len = mem.slice base len) (inside : base + len ≤ mem.size)
    (word : offset + 4 ≤ len) : other.read 4 (base + offset) = mem.read 4 (base + offset) := by
  have bytes : mem.slice base len = some (mem.bytes.load base len) :=
    if_pos (decide_eq_true inside)
  have length : (mem.bytes.load base len).length = len := mem.bytes.load_length base len
  generalize mem.bytes.load base len = data at bytes length
  subst length
  have there := other.slice_part (same.trans bytes) word
  have here := mem.slice_part bytes word
  exact congrArg (Option.map leValue) (there.trans here.symm)

namespace VcpuState

/-- The thread after the work of an API call. -/
def withSeh (state : VcpuState) (seh : SehMemory) : VcpuState :=
  { state with mem := seh.mem, memMgr := seh.memMgr }

/-- The two words of the record that the dispatch puts in. -/
def patchRecord (state : VcpuState) (ctxRecord : Nat) (home : Resume) : Option GuestMemory :=
  (state.mem.write 4 (wrapAdd ctxRecord ctxEip) home.rip).bind fun mem =>
    mem.write 4 (wrapAdd ctxRecord ctxEsp) (home.rsp % u32Size)

/-- `DosRaiseException` calls the first handler: the API call, the patches of the record
and the entry of the handler. -/
structure Raised (state : VcpuState) (pExcRec : Nat) (dispatch : ExceptionDispatch)
    (seh : SehMemory) (home : Resume) (record : GuestMemory) (entered : VcpuState) : Prop where
  call : SehMemory.dosRaiseException ⟨state.mem, state.memMgr⟩ pExcRec =
    some (.exceptionDispatch dispatch, seh)
  caller : (state.withSeh seh).caller = some home
  patch : (state.withSeh seh).patchRecord dispatch.ctxRecord home = some record
  enter : (state.withSeh seh).apiReturn 356 (.exceptionDispatch dispatch) = some entered

/-- Whatever the thread has done since, with any number of handlers that did not want the
exception, a handler of this dispatch returns and continues the execution. The record is
as the dispatch left it. -/
structure Continued (entered : VcpuState) (below : List CallbackFrame) (ctxRecord : Nat)
    (record : GuestMemory) (finish : VcpuState) : Prop where
  back : ∃ (back : VcpuState) (marks : List (Option Mark)) (saved : Resume)
    (context : FaultContext) (nextHandler excReport : Nat) (guestAllocs : List Nat),
      Run VcpuStep entered marks back ∧ back.regs.rip = callbackRetTrap ∧
      back.callbackStack = ⟨saved, .exceptionHandler context nextHandler excReport ctxRecord
        guestAllocs⟩ :: below ∧
      back.result = xcptContinueExecution ∧
      back.mem.slice ctxRecord contextRecordSize = record.slice ctxRecord contextRecordSize ∧
      finish = back.resumeContext ctxRecord guestAllocs

/-- The thread goes on after its call with the registers that a call leaves alone. -/
structure ResumesCaller (state : VcpuState) (home : Resume) (finish : VcpuState) : Prop where
  eip : finish.regs.rip = home.rip
  esp : finish.regs.rsp = home.rsp % u32Size
  ebx : finish.regs.rbx = state.regs.rbx % u32Size
  esi : finish.regs.rsi = state.regs.rsi % u32Size
  edi : finish.regs.rdi = state.regs.rdi % u32Size
  ebp : finish.regs.rbp = state.regs.rbp % u32Size

/-- The four registers are zero when the call is made. -/
structure ZeroRegs (state : VcpuState) : Prop where
  ebx : state.regs.rbx % u32Size = 0
  esi : state.regs.rsi % u32Size = 0
  edi : state.regs.rdi % u32Size = 0
  ebp : state.regs.rbp % u32Size = 0

variable {state entered finish : VcpuState} {pExcRec : Nat} {dispatch : ExceptionDispatch}
  {seh : SehMemory} {home : Resume} {record : GuestMemory}

/-- What is in the record when the first handler gets it. -/
theorem Raised.words (raised : state.Raised pExcRec dispatch seh home record entered)
    (size : state.mem.size = guestMemSize) :
    dispatch.ctxRecord + contextRecordSize ≤ guestMemSize ∧ record.size = guestMemSize ∧
      record.read 4 (dispatch.ctxRecord + ctxEip) = some home.rip ∧
      record.read 4 (dispatch.ctxRecord + ctxEsp) = some (home.rsp % u32Size) ∧
      ∀ offset ∈ [ctxEdi, ctxEsi, ctxEbx, ctxEbp],
        record.read 4 (dispatch.ctxRecord + offset) = some 0 := by
  obtain ⟨before, excAddr, same, written⟩ := SehMemory.dosRaiseException_record raised.call
  obtain ⟨inside, sized⟩ := SehMemory.writeAll_inside written
  rw [sized, same, size] at inside
  have wrap {offset : Nat} (low : offset ≤ contextRecordSize) :
      wrapAdd dispatch.ctxRecord offset = dispatch.ctxRecord + offset := by
    apply wrapAdd_of_lt
    simp only [guestMemSize, u32Size] at *
    omega
  have rip : home.rip < u32Size := by
    obtain ⟨rip, hrip, rfl⟩ := Option.map_eq_some_iff.mp raised.caller
    exact GuestMemory.read_lt hrip
  obtain ⟨first, heip, hesp⟩ := Option.bind_eq_some_iff.mp raised.patch
  rw [wrap (by decide)] at heip hesp
  have apart {low offset : Nat} (h : Apart low 4 offset 4) :
      Apart (dispatch.ctxRecord + low) 4 (dispatch.ctxRecord + offset) 4 := by
    simp only [Apart] at h ⊢
    omega
  have kept {offset : Nat} (eip : Apart ctxEip 4 offset 4) (esp : Apart ctxEsp 4 offset 4) :
      record.read 4 (dispatch.ctxRecord + offset) = seh.mem.read 4 (dispatch.ctxRecord + offset) :=
    congrArg (Option.map leValue) ((GuestMemory.slice_write_apart hesp (apart esp)).trans
      (GuestMemory.slice_write_apart heip (apart eip)))
  have sizes : record.size = guestMemSize := by
    rw [(GuestMemory.write_eq_some hesp).2, (GuestMemory.write_eq_some heip).2]
    exact (GuestMemory.putBytes_size _).trans ((GuestMemory.putBytes_size _).trans
      (sized.trans (by rw [same, size])))
  refine ⟨inside, sizes, ?_, ?_, ?_⟩
  · exact (congrArg (Option.map leValue) (GuestMemory.slice_write_apart hesp
      (apart (by decide)))).trans (GuestMemory.read_write heip rip)
  · exact GuestMemory.read_write hesp (Nat.mod_lt _ (by decide))
  · intro offset member
    have zero : (offset, 0) ∈ contextRecord (SehMemory.raisedContext excAddr) ∧
        Apart ctxEip 4 offset 4 ∧ Apart ctxEsp 4 offset 4 := by
      simp only [List.mem_cons, List.not_mem_nil, or_false] at member
      rcases member with rfl | rfl | rfl | rfl <;>
        exact ⟨by simp [contextRecord, SehMemory.raisedContext], by decide, by decide⟩
    rw [kept zero.2.1 zero.2.2]
    exact SehMemory.writeAll_read (SehMemory.contextRecord_apart _) written zero.1 (by decide)

/-- The registers after the call: the place and the stack pointer are the caller's, the
other registers are what the call put into the record. -/
theorem Continued.regs (raised : state.Raised pExcRec dispatch seh home record entered)
    (size : state.mem.size = guestMemSize)
    (continued : entered.Continued state.callbackStack dispatch.ctxRecord record finish) :
    finish.regs.rip = home.rip ∧ finish.regs.rsp = home.rsp % u32Size ∧ finish.regs.rbx = 0 ∧
      finish.regs.rsi = 0 ∧ finish.regs.rdi = 0 ∧ finish.regs.rbp = 0 := by
  obtain ⟨inside, sizes, eip, esp, zero⟩ := raised.words size
  obtain ⟨back, marks, saved, context, nextHandler, excReport, guestAllocs, _, _, _, _, same, rfl⟩ :=
    continued.back
  rw [← sizes] at inside
  have field {offset : Nat} (word : offset + 4 ≤ contextRecordSize) :
      back.popFrame.readOr (wrapAdd dispatch.ctxRecord offset) =
        (record.read 4 (dispatch.ctxRecord + offset)).getD 0 := by
    have wrap : wrapAdd dispatch.ctxRecord offset = dispatch.ctxRecord + offset := by
      apply wrapAdd_of_lt
      simp only [guestMemSize, u32Size] at *
      omega
    rw [wrap]
    exact congrArg (Option.getD · 0) (read_of_slice same inside word)
  have zeroField {offset : Nat} (word : offset + 4 ≤ contextRecordSize)
      (member : offset ∈ [ctxEdi, ctxEsi, ctxEbx, ctxEbp]) :
      back.popFrame.readOr (wrapAdd dispatch.ctxRecord offset) = 0 := by
    rw [field word, zero offset member, Option.getD_some]
  refine ⟨?_, ?_, ?_, ?_, ?_, ?_⟩
  · exact (field (by decide)).trans (by rw [eip, Option.getD_some])
  · exact (field (by decide)).trans (by rw [esp, Option.getD_some])
  · exact zeroField (by decide) (by simp)
  · exact zeroField (by decide) (by simp)
  · exact zeroField (by decide) (by simp)
  · exact zeroField (by decide) (by simp)

/-- The arguments of a call keep off memory that the stack keeps off. -/
theorem writeWords_slice {mem next : GuestMemory} {sp base len : Nat} {words : List Nat}
    (h : writeWords mem sp words = some next) (low : sp + 4 * words.length ≤ u32Size)
    (apart : Apart sp (4 * words.length) base len) : next.slice base len = mem.slice base len := by
  induction words generalizing mem sp with
  | nil =>
    cases h
    rfl
  | cons word rest ih =>
    obtain ⟨middle, hwrite, hrest⟩ := Option.bind_eq_some_iff.mp h
    rw [List.length_cons] at low apart
    have first : middle.slice base len = mem.slice base len :=
      GuestMemory.slice_write_apart hwrite (apart.shrink (Nat.le_refl _) (by omega))
    cases rest with
    | nil =>
      cases hrest
      exact first
    | cons next others =>
      have wrap : wrapAdd sp 4 = sp + 4 := wrapAdd_of_lt (by rw [List.length_cons] at low; omega)
      rw [wrap] at hrest
      exact (ih hrest (by omega) (apart.shrink (by omega) (by omega))).trans first

/-- The entry of the first handler, with the record in place. -/
theorem Raised.setup (raised : state.Raised pExcRec dispatch seh home record entered) :
    { state.withSeh seh with mem := record }.setupExceptionDispatch
      { dispatch with saved := { dispatch.saved with
          eip := home.rip, esp := home.rsp % u32Size } } = some entered := by
  have enter := raised.enter
  obtain ⟨first, heip, hesp⟩ := Option.bind_eq_some_iff.mp raised.patch
  simp only [apiReturn, raiseException, raised.caller, Option.bind_eq_bind, Option.bind_some, heip,
    hesp] at enter
  exact enter

/-- The record is as the dispatch left it, where the stack of the caller keeps off it and
no step since has changed it. -/
theorem Raised.record_kept (raised : state.Raised pExcRec dispatch seh home record entered)
    (stack : Apart (entered.regs.rsp % u32Size) 20 dispatch.ctxRecord contextRecordSize)
    (low : entered.regs.rsp % u32Size + 20 ≤ u32Size) {back : VcpuState}
    {marks : List (Option Mark)}
    (run : Run (fun before mark after => VcpuStep before mark after ∧
      after.mem.slice dispatch.ctxRecord contextRecordSize =
        before.mem.slice dispatch.ctxRecord contextRecordSize) entered marks back) :
    back.mem.slice dispatch.ctxRecord contextRecordSize =
      record.slice dispatch.ctxRecord contextRecordSize := by
  have first : entered.mem.slice dispatch.ctxRecord contextRecordSize =
      record.slice dispatch.ctxRecord contextRecordSize := by
    have setup := raised.setup
    unfold setupExceptionDispatch enterGuest at setup
    dsimp only at setup
    split at setup
    · contradiction
    · obtain ⟨mem, hwords, rfl⟩ := Option.map_eq_some_iff.mp setup
      exact writeWords_slice hwords low stack
  exact run.invariant (fun s => s.mem.slice dispatch.ctxRecord contextRecordSize =
    record.slice dispatch.ctxRecord contextRecordSize)
    (fun _ _ _ same step => step.2.trans same) first

/-- The registers are the caller's exactly when the caller had zeros in them. -/
theorem resumes_caller_iff (raised : state.Raised pExcRec dispatch seh home record entered)
    (size : state.mem.size = guestMemSize)
    (continued : entered.Continued state.callbackStack dispatch.ctxRecord record finish) :
    state.ResumesCaller home finish ↔ state.ZeroRegs := by
  obtain ⟨rip, rsp, rbx, rsi, rdi, rbp⟩ := Continued.regs raised size continued
  constructor
  · intro resumes
    exact ⟨resumes.ebx.symm.trans rbx, resumes.esi.symm.trans rsi, resumes.edi.symm.trans rdi,
      resumes.ebp.symm.trans rbp⟩
  · intro zero
    exact ⟨rip, rsp, rbx.trans zero.ebx.symm, rsi.trans zero.esi.symm, rdi.trans zero.edi.symm,
      rbp.trans zero.ebp.symm⟩

/-- A thread with one handler that calls `DosRaiseException`, on a memory of zeros but for
the return address, the head of the chain and the record it leads to. -/
def sampleCaller (ebx : Nat) : VcpuState where
  regs := ⟨magicApiBase + 356, 0x8000, 0, ebx, 0, 0, 0, 0, 0, 2⟩
  callbackStack := []
  mem := ⟨guestMemSize, fun i =>
    if i = 0x8001 then 0x03 else if i = 0x8002 then 0x01 else if i = 0x90001 then 0x10
    else if 0x1000 ≤ i ∧ i < 0x1004 then 0xFF else if i = 0x1006 then 0x02 else 0⟩
  memMgr := .new 0x02000000 0x10000000
  wm := .new
  shuttingDown := false

/-- The stages of that call. -/
def sampleStages (ebx : Nat) :
    Option (ExceptionDispatch × SehMemory × Resume × GuestMemory × VcpuState) := do
  let state := sampleCaller ebx
  let (result, seh) ← SehMemory.dosRaiseException ⟨state.mem, state.memMgr⟩ 0x2000
  match result with
  | .exceptionDispatch dispatch =>
      let home ← (state.withSeh seh).caller
      let record ← (state.withSeh seh).patchRecord dispatch.ctxRecord home
      let entered ← (state.withSeh seh).apiReturn 356 (.exceptionDispatch dispatch)
      some (dispatch, seh, home, record, entered)
  | _ => none

theorem sample_continues {ebx : Nat} (small : ebx ∈ [0, 5]) :
    ∃ dispatch seh home record entered finish,
      (sampleCaller ebx).Raised 0x2000 dispatch seh home record entered ∧
      entered.Continued [] dispatch.ctxRecord record finish := by
  have all : ∀ ebx ∈ [0, 5], (sampleStages ebx).map (fun stages =>
      decide (Apart (stages.2.2.2.2.regs.rsp % u32Size) 20 stages.1.ctxRecord contextRecordSize ∧
        stages.2.2.2.2.regs.rsp % u32Size + 20 ≤ u32Size)) = some true := by decide
  obtain ⟨⟨dispatch, seh, home, record, entered⟩, hstages, hstack⟩ :=
    Option.map_eq_some_iff.mp (all ebx small)
  simp only [sampleStages, Option.bind_eq_bind] at hstages
  obtain ⟨⟨result, after⟩, hcall, hstages⟩ := Option.bind_eq_some_iff.mp hstages
  cases result with
  | exceptionDispatch first =>
    dsimp only at hstages
    obtain ⟨place, hcaller, hstages⟩ := Option.bind_eq_some_iff.mp hstages
    obtain ⟨patched, hpatch, hstages⟩ := Option.bind_eq_some_iff.mp hstages
    obtain ⟨called, henter, hstages⟩ := Option.bind_eq_some_iff.mp hstages
    cases hstages
    have raised : (sampleCaller ebx).Raised 0x2000 dispatch seh home record entered :=
      ⟨hcall, hcaller, hpatch, henter⟩
    have frames := setupExceptionDispatch_eq_some raised.setup
    obtain ⟨stack, low⟩ := of_decide_eq_true hstack
    let back : VcpuState := { entered.share entered.dlgShared entered.mem entered.memMgr with
      regs := { entered.regs with rip := callbackRetTrap, rax := xcptContinueExecution } }
    have kept := raised.record_kept stack low (.cons ⟨.guest entered back.regs _ _ _, rfl⟩ (.nil back))
    exact ⟨dispatch, seh, home, record, entered, _, raised, back, [none], _, _, _, _, _,
      .cons (.guest entered _ _ _ _) (.nil back), rfl, frames, rfl, kept, rfl⟩
  | _ => cases hstages

theorem resumes_caller_iff_zeros :
    ∃ home finish, (sampleCaller 0).ResumesCaller home finish := by
  obtain ⟨dispatch, seh, home, record, entered, finish, raised, continued⟩ :=
    sample_continues (List.mem_cons_self (a := 0) (l := [5]))
  exact ⟨home, finish, (resumes_caller_iff raised rfl continued).mpr ⟨rfl, rfl, rfl, rfl⟩⟩

/-- A caller with a number in `ebx` finds zero in it. -/
theorem ebx_lost : ∃ dispatch seh home record entered finish,
    (sampleCaller 5).Raised 0x2000 dispatch seh home record entered ∧
    entered.Continued [] dispatch.ctxRecord record finish ∧
    ¬ (sampleCaller 5).ResumesCaller home finish := by
  obtain ⟨dispatch, seh, home, record, entered, finish, raised, continued⟩ :=
    sample_continues (show 5 ∈ [0, 5] by decide)
  refine ⟨dispatch, seh, home, record, entered, finish, raised, continued, ?_⟩
  intro resumes
  have zero := (Continued.regs raised rfl continued).2.2.1
  have five : finish.regs.rbx = 5 := resumes.ebx
  rw [zero] at five
  contradiction

end VcpuState
end Warpine.Vcpu
