import Warpine.Vio.KeyAccounts
import Warpine.Vio.Screen

/-! The bytes that the readers of handle 0 get. An Enter is two of them, the second
of which waits in the console for the next reader. -/
namespace Warpine.Vio
open Warpine.Lib Warpine.Loader

section Flag

variable {rs : EncodingRs} {vio : VioManager}

/-- What the console keeps for the readers of handle 0. -/
def VioManager.stdin (vio : VioManager) : Bool × Int := (vio.stdinPendingLf, vio.stdinCookedChars)

/-- It survives a loop that keeps it in every turn. -/
theorem foldl_stdin {α : Type} {body : VioManager → α → VioManager}
    (turn : ∀ vio item, (body vio item).stdin = vio.stdin) (items : List α)
    (vio : VioManager) : (items.foldl body vio).stdin = vio.stdin := by
  induction items generalizing vio with
  | nil => rfl
  | cons item rest ih => exact (ih (body vio item)).trans (turn vio item)

theorem put_stdin (vio : VioManager) (idx : Nat) (cell : Cell) (raw : UInt8) :
    (vio.put idx cell raw).stdin = vio.stdin := by
  unfold VioManager.put
  split <;> rfl

theorem copyFrom_stdin (vio source : VioManager) (dst src : Nat) :
    (vio.copyFrom source dst src).stdin = vio.stdin := by
  unfold VioManager.copyFrom
  split
  · exact put_stdin vio _ _ _
  · rfl

theorem fillRows_stdin (vio : VioManager) (first stop : Nat) (cell : Cell) (raw : UInt8) :
    (vio.fillRows first stop cell raw).stdin = vio.stdin := by
  apply foldl_stdin
  intro vio row
  apply foldl_stdin
  intro vio c
  exact put_stdin vio _ _ _

theorem copyRows_stdin (vio : VioManager) (rows : List Nat) (dst src : VioManager → Nat → Nat) :
    (rows.foldl (fun vio row => vio.copyRow (dst vio row) (src vio row)) vio).stdin =
      vio.stdin := by
  apply foldl_stdin
  intro vio row
  apply foldl_stdin
  intro vio c
  exact copyFrom_stdin vio _ _ _

theorem scrollUp_stdin (vio : VioManager) (top bottom lines : Nat) (cell : Cell) (raw : UInt8) :
    (vio.scrollUp top bottom lines cell raw).stdin = vio.stdin := by
  unfold VioManager.scrollUp
  split
  · rfl
  · split
    · exact fillRows_stdin vio _ _ _ _
    · exact (fillRows_stdin _ _ _ _ _).trans (copyRows_stdin vio _ _ _)

theorem scrollDown_stdin (vio : VioManager) (top bottom lines : Nat) (cell : Cell)
    (raw : UInt8) :
    (vio.scrollDown top bottom lines cell raw).stdin = vio.stdin := by
  unfold VioManager.scrollDown
  split
  · rfl
  · split
    · exact fillRows_stdin vio _ _ _ _
    · exact (fillRows_stdin _ _ _ _ _).trans (copyRows_stdin vio _ _ _)

theorem nextRow_stdin (vio : VioManager) : vio.nextRow.stdin = vio.stdin := by
  obtain ⟨row, last, numbers⟩ := vio.nextRow_numbers
  rw [numbers]
  split
  · exact scrollUp_stdin { vio with cursorRow := row, cursorCol := 0 } 0 last 1
      VioManager.blankCell VioManager.space
  · rfl

theorem advance_stdin (vio : VioManager) : vio.advance.stdin = vio.stdin := by
  unfold VioManager.advance
  dsimp only
  split
  · exact nextRow_stdin _
  · rfl

theorem writeTty_stdin (vio : VioManager) (text : List UInt8) (attr : UInt8) (cp : Nat) :
    (vio.writeTty rs text attr cp).stdin = vio.stdin := by
  apply foldl_stdin
  intro vio ch
  unfold VioManager.writeTtyByte VioManager.putAtCursor
  split_ifs
  · exact nextRow_stdin vio
  · rfl
  · rfl
  · rfl
  · exact (advance_stdin _).trans (put_stdin vio _ _ _)
  · exact advance_stdin vio

theorem writeCells_stdin (row : Nat) (vio : VioManager) (c : Nat)
    (cells : List (Cell × UInt8)) :
    (VioManager.writeCells row vio c cells).stdin = vio.stdin := by
  induction cells generalizing vio c with
  | nil => rfl
  | cons entry rest ih =>
    unfold VioManager.writeCells
    split
    · rfl
    · exact (ih _ _).trans (put_stdin vio _ _ _)

theorem writeNAttr_stdin (row : Nat) (attr : UInt8) (vio : VioManager) (c count : Nat) :
    (VioManager.writeNAttr row attr vio c count).stdin = vio.stdin := by
  induction count generalizing vio c with
  | zero => rfl
  | succ count ih =>
    unfold VioManager.writeNAttr
    split
    · rfl
    · apply (ih _ _).trans
      unfold VioManager.putAttr
      split <;> rfl

theorem resize_stdin (vio : VioManager) (newRows newCols : Nat) :
    (vio.resize newRows newCols).stdin = vio.stdin := by
  unfold VioManager.resize
  split
  · rfl
  · apply foldl_stdin
    intro new r
    apply foldl_stdin
    intro new c
    exact copyFrom_stdin new _ _ _

theorem writeTty_pendingLf (vio : VioManager) (text : List UInt8) (attr : UInt8) (cp : Nat) :
    (vio.writeTty rs text attr cp).stdinPendingLf = vio.stdinPendingLf :=
  congrArg Prod.fst (writeTty_stdin vio text attr cp)

theorem writeTty_cookedChars (vio : VioManager) (text : List UInt8) (attr : UInt8) (cp : Nat) :
    (vio.writeTty rs text attr cp).stdinCookedChars = vio.stdinCookedChars :=
  congrArg Prod.snd (writeTty_stdin vio text attr cp)

/-- No call but `dosRead` touches it. -/
theorem exec_stdin (sys : System) (call : Call) :
    (sys.exec rs call).console.stdin = sys.console.stdin := by
  cases call with
  | dosSetProcessCp cp =>
    unfold System.exec System.dosSetProcessCp
    dsimp only
    split <;> rfl
  | vioSetCp cp => rfl
  | vio call =>
    cases call with
    | wrtTty data attr => exact writeTty_stdin _ _ _ _
    | wrtCharStrAtt data row col attr => exact writeCells_stdin _ _ _ _
    | wrtNCell ch attr count row col => exact writeCells_stdin _ _ _ _
    | wrtNAttr attr count row col => exact writeNAttr_stdin _ _ _ _ _
    | scrollUp top bottom lines cell => exact scrollUp_stdin _ _ _ _ _ _
    | scrollDn top bottom lines cell => exact scrollDown_stdin _ _ _ _ _ _
    | setCurPos row col => rfl
    | setCurType yStart cEnd attr => rfl
    | setAnsi flag => rfl
    | setMode mode =>
      change (vioSetMode sys.console mode).2.stdin = sys.console.stdin
      obtain hsame | ⟨row, col, _, _, hresized⟩ := vioSetMode_cases sys.console mode
      · rw [hsame]
      · rw [hresized]
        exact resize_stdin _ _ _
    | enableSdl2Mode => exact resize_stdin _ _ _

end Flag

/-- What handle 0 is to deliver for these keys. -/
def crlf (keys : List KbdKeyInfo) : List UInt8 :=
  keys.flatMap fun ki => if ki.ch = carriageReturn then [carriageReturn, lineFeed] else [ki.ch]

/-- How far a `dosRead` has got with the byte it is to deliver. -/
inductive KbdRole where
  | none
  | waits
  | hasKey
  | hasEnter
  | answersKey
  | answersEnter
  | answersLf
deriving DecidableEq

def KbdThread.role : KbdThread → KbdRole
  | .inCall _ _ .wantsKey => .waits
  | .inCall _ _ (.hasKey ki) => if ki.ch = carriageReturn then .hasEnter else .hasKey
  | .inCall _ _ (.answering (.byte ki)) =>
      if ki.ch = carriageReturn then .answersEnter else .answersKey
  | .inCall _ _ (.answering .lineFeed) => .answersLf
  | _ => .none

/-- Between taking an Enter and having returned one of its bytes. -/
def KbdRole.OnEnter : KbdRole → Prop
  | .hasEnter | .answersEnter | .answersLf => True
  | _ => False

namespace KbdState

def role (s : KbdState) (thread : Nat) : KbdRole := (s.threads thread).role

/-- The thread's `dosRead` can still return a byte without another look at the flag. -/
def Delivers (s : KbdState) (thread : Nat) : Prop :=
  s.role thread ≠ .none ∧ (s.role thread = .waits → s.exitRequested = false)

def pendingLf (s : KbdState) : Bool := s.sys.console.stdinPendingLf

/-- The bytes that the readers of handle 0 got, in the order of return. -/
def delivered (s : KbdState) : List UInt8 := s.answers.flatMap fun answer => answer.reply.bytes

/-- The keys among them. -/
def handed (s : KbdState) : List KbdKeyInfo := s.answers.filterMap fun answer => answer.reply.key

/-- A line feed is still to be read or to be returned. -/
def Owed (s : KbdState) : Prop := s.pendingLf = true ∨ ∃ thread, s.role thread = .answersLf

/-- A `dosRead` takes an Enter only while no other one can still return a byte, and
looks for a line feed only while no other one is on an Enter. -/
def OneReader (s : KbdState) : KbdEvent → Prop
  | .work thread _ =>
      match s.threads thread with
      | .inCall _ _ .wantsKey =>
          ∀ ki rest, s.kbdQueue.queue = ki :: rest → ki.ch = carriageReturn →
            ∀ other, other ≠ thread → ¬ s.Delivers other
      | .inCall _ _ .pendingCheck =>
          s.exitRequested = true ∧ s.pendingLf = false ∨
            ∀ other, other ≠ thread → ¬ (s.role other).OnEnter
      | _ => True
  | _ => True

/-- No call reads the host's standard input, and no two `dosRead`s overlap on an Enter. -/
def Orderly (s : KbdState) (event : KbdEvent) : Prop := s.FromQueue event ∧ s.OneReader event

/-- Every key that arrived is in the queue or was taken by one call, in the order of arrival;
the replies are made of the keys that their calls took; a call that waits takes the front key;
and handle 0 delivers two bytes for each Enter, with nothing in between. -/
structure Served (rs : EncodingRs) (s : KbdState) : Prop where
  conserved : s.kbdQueue.Conserved
  taker : ∀ entry ∈ s.kbdQueue.taken, entry.1 < s.calls
  once : (s.answers.map KbdAnswer.number).Nodup
  made : ∀ answer ∈ s.answers, answer.reply.Made answer.call (s.kbdQueue.takenBy answer.number)
  serves : ∀ thread number call phase host, s.threads thread = .inCall number call phase →
    phase.WantsKey → s.exitRequested = false →
      (s.work rs thread number call host phase).kbdQueue = s.kbdQueue.take number
  lines : s.delivered = crlf s.handed ∨ s.delivered ++ [lineFeed] = crlf s.handed ∧ s.Owed

/-- Where the bytes of the last Enter are. -/
inductive Line (s : KbdState) : Prop where
  | between (none : ∀ thread, ¬ (s.role thread).OnEnter) (flag : s.pendingLf = false)
      (text : s.delivered = crlf s.handed)
  | popped (thread : Nat) (role : s.role thread = .hasEnter)
      (alone : ∀ other, other ≠ thread → ¬ s.Delivers other) (flag : s.pendingLf = false)
      (text : s.delivered = crlf s.handed)
  | answered (thread : Nat) (role : s.role thread = .answersEnter)
      (alone : ∀ other, other ≠ thread → ¬ s.Delivers other) (flag : s.pendingLf = true)
      (text : s.delivered = crlf s.handed)
  | pending (none : ∀ thread, ¬ s.Delivers thread) (flag : s.pendingLf = true)
      (text : s.delivered ++ [lineFeed] = crlf s.handed)
  | feeding (thread : Nat) (role : s.role thread = .answersLf)
      (alone : ∀ other, other ≠ thread → ¬ s.Delivers other) (flag : s.pendingLf = false)
      (text : s.delivered ++ [lineFeed] = crlf s.handed)

variable {s next : KbdState} {rs : EncodingRs} {event : KbdEvent} {thread number : Nat}
  {call : KbdCall} {before phase : KbdPhase}

theorem role_of {thread : Nat} (inside : s.threads thread = .inCall number call phase) :
    s.role thread = (KbdThread.inCall number call phase).role := by
  rw [role, inside]

@[simp] theorem role_goes_self :
    (s.goes thread number call phase).role thread = (KbdThread.inCall number call phase).role := by
  simp only [role, goes, Function.update_self]

theorem role_goes_ne {other : Nat} (h : other ≠ thread) :
    (s.goes thread number call phase).role other = s.role other := by
  simp only [role, goes, Function.update_of_ne h]

theorem delivers_of_onEnter (h : (s.role thread).OnEnter) : s.Delivers thread := by
  constructor
  · intro same
    rw [same] at h
    exact h
  · intro same
    rw [same] at h
    exact h.elim

/-- A step in which no thread comes any nearer to returning a byte, and none that is
on an Enter moves. -/
theorem Line.of_frame (h : s.Line) (flag : next.pendingLf = s.pendingLf)
    (delivered : next.delivered = s.delivered) (handed : next.handed = s.handed)
    (delivers : ∀ thread, next.Delivers thread → s.Delivers thread)
    (enter : ∀ thread, (s.role thread).OnEnter ∨ (next.role thread).OnEnter →
      next.role thread = s.role thread) : next.Line := by
  have alone {thread : Nat} (alone : ∀ other, other ≠ thread → ¬ s.Delivers other) (other : Nat)
      (hother : other ≠ thread) : ¬ next.Delivers other :=
    fun now => alone other hother (delivers other now)
  cases h with
  | between none before text =>
    apply Line.between
    · intro thread on
      have same := enter thread (.inr on)
      rw [same] at on
      exact none thread on
    · rw [flag, before]
    · rw [delivered, handed, text]
  | popped thread role others before text =>
    apply Line.popped thread
    · rw [enter thread (.inl (by rw [role]; trivial)), role]
    · exact alone others
    · rw [flag, before]
    · rw [delivered, handed, text]
  | answered thread role others before text =>
    apply Line.answered thread
    · rw [enter thread (.inl (by rw [role]; trivial)), role]
    · exact alone others
    · rw [flag, before]
    · rw [delivered, handed, text]
  | pending none before text =>
    apply Line.pending
    · exact fun thread now => none thread (delivers thread now)
    · rw [flag, before]
    · rw [delivered, handed, text]
  | feeding thread role others before text =>
    apply Line.feeding thread
    · rw [enter thread (.inl (by rw [role]; trivial)), role]
    · exact alone others
    · rw [flag, before]
    · rw [delivered, handed, text]

/-- One thread moves, not on an Enter, to where it cannot return a byte. -/
theorem Line.of_thread (h : s.Line) (thread : Nat) (flag : next.pendingLf = s.pendingLf)
    (delivered : next.delivered = s.delivered) (handed : next.handed = s.handed)
    (exit : next.exitRequested = s.exitRequested)
    (others : ∀ other, other ≠ thread → next.role other = s.role other)
    (old : ¬ (s.role thread).OnEnter) (new : ¬ next.Delivers thread) : next.Line := by
  apply h.of_frame flag delivered handed
  · intro other now
    by_cases same : other = thread
    · rw [same] at now
      exact absurd now new
    · have role := others other same
      simp only [Delivers, role, exit] at now
      exact now
  · intro other on
    by_cases same : other = thread
    · rw [same] at on
      rcases on with before | after
      · exact absurd before old
      · exact absurd (delivers_of_onEnter after) new
    · exact others other same

/-- What holds while a thread can return a byte and is not on an Enter. -/
theorem Line.of_delivers (h : s.Line) (delivers : s.Delivers thread)
    (off : ¬ (s.role thread).OnEnter) :
    (∀ other, ¬ (s.role other).OnEnter) ∧ s.pendingLf = false ∧ s.delivered = crlf s.handed := by
  have other_on {other : Nat} (on : (s.role other).OnEnter)
      (alone : ∀ third, third ≠ other → ¬ s.Delivers third) : False := by
    by_cases same : thread = other
    · rw [same] at off
      exact off on
    · exact alone thread same delivers
  cases h with
  | between none flag text => exact ⟨none, flag, text⟩
  | popped other role alone flag text => exact (other_on (by rw [role]; trivial) alone).elim
  | answered other role alone flag text => exact (other_on (by rw [role]; trivial) alone).elim
  | pending none flag text => exact absurd delivers (none thread)
  | feeding other role alone flag text => exact (other_on (by rw [role]; trivial) alone).elim

/-- A thread that is on an Enter is the one that the line waits for. -/
theorem Line.of_onEnter (h : s.Line) (on : (s.role thread).OnEnter) :
    (∀ other, other ≠ thread → ¬ s.Delivers other) ∧
      (s.role thread = .hasEnter ∧ s.pendingLf = false ∧ s.delivered = crlf s.handed ∨
        s.role thread = .answersEnter ∧ s.pendingLf = true ∧ s.delivered = crlf s.handed ∨
        s.role thread = .answersLf ∧ s.pendingLf = false ∧
          s.delivered ++ [lineFeed] = crlf s.handed) := by
  have same {other : Nat} (alone : ∀ third, third ≠ other → ¬ s.Delivers third) :
      thread = other := by
    by_contra hother
    exact alone thread hother (delivers_of_onEnter on)
  cases h with
  | between none flag text => exact absurd on (none thread)
  | popped other role alone flag text =>
    rw [same alone]
    exact ⟨alone, .inl ⟨role, flag, text⟩⟩
  | answered other role alone flag text =>
    rw [same alone]
    exact ⟨alone, .inr (.inl ⟨role, flag, text⟩)⟩
  | pending none flag text => exact absurd (delivers_of_onEnter on) (none thread)
  | feeding other role alone flag text =>
    rw [same alone]
    exact ⟨alone, .inr (.inr ⟨role, flag, text⟩)⟩

/-- A thread goes to where it cannot return a byte. -/
theorem Line.goes_idle (h : s.Line) {mid : KbdState} (threads : mid.threads = s.threads)
    (flag : mid.pendingLf = s.pendingLf) (answers : mid.answers = s.answers)
    (exit : mid.exitRequested = s.exitRequested) (old : ¬ (s.role thread).OnEnter)
    (new : (KbdThread.inCall number call phase).role = .none ∨
      (KbdThread.inCall number call phase).role = .waits ∧ s.exitRequested = true) :
    (mid.goes thread number call phase).Line := by
  have delivered : mid.delivered = s.delivered := by simp only [delivered, answers]
  have handed : mid.handed = s.handed := by simp only [handed, answers]
  apply @Line.of_thread s (mid.goes thread number call phase) h thread flag delivered handed exit _
    old
  · intro now
    rw [Delivers, role_goes_self] at now
    rcases new with none | ⟨waits, exits⟩
    · exact now.1 none
    · have runs : mid.exitRequested = false := now.2 waits
      rw [exit, exits] at runs
      contradiction
  · intro other hother
    rw [role_goes_ne hother]
    simp only [KbdState.role, threads]

/-- No thread is on an Enter, and none gets on one. -/
theorem Line.goes_between (mid : KbdState) (none : ∀ other, ¬ (s.role other).OnEnter)
    (threads : mid.threads = s.threads) (answers : mid.answers = s.answers)
    (flag : mid.pendingLf = false) (text : s.delivered = crlf s.handed)
    (new : ¬ (KbdThread.inCall number call phase).role.OnEnter) :
    (mid.goes thread number call phase).Line := by
  apply Line.between
  · intro other
    by_cases same : other = thread
    · rw [same, role_goes_self]
      exact new
    · rw [role_goes_ne same]
      simp only [role, threads]
      exact none other
  · exact flag
  · simp only [delivered, handed, goes, answers]
    exact text

/-- The others stay where they cannot return a byte. -/
theorem alone_goes {mid : KbdState} (threads : mid.threads = s.threads)
    (exit : mid.exitRequested = s.exitRequested)
    (alone : ∀ other, other ≠ thread → ¬ s.Delivers other) (other : Nat) (hother : other ≠ thread) :
    ¬ (mid.goes thread number call phase).Delivers other := by
  intro now
  rw [Delivers, role_goes_ne hother] at now
  simp only [role, threads, goes, exit] at now
  exact alone other hother now

/-- A look for a line feed. -/
theorem Line.takePendingLf (h : s.Line) (inside : s.threads thread = .inCall number call .pendingCheck)
    (guard : s.exitRequested = true ∧ s.pendingLf = false ∨
      ∀ other, other ≠ thread → ¬ (s.role other).OnEnter) :
    (s.takePendingLf thread number call).Line := by
  have idle : s.role thread = .none := role_of inside
  have off : ¬ (s.role thread).OnEnter := by rw [idle]; exact not_false
  have others_off (free : ∀ other, other ≠ thread → ¬ (s.role other).OnEnter) (other : Nat) :
      ¬ (s.role other).OnEnter := by
    by_cases same : other = thread
    · rw [same]
      exact off
    · exact free other same
  cases hflag : s.pendingLf with
  | true =>
    have free := guard.resolve_left (by rw [hflag]; simp)
    simp only [KbdState.takePendingLf, if_pos (show s.sys.console.stdinPendingLf = true from hflag)]
    cases h with
    | pending none flag text =>
      apply Line.feeding thread
      · exact role_goes_self
      · exact alone_goes (s := s) rfl rfl fun other _ => none other
      · rfl
      · exact text
    | answered other role alone flag text =>
      exact absurd (by rw [role]; trivial) (others_off free other)
    | between none flag text => rw [flag] at hflag; contradiction
    | popped other role alone flag text => rw [flag] at hflag; contradiction
    | feeding other role alone flag text => rw [flag] at hflag; contradiction
  | false =>
    have unset : ¬ s.sys.console.stdinPendingLf = true := by
      rw [show s.sys.console.stdinPendingLf = false from hflag]
      exact Bool.false_ne_true
    simp only [KbdState.takePendingLf, if_neg unset]
    rcases guard with exits | free
    · exact h.goes_idle rfl rfl rfl rfl off (.inr ⟨rfl, exits.1⟩)
    · cases h with
      | between none flag text => exact Line.goes_between s none rfl rfl flag text not_false
      | popped other role alone flag text =>
        exact absurd (by rw [role]; trivial) (others_off free other)
      | answered other role alone flag text =>
        exact absurd (by rw [role]; trivial) (others_off free other)
      | pending none flag text => rw [flag] at hflag; contradiction
      | feeding other role alone flag text =>
        exact absurd (by rw [role]; trivial) (others_off free other)

theorem Line.takeKey (h : s.Line) (inside : s.threads thread = .inCall number call .wantsKey)
    (guard : ∀ ki rest, s.kbdQueue.queue = ki :: rest → ki.ch = carriageReturn →
      ∀ other, other ≠ thread → ¬ s.Delivers other) :
    (s.takeKey thread number call).Line := by
  have waits : s.role thread = .waits := role_of inside
  have off : ¬ (s.role thread).OnEnter := by rw [waits]; exact not_false
  unfold KbdState.takeKey
  split
  · exact h.goes_idle rfl rfl rfl rfl off (.inl rfl)
  · rename_i runs
    have delivers : s.Delivers thread := by
      rw [Delivers, waits]
      exact ⟨nofun, fun _ => Bool.eq_false_of_not_eq_true runs⟩
    obtain ⟨none, flag, text⟩ := h.of_delivers delivers off
    split
    · rename_i ki rest front
      by_cases enter : ki.ch = carriageReturn
      · have role : (KbdThread.inCall number call (.hasKey ki)).role = .hasEnter := if_pos enter
        apply Line.popped thread
        · exact role_goes_self.trans role
        · exact alone_goes (s := s) rfl rfl (guard ki rest front enter)
        · exact flag
        · exact text
      · have role : (KbdThread.inCall number call (.hasKey ki)).role = .hasKey := if_neg enter
        apply Line.goes_between (s.takes number) none rfl rfl flag text
        rw [role]
        exact not_false
    · exact h

/-- The Enter is at the console, which gets the flag. -/
theorem Line.typeEnter (h : s.Line) {ki : KbdKeyInfo} (enter : ki.ch = carriageReturn)
    (inside : s.threads thread = .inCall number call (.hasKey ki)) :
    (s.typeKey rs thread number call ki).Line := by
  have role : s.role thread = .hasEnter := (role_of inside).trans (if_pos enter)
  obtain ⟨alone, ⟨_, _, text⟩ | ⟨other, _⟩ | ⟨other, _⟩⟩ := h.of_onEnter (by rw [role]; trivial)
  · have after : (KbdThread.inCall number call (.answering (.byte ki))).role = .answersEnter :=
      if_pos enter
    simp only [KbdState.typeKey, if_pos enter]
    apply Line.answered thread
    · exact role_goes_self.trans after
    · exact alone_goes (s := s) rfl rfl alone
    · exact writeTty_pendingLf _ _ _ _
    · exact text
  · rw [role] at other
    contradiction
  · rw [role] at other
    contradiction

/-- Any other key leaves the flag alone. -/
theorem Line.typeOther (h : s.Line) {ki : KbdKeyInfo} (other : ki.ch ≠ carriageReturn)
    (inside : s.threads thread = .inCall number call (.hasKey ki)) :
    (s.typeKey rs thread number call ki).Line := by
  have role : s.role thread = .hasKey := (role_of inside).trans (if_neg other)
  have delivers : s.Delivers thread := by
    rw [Delivers, role]
    exact ⟨nofun, nofun⟩
  obtain ⟨none, flag, text⟩ := h.of_delivers delivers (by rw [role]; exact not_false)
  have after : (KbdThread.inCall number call (.answering (.byte ki))).role = .answersKey :=
    if_neg other
  have answers {console : VioManager} (same : console.stdinPendingLf = s.pendingLf) :
      ((s.setConsole console).goes thread number call (.answering (.byte ki))).Line := by
    apply Line.goes_between (s.setConsole console) none rfl rfl (same.trans flag) text
    rw [after]
    exact not_false
  simp only [KbdState.typeKey, if_neg other]
  split_ifs
  · exact answers (writeTty_pendingLf _ _ _ _)
  · exact Line.goes_between s none rfl rfl flag text not_false
  · exact answers (writeTty_pendingLf _ _ _ _)
  · exact answers rfl

theorem role_returns_self {reply : KbdReply} :
    (s.returns thread number call reply).role thread = .none := by
  simp only [role, returns, Function.update_self, KbdThread.role]

theorem role_returns_ne {reply : KbdReply} {other : Nat} (h : other ≠ thread) :
    (s.returns thread number call reply).role other = s.role other := by
  simp only [role, returns, Function.update_of_ne h]

theorem delivered_returns (reply : KbdReply) :
    (s.returns thread number call reply).delivered = s.delivered ++ reply.bytes := by
  simp only [delivered, returns, List.flatMap_append, List.flatMap_cons, List.flatMap_nil,
    List.append_nil]

theorem handed_returns (reply : KbdReply) :
    (s.returns thread number call reply).handed = s.handed ++ reply.key.toList := by
  simp only [handed, returns, List.filterMap_append, List.filterMap_cons, List.filterMap_nil]
  cases reply.key <;> rfl

theorem crlf_append (keys : List KbdKeyInfo) (ki : KbdKeyInfo) :
    crlf (keys ++ [ki]) =
      crlf keys ++ if ki.ch = carriageReturn then [carriageReturn, lineFeed] else [ki.ch] := by
  simp only [crlf, List.flatMap_append, List.flatMap_cons, List.flatMap_nil, List.append_nil]

/-- A thread returns when no other one is on an Enter. -/
theorem Line.returns_between {reply : KbdReply}
    (none : ∀ other, other ≠ thread → ¬ (s.role other).OnEnter) (flag : s.pendingLf = false)
    (text : s.delivered ++ reply.bytes = crlf (s.handed ++ reply.key.toList)) :
    (s.returns thread number call reply).Line := by
  apply Line.between
  · intro other
    by_cases same : other = thread
    · rw [same, role_returns_self]
      exact not_false
    · rw [role_returns_ne same]
      exact none other same
  · exact flag
  · rw [delivered_returns, handed_returns]
    exact text

theorem Line.returns (h : s.Line) {reply : KbdReply}
    (inside : s.threads thread = .inCall number call (.answering reply)) :
    (s.returns thread number call reply).Line := by
  have role := role_of inside
  have idle (none : s.role thread = .none) (bytes : reply.bytes = []) (key : reply.key = Option.none) :
      (s.returns thread number call reply).Line := by
    apply h.of_thread thread
    · rfl
    · rw [delivered_returns, bytes, List.append_nil]
    · rw [handed_returns, key]
      exact List.append_nil _
    · rfl
    · exact fun other hother => role_returns_ne hother
    · rw [none]
      exact not_false
    · intro now
      exact now.1 role_returns_self
  cases reply with
  | byte ki =>
    by_cases enter : ki.ch = carriageReturn
    · have role : s.role thread = .answersEnter := role.trans (if_pos enter)
      obtain ⟨alone, ⟨other, _⟩ | ⟨_, flag, text⟩ | ⟨other, _⟩⟩ :=
        h.of_onEnter (by rw [role]; trivial)
      · rw [role] at other
        contradiction
      · apply Line.pending
        · intro other now
          by_cases same : other = thread
          · rw [same] at now
            exact now.1 role_returns_self
          · rw [Delivers, role_returns_ne same] at now
            exact alone other same now
        · exact flag
        · rw [delivered_returns, handed_returns, text]
          simp only [KbdReply.bytes, KbdReply.key, Option.toList_some, crlf_append, enter, if_true,
            List.append_assoc, List.singleton_append]
      · rw [role] at other
        contradiction
    · have role : s.role thread = .answersKey := role.trans (if_neg enter)
      have delivers : s.Delivers thread := by
        rw [Delivers, role]
        exact ⟨nofun, nofun⟩
      obtain ⟨none, flag, text⟩ := h.of_delivers delivers (by rw [role]; exact not_false)
      apply Line.returns_between (fun other _ => none other) flag
      simp only [KbdReply.bytes, KbdReply.key, Option.toList_some, crlf_append, if_neg enter, text]
  | lineFeed =>
    have role : s.role thread = .answersLf := role
    obtain ⟨alone, ⟨other, _⟩ | ⟨other, _⟩ | ⟨_, flag, text⟩⟩ :=
      h.of_onEnter (by rw [role]; trivial)
    · rw [role] at other
      contradiction
    · rw [role] at other
      contradiction
    · apply Line.returns_between _ flag
      · simp only [KbdReply.bytes, KbdReply.key, Option.toList_none, List.append_nil, text]
      · intro other hother on
        exact alone other hother (delivers_of_onEnter on)
  | failed rc => exact idle role rfl rfl
  | keyInfo written => exact idle role rfl rfl
  | line chars => exact idle role rfl rfl
  | noBytes => exact idle role rfl rfl

/-- Every step of a call keeps the line, as long as the readers do not overlap on an
Enter. -/
theorem Line.work (h : s.Line) (inside : s.threads thread = .inCall number call phase)
    (host : Option UInt8) (reader : s.OneReader (.work thread host)) :
    (s.work rs thread number call host phase).Line := by
  simp only [OneReader, inside] at reader
  have idle {phase : KbdPhase} (mid : KbdState) (threads : mid.threads = s.threads)
      (flag : mid.pendingLf = s.pendingLf) (answers : mid.answers = s.answers)
      (exit : mid.exitRequested = s.exitRequested) (old : s.role thread = .none)
      (new : (KbdThread.inCall number call phase).role = .none) :
      (mid.goes thread number call phase).Line :=
    h.goes_idle threads flag answers exit (by rw [old]; exact not_false) (.inl new)
  cases phase with
  | charIn pKeyInfo wait =>
    have old : s.role thread = .none := role_of inside
    simp only [KbdState.work, kbdCharIn]
    split
    · exact idle s rfl rfl rfl rfl old rfl
    · split
      · exact idle (s.takes number) rfl rfl rfl rfl old rfl
      · split
        · exact idle s rfl rfl rfl rfl old rfl
        · exact h
  | stringIn maxLen wait chars =>
    have old : s.role thread = .none := role_of inside
    simp only [KbdState.work, kbdStringIn]
    split
    · exact idle s rfl rfl rfl rfl old rfl
    · split
      · exact idle s rfl rfl rfl rfl old rfl
      · split
        · exact idle s rfl rfl rfl rfl old rfl
        · exact h
  | echoing maxLen wait chars b =>
    have old : s.role thread = .none := role_of inside
    simp only [KbdState.work, kbdStringEcho]
    split
    · exact idle s rfl rfl rfl rfl old rfl
    · refine idle (s.setConsole _) rfl ?_ rfl rfl old rfl
      split_ifs
      · exact writeTty_pendingLf _ _ _ _
      · rfl
      · exact writeTty_pendingLf _ _ _ _
      · rfl
  | pendingCheck => exact h.takePendingLf inside reader
  | wantsKey => exact h.takeKey inside reader
  | hasKey ki =>
    by_cases enter : ki.ch = carriageReturn
    · exact h.typeEnter enter inside
    · exact h.typeOther enter inside
  | answering reply => exact h.returns inside

theorem role_start (call : KbdCall) : (KbdThread.inCall number call call.start).role = .none := by
  cases call with
  | kbdCharIn pKeyInfo wait => rfl
  | kbdStringIn maxLen wait => cases maxLen <;> rfl
  | dosRead len =>
    simp only [KbdCall.start]
    split_ifs <;> rfl

theorem Line.step (h : s.Line) (step : KbdStep rs s event next) (reader : s.OneReader event) :
    next.Line := by
  cases step with
  | press keys => exact h.of_frame rfl rfl rfl (fun _ now => now) fun _ _ => rfl
  | @call thread call running =>
    have old : s.role thread = .none := by
      rw [role, running]
      rfl
    have started : ({ s with calls := s.calls + 1 }.goes thread s.calls call call.start).Line :=
      h.goes_idle rfl rfl rfl rfl (by rw [old]; exact not_false) (.inl (role_start call))
    exact started
  | work host inside => exact h.work inside host reader
  | screen call =>
    exact h.of_frame (congrArg Prod.fst (exec_stdin s.sys call)) rfl rfl (fun _ now => now) fun _ _ => rfl
  | quit =>
    apply h.of_frame
    · rfl
    · rfl
    · rfl
    · intro thread now
      exact ⟨now.1, fun waits => absurd (now.2 waits) (by simp)⟩
    · exact fun _ _ => rfl

theorem line_initial (winsize : Option (UInt16 × UInt16)) : (initial winsize).Line :=
  .between (fun _ => not_false) rfl rfl

theorem Line.lines (h : s.Line) :
    s.delivered = crlf s.handed ∨ s.delivered ++ [lineFeed] = crlf s.handed ∧ s.Owed := by
  cases h with
  | between none flag text => exact .inl text
  | popped thread role alone flag text => exact .inl text
  | answered thread role alone flag text => exact .inl text
  | pending none flag text => exact .inr ⟨text, .inl flag⟩
  | feeding thread role alone flag text => exact .inr ⟨text, .inr ⟨thread, role⟩⟩

/-- Runs in which no call reads the host's standard input and readers of handle 0 do not
overlap on an Enter. -/
theorem keys_served {winsize : Option (UInt16 × UInt16)} {events : List KbdEvent}
    {finish : KbdState}
    (run : Run (Step.guarded (KbdStep rs) Orderly) (initial winsize) events finish) :
    finish.Served rs := by
  have ⟨accounted, line⟩ := run.invariant (fun s => s.Accounted ∧ s.Line)
    (fun _ _ _ h step => ⟨h.1.step step.2 step.1.1, h.2.step step.2 step.1.2⟩)
    ⟨accounted_initial winsize, line_initial winsize⟩
  constructor
  case conserved => exact accounted.conserved
  case taker => exact accounted.numbered.taker
  case once => exact accounted.numbered.once
  case made => exact accounted.made
  case serves =>
    intro thread number call phase host inside wants runs
    exact accounted.serves inside wants runs host
  case lines => exact line.lines

theorem not_delivers_of_running (running : s.threads thread = .running) : ¬ s.Delivers thread := by
  intro now
  rw [Delivers, role, running] at now
  exact now.1 rfl

theorem work_threads_ne {other : Nat} {host : Option UInt8} (h : other ≠ thread) :
    (s.work rs thread number call host phase).threads other = s.threads other := by
  have goes_ne {mid : KbdState} {phase : KbdPhase} (threads : mid.threads = s.threads) :
      (mid.goes thread number call phase).threads other = s.threads other := by
    simp only [goes, Function.update_of_ne h, threads]
  cases phase with
  | charIn pKeyInfo wait =>
    simp only [KbdState.work, kbdCharIn]
    split
    · exact goes_ne rfl
    · split
      · exact goes_ne rfl
      · split
        · exact goes_ne rfl
        · rfl
  | stringIn maxLen wait chars =>
    simp only [KbdState.work, kbdStringIn]
    split
    · exact goes_ne rfl
    · split
      · exact goes_ne rfl
      · split
        · exact goes_ne rfl
        · rfl
  | echoing maxLen wait chars b =>
    simp only [KbdState.work, kbdStringEcho]
    split <;> exact goes_ne rfl
  | pendingCheck =>
    simp only [KbdState.work, KbdState.takePendingLf]
    split <;> exact goes_ne rfl
  | wantsKey =>
    simp only [KbdState.work, KbdState.takeKey]
    split
    · exact goes_ne rfl
    · split
      · exact goes_ne rfl
      · rfl
  | hasKey ki =>
    simp only [KbdState.work, typeKey]
    split_ifs <;> exact goes_ne rfl
  | answering reply => exact Function.update_of_ne h _ _

/-- The event is not a step of another thread, nor a call that reads the host's
standard input. -/
def Single (thread : Nat) : KbdEvent → Prop
  | .call _ (.kbdStringIn (some _) _) => False
  | .call caller _ => caller = thread
  | .work caller _ => caller = thread
  | _ => True

theorem step_threads_ne (step : KbdStep rs s event next) (single : Single thread event)
    {other : Nat} (h : other ≠ thread) : next.threads other = s.threads other := by
  cases step with
  | press keys => rfl
  | @call caller call running =>
    have same : caller = thread := by
      cases call with
      | kbdCharIn pKeyInfo wait => exact single
      | kbdStringIn maxLen wait =>
        cases maxLen with
        | none => exact single
        | some maxLen => exact single.elim
      | dosRead len => exact single
    rw [same]
    exact Function.update_of_ne h _ _
  | @work caller number call phase host inside =>
    have same : caller = thread := single
    rw [same]
    exact work_threads_ne h
  | screen call => rfl
  | quit => rfl

theorem orderly_of_alone (alone : ∀ other, other ≠ thread → s.threads other = .running)
    (single : Single thread event) : s.Orderly event := by
  cases event with
  | call caller call =>
    constructor
    · cases call with
      | kbdCharIn pKeyInfo wait => trivial
      | kbdStringIn maxLen wait =>
        cases maxLen with
        | none => trivial
        | some maxLen => exact single.elim
      | dosRead len => trivial
    · trivial
  | work caller host =>
    have same : caller = thread := single
    refine ⟨trivial, ?_⟩
    rw [same]
    unfold OneReader
    dsimp only
    split
    · intro ki rest front enter other hother
      exact not_delivers_of_running (alone other hother)
    · right
      intro other hother on
      exact not_delivers_of_running (alone other hother) (delivers_of_onEnter on)
    · trivial
  | _ => exact ⟨trivial, trivial⟩

/-- A guest in which one thread reads keys, and not with `KbdStringIn`. -/
theorem orderly_of_single (thread : Nat) {winsize : Option (UInt16 × UInt16)} {events : List KbdEvent}
    {finish : KbdState} (run : Run (KbdStep rs) (initial winsize) events finish)
    (single : ∀ event ∈ events, Single thread event) :
    Run (Step.guarded (KbdStep rs) Orderly) (initial winsize) events finish := by
  apply (run.restrict single).reguard
    fun s => ∀ other, other ≠ thread → s.threads other = .running
  · intro s event next alone single step other hother
    rw [step_threads_ne step single hother]
    exact alone other hother
  · intro s event alone single
    exact orderly_of_alone alone single
  · exact fun _ _ => rfl

/-- One thread reads an Enter as two bytes. -/
theorem keys_served_enter :
    ∃ finish : KbdState, finish.delivered = [0x0D, 0x0A] ∧
      finish.Served ⟨fun _ _ => [], fun _ _ => []⟩ := by
  refine ⟨_, ?_, @keys_served ⟨fun _ _ => [], fun _ _ => []⟩ none
    [.press [⟨0x0D, 0x1C, 0⟩], .call 1 (.dosRead 1), .work 1 none, .work 1 none, .work 1 none,
      .work 1 none, .call 1 (.dosRead 1), .work 1 none, .work 1 none] _
    (orderly_of_single 1 (.cons (.press _) <| .cons (.call _ rfl) <| .cons (.work none rfl) <|
      .cons (.work none rfl) <| .cons (.work none rfl) <| .cons (.work none rfl) <|
      .cons (.call _ rfl) <| .cons (.work none rfl) <| .cons (.work none rfl) <| .nil _)
      (by simp [Single]))⟩
  rfl

/-- A second reader, already past its look at the flag, gets the key after the Enter before
the line feed. `KbdStringIn` leaves the key in the queue and returns a byte of the host's
standard input. -/
theorem keys_not_served :
    (∃ events finish, Run (KbdStep ⟨fun _ _ => [], fun _ _ => []⟩) (initial none) events finish ∧
      finish.delivered = [0x0D, 0x61] ∧ ¬ finish.Served ⟨fun _ _ => [], fun _ _ => []⟩) ∧
    ∃ events finish, Run (KbdStep ⟨fun _ _ => [], fun _ _ => []⟩) (initial none) events finish ∧
      finish.kbdQueue.taken = [] ∧ ¬ finish.Served ⟨fun _ _ => [], fun _ _ => []⟩ := by
  constructor
  · refine ⟨[.call 1 (.dosRead 1), .call 2 (.dosRead 1), .work 1 none, .work 2 none,
      .press [⟨0x0D, 0x1C, 0⟩, ⟨0x61, 0x1E, 0⟩], .work 1 none, .work 2 none, .work 1 none,
      .work 1 none, .work 2 none, .work 2 none], _,
      .cons (.call _ rfl) <| .cons (.call _ rfl) <| .cons (.work none rfl) <|
        .cons (.work none rfl) <| .cons (.press _) <| .cons (.work none rfl) <|
        .cons (.work none rfl) <| .cons (.work none rfl) <| .cons (.work none rfl) <|
        .cons (.work none rfl) <| .cons (.work none rfl) <| .nil _, rfl, ?_⟩
    intro served
    rcases served.lines with whole | ⟨owed, _⟩
    · exact absurd whole (by decide)
    · exact absurd owed (by decide)
  · refine ⟨[.press [⟨0x61, 0x1E, 0⟩], .call 1 (.kbdStringIn (some 1) 0), .work 1 (some 0x7A),
      .work 1 none, .work 1 none, .work 1 none], _,
      .cons (.press _) <| .cons (.call _ rfl) <| .cons (.work (some 0x7A) rfl) <|
        .cons (.work none rfl) <| .cons (.work none rfl) <| .cons (.work none rfl) <| .nil _, rfl,
      ?_⟩
    intro served
    have made := served.made ⟨0, .kbdStringIn (some 1) 0, .line [0x7A]⟩ (List.mem_singleton.mpr rfl)
    cases made

end KbdState
end Warpine.Vio
