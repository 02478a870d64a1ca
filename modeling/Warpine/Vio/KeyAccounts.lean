import Warpine.Vio.Keyboard

/-! What becomes of the keys: which call takes each, and what a call makes of those
that it took. -/
namespace Warpine.Vio
open Warpine.Lib Warpine.Loader

def typedLine (keys : List KbdKeyInfo) : List UInt8 :=
  ((keys.map KbdKeyInfo.ch).takeWhile fun ch => ch ≠ carriageReturn).foldl lineTakes []

/-- The reply of a call against the keys that it took, which are its only input. -/
inductive KbdReply.Made : KbdCall → List KbdKeyInfo → KbdReply → Prop where
  | failed (call : KbdCall) : Made call [] (.failed invalidFunction)
  | key (pKeyInfo wait : Nat) (ki : KbdKeyInfo) :
      Made (.kbdCharIn pKeyInfo wait) [ki] (.keyInfo (ki.record.writtenTo pKeyInfo))
  | noKey (pKeyInfo : Nat) :
      Made (.kbdCharIn pKeyInfo 1) [] (.keyInfo (KbdKeyRecord.none.writtenTo pKeyInfo))
  | line (maxLen : UInt16) (wait : Nat) (keys : List KbdKeyInfo) :
      Made (.kbdStringIn (some maxLen) wait) keys (.line (typedLine keys))
  | noBytes : Made (.dosRead 0) [] .noBytes
  | lineFeed (len : Nat) : Made (.dosRead len) [] .lineFeed
  | byte (len : Nat) {dropped : List KbdKeyInfo} (ki : KbdKeyInfo)
      (backspaces : ∀ key ∈ dropped, key.ch = backspace) :
      Made (.dosRead len) (dropped ++ [ki]) (.byte ki)
  | quits (len : Nat) {dropped : List KbdKeyInfo}
      (backspaces : ∀ key ∈ dropped, key.ch = backspace) :
      Made (.dosRead len) dropped (.failed invalidFunction)

/-- The call waits for a key. -/
def KbdPhase.WantsKey : KbdPhase → Prop
  | .charIn _ _ | .wantsKey => True
  | .stringIn maxLen _ chars => chars.length < maxLen.toNat
  | _ => False

namespace KbdState

/-- No call reads the host's standard input. -/
def FromQueue (s : KbdState) : KbdEvent → Prop
  | .call _ (.kbdStringIn (some maxLen) _) => s.exitRequested = true ∨ maxLen = 0
  | _ => True

/-- A call in progress with the keys that it has taken, where no call reads the
host's standard input. -/
inductive Doing (exit : Bool) : KbdCall → List KbdKeyInfo → KbdPhase → Prop where
  | charIn (pKeyInfo wait : Nat) : Doing exit (.kbdCharIn pKeyInfo wait) [] (.charIn pKeyInfo wait)
  | stringIn (maxLen : UInt16) (wait : Nat) (ends : exit = true ∨ maxLen = 0) :
      Doing exit (.kbdStringIn (some maxLen) wait) [] (.stringIn maxLen wait [])
  | pendingCheck (len : Nat) : Doing exit (.dosRead len) [] .pendingCheck
  | wantsKey (len : Nat) {dropped : List KbdKeyInfo}
      (backspaces : ∀ key ∈ dropped, key.ch = backspace) :
      Doing exit (.dosRead len) dropped .wantsKey
  | hasKey (len : Nat) {dropped : List KbdKeyInfo} (ki : KbdKeyInfo)
      (backspaces : ∀ key ∈ dropped, key.ch = backspace) :
      Doing exit (.dosRead len) (dropped ++ [ki]) (.hasKey ki)
  | answering {call : KbdCall} {keys : List KbdKeyInfo} {reply : KbdReply}
      (made : reply.Made call keys) : Doing exit call keys (.answering reply)

/-- Each call has a number of its own, for as long as it lasts and afterwards. -/
structure Numbered (s : KbdState) : Prop where
  taker : ∀ entry ∈ s.kbdQueue.taken, entry.1 < s.calls
  inCall : ∀ thread number call phase, s.threads thread = .inCall number call phase →
    number < s.calls
  apart : ∀ thread other number call otherCall phase otherPhase,
    s.threads thread = .inCall number call phase →
      s.threads other = .inCall number otherCall otherPhase → thread = other
  answered : ∀ answer ∈ s.answers, answer.number < s.calls
  returned : ∀ thread number call phase, s.threads thread = .inCall number call phase →
    ∀ answer ∈ s.answers, answer.number ≠ number
  once : (s.answers.map KbdAnswer.number).Nodup

/-- Every key that arrived is in the queue or was taken by one call, in the order of
arrival, and the calls make their replies of the keys that they took. -/
structure Accounted (s : KbdState) : Prop where
  numbered : s.Numbered
  conserved : s.kbdQueue.Conserved
  doing : ∀ thread number call phase, s.threads thread = .inCall number call phase →
    Doing s.exitRequested call (s.kbdQueue.takenBy number) phase
  made : ∀ answer ∈ s.answers, answer.reply.Made answer.call (s.kbdQueue.takenBy answer.number)

variable {s next : KbdState} {rs : EncodingRs} {event : KbdEvent} {thread number : Nat}
  {call : KbdCall} {before phase : KbdPhase}

theorem update_inCall {threads : Nat → KbdThread} {value : KbdThread} {other n : Nat}
    {c : KbdCall} {p : KbdPhase}
    (h : Function.update threads thread value other = .inCall n c p) :
    other = thread ∧ value = .inCall n c p ∨ other ≠ thread ∧ threads other = .inCall n c p := by
  by_cases same : other = thread
  · rw [same, Function.update_self] at h
    exact .inl ⟨same, h⟩
  · rw [Function.update_of_ne same] at h
    exact .inr ⟨same, h⟩

section Numbers

theorem numbered_initial (winsize : Option (UInt16 × UInt16)) : (initial winsize).Numbered where
  taker := by intro entry member; cases member
  inCall := by intro thread number call phase inside; cases inside
  apart := by intro thread other number call otherCall phase otherPhase inside; cases inside
  answered := by intro answer member; cases member
  returned := by intro thread number call phase inside; cases inside
  once := List.nodup_nil

/-- A thread goes on inside its call. -/
theorem Numbered.goes (h : s.Numbered) (inside : s.threads thread = .inCall number call before) :
    (s.goes thread number call phase).Numbered where
  taker := h.taker
  inCall := by
    intro other n c p found
    rcases update_inCall found with ⟨_, heq⟩ | ⟨_, old⟩
    · cases heq
      exact h.inCall thread number call before inside
    · exact h.inCall other n c p old
  apart := by
    intro one two n c d p q first second
    rcases update_inCall first with ⟨hone, heq⟩ | ⟨hone, old⟩ <;>
      rcases update_inCall second with ⟨htwo, heq'⟩ | ⟨htwo, old'⟩
    · rw [hone, htwo]
    · cases heq
      exact hone.trans (h.apart thread two _ _ _ _ _ inside old')
    · cases heq'
      exact (h.apart one thread _ _ _ _ _ old inside).trans htwo.symm
    · exact h.apart one two n c d p q old old'
  answered := h.answered
  returned := by
    intro other n c p found
    rcases update_inCall found with ⟨_, heq⟩ | ⟨_, old⟩
    · cases heq
      exact h.returned thread number call before inside
    · exact h.returned other n c p old
  once := h.once

theorem Numbered.takes (h : s.Numbered) (inside : s.threads thread = .inCall number call before) :
    (s.takes number).Numbered where
  taker := by
    intro entry member
    rcases Feed.mem_taken_take member with old | new
    · exact h.taker entry old
    · rw [new]
      exact h.inCall thread number call before inside
  inCall := h.inCall
  apart := h.apart
  answered := h.answered
  returned := h.returned
  once := h.once

/-- A new call gets the next number. -/
theorem Numbered.calling (h : s.Numbered) : (s.calling thread call).Numbered where
  taker := by
    intro entry member
    exact Nat.lt_succ_of_lt (h.taker entry member)
  inCall := by
    intro other n c p found
    rcases update_inCall found with ⟨_, heq⟩ | ⟨_, old⟩
    · cases heq
      exact Nat.lt_succ_self _
    · exact Nat.lt_succ_of_lt (h.inCall other n c p old)
  apart := by
    intro one two n c d p q first second
    rcases update_inCall first with ⟨hone, heq⟩ | ⟨hone, old⟩ <;>
      rcases update_inCall second with ⟨htwo, heq'⟩ | ⟨htwo, old'⟩
    · rw [hone, htwo]
    · cases heq
      exact absurd (h.inCall two _ _ _ old') (Nat.lt_irrefl _)
    · cases heq'
      exact absurd (h.inCall one _ _ _ old) (Nat.lt_irrefl _)
    · exact h.apart one two n c d p q old old'
  answered := by
    intro answer member
    exact Nat.lt_succ_of_lt (h.answered answer member)
  returned := by
    intro other n c p found answer member
    rcases update_inCall found with ⟨_, heq⟩ | ⟨_, old⟩
    · cases heq
      exact Nat.ne_of_lt (h.answered answer member)
    · exact h.returned other n c p old answer member
  once := h.once

theorem Numbered.returns (h : s.Numbered) (inside : s.threads thread = .inCall number call before)
    (reply : KbdReply) : (s.returns thread number call reply).Numbered := by
  have running {other n : Nat} {c : KbdCall} {p : KbdPhase}
      (found : (s.returns thread number call reply).threads other = .inCall n c p) :
      other ≠ thread ∧ s.threads other = .inCall n c p := by
    rcases update_inCall found with ⟨_, heq⟩ | old
    · cases heq
    · exact old
  constructor
  case taker => exact h.taker
  case inCall =>
    intro other n c p found
    exact h.inCall other n c p (running found).2
  case apart =>
    intro one two n c d p q first second
    exact h.apart one two n c d p q (running first).2 (running second).2
  case answered =>
    intro answer member
    rcases List.mem_append.mp member with old | new
    · exact h.answered answer old
    · rw [List.mem_singleton.mp new]
      exact h.inCall thread number call before inside
  case returned =>
    intro other n c p found answer member
    obtain ⟨hother, old⟩ := running found
    rcases List.mem_append.mp member with earlier | new
    · exact h.returned other n c p old answer earlier
    · rw [List.mem_singleton.mp new]
      intro same
      have same : number = n := same
      rw [← same] at old
      exact hother (h.apart other thread _ _ _ _ _ old inside)
  case once =>
    change ((s.answers ++ [(⟨number, call, reply⟩ : KbdAnswer)]).map KbdAnswer.number).Nodup
    rw [List.map_append, List.nodup_append]
    refine ⟨h.once, by simp, ?_⟩
    intro one earlier other last
    obtain ⟨answer, member, rfl⟩ := List.mem_map.mp earlier
    rw [List.mem_singleton.mp last]
    exact h.returned thread number call before inside answer member

end Numbers

theorem Doing.quit {exit : Bool} {keys : List KbdKeyInfo} (h : Doing exit call keys phase) :
    Doing true call keys phase := by
  cases h with
  | charIn pKeyInfo wait => exact .charIn pKeyInfo wait
  | stringIn maxLen wait ends => exact .stringIn maxLen wait (.inl rfl)
  | pendingCheck len => exact .pendingCheck len
  | wantsKey len backspaces => exact .wantsKey len backspaces
  | hasKey len ki backspaces => exact .hasKey len ki backspaces
  | answering made => exact .answering made

theorem Doing.made {exit : Bool} {keys : List KbdKeyInfo} {reply : KbdReply}
    (h : Doing exit call keys (.answering reply)) : reply.Made call keys := by
  cases h with
  | answering made => exact made

theorem accounted_initial (winsize : Option (UInt16 × UInt16)) : (initial winsize).Accounted where
  numbered := numbered_initial winsize
  conserved := Feed.conserved_empty
  doing := by intro thread number call phase inside; cases inside
  made := by intro answer member; cases member

/-- The accounts do not depend on the console. -/
theorem Accounted.setSys (h : s.Accounted) (sys : System) : Accounted { s with sys := sys } where
  numbered := ⟨h.numbered.taker, h.numbered.inCall, h.numbered.apart, h.numbered.answered,
    h.numbered.returned, h.numbered.once⟩
  conserved := h.conserved
  doing := h.doing
  made := h.made

theorem Accounted.press (h : s.Accounted) (keys : List KbdKeyInfo) :
    Accounted { s with kbdQueue := s.kbdQueue.push keys } where
  numbered := ⟨h.numbered.taker, h.numbered.inCall, h.numbered.apart, h.numbered.answered,
    h.numbered.returned, h.numbered.once⟩
  conserved := h.conserved.push keys
  doing := h.doing
  made := h.made

theorem Accounted.quit (h : s.Accounted) : Accounted { s with exitRequested := true } where
  numbered := ⟨h.numbered.taker, h.numbered.inCall, h.numbered.apart, h.numbered.answered,
    h.numbered.returned, h.numbered.once⟩
  conserved := h.conserved
  doing := by
    intro thread number call phase inside
    exact (h.doing thread number call phase inside).quit
  made := h.made

theorem Accounted.goes (h : s.Accounted) (inside : s.threads thread = .inCall number call before)
    (doing : Doing s.exitRequested call (s.kbdQueue.takenBy number) phase) :
    (s.goes thread number call phase).Accounted where
  numbered := h.numbered.goes inside
  conserved := h.conserved
  doing := by
    intro other n c p found
    rcases update_inCall found with ⟨_, heq⟩ | ⟨_, old⟩
    · cases heq
      exact doing
    · exact h.doing other n c p old
  made := h.made

theorem Accounted.goesWith (h : s.Accounted) (console : VioManager)
    (inside : s.threads thread = .inCall number call before)
    (doing : Doing s.exitRequested call (s.kbdQueue.takenBy number) phase) :
    ((s.setConsole console).goes thread number call phase).Accounted :=
  (h.setSys { s.sys with console := console }).goes inside doing

/-- The call gets the front key; what other calls took stays the same. -/
theorem Accounted.takes (h : s.Accounted) {ki : KbdKeyInfo} {rest : List KbdKeyInfo}
    (inside : s.threads thread = .inCall number call before)
    (front : s.kbdQueue.queue = ki :: rest)
    (doing : Doing s.exitRequested call (s.kbdQueue.takenBy number ++ [ki]) phase) :
    ((s.takes number).goes thread number call phase).Accounted where
  numbered := (h.numbered.takes inside).goes inside
  conserved := h.conserved.take number
  doing := by
    intro other n c p found
    rcases update_inCall found with ⟨_, heq⟩ | ⟨hother, old⟩
    · cases heq
      change Doing s.exitRequested call ((s.kbdQueue.take number).takenBy number) phase
      rw [Feed.takenBy_take_self front]
      exact doing
    · have hn : n ≠ number := by
        intro same
        rw [same] at old
        exact hother (h.numbered.apart other thread _ _ _ _ _ old inside)
      change Doing s.exitRequested c ((s.kbdQueue.take number).takenBy n) p
      rw [Feed.takenBy_take_ne hn]
      exact h.doing other n c p old
  made := by
    intro answer member
    change answer.reply.Made answer.call ((s.kbdQueue.take number).takenBy answer.number)
    rw [Feed.takenBy_take_ne (h.numbered.returned thread number call before inside answer member)]
    exact h.made answer member

/-- A call starts with no key taken. -/
theorem Accounted.calling (h : s.Accounted)
    (doing : Doing s.exitRequested call [] call.start) : (s.calling thread call).Accounted where
  numbered := h.numbered.calling
  conserved := h.conserved
  doing := by
    intro other n c p found
    rcases update_inCall found with ⟨_, heq⟩ | ⟨_, old⟩
    · cases heq
      change Doing s.exitRequested call (s.kbdQueue.takenBy s.calls) call.start
      rw [Feed.takenBy_eq_nil fun entry member => Nat.ne_of_lt (h.numbered.taker entry member)]
      exact doing
    · exact h.doing other n c p old
  made := h.made

theorem Accounted.returns (h : s.Accounted) {reply : KbdReply}
    (inside : s.threads thread = .inCall number call (.answering reply)) :
    (s.returns thread number call reply).Accounted where
  numbered := h.numbered.returns inside reply
  conserved := h.conserved
  doing := by
    intro other n c p found
    rcases update_inCall found with ⟨_, heq⟩ | ⟨_, old⟩
    · cases heq
    · exact h.doing other n c p old
  made := by
    intro answer member
    rcases List.mem_append.mp member with old | new
    · exact h.made answer old
    · rw [List.mem_singleton.mp new]
      exact (h.doing thread number call _ inside).made

/-- A call that is made while it may not read the host's standard input. -/
theorem doing_start (fromQueue : s.FromQueue (.call thread call)) :
    Doing s.exitRequested call [] call.start := by
  cases call with
  | kbdCharIn pKeyInfo wait => exact .charIn pKeyInfo wait
  | kbdStringIn maxLen wait =>
    cases maxLen with
    | none => exact .answering (.failed _)
    | some maxLen => exact .stringIn maxLen wait fromQueue
  | dosRead len =>
    simp only [KbdCall.start]
    split_ifs with hlen
    · rw [hlen]
      exact .answering .noBytes
    · exact .pendingCheck len

/-- Every step of a call keeps the accounts. -/
theorem Accounted.work (h : s.Accounted) (inside : s.threads thread = .inCall number call phase)
    (host : Option UInt8) : (s.work rs thread number call host phase).Accounted := by
  have doing := h.doing thread number call phase inside
  revert doing
  generalize hkeys : s.kbdQueue.takenBy number = keys
  intro doing
  cases doing with
  | charIn pKeyInfo wait =>
    simp only [KbdState.work, kbdCharIn]
    split
    · apply h.goes inside
      rw [hkeys]
      exact .answering (.failed _)
    · split
      · rename_i ki rest front
        apply h.takes inside front
        rw [hkeys]
        exact .answering (.key pKeyInfo wait ki)
      · split
        · rename_i hwait
          apply h.goes inside
          rw [hkeys, hwait]
          exact .answering (.noKey pKeyInfo)
        · exact h
  | stringIn maxLen wait ends =>
    have closed : s.exitRequested = true ∨ maxLen.toNat ≤ ([] : List UInt8).length := by
      rcases ends with exits | zero
      · exact .inl exits
      · rw [zero]
        exact .inr le_rfl
    simp only [KbdState.work, kbdStringIn, if_pos closed]
    apply h.goes inside
    rw [hkeys]
    exact .answering (.line maxLen wait [])
  | pendingCheck len =>
    simp only [KbdState.work, takePendingLf]
    split_ifs with pending
    · apply h.goesWith _ inside
      rw [hkeys]
      exact .answering (.lineFeed len)
    · apply h.goes inside
      rw [hkeys]
      exact .wantsKey len (by simp)
  | wantsKey len backspaces =>
    simp only [KbdState.work, takeKey]
    split
    · apply h.goes inside
      rw [hkeys]
      exact .answering (.quits len backspaces)
    · split
      · rename_i ki rest front
        apply h.takes inside front
        rw [hkeys]
        exact .hasKey len ki backspaces
      · exact h
  | @hasKey len dropped ki backspaces =>
    have answers (console : VioManager) : ((s.setConsole console).goes thread number (.dosRead len)
        (.answering (.byte ki))).Accounted := by
      apply h.goesWith _ inside
      rw [hkeys]
      exact .answering (.byte len ki backspaces)
    simp only [KbdState.work, typeKey]
    split_ifs with enter back some_typed printable
    · exact answers _
    · exact answers _
    · apply h.goes inside
      rw [hkeys]
      apply Doing.wantsKey len
      intro key member
      rcases List.mem_append.mp member with old | new
      · exact backspaces key old
      · rw [List.mem_singleton.mp new]
        exact back
    · exact answers _
    · exact answers _
  | answering made => exact h.returns inside

theorem Accounted.step (h : s.Accounted) (step : KbdStep rs s event next)
    (fromQueue : s.FromQueue event) : next.Accounted := by
  cases step with
  | press keys => exact h.press keys
  | call call running => exact h.calling (doing_start fromQueue)
  | work host inside => exact h.work inside host
  | screen call => exact h.setSys _
  | quit => exact h.quit

/-- In every step, whatever calls are made, the queue is only pushed to and taken from. -/
theorem work_kbdQueue (rs : EncodingRs) (host : Option UInt8) :
    (s.work rs thread number call host phase).kbdQueue = s.kbdQueue ∨
      (s.work rs thread number call host phase).kbdQueue = s.kbdQueue.take number := by
  cases phase with
  | charIn pKeyInfo wait =>
    simp only [KbdState.work, kbdCharIn]
    split
    · exact .inl rfl
    · split
      · exact .inr rfl
      · split <;> exact .inl rfl
  | stringIn maxLen wait chars =>
    simp only [KbdState.work, kbdStringIn]
    split
    · exact .inl rfl
    · split
      · exact .inl rfl
      · split <;> exact .inl rfl
  | echoing maxLen wait chars b =>
    simp only [KbdState.work, kbdStringEcho]
    split_ifs <;> exact .inl rfl
  | pendingCheck =>
    simp only [KbdState.work, takePendingLf]
    split_ifs <;> exact .inl rfl
  | wantsKey =>
    simp only [KbdState.work, takeKey]
    split
    · exact .inl rfl
    · split
      · exact .inr rfl
      · exact .inl rfl
  | hasKey ki =>
    simp only [KbdState.work, typeKey]
    split_ifs <;> exact .inl rfl
  | answering reply => exact .inl rfl

theorem conserved_step (h : s.kbdQueue.Conserved) (step : KbdStep rs s event next) :
    next.kbdQueue.Conserved := by
  cases step with
  | press keys => exact h.push keys
  | call call running => exact h
  | work host inside =>
    rcases work_kbdQueue rs host with same | taken
    · rw [same]
      exact h
    · rw [taken]
      exact h.take _
  | screen call => exact h
  | quit => exact h

/-- No key is lost, doubled or overtaken, whatever calls are made in whatever order. -/
theorem conserved_run {winsize : Option (UInt16 × UInt16)} {events : List KbdEvent}
    (run : Run (KbdStep rs) (initial winsize) events s) : s.kbdQueue.Conserved :=
  run.invariant (fun s => s.kbdQueue.Conserved) (fun _ _ _ => conserved_step) Feed.conserved_empty

/-- A call that waits for a key takes the front one in its next step. -/
theorem Accounted.serves (h : s.Accounted) (inside : s.threads thread = .inCall number call phase)
    (wants : phase.WantsKey) (runs : s.exitRequested = false) (host : Option UInt8) :
    (s.work rs thread number call host phase).kbdQueue = s.kbdQueue.take number := by
  have running : ¬ s.exitRequested = true := by
    rw [runs]
    exact Bool.false_ne_true
  have empty (front : s.kbdQueue.queue = []) : s.kbdQueue = s.kbdQueue.take number := by
    simp only [Feed.take, front]
  have doing := h.doing thread number call phase inside
  generalize s.kbdQueue.takenBy number = keys at doing
  cases doing with
  | charIn pKeyInfo wait =>
    simp only [KbdState.work, kbdCharIn, if_neg running]
    split
    · rfl
    · rename_i front
      split <;> exact empty front
  | stringIn maxLen wait ends =>
    rcases ends with exits | zero
    · exact absurd exits running
    · rw [zero] at wants
      exact absurd wants (Nat.not_lt_zero _)
  | wantsKey len backspaces =>
    simp only [KbdState.work, takeKey, if_neg running]
    split
    · rfl
    · rename_i front
      exact empty front
  | _ => exact wants.elim

end KbdState
end Warpine.Vio
