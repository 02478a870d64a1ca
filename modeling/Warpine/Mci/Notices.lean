import Warpine.Mci.PlaybackRun

/-! What the windows are told of the plays they have started, over any interleaving. -/
namespace Warpine.Mci
open Warpine.Lib Warpine.Loader

namespace MciState

variable {s t next : MciState} {thread number : Nat} {event : Event} {events : List Event}

/-- Where a watcher goes without a word. -/
inductive Quiet (s : MciState) (watcher : Watcher) : WatchPhase → Prop where
  | superseded (phase : watcher.phase = .polling) (raised : watcher.play.number ∈ s.cancelled) :
      Quiet s watcher .superseded
  | drained (phase : watcher.phase = .polling) : Quiet s watcher .drained
  | cancelled (phase : watcher.phase = .drained) (raised : watcher.play.number ∈ s.cancelled) :
      Quiet s watcher .ended
  | cleaning (phase : watcher.phase = .drained) : Quiet s watcher .cleaning
  | successful (phase : watcher.phase = .cleaning) : Quiet s watcher .successful

/-- With what word a watcher ends. -/
inductive Word (watcher : Watcher) : UInt32 → Prop where
  | superseded (phase : watcher.phase = .superseded) : Word watcher mciNotifySuperseded
  | successful (phase : watcher.phase = .successful) : Word watcher mciNotifySuccessful

def Notice.of (play : Play) (code : UInt32) : Notice :=
  ⟨play.number, play.hwndCallback, code, play.deviceId⟩

/-- What an event does to the watchers and to what was posted. -/
inductive Telling (s : MciState) (event : Event) (next : MciState) : Prop where
  | keeps (watchers : next.watchers = s.watchers) (posted : next.posted = s.posted)
  | tells (thread : Nat) (answer : Bool) (play : Play) (asked : event = .advance thread answer)
      (here : s.calls thread = some (.notify play)) (watchers : next.watchers = s.watchers)
      (posted : next.posted = s.posted ++ [Notice.of play mciNotifySuccessful])
  | hands (thread : Nat) (answer : Bool) (play : Play) (audioDev : Nat)
      (asked : event = .advance thread answer) (here : s.calls thread = some (.arm play audioDev))
      (watchers : next.watchers = s.watchers.insert play.number ⟨play, audioDev, .polling⟩)
      (posted : next.posted = s.posted)
  | goes (number : Nat) (watcher : Watcher) (phase : WatchPhase)
      (here : s.watchers number = some watcher) (quiet : Quiet s watcher phase)
      (watchers : next.watchers = s.watchers.insert watcher.play.number { watcher with phase })
      (posted : next.posted = s.posted)
  | ends (number : Nat) (watcher : Watcher) (code : UInt32)
      (here : s.watchers number = some watcher) (word : Word watcher code)
      (watchers : next.watchers =
        s.watchers.insert watcher.play.number { watcher with phase := .ended })
      (posted : next.posted = s.posted ++ [Notice.of watcher.play code])

theorem Telling.of_eq (h : Telling s event t) (watchers : next.watchers = t.watchers)
    (posted : next.posted = t.posted) : Telling s event next := by
  cases h with
  | keeps hwatchers hposted => exact .keeps (watchers.trans hwatchers) (posted.trans hposted)
  | tells thread answer play asked here hwatchers hposted =>
    exact .tells thread answer play asked here (watchers.trans hwatchers) (posted.trans hposted)
  | hands thread answer play audioDev asked here hwatchers hposted =>
    exact .hands thread answer play audioDev asked here (watchers.trans hwatchers)
      (posted.trans hposted)
  | goes number watcher phase here quiet hwatchers hposted =>
    exact .goes number watcher phase here quiet (watchers.trans hwatchers) (posted.trans hposted)
  | ends number watcher code here word hwatchers hposted =>
    exact .ends number watcher code here word (watchers.trans hwatchers) (posted.trans hposted)

theorem Telling.of_frame (frame : Frame s next) : Telling s event next :=
  .keeps frame.watchers frame.posted

theorem telling_watch {answer : Bool} {watcher : Watcher}
    (here : s.watchers number = some watcher) : Telling s event (s.watch watcher answer) := by
  unfold watch
  split
  · rename_i polling
    split
    · rename_i raised
      exact .goes number watcher _ here (.superseded polling raised) rfl rfl
    · split
      · exact .goes number watcher _ here (.drained polling) rfl rfl
      · exact .keeps rfl rfl
  · rename_i superseded
    exact .ends number watcher _ here (.superseded superseded) rfl rfl
  · rename_i drained
    split
    · rename_i raised
      exact .goes number watcher _ here (.cancelled drained raised) rfl rfl
    · exact .goes number watcher _ here (.cleaning drained) rfl rfl
  · rename_i cleaning
    have frame := frame_cleanUp (s := s) watcher.play.key
    refine .goes number watcher _ here (.successful cleaning) ?_ frame.posted
    rw [← frame.watchers]
    rfl
  · rename_i successful
    exact .ends number watcher _ here (.successful successful) rfl rfl
  · exact .keeps rfl rfl

theorem telling_exec (h : s.exec event = some next) : Telling s event next := by
  obtain ⟨core, made, same⟩ := exec_core h
  rw [same]
  have telling : Telling s event core := by
    cases made with
    | mciOpenInternal thread loaded => exact .of_frame (frame_mciOpenInternal loaded)
    | mciClose thread deviceId => exact .of_frame (frame_mciClose deviceId)
    | mciStop deviceId => exact .of_frame (frame_mciStop deviceId)
    | mciSeekTo sought => exact .of_frame (frame_mciSeekTo sought)
    | mciSet deviceId level => exact .of_frame (frame_mciSet deviceId level)
    | supersede thread play clip here => exact .of_frame (frame_supersede play.key)
    | update thread play audioDev here => exact .of_frame (frame_update play audioDev)
    | notify thread answer play asked here => exact .tells thread answer play asked here rfl rfl
    | arm thread answer play audioDev asked here =>
      refine .hands thread answer play audioDev asked here ?_ ?_ <;>
      · unfold arm
        split <;> rfl
    | watch number watcher answer asked here => exact telling_watch here
    | _ => exact .keeps rfl rfl
  exact telling.of_eq rfl rfl

/-- The plays are numbered upwards, and a flag that is raised stays so. -/
theorem growing_exec (h : s.exec event = some next) :
    s.nextPlay ≤ next.nextPlay ∧ s.cancelled ⊆ next.cancelled := by
  obtain ⟨core, made, same⟩ := exec_core h
  rw [same]
  change s.nextPlay ≤ core.nextPlay ∧ s.cancelled ⊆ core.cancelled
  have framed {t : MciState} (frame : Frame s t) :
      s.nextPlay ≤ t.nextPlay ∧ s.cancelled ⊆ t.cancelled :=
    ⟨Nat.le_of_eq frame.nextPlay.symm, frame.cancelled⟩
  have still := framed (.refl s)
  cases made with
  | mciOpenInternal thread loaded => exact framed (frame_mciOpenInternal loaded)
  | mciClose thread deviceId => exact framed (frame_mciClose deviceId)
  | mciStop deviceId => exact framed (frame_mciStop deviceId)
  | mciSeekTo sought => exact framed (frame_mciSeekTo sought)
  | mciSet deviceId level => exact framed (frame_mciSet deviceId level)
  | numbers thread deviceId param1 hwndCallback => exact ⟨Nat.le_succ _, still.2⟩
  | supersede thread play clip here => exact framed (frame_supersede play.key)
  | update thread play audioDev here => exact framed (frame_update play audioDev)
  | arm thread answer play audioDev asked here =>
    unfold arm
    split <;> exact still
  | watch number watcher answer asked here =>
    unfold watch
    split
    · split
      · exact still
      · split <;> exact still
    · exact still
    · split <;> exact still
    · have frame := framed (frame_cleanUp watcher.play.key)
      exact frame
    · exact still
    · exact still
  | _ => exact still

theorem nextPlay_mciPlay {deviceId param1 hwndCallback : UInt32}
    (h : s.exec (.mciPlay thread deviceId param1 hwndCallback) = some next) :
    next.nextPlay = s.nextPlay + 1 := by
  obtain ⟨-, h⟩ := Option.ite_none_right_eq_some.mp h
  cases h
  unfold startPlay
  simp only
  split
  · rfl
  · split <;> rfl

/-- A play that is handed on has no call any more. -/
theorem calls_over {answer : Bool} {call : Call} (here : s.calls thread = some call)
    (announces : call.announces) (h : s.exec (.advance thread answer) = some next) :
    next.calls thread = none := by
  obtain ⟨found, there, rfl⟩ := Option.map_eq_some_iff.mp h
  rw [here] at there
  cases there
  cases call with
  | notify play => exact Table.erase_self _ _
  | arm play audioDev => exact Table.erase_self _ _
  | _ => cases announces

/-- Each play is on its way in one call, or watched, or over, and is told of once at most. -/
structure Accounted (s : MciState) : Prop where
  older : ∀ thread call, s.calls thread = some call → call.play.number < s.nextPlay
  once : ∀ first second one two, s.calls first = some one → s.calls second = some two →
    one.play.number = two.play.number → first = second
  unwatched : ∀ thread call, s.calls thread = some call → s.watchers call.play.number = none
  untold : ∀ thread call, s.calls thread = some call →
    ∀ notice ∈ s.posted, notice.play ≠ call.play.number
  announces : ∀ thread call, s.calls thread = some call → call.announces → call.play.notifies
  named : ∀ number watcher, s.watchers number = some watcher →
    watcher.play.number = number ∧ number < s.nextPlay ∧ watcher.play.notifies
  pending : ∀ number watcher, s.watchers number = some watcher → watcher.phase ≠ .ended →
    ∀ notice ∈ s.posted, notice.play ≠ number
  posted_older : ∀ notice ∈ s.posted, notice.play < s.nextPlay
  nodup : (s.posted.map Notice.play).Nodup

namespace Accounted

variable (accounted : s.Accounted)
include accounted

/-- The number of a call is that of no watcher and of no notice. -/
theorem apart {later : Call} (h : s.exec event = some next)
    (found : next.calls thread = some later) :
    s.watchers later.play.number = none ∧
      (∀ notice ∈ s.posted, notice.play ≠ later.play.number) ∧
      ∀ other answer call, event = .advance other answer → s.calls other = some call →
        call.announces → call.play.number ≠ later.play.number := by
  rcases calls_exec h found with
    ⟨earlier, here, follows⟩ | ⟨⟨_, _, _, asked⟩, dev, known, nonzero, -, number⟩
  · rw [follows.play]
    refine ⟨accounted.unwatched thread earlier here, accounted.untold thread earlier here, ?_⟩
    intro other answer call advances there announces same
    subst advances
    have gone := calls_over there announces h
    rw [accounted.once other thread call earlier there here same, found] at gone
    cases gone
  · rw [number]
    refine ⟨?_, fun notice member => Nat.ne_of_lt (accounted.posted_older notice member), ?_⟩
    · cases there : s.watchers s.nextPlay with
      | none => rfl
      | some watcher => exact absurd (accounted.named _ _ there).2.1 (Nat.lt_irrefl _)
    · intro other answer call advances
      rw [asked] at advances
      cases advances

theorem older_exec (h : s.exec event = some next) {later : Call}
    (found : next.calls thread = some later) : later.play.number < next.nextPlay := by
  rcases calls_exec h found with
    ⟨earlier, here, follows⟩ | ⟨⟨_, _, _, asked⟩, dev, known, nonzero, -, number⟩
  · rw [follows.play]
    exact Nat.lt_of_lt_of_le (accounted.older thread earlier here) (growing_exec h).1
  · subst asked
    rw [number, nextPlay_mciPlay h]
    exact Nat.lt_succ_self _

theorem once_exec (h : s.exec event = some next) {first second : Nat} {one two : Call}
    (hone : next.calls first = some one) (htwo : next.calls second = some two)
    (same : one.play.number = two.play.number) : first = second := by
  rcases calls_exec h hone with
    ⟨before, here, follows⟩ | ⟨⟨_, _, _, asked⟩, _, _, _, _, number⟩ <;>
    rcases calls_exec h htwo with
      ⟨earlier, there, comes⟩ | ⟨⟨_, _, _, again⟩, _, _, _, _, other⟩
  · rw [follows.play, comes.play] at same
    exact accounted.once first second before earlier here there same
  · rw [follows.play, other] at same
    exact absurd (accounted.older first before here) (same ▸ Nat.lt_irrefl _)
  · rw [comes.play, number] at same
    exact absurd (accounted.older second earlier there) (same ▸ Nat.lt_irrefl _)
  · rw [asked] at again
    cases again
    rfl

theorem announces_exec (h : s.exec event = some next) {later : Call}
    (found : next.calls thread = some later) (announces : later.announces) :
    later.play.notifies := by
  rcases calls_exec h found with ⟨earlier, here, follows⟩ | ⟨-, _, _, _, fresh, -⟩
  · rcases follows.announces announces with before | notifies
    · exact follows.play ▸ accounted.announces thread earlier here before
    · exact notifies
  · rw [fresh] at announces
    cases announces

theorem unwatched_exec (h : s.exec event = some next) {later : Call}
    (found : next.calls thread = some later) : next.watchers later.play.number = none := by
  obtain ⟨unwatched, -, apart⟩ := accounted.apart h found
  cases telling_exec h with
  | keeps watchers posted => exact watchers ▸ unwatched
  | tells other answer play asked here watchers posted => exact watchers ▸ unwatched
  | hands other answer play audioDev asked here watchers posted =>
    have differ : play.number ≠ later.play.number := apart other answer _ asked here trivial
    rw [watchers, Table.insert_ne _ _ differ.symm]
    exact unwatched
  | goes number watcher phase here quiet watchers posted
  | ends number watcher code here word watchers posted =>
    rw [watchers, (accounted.named number watcher here).1]
    have differ : later.play.number ≠ number := by
      intro same
      rw [same, here] at unwatched
      cases unwatched
    rw [Table.insert_ne _ _ differ]
    exact unwatched

theorem untold_exec (h : s.exec event = some next) {later : Call}
    (found : next.calls thread = some later) {notice : Notice} (member : notice ∈ next.posted) :
    notice.play ≠ later.play.number := by
  obtain ⟨unwatched, untold, apart⟩ := accounted.apart h found
  cases telling_exec h with
  | keeps watchers posted => exact untold notice (posted ▸ member)
  | tells other answer play asked here watchers posted =>
    rcases List.mem_append.mp (posted ▸ member) with old | new
    · exact untold notice old
    · rw [List.mem_singleton.mp new]
      exact apart other answer _ asked here trivial
  | hands other answer play audioDev asked here watchers posted =>
    exact untold notice (posted ▸ member)
  | goes number watcher phase here quiet watchers posted =>
    exact untold notice (posted ▸ member)
  | ends number watcher code here word watchers posted =>
    rcases List.mem_append.mp (posted ▸ member) with old | new
    · exact untold notice old
    · rw [List.mem_singleton.mp new]
      intro same
      have name := (accounted.named number watcher here).1
      have same : number = later.play.number := name.symm.trans same
      rw [← same, here] at unwatched
      cases unwatched

/-- A notice is new, or it was there before. -/
theorem told (h : s.exec event = some next) :
    next.posted = s.posted ∨ ∃ play code, next.posted = s.posted ++ [Notice.of play code] ∧
      play.notifies ∧ play.number < s.nextPlay ∧
        ∀ notice ∈ s.posted, notice.play ≠ play.number := by
  cases telling_exec h with
  | keeps watchers posted => exact .inl posted
  | tells other answer play asked here watchers posted =>
    exact .inr ⟨play, _, posted, accounted.announces other _ here trivial,
      accounted.older other _ here, accounted.untold other _ here⟩
  | hands other answer play audioDev asked here watchers posted => exact .inl posted
  | goes number watcher phase here quiet watchers posted => exact .inl posted
  | ends number watcher code here word watchers posted =>
    obtain ⟨name, older, notifies⟩ := accounted.named number watcher here
    refine .inr ⟨watcher.play, code, posted, notifies, name ▸ older, ?_⟩
    rw [name]
    refine accounted.pending number watcher here ?_
    cases word with
    | superseded phase => simp [phase]
    | successful phase => simp [phase]

theorem posted_exec (h : s.exec event = some next) :
    (∀ notice ∈ next.posted, notice.play < next.nextPlay) ∧
      (next.posted.map Notice.play).Nodup := by
  have mono := (growing_exec h).1
  rcases accounted.told h with posted | ⟨play, code, posted, -, older, fresh⟩
  · rw [posted]
    exact ⟨fun notice member => Nat.lt_of_lt_of_le (accounted.posted_older notice member) mono,
      accounted.nodup⟩
  · rw [posted]
    refine ⟨?_, ?_⟩
    · intro notice member
      rcases List.mem_append.mp member with old | new
      · exact Nat.lt_of_lt_of_le (accounted.posted_older notice old) mono
      · rw [List.mem_singleton.mp new]
        exact Nat.lt_of_lt_of_le older mono
    · rw [List.map_append, List.nodup_append]
      refine ⟨accounted.nodup, List.nodup_singleton _, ?_⟩
      intro one hone two htwo same
      obtain ⟨notice, member, rfl⟩ := List.mem_map.mp hone
      rw [List.map_singleton, List.mem_singleton] at htwo
      exact fresh notice member (same.trans htwo)

theorem named_exec (h : s.exec event = some next) {watcher : Watcher}
    (found : next.watchers number = some watcher) :
    watcher.play.number = number ∧ number < next.nextPlay ∧ watcher.play.notifies := by
  have old : s.watchers number = some watcher →
      watcher.play.number = number ∧ number < next.nextPlay ∧ watcher.play.notifies := by
    intro here
    obtain ⟨name, older, notifies⟩ := accounted.named number watcher here
    exact ⟨name, Nat.lt_of_lt_of_le older (growing_exec h).1, notifies⟩
  cases telling_exec h with
  | keeps watchers posted => exact old (watchers ▸ found)
  | tells other answer play asked here watchers posted => exact old (watchers ▸ found)
  | hands other answer play audioDev asked here watchers posted =>
    rw [watchers] at found
    rcases Table.insert_eq_some.mp found with ⟨rfl, rfl⟩ | ⟨-, here⟩
    · exact ⟨rfl, Nat.lt_of_lt_of_le (accounted.older other _ here) (growing_exec h).1,
        accounted.announces other _ here trivial⟩
    · exact old here
  | goes first before phase here quiet watchers posted
  | ends first before code here word watchers posted =>
    obtain ⟨name, older, notifies⟩ := accounted.named first before here
    rw [watchers, name] at found
    rcases Table.insert_eq_some.mp found with ⟨rfl, rfl⟩ | ⟨-, here⟩
    · exact ⟨name, Nat.lt_of_lt_of_le older (growing_exec h).1, notifies⟩
    · exact old here

theorem pending_exec (h : s.exec event = some next) {watcher : Watcher}
    (found : next.watchers number = some watcher) (unfinished : watcher.phase ≠ .ended)
    {notice : Notice} (member : notice ∈ next.posted) : notice.play ≠ number := by
  cases telling_exec h with
  | keeps watchers posted =>
    exact accounted.pending number watcher (watchers ▸ found) unfinished notice
      (posted ▸ member)
  | tells other answer play asked here watchers posted =>
    rw [watchers] at found
    rcases List.mem_append.mp (posted ▸ member) with old | new
    · exact accounted.pending number watcher found unfinished notice old
    · rw [List.mem_singleton.mp new]
      intro same
      have unwatched := accounted.unwatched other _ here
      have same : play.number = number := same
      change s.watchers play.number = none at unwatched
      rw [same, found] at unwatched
      cases unwatched
  | hands other answer play audioDev asked here watchers posted =>
    rw [watchers] at found
    rcases Table.insert_eq_some.mp found with ⟨rfl, rfl⟩ | ⟨-, there⟩
    · exact accounted.untold other _ here notice (posted ▸ member)
    · exact accounted.pending number watcher there unfinished notice (posted ▸ member)
  | goes first before phase here quiet watchers posted =>
    rw [watchers, (accounted.named first before here).1] at found
    rcases Table.insert_eq_some.mp found with ⟨rfl, rfl⟩ | ⟨-, there⟩
    · refine accounted.pending number before here ?_ notice (posted ▸ member)
      cases quiet <;> simp [*]
    · exact accounted.pending number watcher there unfinished notice (posted ▸ member)
  | ends first before code here word watchers posted =>
    have name := (accounted.named first before here).1
    rw [watchers, name] at found
    rcases Table.insert_eq_some.mp found with ⟨rfl, rfl⟩ | ⟨differ, there⟩
    · exact absurd rfl unfinished
    · rcases List.mem_append.mp (posted ▸ member) with old | new
      · exact accounted.pending number watcher there unfinished notice old
      · rw [List.mem_singleton.mp new]
        intro same
        exact differ (same.symm.trans name)

theorem exec (h : s.exec event = some next) : next.Accounted where
  older _ _ := accounted.older_exec h
  once _ _ _ _ := accounted.once_exec h
  unwatched _ _ := accounted.unwatched_exec h
  untold _ _ found _ := accounted.untold_exec h found
  announces _ _ := accounted.announces_exec h
  named _ _ := accounted.named_exec h
  pending _ _ found unfinished _ := accounted.pending_exec h found unfinished
  posted_older := (accounted.posted_exec h).1
  nodup := (accounted.posted_exec h).2

end Accounted

theorem accounted_initial : initial.Accounted where
  older _ _ h := by cases h
  once _ _ _ _ h := by cases h
  unwatched _ _ h := by cases h
  untold _ _ h := by cases h
  announces _ _ h := by cases h
  named _ _ h := by cases h
  pending _ _ h := by cases h
  posted_older _ h := by cases h
  nodup := List.nodup_nil

/-- What a notice says is so. -/
structure Truthful (s : MciState) : Prop where
  windows : ∀ notice ∈ s.posted, notice.hwnd ≠ 0
  words : ∀ notice ∈ s.posted, notice.code = mciNotifySuccessful ∨
    notice.code = mciNotifySuperseded ∧ notice.play ∈ s.cancelled
  superseded : ∀ number watcher, s.watchers number = some watcher →
    watcher.phase = .superseded → number ∈ s.cancelled
  ended : ∀ number watcher, s.watchers number = some watcher → watcher.phase = .ended →
    number ∈ s.cancelled ∨
      ∃ notice ∈ s.posted, notice.play = number ∧ notice.code = mciNotifySuccessful

theorem hwnd_of_notifies {play : Play} (notifies : play.notifies) : play.hwndCallback ≠ 0 := by
  have both := Bool.and_eq_true_iff.mp notifies
  simpa using both.2

theorem Truthful.exec (truthful : s.Truthful) (accounted : s.Accounted)
    (h : s.exec event = some next) : next.Truthful where
  windows notice member := by
    rcases accounted.told h with posted | ⟨play, code, posted, notifies, -⟩
    · exact truthful.windows notice (posted ▸ member)
    · rcases List.mem_append.mp (posted ▸ member) with old | new
      · exact truthful.windows notice old
      · rw [List.mem_singleton.mp new]
        exact hwnd_of_notifies notifies
  words notice member := by
    have old : notice ∈ s.posted → notice.code = mciNotifySuccessful ∨
        notice.code = mciNotifySuperseded ∧ notice.play ∈ next.cancelled := fun member =>
      (truthful.words notice member).imp_right fun both => ⟨both.1, (growing_exec h).2 both.2⟩
    cases telling_exec h with
    | keeps watchers posted => exact old (posted ▸ member)
    | tells other answer play asked here watchers posted =>
      rcases List.mem_append.mp (posted ▸ member) with before | new
      · exact old before
      · exact .inl (List.mem_singleton.mp new ▸ rfl)
    | hands other answer play audioDev asked here watchers posted => exact old (posted ▸ member)
    | goes number watcher phase here quiet watchers posted => exact old (posted ▸ member)
    | ends number watcher code here word watchers posted =>
      rcases List.mem_append.mp (posted ▸ member) with before | new
      · exact old before
      · rw [List.mem_singleton.mp new]
        cases word with
        | superseded phase =>
          refine .inr ⟨rfl, (growing_exec h).2 ?_⟩
          change watcher.play.number ∈ _
          rw [(accounted.named number watcher here).1]
          exact truthful.superseded number watcher here phase
        | successful phase => exact .inl rfl
  superseded number watcher found phase := by
    have old : s.watchers number = some watcher → number ∈ next.cancelled := fun here =>
      (growing_exec h).2 (truthful.superseded number watcher here phase)
    cases telling_exec h with
    | keeps watchers posted => exact old (watchers ▸ found)
    | tells other answer play asked here watchers posted => exact old (watchers ▸ found)
    | hands other answer play audioDev asked here watchers posted =>
      rw [watchers] at found
      rcases Table.insert_eq_some.mp found with ⟨-, rfl⟩ | ⟨-, there⟩
      · cases phase
      · exact old there
    | goes first before next here quiet watchers posted =>
      rw [watchers] at found
      rcases Table.insert_eq_some.mp found with ⟨rfl, rfl⟩ | ⟨-, there⟩
      · cases quiet with
        | superseded before raised => exact (growing_exec h).2 raised
        | _ => cases phase
      · exact old there
    | ends first before code here word watchers posted =>
      rw [watchers] at found
      rcases Table.insert_eq_some.mp found with ⟨-, rfl⟩ | ⟨-, there⟩
      · cases phase
      · exact old there
  ended number watcher found phase := by
    have grows : s.posted ⊆ next.posted := by
      rcases accounted.told h with posted | ⟨play, code, posted, -⟩
      · exact posted ▸ List.Subset.refl _
      · exact posted ▸ List.subset_append_left _ _
    have old : s.watchers number = some watcher → number ∈ next.cancelled ∨
        ∃ notice ∈ next.posted, notice.play = number ∧ notice.code = mciNotifySuccessful := by
      intro here
      rcases truthful.ended number watcher here phase with raised | ⟨notice, member, both⟩
      · exact .inl ((growing_exec h).2 raised)
      · exact .inr ⟨notice, grows member, both⟩
    cases telling_exec h with
    | keeps watchers posted => exact old (watchers ▸ found)
    | tells other answer play asked here watchers posted => exact old (watchers ▸ found)
    | hands other answer play audioDev asked here watchers posted =>
      rw [watchers] at found
      rcases Table.insert_eq_some.mp found with ⟨-, rfl⟩ | ⟨-, there⟩
      · cases phase
      · exact old there
    | goes first before turn here quiet watchers posted =>
      rw [watchers] at found
      rcases Table.insert_eq_some.mp found with ⟨rfl, rfl⟩ | ⟨-, there⟩
      · cases quiet with
        | cancelled before raised => exact .inl ((growing_exec h).2 raised)
        | _ => cases phase
      · exact old there
    | ends first before code here word watchers posted =>
      have name := (accounted.named first before here).1
      rw [watchers, name] at found
      rcases Table.insert_eq_some.mp found with ⟨rfl, rfl⟩ | ⟨-, there⟩
      · cases word with
        | superseded phase =>
          exact .inl ((growing_exec h).2 (truthful.superseded number before here phase))
        | successful phase =>
          refine .inr ⟨Notice.of before.play mciNotifySuccessful, ?_, name, rfl⟩
          rw [posted]
          exact List.mem_append_right _ (List.mem_singleton_self _)
      · exact old there

theorem truthful_initial : initial.Truthful where
  windows _ h := by cases h
  words _ h := by cases h
  superseded _ _ h := by cases h
  ended _ _ h := by cases h

/-- Over any interleaving each play is told of once at most, to a window that is one, and that it
was superseded only if it was; a watcher that was never told to give up does not end without a
word, and one that has not ended has said none. -/
theorem notices_of_run (run : Run step initial events s) :
    (s.posted.map Notice.play).Nodup ∧
      (∀ notice ∈ s.posted, notice.hwnd ≠ 0 ∧ (notice.code = mciNotifySuccessful ∨
        notice.code = mciNotifySuperseded ∧ notice.play ∈ s.cancelled)) ∧
      ∀ number watcher, s.watchers number = some watcher →
        (watcher.phase = .ended → number ∉ s.cancelled →
          ∃ notice ∈ s.posted, notice.play = number ∧ notice.code = mciNotifySuccessful) ∧
        (watcher.phase ≠ .ended → ∀ notice ∈ s.posted, notice.play ≠ number) := by
  obtain ⟨accounted, truthful⟩ := run.invariant (fun s => s.Accounted ∧ s.Truthful)
    (fun _ _ _ kept h => ⟨kept.1.exec h, kept.2.exec kept.1 h⟩)
    ⟨accounted_initial, truthful_initial⟩
  refine ⟨accounted.nodup, fun notice member => ⟨truthful.windows notice member,
    truthful.words notice member⟩, fun number watcher here => ⟨fun ended clear => ?_,
    accounted.pending number watcher here⟩⟩
  exact (truthful.ended number watcher here ended).resolve_left clear

/-- A clip is played in the background, and its end is told. -/
theorem notices_of_run_background :
    let events : List Event := [.mciOpen 1 (some (8, ⟨8000, by decide, 8, 1⟩)),
      .mciPlay 1 1 1 9, .advance 1 true, .advance 1 true, .advance 1 true, .advance 1 true,
      .advance 1 true, .advance 1 true, .watch 0 true, .watch 0 true, .watch 0 true, .watch 0 true]
    (events.foldlM exec initial).map (fun s => s.posted) = some [⟨0, 9, 1, 1⟩] ∧
      ∀ s, events.foldlM exec initial = some s → (s.posted.map Notice.play).Nodup :=
  ⟨rfl, fun _ h => (notices_of_run (Run.of_foldlM (fun _ _ _ h => h) h)).1⟩

end MciState
end Warpine.Mci
