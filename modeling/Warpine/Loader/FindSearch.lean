import Mathlib.Data.List.TakeDrop
import Warpine.Lib.Lists
import Warpine.Loader.FindRecords

/-! Whole searches: what the guest finds over all calls on one handle, against
what the search captured when it was opened. -/
namespace Warpine.Loader
open Warpine.Lib Warpine.Guest Warpine.Vfs

def searchState (dm : DriveManager HostDir) (hdir : Nat) : Option FindState :=
  (dm.findHandles hdir).bind fun entry => (dm.drives entry.drive).bind fun backend =>
    backend.finds entry.vfsHandle.id

def captured (dm : DriveManager HostDir) (hdir : Nat) : Option (List DirEntry) :=
  (searchState dm hdir).map FindState.entries

/-- The captured entries that no call has pulled yet. -/
def remaining (dm : DriveManager HostDir) (hdir : Nat) : Option (List DirEntry) :=
  (searchState dm hdir).map fun st => st.entries.drop st.position

/-- What each of several calls pulls, given how many entries each asks for. -/
def pulledBy : List DirEntry → List Nat → List (List DirEntry)
  | _, [] => []
  | entries, count :: counts => entries.take count :: pulledBy (entries.drop count) counts

section Outcomes

variable (rs : EncodingRs) (cp : Nat) (includeEaSize : Bool) (hdir : Nat)

/-- The code of each call, and what the guest reads after it. -/
def nextOutcomes : DriveManager HostDir → List FindNextCall →
    List (Nat × Option (List FoundEntry))
  | _, [] => []
  | dm, call :: rest =>
      let (code, mem, dm) := dosFindNext rs cp hdir dm call
      (code, delivered includeEaSize call.buffer code mem) :: nextOutcomes dm rest

def searchOutcomes (dm : DriveManager HostDir) (first : FindFirstCall)
    (rest : List FindNextCall) : List (Nat × Option (List FoundEntry)) :=
  let (code, mem, dm) := dosFindFirst rs cp dm first
  (code, delivered includeEaSize first.buffer code mem) ::
    nextOutcomes rs cp includeEaSize hdir dm rest

end Outcomes

def FindFirstCall.count (call : FindFirstCall) : Nat :=
  requested call.mem call.buffer.pcFoundPtr.toNat

def FindNextCall.count (call : FindNextCall) : Nat :=
  requested call.mem call.buffer.pcFoundPtr.toNat

/-- The length of packed records: all but the last are rounded up. -/
def packedLength (encode : Path → List UInt8) (includeEaSize : Bool) : List DirEntry → Nat
  | [] => 0
  | [entry] => entrySize encode includeEaSize entry
  | entry :: rest =>
      alignedSize (entrySize encode includeEaSize entry) + packedLength encode includeEaSize rest

/-- An entry as it was captured, with its whole name. -/
def whole (encode : Path → List UInt8) (entry : DirEntry) : FoundEntry :=
  ⟨encode entry.name, entry.status⟩

/-- The guest reads every captured entry once and in order. -/
def FindsAll (encode : Path → List UInt8) (outcomes : List (Nat × Option (List FoundEntry)))
    (entries : List DirEntry) : Prop :=
  (outcomes.mapM Prod.snd).map List.flatten = some (entries.map (whole encode))

/-- Every buffer holds all entries that its call pulls, and every name is at most
as long as its length byte can say. -/
def AllFit (encode : Path → List UInt8) (includeEaSize : Bool) (buffers : List FindBuffer)
    (counts : List Nat) (entries : List DirEntry) : Prop :=
  (∀ call ∈ buffers.zip (pulledBy entries counts),
      packedLength encode includeEaSize call.2 ≤ call.1.bufLen.toNat) ∧
    ∀ entry ∈ entries, (encode entry.name).length ≤ 255

theorem requested_pos (mem : GuestMemory) (pcFoundPtr : Nat) : 0 < requested mem pcFoundPtr := by
  unfold requested
  split <;> omega

section Cursor

variable {dm : DriveManager HostDir} {hdir : Nat}

/-- An open search in terms of the tables. -/
theorem remaining_eq_some {entries : List DirEntry} (h : remaining dm hdir = some entries) :
    ∃ entry backend st, dm.findHandles hdir = some entry ∧
      dm.drives entry.drive = some backend ∧ backend.finds entry.vfsHandle.id = some st ∧
      entries = st.entries.drop st.position := by
  obtain ⟨st, hst, rfl⟩ := Option.map_eq_some_iff.mp h
  obtain ⟨entry, hentry, hst⟩ := Option.bind_eq_some_iff.mp hst
  obtain ⟨backend, hbackend, hst⟩ := Option.bind_eq_some_iff.mp hst
  exact ⟨entry, backend, st, hentry, hbackend, hst, rfl⟩

theorem findNext_cons {first : DirEntry} {rest : List DirEntry}
    (h : remaining dm hdir = some (first :: rest)) :
    ∃ next, dm.findNext hdir = (.ok first, next) ∧ remaining next hdir = some rest ∧
      next.findHandles = dm.findHandles := by
  obtain ⟨entry, backend, st, hentry, hbackend, hst, hdrop⟩ := remaining_eq_some h
  have hfirst : st.entries[st.position]? = some first := by
    rw [← Nat.add_zero st.position, ← List.getElem?_drop, ← hdrop]
    rfl
  have hrest : st.entries.drop (st.position + 1) = rest := by
    rw [← List.drop_drop, ← hdrop]
    rfl
  let advanced : HostDir := { backend with
    finds := backend.finds.insert entry.vfsHandle.id { st with position := st.position + 1 } }
  refine ⟨dm.mount entry.drive advanced, ?_, ?_, rfl⟩
  · rw [DriveManager.findNext, hentry]
    dsimp only
    rw [hbackend]
    dsimp only [VfsBackend.findNext]
    rw [HostDir.findNext, hst]
    dsimp only
    rw [hfirst]
  · simp [remaining, searchState, DriveManager.mount, advanced, hentry, hrest]

theorem findNext_nil (h : remaining dm hdir = some []) :
    ∃ error next, dm.findNext hdir = (.error error, next) ∧ remaining next hdir = some [] ∧
      next.findHandles = dm.findHandles := by
  obtain ⟨entry, backend, st, hentry, hbackend, hst, hdrop⟩ := remaining_eq_some h
  have hend : st.entries[st.position]? = none := by
    rw [← Nat.add_zero st.position, ← List.getElem?_drop, ← hdrop]
    rfl
  refine ⟨.noMoreFiles, dm.mount entry.drive backend, ?_, ?_, rfl⟩
  · rw [DriveManager.findNext, hentry]
    dsimp only
    rw [hbackend]
    dsimp only [VfsBackend.findNext]
    rw [HostDir.findNext, hst]
    dsimp only
    rw [hend]
  · simp [remaining, searchState, DriveManager.mount, hentry, hst, ← hdrop]

theorem pullEntries_eq {entries : List DirEntry} (count : Nat)
    (h : remaining dm hdir = some entries) :
    ∃ next, pullEntries hdir count dm = (entries.take count, next) ∧
      remaining next hdir = some (entries.drop count) ∧ next.findHandles = dm.findHandles := by
  induction count generalizing dm entries with
  | zero => exact ⟨dm, rfl, h, rfl⟩
  | succ count ih =>
    cases entries with
    | nil =>
      obtain ⟨error, next, hnext, hremaining, hhandles⟩ := findNext_nil h
      exact ⟨next, by rw [pullEntries, hnext]; rfl, hremaining, hhandles⟩
    | cons first rest =>
      obtain ⟨middle, hfirst, hremaining, hhandles⟩ := findNext_cons h
      obtain ⟨next, hpull, hrest, hsame⟩ := ih hremaining
      refine ⟨next, ?_, hrest, hsame.trans hhandles⟩
      rw [pullEntries, hfirst]
      dsimp only
      rw [hpull]
      rfl

/-- Opening a search captures its entries and pulls the first. -/
theorem findFirst_open {spec : Path} {attr : FileAttribute} {level : Nat} {entry : DirEntry}
    {opened : DriveManager HostDir}
    (h : dm.findFirst spec attr level = (.ok (hdir, entry), opened)) :
    ∃ rest, captured opened hdir = some (entry :: rest) ∧ remaining opened hdir = some rest ∧
      opened.findLevel hdir = level := by
  unfold DriveManager.findFirst at h
  split at h
  · cases h
  · rename_i drive relPath _
    split at h
    · cases h
    · rename_i backend _
      split at h
      · cases h
      · rename_i vfsHandle first next hfirst
        cases h
        obtain ⟨rest, hfinds⟩ := HostDir.findFirst_finds hfirst
        refine ⟨rest, ?_, ?_, ?_⟩
        · simp [captured, searchState, DriveManager.mount, hfinds]
        · simp [remaining, searchState, DriveManager.mount, hfinds]
        · simp [DriveManager.findLevel]

end Cursor

/-- What the guest reads after each call, given what the call pulls. -/
def reads (encode : Path → List UInt8) (includeEaSize : Bool)
    (calls : List (FindBuffer × List DirEntry)) : List (List FoundEntry) :=
  calls.map fun call =>
    (fitting encode call.1.bufLen.toNat includeEaSize 0 call.2).map (found encode)

section Reads

variable {encode : Path → List UInt8} {includeEaSize : Bool}

theorem fitting_eq_self {bufLen : Nat} (entries : List DirEntry) (offset : Nat) :
    fitting encode bufLen includeEaSize offset entries = entries ↔
      entries = [] ∨ offset + packedLength encode includeEaSize entries ≤ bufLen := by
  induction entries generalizing offset with
  | nil => simp [fitting]
  | cons entry rest ih =>
    have hroom : entrySize encode includeEaSize entry ≤
      alignedSize (entrySize encode includeEaSize entry) := by unfold alignedSize; omega
    rw [fitting]
    split
    · rename_i hfull
      cases rest <;> simp [packedLength] <;> omega
    · rename_i hfits
      rw [List.cons.injEq, ih]
      cases rest <;> simp [packedLength] <;> omega

theorem found_eq_whole {entry : DirEntry} :
    found encode entry = whole encode entry ↔ (encode entry.name).length ≤ 255 := by
  simp [found, whole, nameBytes, List.take_eq_self_iff]

/-- All that is pulled is read whole where every buffer holds what its call
pulls, and only there. -/
theorem reads_whole_iff (calls : List (FindBuffer × List DirEntry)) :
    (reads encode includeEaSize calls).flatten =
        (calls.map Prod.snd).flatten.map (whole encode) ↔
      (∀ call ∈ calls, packedLength encode includeEaSize call.2 ≤ call.1.bufLen.toNat) ∧
        ∀ entry ∈ (calls.map Prod.snd).flatten, (encode entry.name).length ≤ 255 := by
  let read (call : FindBuffer × List DirEntry) : List DirEntry :=
    fitting encode call.1.bufLen.toNat includeEaSize 0 call.2
  have hreads : (reads encode includeEaSize calls).flatten =
      (calls.flatMap read).map (found encode) := by
    rw [reads, ← List.flatMap_def, List.map_flatMap]
  have hpulled : (calls.map Prod.snd).flatten = calls.flatMap Prod.snd :=
    List.flatMap_def.symm
  have hfits (call : FindBuffer × List DirEntry) : read call = call.2 ↔
      packedLength encode includeEaSize call.2 ≤ call.1.bufLen.toNat := by
    rw [fitting_eq_self, Nat.zero_add, or_iff_right_of_imp]
    intro hnone
    rw [hnone]
    exact Nat.zero_le _
  rw [hreads, hpulled]
  constructor
  · intro h
    have hlengths := congrArg List.length h
    rw [List.length_map, List.length_map] at hlengths
    have hall : ∀ call ∈ calls, read call = call.2 := fun call hcall =>
      (fitting_initial encode call.1.bufLen.toNat includeEaSize call.2 0).eq_of_length
        (length_eq_of_flatMap (fun call _ => (fitting_initial encode call.1.bufLen.toNat
          includeEaSize call.2 0).length_le) hlengths call hcall)
    rw [List.flatMap_congr hall, List.map_inj_left] at h
    exact ⟨fun call hcall => (hfits call).mp (hall call hcall),
      fun entry hentry => found_eq_whole.mp (h entry hentry)⟩
  · intro ⟨hroom, hnames⟩
    rw [List.flatMap_congr fun call hcall => (hfits call).mpr (hroom call hcall)]
    exact List.map_congr_left fun entry hentry => found_eq_whole.mpr (hnames entry hentry)

end Reads

theorem writeFilefindbuf3Multi_ne_noMoreFiles (encode : Path → List UInt8) (mem : GuestMemory)
    (entries : List DirEntry) (buffer : FindBuffer) (includeEaSize : Bool) :
    (writeFilefindbuf3Multi encode mem entries buffer includeEaSize).1 ≠ errorNoMoreFiles := by
  unfold writeFilefindbuf3Multi
  dsimp only
  split <;> decide

section Calls

variable {rs : EncodingRs} {cp : Nat} {includeEaSize : Bool} {hdir : Nat}
  {dm : DriveManager HostDir} {entries : List DirEntry}

theorem requested_of_null {mem : GuestMemory} {ptr : UInt32} (h : ptr = 0) :
    requested mem ptr.toNat = 1 := by
  rw [h]
  rfl

variable (rs cp) in
/-- One further call: it reads what fits of the next entries, and is told that
there are no more only where none are left. -/
theorem dosFindNext_spec {call : FindNextCall} (h : remaining dm hdir = some entries)
    (valid : call.buffer.Valid call.mem) (level : (dm.findLevel hdir == 2) = includeEaSize) :
    ∃ code mem next, dosFindNext rs cp hdir dm call = (code, mem, next) ∧
      remaining next hdir = some (entries.drop call.count) ∧
      next.findHandles = dm.findHandles ∧ (code = errorNoMoreFiles → entries = []) ∧
      delivered includeEaSize call.buffer code mem =
        some ((fitting (cpEncode rs · cp) call.buffer.bufLen.toNat includeEaSize 0
          (entries.take call.count)).map (found (cpEncode rs · cp))) := by
  have hcount : 0 < call.count := requested_pos _ _
  obtain ⟨next, hpull, hremaining, hhandles⟩ := pullEntries_eq call.count h
  have hlevel : (next.findLevel hdir == 2) = includeEaSize := by
    rw [DriveManager.findLevel, hhandles]
    exact level
  unfold dosFindNext
  rw [← FindNextCall.count, hpull]
  dsimp only
  by_cases hnone : entries.take call.count = []
  · rw [if_pos hnone]
    have hempty : entries = [] := by
      rcases List.take_eq_nil_iff.mp hnone with hzero | hempty
      · omega
      · exact hempty
    exact ⟨_, _, _, rfl, hremaining, hhandles, fun _ => hempty, by rw [hnone]; rfl⟩
  · rw [if_neg hnone, hlevel]
    refine ⟨_, _, _, rfl, hremaining, hhandles, fun hcode => ?_, ?_⟩
    · exact absurd hcode (writeFilefindbuf3Multi_ne_noMoreFiles _ _ _ _ _)
    · apply delivered_write valid
      intro hnull
      have : call.count = 1 := requested_of_null hnull
      rw [List.length_take]
      omega

theorem nextOutcomes_reads {calls : List FindNextCall} (h : remaining dm hdir = some entries)
    (valid : ∀ call ∈ calls, call.buffer.Valid call.mem)
    (level : (dm.findLevel hdir == 2) = includeEaSize) :
    (nextOutcomes rs cp includeEaSize hdir dm calls).map Prod.snd =
      (reads (cpEncode rs · cp) includeEaSize ((calls.map FindNextCall.buffer).zip
        (pulledBy entries (calls.map FindNextCall.count)))).map some := by
  induction calls generalizing dm entries with
  | nil => rfl
  | cons call rest ih =>
    obtain ⟨hcall, hrest⟩ := List.forall_mem_cons.mp valid
    obtain ⟨code, mem, next, hnext, hremaining, hhandles, _, hread⟩ :=
      dosFindNext_spec rs cp h hcall level
    have hlevel : (next.findLevel hdir == 2) = includeEaSize := by
      rw [DriveManager.findLevel, hhandles]
      exact level
    rw [nextOutcomes, hnext]
    dsimp only
    rw [List.map_cons, ih hremaining hrest hlevel, hread]
    rfl

/-- A run that ends with the last code has pulled every entry. -/
theorem nextOutcomes_ended {calls : List FindNextCall} (h : remaining dm hdir = some entries)
    (valid : ∀ call ∈ calls, call.buffer.Valid call.mem)
    (level : (dm.findLevel hdir == 2) = includeEaSize)
    (ended : ((nextOutcomes rs cp includeEaSize hdir dm calls).getLast?.map Prod.fst) =
      some errorNoMoreFiles) :
    (pulledBy entries (calls.map FindNextCall.count)).flatten = entries := by
  induction calls generalizing dm entries with
  | nil => simp [nextOutcomes] at ended
  | cons call rest ih =>
    obtain ⟨hcall, hrest⟩ := List.forall_mem_cons.mp valid
    obtain ⟨code, mem, next, hnext, hremaining, hhandles, hlast, _⟩ :=
      dosFindNext_spec rs cp h hcall level
    have hlevel : (next.findLevel hdir == 2) = includeEaSize := by
      rw [DriveManager.findLevel, hhandles]
      exact level
    rw [nextOutcomes, hnext] at ended
    dsimp only at ended
    rw [List.map_cons, pulledBy, List.flatten_cons]
    cases rest with
    | nil =>
      have hempty := hlast (Option.some.inj ended)
      simp [hempty, pulledBy]
    | cons call' rest =>
      rw [ih hremaining hrest hlevel (by simpa [nextOutcomes] using ended)]
      exact List.take_append_drop call.count entries

theorem dosFindFirst_spec {call : FindFirstCall} {entry : DirEntry}
    {opened : DriveManager HostDir} (knownLevel : call.level = 1 ∨ call.level = 2)
    (start : dm.findFirst (call.spec rs cp) ⟨call.attr⟩ call.level.toNat =
      (.ok (hdir, entry), opened))
    (listing : captured opened hdir = some entries) (valid : call.buffer.Valid call.mem) :
    ∃ code mem next, dosFindFirst rs cp dm call = (code, mem, next) ∧
      remaining next hdir = some (entries.drop call.count) ∧
      next.findLevel hdir = call.level.toNat ∧ code ≠ errorNoMoreFiles ∧
      delivered (call.level == 2) call.buffer code mem =
        some ((fitting (cpEncode rs · cp) call.buffer.bufLen.toNat (call.level == 2) 0
          (entries.take call.count)).map (found (cpEncode rs · cp))) := by
  have hcount : 0 < call.count := requested_pos _ _
  obtain ⟨rest, hcaptured, hopen, hlevel⟩ := findFirst_open start
  obtain ⟨next, hpull, hremaining, hhandles⟩ := pullEntries_eq (call.count - 1) hopen
  have hentries : entries = entry :: rest := Option.some.inj (listing.symm.trans hcaptured)
  obtain ⟨more, hmore⟩ : ∃ more, call.count = more + 1 := ⟨call.count - 1, by omega⟩
  have hknown : ¬ (call.level ≠ 1 ∧ call.level ≠ 2) := by tauto
  unfold dosFindFirst
  rw [if_neg hknown, start]
  dsimp only
  rw [← FindFirstCall.count, hpull]
  dsimp only
  refine ⟨_, _, _, rfl, ?_, ?_, writeFilefindbuf3Multi_ne_noMoreFiles _ _ _ _ _, ?_⟩
  · rw [hremaining, hentries, hmore]
    rfl
  · rw [DriveManager.findLevel, hhandles]
    exact hlevel
  · have hpulled : entry :: rest.take (call.count - 1) = entries.take call.count := by
      rw [hentries, hmore]
      rfl
    rw [hpulled]
    apply delivered_write
    · exact valid.of_size (call.mem.putBytes_size)
    · intro hnull
      have : call.count = 1 := requested_of_null hnull
      rw [List.length_take]
      omega

end Calls

theorem pulledBy_length (entries : List DirEntry) (counts : List Nat) :
    (pulledBy entries counts).length = counts.length := by
  induction counts generalizing entries with
  | nil => rfl
  | cons count counts ih => rw [pulledBy, List.length_cons, ih, List.length_cons]

/-- A search that ran to its end found every entry that was there when it began
exactly where every call had room for all that it asked for. -/
theorem search_complete_iff {rs : EncodingRs} {cp hdir : Nat} {dm opened : DriveManager HostDir}
    {first : FindFirstCall} {rest : List FindNextCall} {entry : DirEntry}
    {entries : List DirEntry} (knownLevel : first.level = 1 ∨ first.level = 2)
    (start : dm.findFirst (first.spec rs cp) ⟨first.attr⟩ first.level.toNat =
      (.ok (hdir, entry), opened))
    (listing : captured opened hdir = some entries)
    (valid : first.buffer.Valid first.mem) (validRest : ∀ call ∈ rest, call.buffer.Valid call.mem)
    (ended : (searchOutcomes rs cp (first.level == 2) hdir dm first rest).getLast?.map Prod.fst =
      some errorNoMoreFiles) :
    FindsAll (cpEncode rs · cp) (searchOutcomes rs cp (first.level == 2) hdir dm first rest)
        entries ↔
      AllFit (cpEncode rs · cp) (first.level == 2)
        (first.buffer :: rest.map FindNextCall.buffer)
        (first.count :: rest.map FindNextCall.count) entries := by
  obtain ⟨code, mem, next, hfirst, hremaining, hlevel, hcode, hread⟩ :=
    dosFindFirst_spec knownLevel start listing valid
  have hsame : (next.findLevel hdir == 2) = (first.level == 2) := by
    rw [hlevel]
    rcases knownLevel with h | h <;> rw [h] <;> rfl
  let counts := first.count :: rest.map FindNextCall.count
  let calls := (first.buffer :: rest.map FindNextCall.buffer).zip (pulledBy entries counts)
  have houtcomes : (searchOutcomes rs cp (first.level == 2) hdir dm first rest).mapM Prod.snd =
      some (reads (cpEncode rs · cp) (first.level == 2) calls) := by
    apply mapM_snd_eq
    rw [searchOutcomes, hfirst]
    dsimp only
    rw [List.map_cons, nextOutcomes_reads hremaining validRest hsame, hread]
    rfl
  have hpulled : (calls.map Prod.snd).flatten = entries := by
    have hlength : (pulledBy entries counts).length ≤
        (first.buffer :: rest.map FindNextCall.buffer).length := by
      simp [pulledBy_length, counts]
    rw [List.map_snd_zip hlength, pulledBy, List.flatten_cons]
    rw [searchOutcomes, hfirst] at ended
    dsimp only at ended
    cases rest with
    | nil => exact absurd (Option.some.inj ended) hcode
    | cons call rest =>
      rw [nextOutcomes_ended hremaining validRest hsame (by simpa [nextOutcomes] using ended)]
      exact List.take_append_drop first.count entries
  have hreads := @reads_whole_iff (cpEncode rs · cp) (first.level == 2) calls
  rw [hpulled] at hreads
  rw [FindsAll, houtcomes, AllFit, ← hreads, Option.map_some, Option.some.injEq]

def sampleAttrs : Attrs := ⟨0, false, none, none, none⟩

/-- A volume with the files `A` and `B`. -/
def sampleVolume : HostDir :=
  HostDir.new ["v".toList] false (fun path =>
    if path = ["v".toList] then some ⟨.dir ["A".toList, "B".toList], sampleAttrs⟩
    else if path = ["v".toList, "A".toList] ∨ path = ["v".toList, "B".toList] then
      some ⟨.file [], sampleAttrs⟩
    else if path = [] then some ⟨.dir ["v".toList], sampleAttrs⟩
    else none) sampleAttrs

def sampleDrives : DriveManager HostDir := DriveManager.new.mount 2 sampleVolume

def sampleCodepages : EncodingRs := ⟨fun _ _ => [], fun _ _ => []⟩

/-- The pattern for everything, and a count of two. -/
def sampleMemory : GuestMemory :=
  ((GuestMemory.mk 4096 fun _ => 0).putBytes 16 [0x2A, 0x2E, 0x2A]).put 4 64 2

def sampleFirst (bufLen : UInt32) : FindFirstCall :=
  ⟨sampleMemory, 16, 128, 0, 1, ⟨256, bufLen, 64⟩⟩

def sampleNext (bufLen : UInt32) : FindNextCall := ⟨sampleMemory, ⟨256, bufLen, 64⟩⟩

def sampleOutcomes (bufLen : UInt32) : List (Nat × Option (List FoundEntry)) :=
  searchOutcomes sampleCodepages 437 false 10 sampleDrives (sampleFirst bufLen) [sampleNext bufLen]

def sampleEntry (name : Path) : DirEntry := ⟨name, metadataToFileStatus ⟨.file [], sampleAttrs⟩⟩

def sampleEntries : List DirEntry := [sampleEntry ['A'], sampleEntry ['B']]

/-- The drives after the search has begun. -/
def sampleOpened : DriveManager HostDir :=
  (sampleDrives.findFirst ['*', '.', '*'] ⟨0⟩ 1).2

theorem sample_start (bufLen : UInt32) :
    sampleDrives.findFirst ((sampleFirst bufLen).spec sampleCodepages 437)
        ⟨(sampleFirst bufLen).attr⟩ (sampleFirst bufLen).level.toNat =
      (.ok (10, sampleEntry ['A']), sampleOpened) := by
  have hspec : expandSpec (readGuestString sampleCodepages 437 sampleMemory 16) =
    ['*', '.', '*'] := by decide +kernel
  have hfound : (sampleDrives.findFirst ['*', '.', '*'] ⟨0⟩ 1).1 =
    .ok (10, sampleEntry ['A']) := by decide
  change sampleDrives.findFirst (expandSpec (readGuestString sampleCodepages 437 sampleMemory 16))
    ⟨0⟩ 1 = _
  rw [hspec]
  exact Prod.ext hfound rfl

theorem sample_valid : (sampleNext 63).buffer.Valid sampleMemory where
  small := by decide
  room := by decide
  count _ := by decide

theorem search_complete_iff_room :
    FindsAll (cpEncode sampleCodepages · 437) (sampleOutcomes 63) sampleEntries :=
  (search_complete_iff (Or.inl rfl) (sample_start 63)
    (show captured sampleOpened 10 = some sampleEntries by decide) sample_valid
    (List.forall_mem_singleton.mpr sample_valid) (by decide +kernel)).mpr
      ⟨by decide, by decide⟩

/-- Both entries are pulled for the first call, but only one has room. -/
theorem small_buffer_skips :
    captured sampleOpened 10 = some sampleEntries ∧
      (sampleOutcomes 40).map Prod.fst = [0, errorNoMoreFiles] ∧
      ¬ FindsAll (cpEncode sampleCodepages · 437) (sampleOutcomes 40) sampleEntries := by
  refine ⟨by decide +kernel, by decide +kernel, ?_⟩
  unfold FindsAll
  decide +kernel

end Warpine.Loader
