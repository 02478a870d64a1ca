import Warpine.Ipc.Names

/-! What calls that open by name find, over any creations, closes and frees. -/
namespace Warpine.Ipc
open Warpine.Lib Warpine.Guest Warpine.Loader

section FindNamed

variable {α : Type} {table : Table Nat α} {nameOf : α → Option String} {order : List Nat}
  {name : String}

theorem findNamed_some {h : Nat} (found : findNamed table nameOf order name = some h) :
    ∃ obj, table h = some obj ∧ nameOf obj = some name := by
  have test := List.find?_some found
  obtain ⟨obj, hobj, same⟩ := (Option.any_eq_true _ _).mp test
  exact ⟨obj, hobj, beq_iff_eq.mp same⟩

theorem findNamed_none (visits : Visits order table)
    (missing : findNamed table nameOf order name = none) {h : Nat} {obj : α}
    (hobj : table h = some obj) : nameOf obj ≠ some name := by
  intro same
  have visited : h ∈ order := (visits h).mpr (by rw [hobj]; rfl)
  have fails := List.find?_eq_none.mp missing h visited
  simp [hobj, same] at fails

end FindNamed

namespace NameState

variable (rs : EncodingRs) (s : NameState)

/-- A call that opens an object by name succeeds where a live one was created under the
name, and then the guest gets the handle of such an object, which is valid. -/
structure OpensLive (kind : ObjectKind) (order : List Nat) (pszName ptr : UInt32) : Prop where
  success : (s.openByName rs kind order pszName ptr).1 = 0 ↔
    ∃ obj ∈ s.live, obj.kind = kind ∧ obj.name = some (s.nameAt rs pszName)
  handle : (s.openByName rs kind order pszName ptr).1 = 0 →
    ∃ obj ∈ s.live, obj.kind = kind ∧ obj.name = some (s.nameAt rs pszName) ∧ s.Valid obj ∧
      (s.openByName rs kind order pszName ptr).2 = s.guestMem.put 4 ptr.toNat obj.handle

/-- Semaphores are opened by handle where there is no name. -/
def ByName (kind : ObjectKind) (pszName : UInt32) : Prop :=
  kind = .queue ∨ kind = .memory ∨ pszName ≠ 0

def NamesFound : Prop :=
  ∀ kind order pszName ptr, ByName kind pszName → s.Order kind order →
    s.OpensLive rs kind order pszName ptr

/-- Semaphores are created without names, no handle comes twice, and no block is freed
that its name leads to. -/
def Findable : NameCall → Prop
  | .createEventSem pszName _ _ _ => pszName = 0
  | .createMutexSem pszName _ _ _ => pszName = 0
  | .createQueue .. => s.queues s.nextQueue = none
  | .freeMem pb => ∀ obj ∈ s.live, obj.isAt .memory pb.toNat → ∀ name ∈ obj.name,
      s.namedBlocks name = some pb.toNat → obj ∈ s.closed .memory pb.toNat
  | _ => True

instance (call : NameCall) : Decidable (s.Findable call) := by
  unfold Findable
  split <;> infer_instance

/-- The queues and blocks that exist are those in the tables, and nothing else has a name. -/
structure Listed : Prop where
  events : ∀ h sem, s.eventSems h = some sem → sem.name = none
  mutexes : ∀ h sem, s.mutexSems h = some sem → sem.name = none
  unnamed : ∀ obj ∈ s.live, obj.kind = .event ∨ obj.kind = .mutex → obj.name = none
  queues : ∀ h queue, s.queues h = some queue → ⟨.queue, h, some queue.name⟩ ∈ s.live
  opened : ∀ obj ∈ s.live, obj.kind = .queue →
    ∃ queue, s.queues obj.handle = some queue ∧ obj.name = some queue.name
  single : s.live.Pairwise fun a b => a.kind = .queue → b.kind = .queue → a.handle ≠ b.handle
  blocks : (s.live.filter fun obj => obj.kind = .memory).map LiveObject.handle =
    s.memMgr.addresses
  named : ∀ name addr, s.namedBlocks name = some addr → ⟨.memory, addr, some name⟩ ∈ s.live
  found : ∀ name addr, ⟨.memory, addr, some name⟩ ∈ s.live → (s.namedBlocks name).isSome

variable {rs s}

theorem opened_success {found : Option Nat} {ptr : UInt32} {missing : Nat} (failure : missing ≠ 0) :
    (s.opened found ptr missing).1 = 0 ↔ found.isSome := by
  cases found <;> simp [opened, failure]

/-- The law for one kind of objects, from what the search through its table finds. -/
theorem opensLive_of_found {kind : ObjectKind} {order : List Nat} {pszName ptr : UInt32}
    {found : Option Nat} {missing : Nat} (failure : missing ≠ 0)
    (opened : s.openByName rs kind order pszName ptr = s.opened found ptr missing)
    (live : ∀ h, found = some h → ⟨kind, h, some (s.nameAt rs pszName)⟩ ∈ s.live ∧
      s.Valid ⟨kind, h, some (s.nameAt rs pszName)⟩)
    (absent : found = none → ∀ obj ∈ s.live, obj.kind = kind →
      obj.name ≠ some (s.nameAt rs pszName)) : s.OpensLive rs kind order pszName ptr where
  success := by
    rw [opened, opened_success failure]
    constructor
    · intro success
      obtain ⟨h, rfl⟩ := Option.isSome_iff_exists.mp success
      exact ⟨_, (live h rfl).1, rfl, rfl⟩
    · rintro ⟨obj, member, hkind, hname⟩
      cases found with
      | none => exact absurd hname (absent rfl obj member hkind)
      | some h => rfl
  handle := by
    rw [opened, opened_success failure]
    intro success
    obtain ⟨h, rfl⟩ := Option.isSome_iff_exists.mp success
    exact ⟨_, (live h rfl).1, rfl, rfl, (live h rfl).2, rfl⟩

theorem Listed.namesFound (listed : s.Listed) : s.NamesFound rs := by
  intro kind order pszName ptr byName visits
  cases kind with
  | event =>
    have given : pszName ≠ 0 := (byName.resolve_left (by simp)).resolve_left (by simp)
    have opened : s.openByName rs .event order pszName ptr =
        s.opened (s.openEventByName order (s.nameAt rs pszName)) ptr errorFileNotFound :=
      if_pos given
    apply opensLive_of_found (by decide) opened
    · intro h found
      obtain ⟨sem, hsem, hname⟩ := findNamed_some found
      rw [listed.events h sem hsem] at hname
      cases hname
    · intro _ obj member hkind
      simp [listed.unnamed obj member (.inl hkind)]
  | mutex =>
    have given : pszName ≠ 0 := (byName.resolve_left (by simp)).resolve_left (by simp)
    have opened : s.openByName rs .mutex order pszName ptr =
        s.opened (s.openMutexByName order (s.nameAt rs pszName)) ptr errorFileNotFound :=
      if_pos given
    apply opensLive_of_found (by decide) opened
    · intro h found
      obtain ⟨sem, hsem, hname⟩ := findNamed_some found
      rw [listed.mutexes h sem hsem] at hname
      cases hname
    · intro _ obj member hkind
      simp [listed.unnamed obj member (.inr hkind)]
  | queue =>
    have opened : s.openByName rs .queue order pszName ptr =
        s.opened (s.findQueueByName order (s.nameAt rs pszName)) ptr errorQueueNameNotExist := rfl
    apply opensLive_of_found (by decide) opened
    · intro h found
      obtain ⟨queue, hqueue, hname⟩ := findNamed_some found
      rw [← hname]
      exact ⟨listed.queues h queue hqueue, by simp [Valid, hqueue]⟩
    · intro missing obj member hkind
      obtain ⟨queue, hqueue, hname⟩ := listed.opened obj member hkind
      rw [hname]
      exact findNamed_none visits missing hqueue
  | memory =>
    have opened : s.openByName rs .memory order pszName ptr =
        s.opened (s.namedBlocks (s.nameAt rs pszName)) ptr errorFileNotFound := rfl
    apply opensLive_of_found (by decide) opened
    · intro addr found
      have member := listed.named _ addr found
      refine ⟨member, ?_⟩
      change addr ∈ s.memMgr.addresses
      rw [← listed.blocks]
      exact List.mem_map.mpr ⟨_, List.mem_filter.mpr ⟨member, by simp⟩, rfl⟩
    · rintro missing ⟨_, addr, _⟩ member rfl rfl
      have found := listed.found _ addr member
      rw [missing] at found
      cases found

section Steps

variable {next : NameState} {kind : ObjectKind} {h : Nat}

theorem mem_closed {obj : LiveObject} (apart : obj.kind ≠ kind) :
    obj ∈ s.closed kind h ↔ obj ∈ s.live :=
  List.mem_eraseP_of_neg (by simp [LiveObject.isAt, apart])

theorem closed_subset {obj : LiveObject} (member : obj ∈ s.closed kind h) : obj ∈ s.live :=
  List.eraseP_sublist.subset member

theorem closed_blocks (other : kind ≠ .memory) :
    (s.closed kind h).filter (fun obj => obj.kind = .memory) =
      s.live.filter fun obj => obj.kind = .memory := by
  unfold closed
  induction s.live with
  | nil => rfl
  | cons first rest ih =>
    by_cases here : first.isAt kind h
    · rw [List.eraseP_cons_of_pos here]
      have same : first.kind = kind := (of_decide_eq_true here).1
      rw [List.filter_cons_of_neg (by simp [same, other])]
    · rw [List.eraseP_cons_of_neg here, List.filter_cons, List.filter_cons, ih]

/-- One more object, and its own entry. -/
theorem Listed.add (listed : s.Listed) {obj : LiveObject} (live : next.live = s.live ++ [obj])
    (events : ∀ h sem, next.eventSems h = some sem → sem.name = none)
    (mutexes : ∀ h sem, next.mutexSems h = some sem → sem.name = none)
    (unnamed : obj.kind = .event ∨ obj.kind = .mutex → obj.name = none)
    (queues : ∀ h queue, next.queues h = some queue →
      s.queues h = some queue ∨ obj = ⟨.queue, h, some queue.name⟩)
    (kept : ∀ h queue, s.queues h = some queue → next.queues h = some queue)
    (fresh : obj.kind = .queue → s.queues obj.handle = none ∧
      ∃ queue, next.queues obj.handle = some queue ∧ obj.name = some queue.name)
    (blocks : next.memMgr.addresses = s.memMgr.addresses ++
      if obj.kind = .memory then [obj.handle] else [])
    (named : ∀ name addr, next.namedBlocks name = some addr →
      s.namedBlocks name = some addr ∨ obj = ⟨.memory, addr, some name⟩)
    (found : ∀ name, (s.namedBlocks name).isSome ∨ obj.kind = .memory ∧ obj.name = some name →
      (next.namedBlocks name).isSome) : next.Listed := by
  have either : ∀ other ∈ next.live, other ∈ s.live ∨ other = obj := by
    intro other member
    rw [live] at member
    exact (List.mem_append.mp member).imp_right List.mem_singleton.mp
  have old : ∀ other ∈ s.live, other ∈ next.live :=
    fun other member => live ▸ List.mem_append_left _ member
  have new : obj ∈ next.live := live ▸ List.mem_append_right _ (List.mem_singleton_self obj)
  refine ⟨events, mutexes, ?_, ?_, ?_, ?_, ?_, ?_, ?_⟩
  · intro other member hkind
    rcases either other member with before | rfl
    · exact listed.unnamed other before hkind
    · exact unnamed hkind
  · intro h queue hqueue
    rcases queues h queue hqueue with before | rfl
    · exact old _ (listed.queues h queue before)
    · exact new
  · intro other member hkind
    rcases either other member with before | rfl
    · obtain ⟨queue, hqueue, hname⟩ := listed.opened other before hkind
      exact ⟨queue, kept _ queue hqueue, hname⟩
    · exact (fresh hkind).2
  · rw [live]
    refine List.pairwise_append.mpr ⟨listed.single, List.pairwise_singleton _ _, ?_⟩
    intro other member last hlast hother hkind same
    obtain rfl := List.mem_singleton.mp hlast
    obtain ⟨queue, hqueue, _⟩ := listed.opened other member hother
    rw [same, (fresh hkind).1] at hqueue
    cases hqueue
  · rw [live, blocks, List.filter_append, List.map_append, listed.blocks]
    by_cases hkind : obj.kind = .memory <;> simp [hkind]
  · intro name addr hnamed
    rcases named name addr hnamed with before | rfl
    · exact old _ (listed.named name addr before)
    · exact new
  · intro name addr member
    apply found
    rcases either _ member with before | rfl
    · exact .inl (listed.found name addr before)
    · exact .inr ⟨rfl, rfl⟩

/-- A semaphore without a name changes nothing for the other kinds. -/
theorem Listed.semaphore (listed : s.Listed) (sem : kind = .event ∨ kind = .mutex)
    (live : next.live = s.live ++ [⟨kind, h, none⟩]) (queues : next.queues = s.queues)
    (namedBlocks : next.namedBlocks = s.namedBlocks) (memMgr : next.memMgr = s.memMgr)
    (events : ∀ h sem, next.eventSems h = some sem → sem.name = none)
    (mutexes : ∀ h sem, next.mutexSems h = some sem → sem.name = none) : next.Listed := by
  have notQueue : kind ≠ .queue := by rcases sem with rfl | rfl <;> simp
  have notMemory : kind ≠ .memory := by rcases sem with rfl | rfl <;> simp
  refine listed.add live events mutexes (fun _ => rfl) ?_ ?_ (absurd · notQueue) ?_ ?_ ?_
  · exact fun h queue hqueue => .inl (queues ▸ hqueue)
  · exact fun h queue hqueue => queues ▸ hqueue
  · rw [memMgr, if_neg notMemory, List.append_nil]
  · exact fun name addr found => .inl (namedBlocks ▸ found)
  · rintro name (before | ⟨block, -⟩)
    · exact namedBlocks ▸ before
    · exact absurd block notMemory

theorem Listed.createQueue (listed : s.Listed) (fresh : s.queues s.nextQueue = none)
    (phq attr pszName : UInt32) : (s.dosCreateQueue rs phq attr pszName).Listed := by
  refine @Listed.add _ _ listed ⟨.queue, s.nextQueue, some (s.nameAt rs pszName)⟩ rfl listed.events
    listed.mutexes (by simp) ?_ ?_ ?_ (List.append_nil _).symm (fun _ _ found => .inl found) ?_
  · intro h queue hqueue
    rcases Table.insert_eq_some.mp hqueue with ⟨rfl, rfl⟩ | ⟨_, before⟩
    · exact .inr rfl
    · exact .inl before
  · intro h queue hqueue
    refine Table.insert_eq_some.mpr (.inr ⟨?_, hqueue⟩)
    rintro rfl
    rw [fresh] at hqueue
    cases hqueue
  · exact fun _ => ⟨fresh, _, Table.insert_self .., rfl⟩
  · rintro name (before | ⟨block, -⟩)
    · exact before
    · cases block

theorem Listed.allocate (listed : s.Listed) {cb addr : Nat} {memMgr : MemoryManager}
    (h : s.memMgr.alloc cb = some (addr, memMgr)) (ppb : UInt32) (name : Option String)
    (namedBlocks : Table String Nat)
    (named : ∀ other block, namedBlocks other = some block →
      some other = name ∧ block = addr ∨ s.namedBlocks other = some block)
    (found : ∀ other, some other = name ∨ (s.namedBlocks other).isSome →
      (namedBlocks other).isSome) :
    Listed { { s with memMgr }.created .memory addr name ppb with namedBlocks } := by
  refine @Listed.add _ _ listed ⟨.memory, addr, name⟩ rfl listed.events listed.mutexes (by simp)
    (fun _ _ hqueue => .inl hqueue) (fun _ _ hqueue => hqueue) (by simp)
    (MemoryManager.alloc_addresses h) ?_ ?_
  · intro other block hblock
    rcases named other block hblock with ⟨rfl, rfl⟩ | before
    · exact .inr rfl
    · exact .inl before
  · rintro other (before | ⟨-, same⟩)
    · exact found other (.inr before)
    · exact found other (.inl same.symm)

/-- The first block at an address goes out of the list as it goes out of the manager. -/
theorem closed_memory (addr : Nat) :
    ((s.closed .memory addr).filter fun obj => obj.kind = .memory).map LiveObject.handle =
      ((s.live.filter fun obj => obj.kind = .memory).map LiveObject.handle).erase addr := by
  unfold closed
  induction s.live with
  | nil => rfl
  | cons first rest ih =>
    by_cases block : first.kind = .memory
    · by_cases here : first.handle = addr
      · rw [List.eraseP_cons_of_pos (by simp [LiveObject.isAt, block, here]),
          List.filter_cons_of_pos (by simpa using block), List.map_cons, here,
          List.erase_cons_head]
      · rw [List.eraseP_cons_of_neg (by simp [LiveObject.isAt, here]),
          List.filter_cons_of_pos (by simpa using block),
          List.filter_cons_of_pos (by simpa using block), List.map_cons, List.map_cons,
          List.erase_cons_tail (by simpa using here), ih]
    · rw [List.eraseP_cons_of_neg (by simp [LiveObject.isAt, block]),
        List.filter_cons_of_neg (by simpa using block),
        List.filter_cons_of_neg (by simpa using block), ih]

/-- The first object at a handle goes, with its own entry. -/
theorem Listed.remove (listed : s.Listed) (live : next.live = s.closed kind h)
    (events : ∀ h sem, next.eventSems h = some sem → sem.name = none)
    (mutexes : ∀ h sem, next.mutexSems h = some sem → sem.name = none)
    (queues : next.queues = if kind = .queue then s.queues.erase h else s.queues)
    (blocks : next.memMgr.addresses =
      if kind = .memory then s.memMgr.addresses.erase h else s.memMgr.addresses)
    (namedBlocks : next.namedBlocks = s.namedBlocks)
    (kept : kind = .memory → ∀ name, s.namedBlocks name = some h →
      ⟨.memory, h, some name⟩ ∈ s.closed .memory h) : next.Listed := by
  refine ⟨events, mutexes, ?_, ?_, ?_, ?_, ?_, ?_, ?_⟩
  · exact fun obj member => listed.unnamed obj (closed_subset (live ▸ member))
  · intro other queue hqueue
    rw [queues] at hqueue
    rw [live]
    split at hqueue
    · obtain ⟨apart, before⟩ := Table.erase_eq_some.mp hqueue
      refine (List.mem_eraseP_of_neg ?_).mpr (listed.queues other queue before)
      simp [LiveObject.isAt, apart]
    · rename_i elsewhere
      exact (mem_closed (Ne.symm elsewhere)).mpr (listed.queues other queue hqueue)
  · intro obj member hkind
    rw [live] at member
    obtain ⟨queue, hqueue, hname⟩ := listed.opened obj (closed_subset member) hkind
    rw [queues]
    split
    · rename_i here
      subst here
      have single : s.live.Pairwise fun a b => a.isAt .queue h → ¬b.isAt .queue h := by
        refine listed.single.imp fun {a b} apart ha hb => ?_
        obtain ⟨hkind, hhandle⟩ := of_decide_eq_true ha
        obtain ⟨hother, same⟩ := of_decide_eq_true hb
        exact apart hkind hother (hhandle.trans same.symm)
      have apart : obj.handle ≠ h := fun same =>
        eraseP_clears single obj member (decide_eq_true ⟨hkind, same⟩)
      exact ⟨queue, Table.erase_eq_some.mpr ⟨apart, hqueue⟩, hname⟩
    · exact ⟨queue, hqueue, hname⟩
  · rw [live]
    exact listed.single.sublist List.eraseP_sublist
  · rw [live, blocks]
    split
    · rename_i block
      subst block
      rw [closed_memory, listed.blocks]
    · rename_i other
      rw [closed_blocks other, listed.blocks]
  · intro name addr found
    rw [namedBlocks] at found
    have member := listed.named name addr found
    rw [live]
    by_cases here : kind = .memory ∧ addr = h
    · obtain ⟨rfl, rfl⟩ := here
      exact kept rfl name found
    · refine (List.mem_eraseP_of_neg ?_).mpr member
      simp only [LiveObject.isAt, decide_eq_true_eq]
      exact fun at' => here ⟨at'.1.symm, at'.2⟩
  · intro name addr member
    rw [live] at member
    rw [namedBlocks]
    exact listed.found name addr (closed_subset member)

theorem Listed.allocSharedMem (listed : s.Listed) (ppb pszName cb : UInt32) :
    (s.dosAllocSharedMem rs ppb pszName cb).Listed := by
  unfold dosAllocSharedMem
  dsimp only
  split
  · rename_i addr memMgr halloc
    split
    · rename_i name hname
      rw [hname]
      refine listed.allocate halloc ppb (some name) (s.namedBlocks.insert name addr) ?_ ?_
      · intro other block hblock
        rcases Table.insert_eq_some.mp hblock with ⟨rfl, rfl⟩ | ⟨_, old⟩
        · exact .inl ⟨rfl, rfl⟩
        · exact .inr old
      · intro other known
        by_cases here : other = name
        · rw [here, Table.insert_self]
          rfl
        · rw [Table.insert_ne _ _ here]
          exact known.resolve_left fun same => here (Option.some.inj same)
    · rename_i hname
      rw [hname]
      exact listed.allocate halloc ppb none s.namedBlocks (fun _ _ h => .inr h) (by simp)
  · exact listed

theorem Listed.allocMem (listed : s.Listed) (ppb cb : UInt32) : (s.dosAllocMem ppb cb).Listed := by
  unfold dosAllocMem
  split
  · rename_i addr memMgr halloc
    exact listed.allocate halloc ppb none s.namedBlocks (fun _ _ h => .inr h) (by simp)
  · exact listed

theorem Listed.freeMem (listed : s.Listed) {pb : UInt32} (allowed : s.Findable (.freeMem pb)) :
    (s.dosFreeMem pb).Listed := by
  have addresses := MemoryManager.free_addresses s.memMgr pb.toNat
  unfold dosFreeMem
  split
  · rename_i memMgr hfree
    rw [hfree] at addresses
    refine listed.remove rfl listed.events listed.mutexes rfl addresses rfl ?_
    intro _ name found
    exact allowed _ (listed.named name _ found) (by simp [LiveObject.isAt]) name rfl found
  · exact listed

theorem Listed.createEvent (listed : s.Listed) (phev flAttr fState : UInt32) :
    (s.dosCreateEventSem rs 0 phev flAttr fState).Listed := by
  refine listed.semaphore (.inl rfl) rfl rfl rfl rfl ?_ listed.mutexes
  intro h sem hsem
  rcases Table.insert_eq_some.mp hsem with ⟨_, rfl⟩ | ⟨_, old⟩
  · rfl
  · exact listed.events h sem old

theorem Listed.createMutex (listed : s.Listed) (phmtx flAttr fState : UInt32) :
    (s.dosCreateMutexSem rs 0 phmtx flAttr fState).Listed := by
  refine listed.semaphore (.inr rfl) rfl rfl rfl rfl listed.events ?_
  intro h sem hsem
  rcases Table.insert_eq_some.mp hsem with ⟨_, rfl⟩ | ⟨_, old⟩
  · rfl
  · exact listed.mutexes h sem old

theorem Listed.exec (listed : s.Listed) {call : NameCall} (allowed : s.Findable call) :
    (s.exec rs call).Listed := by
  cases call with
  | createEventSem pszName phev flAttr fState =>
    obtain rfl : pszName = 0 := allowed
    exact listed.createEvent phev flAttr fState
  | closeEventSem hev =>
    refine listed.remove rfl ?_ listed.mutexes rfl rfl rfl (by simp)
    exact fun h sem hsem => listed.events h sem (Table.erase_eq_some.mp hsem).2
  | createMutexSem pszName phmtx flAttr fState =>
    obtain rfl : pszName = 0 := allowed
    exact listed.createMutex phmtx flAttr fState
  | closeMutexSem hmtx =>
    refine listed.remove rfl listed.events ?_ rfl rfl rfl (by simp)
    exact fun h sem hsem => listed.mutexes h sem (Table.erase_eq_some.mp hsem).2
  | createQueue phq attr pszName => exact listed.createQueue allowed phq attr pszName
  | closeQueue hq =>
    exact listed.remove rfl listed.events listed.mutexes rfl rfl rfl (by simp)
  | allocSharedMem ppb pszName cb =>
    change (s.dosAllocSharedMem rs ppb pszName cb).Listed
    exact listed.allocSharedMem ppb pszName cb
  | allocMem ppb cb =>
    change (s.dosAllocMem ppb cb).Listed
    exact listed.allocMem ppb cb
  | freeMem pb =>
    change (s.dosFreeMem pb).Listed
    exact listed.freeMem allowed
  | setProcessCp cp =>
    unfold NameState.exec
    dsimp only
    split
    · exact ⟨listed.events, listed.mutexes, listed.unnamed, listed.queues, listed.opened,
        listed.single, listed.blocks, listed.named, listed.found⟩
    · exact listed
  | store offset data =>
    exact ⟨listed.events, listed.mutexes, listed.unnamed, listed.queues, listed.opened,
      listed.single, listed.blocks, listed.named, listed.found⟩

theorem initial_listed (guestMem : GuestMemory) (codepage : Nat) (memMgr : MemoryManager) :
    (initial guestMem codepage memMgr).Listed := by
  have unnamed : ∀ obj ∈ (initial guestMem codepage memMgr).live,
      obj.kind = .memory ∧ obj.name = none := by
    intro obj member
    obtain ⟨addr, _, rfl⟩ := List.mem_map.mp member
    exact ⟨rfl, rfl⟩
  refine ⟨by simp [initial], by simp [initial], fun obj member _ => (unnamed obj member).2,
    by simp [initial], ?_, ?_, ?_, by simp [initial], ?_⟩
  · intro obj member hkind
    rw [(unnamed obj member).1] at hkind
    cases hkind
  · refine List.Pairwise.imp_of_mem ?_ (List.pairwise_of_forall fun _ _ => trivial)
    intro a _ ha _ _ hkind
    rw [(unnamed a ha).1] at hkind
    cases hkind
  · rw [List.filter_eq_self.mpr fun obj member => by simp [(unnamed obj member).1]]
    simp [initial, Function.comp_def]
  · intro name addr member
    cases (unnamed _ member).2

end Steps

/-- Over every run in which names are kept and no named block goes, a call that opens
by name finds what exists under the name, and nothing else. -/
theorem findable_run_namesFound (rs : EncodingRs) (guestMem : GuestMemory) (codepage : Nat)
    (memMgr : MemoryManager) (calls : List NameCall) (s : NameState)
    (run : Run ((step rs).guarded Findable) (initial guestMem codepage memMgr) calls s) :
    s.NamesFound rs := by
  have listed : s.Listed := by
    refine run.invariant Listed ?_ (initial_listed guestMem codepage memMgr)
    rintro start call finish listed ⟨allowed, rfl⟩
    exact listed.exec allowed
  exact listed.namesFound

def findableExec (rs : EncodingRs) (s : NameState) (call : NameCall) : Option NameState :=
  if s.Findable call then some (s.exec rs call) else none

theorem findableExec_step (rs : EncodingRs) (start : NameState) (call : NameCall)
    (finish : NameState) (h : start.findableExec rs call = some finish) :
    (step rs).guarded Findable start call finish := by
  unfold findableExec at h
  split at h
  · rename_i allowed
    exact ⟨allowed, Option.some.inj h⟩
  · cases h

def sampleRs : EncodingRs := ⟨fun _ _ => [], fun _ _ => []⟩

/-- The name "A" is at address 16. -/
def sampleStart : NameState :=
  initial ((GuestMemory.mk 4096 fun _ => 0).putBytes 16 [0x41]) 437 (.new 0x1000 0x4000)

/-- A queue and a block of memory have one name, another queue is closed, and the block
gives its name to another one before it is freed. -/
def sampleCalls : List NameCall :=
  [.createQueue 32 0 16, .createQueue 32 0 16, .closeQueue 1, .allocSharedMem 64 16 4096,
    .allocSharedMem 64 16 4096, .freeMem 0x1000]

theorem findable_run_namesFound_renamed : ∃ s : NameState,
    sampleCalls.foldlM (findableExec sampleRs) sampleStart = some s ∧ s.live.length = 2 ∧
      s.NamesFound sampleRs := by
  have hrun : (sampleCalls.foldlM (findableExec sampleRs) sampleStart).map (·.live.length) =
      some 2 := by decide +kernel
  obtain ⟨s, hs, hlive⟩ := Option.map_eq_some_iff.mp hrun
  exact ⟨s, hs, hlive, findable_run_namesFound sampleRs _ _ _ sampleCalls s
    (Run.of_foldlM (findableExec_step sampleRs) hs)⟩

/-- An event semaphore that is created with a name is not found by it. -/
theorem named_semaphore_missing : ¬∀ (rs : EncodingRs) (guestMem : GuestMemory) (codepage : Nat)
    (memMgr : MemoryManager) (calls : List NameCall) (s : NameState),
    Run (step rs) (initial guestMem codepage memMgr) calls s → s.NamesFound rs := by
  intro all
  have names := all sampleRs _ _ _ _ _ (.cons rfl (.nil (sampleStart.exec sampleRs
    (.createEventSem 16 32 0 0))))
  have visits : (sampleStart.exec sampleRs (.createEventSem 16 32 0 0)).Order .event [1] := by
    intro h
    by_cases here : h = 1 <;>
      simp [NameState.exec, dosCreateEventSem, createEvent, created, sampleStart, initial, here]
  have opens := names .event [1] 16 64 (.inr (.inr (by decide))) visits
  have success := opens.success.mpr (by decide +kernel)
  exact absurd success (by decide)

end NameState
end Warpine.Ipc
