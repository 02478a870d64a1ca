import Mathlib.Data.List.Basic
import Mathlib.Data.List.Destutter
import Mathlib.Data.List.DropRight
import Mathlib.Data.List.Nodup
import Mathlib.Data.List.Perm.Basic
import Mathlib.Data.List.Sort

/-! List operations of imperative table code: taking the first entry that
matches out of a list, and association lists in which the newest entry wins. -/
namespace Warpine.Lib

/-- The first element that satisfies the test, with the list it leaves behind. -/
def takeFirst {α : Type} (test : α → Bool) : List α → Option (α × List α)
  | [] => none
  | head :: tail =>
      if test head then some (head, tail)
      else (takeFirst test tail).map fun found => (found.1, head :: found.2)

theorem takeFirst_split {α : Type} {test : α → Bool} {list rest : List α} {found : α}
    (h : takeFirst test list = some (found, rest)) :
    ∃ before after, list = before ++ found :: after ∧ rest = before ++ after ∧
      test found = true ∧ ∀ other ∈ before, test other = false := by
  induction list generalizing rest with
  | nil => simp [takeFirst] at h
  | cons head tail ih =>
    unfold takeFirst at h
    split at h
    · rename_i passes
      cases h
      exact ⟨[], tail, rfl, rfl, passes, by simp⟩
    · rename_i fails
      obtain ⟨⟨other, left⟩, hfound, hpair⟩ := Option.map_eq_some_iff.mp h
      cases hpair
      obtain ⟨before, after, hlist, hrest, passes, skipped⟩ := ih hfound
      refine ⟨head :: before, after, by rw [hlist]; rfl, by rw [hrest]; rfl, passes, ?_⟩
      intro entry hentry
      rcases List.mem_cons.mp hentry with rfl | hentry
      · simpa using fails
      · exact skipped entry hentry

theorem takeFirst_perm {α : Type} {test : α → Bool} {list rest : List α} {found : α}
    (h : takeFirst test list = some (found, rest)) : list.Perm (found :: rest) := by
  obtain ⟨before, after, hlist, hrest, _, _⟩ := takeFirst_split h
  rw [hlist, hrest]
  exact List.perm_middle

theorem takeFirst_test {α : Type} {test : α → Bool} {list rest : List α} {found : α}
    (h : takeFirst test list = some (found, rest)) : test found = true := by
  obtain ⟨_, _, _, _, passes, _⟩ := takeFirst_split h
  exact passes

theorem takeFirst_none {α : Type} {test : α → Bool} {list : List α}
    (h : takeFirst test list = none) : ∀ item ∈ list, ¬test item := by
  induction list with
  | nil => simp
  | cons head tail ih =>
    unfold takeFirst at h
    split at h
    · cases h
    · rename_i fails
      exact List.forall_mem_cons.mpr ⟨fails, ih (Option.map_eq_none_iff.mp h)⟩

/-- What every turn of a loop preserves, the loop preserves. -/
theorem foldlM_preserves {α σ : Type} {body : σ → α → Option σ} {property : σ → Prop}
    {list : List α} {start final : σ}
    (turn : ∀ item ∈ list, ∀ state next, property state → body state item = some next →
      property next)
    (h : list.foldlM body start = some final) (first : property start) : property final := by
  induction list generalizing start with
  | nil =>
    cases h
    exact first
  | cons item rest ih =>
    obtain ⟨hitem, hrest⟩ := List.forall_mem_cons.mp turn
    rw [List.foldlM_cons] at h
    obtain ⟨next, hnext, h⟩ := Option.bind_eq_some_iff.mp h
    exact ih hrest h (hitem start next first hnext)

/-- A loop over a buffer whose length no turn changes. -/
theorem foldlM_length {α ι : Type} {body : List α → ι → Option (List α)} {items : List ι}
    {buf after : List α}
    (turn : ∀ buf item next, body buf item = some next → next.length = buf.length)
    (h : items.foldlM body buf = some after) : after.length = buf.length :=
  @foldlM_preserves _ _ _ (fun now => now.length = buf.length) _ _ _
    (fun item _ now next same run => (turn now item next run).trans same) h rfl

/-- A loop runs to its end when each of its turns does, if that does not depend on the state. -/
theorem isSome_foldlM {α σ : Type} {body : σ → α → Option σ} {property : σ → Prop} {ok : α → Prop}
    {list : List α} {state : σ}
    (keeps : ∀ state, ∀ item ∈ list, ∀ next, property state → body state item = some next →
      property next)
    (turn : ∀ state, ∀ item ∈ list, property state → ((body state item).isSome = true ↔ ok item))
    (start : property state) :
    (list.foldlM body state).isSome = true ↔ ∀ item ∈ list, ok item := by
  induction list generalizing state with
  | nil => simp
  | cons item rest ih =>
    have first := turn state item List.mem_cons_self start
    rw [List.foldlM_cons, List.forall_mem_cons, ← first, Option.bind_eq_bind]
    cases found : body state item with
    | none => simp
    | some next =>
      have later := ih (fun state item member => keeps state item (List.mem_cons_of_mem _ member))
        (fun state item member => turn state item (List.mem_cons_of_mem _ member))
        (keeps state item List.mem_cons_self next start found)
      rw [Option.bind_some, later, Option.isSome_some, eq_self_iff_true, true_and]

/-- A loop none of whose turns does anything. -/
theorem foldlM_idle {α σ : Type} {body : σ → α → Option σ} {list : List α}
    (turn : ∀ item ∈ list, ∀ state, body state item = some state) (start : σ) :
    list.foldlM body start = some start := by
  induction list with
  | nil => rfl
  | cons item rest ih =>
    obtain ⟨hitem, hrest⟩ := List.forall_mem_cons.mp turn
    rw [List.foldlM_cons, hitem, Option.bind_eq_bind, Option.bind_some, ih hrest]

/-- Loops whose bodies agree on the items of the list. -/
theorem foldlM_congr_mem {m : Type → Type} [Monad m] {α σ : Type} {list : List α}
    {body other : σ → α → m σ} (same : ∀ item ∈ list, ∀ state, body state item = other state item)
    (start : σ) : list.foldlM body start = list.foldlM other start := by
  induction list generalizing start with
  | nil => rfl
  | cons item rest ih =>
    obtain ⟨first, later⟩ := List.forall_mem_cons.mp same
    rw [List.foldlM_cons, List.foldlM_cons, first]
    congr 1
    funext next
    exact ih later next

/-- Nested loops as one loop over all their items. -/
theorem foldlM_flatMap {m : Type → Type} [Monad m] [LawfulMonad m] {α β σ : Type}
    (list : List α) (items : α → List β) (body : σ → β → m σ) (start : σ) :
    (list.flatMap items).foldlM body start =
      list.foldlM (fun state entry => (items entry).foldlM body state) start := by
  induction list generalizing start with
  | nil => simp
  | cons head tail ih => simp [List.foldlM_append, ih]

/-- A loop that numbers its items and looks each number up in a list as long. -/
theorem foldlM_zipIdx_lookup {α β σ : Type} (all : List β) (body : σ → α → β → Option σ)
    (list : List α) (k : Nat) (start : σ) (same : (all.drop k).length = list.length) :
    (list.zipIdx k).foldlM (fun state entry => do
        let found ← all[entry.2]?
        body state entry.1 found) start =
      (list.zip (all.drop k)).foldlM (fun state pair => body state pair.1 pair.2) start := by
  induction list generalizing k start with
  | nil => simp
  | cons head tail ih =>
    have hk : k < all.length := by
      rw [List.length_drop, List.length_cons] at same
      omega
    rw [List.drop_eq_getElem_cons hk, List.length_cons, List.length_cons] at same
    rw [List.zipIdx_cons, List.foldlM_cons, List.drop_eq_getElem_cons hk, List.zip_cons_cons,
      List.foldlM_cons]
    simp only [List.getElem?_eq_getElem hk, Option.bind_eq_bind, Option.bind_some]
    congr 1
    funext state
    exact ih (k + 1) state (by omega)

/-- Two searches find the same where they agree up to the first hit of one of them. -/
theorem find?_eq_find?_iff {α : Type} {test other : α → Bool} {list : List α} :
    list.find? test = list.find? other ↔
      ∀ before item after, list = before ++ item :: after →
        (∀ x ∈ before, other x = false) → test item = other item := by
  induction list with
  | nil => simp
  | cons head tail ih =>
    constructor
    · intro same before item after hlist skipped
      cases hhead : other head with
      | true =>
        cases before with
        | nil =>
          obtain ⟨rfl, -⟩ := List.cons.inj hlist
          rw [List.find?_cons_of_pos hhead] at same
          rw [hhead, List.find?_some same]
        | cons first rest =>
          obtain ⟨rfl, -⟩ := List.cons.inj hlist
          simp [skipped head List.mem_cons_self] at hhead
      | false =>
        have fails : test head = false := by
          by_contra passes
          rw [List.find?_cons_of_pos (by simpa using passes),
            List.find?_cons_of_neg (by simp [hhead])] at same
          have := List.find?_some same.symm
          simp [hhead] at this
        rw [List.find?_cons_of_neg (by simp [fails]),
          List.find?_cons_of_neg (by simp [hhead])] at same
        cases before with
        | nil =>
          obtain ⟨rfl, -⟩ := List.cons.inj hlist
          rw [fails, hhead]
        | cons first rest =>
          obtain ⟨rfl, hrest⟩ := List.cons.inj hlist
          exact ih.mp same rest item after hrest (List.forall_mem_cons.mp skipped).2
    · intro agree
      have here : test head = other head := agree [] head tail rfl (by simp)
      cases hhead : other head with
      | true => rw [List.find?_cons_of_pos (here.trans hhead), List.find?_cons_of_pos hhead]
      | false =>
        rw [List.find?_cons_of_neg (by simp [here, hhead]),
          List.find?_cons_of_neg (by simp [hhead])]
        refine ih.mpr fun before item after hlist skipped => ?_
        exact agree (head :: before) item after (by rw [hlist]; rfl)
          (List.forall_mem_cons.mpr ⟨hhead, skipped⟩)

/-- The element at an index can be pulled out in front. -/
theorem perm_cons_eraseIdx {α : Type} {list : List α} {idx : Nat} {item : α}
    (h : list[idx]? = some item) : list.Perm (item :: list.eraseIdx idx) := by
  obtain ⟨hidx, rfl⟩ := List.getElem?_eq_some_iff.mp h
  exact (List.getElem_cons_eraseIdx_perm hidx).symm

/-- In two lists of one length every element of the second has its partner. -/
theorem exists_mem_zip {α β : Type} {left : List α} {right : List β} {item : β}
    (same : right.length = left.length) (h : item ∈ right) :
    ∃ partner, (partner, item) ∈ left.zip right := by
  rw [← List.map_snd_zip (Nat.le_of_eq same)] at h
  obtain ⟨⟨partner, found⟩, hmember, rfl⟩ := List.mem_map.mp h
  exact ⟨partner, hmember⟩

/-- Where at most one element satisfies the test, none is left that does. -/
theorem eraseP_clears {α : Type} {test : α → Bool} {list : List α}
    (single : list.Pairwise fun a b => test a → ¬test b) :
    ∀ item ∈ list.eraseP test, ¬test item := by
  induction list with
  | nil => simp
  | cons head tail ih =>
    obtain ⟨hhead, htail⟩ := List.pairwise_cons.mp single
    by_cases passes : test head
    · rw [List.eraseP_cons_of_pos passes]
      exact fun item member => hhead item member passes
    · rw [List.eraseP_cons_of_neg passes]
      exact List.forall_mem_cons.mpr ⟨passes, ih htail⟩

theorem zip_eraseIdx {α β : Type} (left : List α) (right : List β) (idx : Nat) :
    (left.eraseIdx idx).zip (right.eraseIdx idx) = (left.zip right).eraseIdx idx := by
  induction left generalizing right idx with
  | nil => simp
  | cons first rest ih =>
    cases right with
    | nil => simp
    | cons other others =>
      cases idx with
      | zero => rfl
      | succ idx => simp [ih]

/-- Where one element of the first list is changed, its partner is the same. -/
theorem mem_zip_modify {α β : Type} {left : List α} {right : List β} {change : α → α} {idx : Nat}
    {item : α × β} (h : item ∈ (left.modify idx change).zip right) :
    ∃ first, (first, item.2) ∈ left.zip right ∧ (item.1 = first ∨ item.1 = change first) := by
  induction left generalizing right idx with
  | nil => simp at h
  | cons head rest ih =>
    cases right with
    | nil => simp at h
    | cons other others =>
      cases idx with
      | zero =>
        rcases List.mem_cons.mp h with rfl | later
        · exact ⟨head, List.mem_cons_self, .inr rfl⟩
        · exact ⟨item.1, List.mem_cons_of_mem _ later, .inl rfl⟩
      | succ idx =>
        rcases List.mem_cons.mp h with rfl | later
        · exact ⟨head, List.mem_cons_self, .inl rfl⟩
        · obtain ⟨first, member, same⟩ := ih later
          exact ⟨first, List.mem_cons_of_mem _ member, same⟩

/-- In an ascending list the smaller element stands before. -/
theorem idxOf_lt_of_sorted {list : List Nat} (sorted : list.Pairwise (· < ·)) {a b : Nat}
    (ha : a ∈ list) (hb : b ∈ list) (less : a < b) : list.idxOf a < list.idxOf b := by
  have hlta := List.idxOf_lt_length_of_mem ha
  have hltb := List.idxOf_lt_length_of_mem hb
  by_contra later
  have order : list.idxOf b = list.idxOf a ∨ list.idxOf b < list.idxOf a := by omega
  rcases order with same | before
  · exact absurd ((List.idxOf_inj ha).mp same.symm) (by omega)
  · have := List.pairwise_iff_getElem.mp sorted _ _ hltb hlta before
    rw [List.getElem_idxOf, List.getElem_idxOf] at this
    omega

theorem length_flatMap_le {α β γ : Type} {list : List α} {f : α → List β} {g : α → List γ}
    (le : ∀ a ∈ list, (f a).length ≤ (g a).length) :
    (list.flatMap f).length ≤ (list.flatMap g).length := by
  induction list with
  | nil => simp
  | cons head tail ih =>
    have hhead := le head List.mem_cons_self
    have htail := ih fun a ha => le a (List.mem_cons_of_mem head ha)
    rw [List.flatMap_cons, List.flatMap_cons, List.length_append, List.length_append]
    omega

/-- Where every part is at most as long as another, and all together are as long,
every part is as long as the other. -/
theorem length_eq_of_flatMap {α β γ : Type} {list : List α} {f : α → List β} {g : α → List γ}
    (le : ∀ a ∈ list, (f a).length ≤ (g a).length)
    (same : (list.flatMap f).length = (list.flatMap g).length) :
    ∀ a ∈ list, (f a).length = (g a).length := by
  induction list with
  | nil => simp
  | cons head tail ih =>
    obtain ⟨hhead, htail⟩ := List.forall_mem_cons.mp le
    have hle := length_flatMap_le htail
    rw [List.flatMap_cons, List.flatMap_cons, List.length_append, List.length_append] at same
    exact List.forall_mem_cons.mpr ⟨by omega, ih htail (by omega)⟩

theorem filterMap_singleton {α β : Type} (f : α → Option β) (a : α) :
    [a].filterMap f = (f a).toList := by
  cases h : f a <;> simp [h]

/-- A search by a key that no two items share. -/
theorem find?_key_eq_some {α κ : Type} {key : α → κ} {list : List α} {test : α → Bool} {k : κ}
    (nodup : (list.map key).Nodup) (h : ∀ item, test item = true ↔ key item = k) {item : α} :
    list.find? test = some item ↔ item ∈ list ∧ key item = k := by
  constructor
  · intro hfound
    exact ⟨List.mem_of_find?_eq_some hfound, (h item).mp (List.find?_some hfound)⟩
  · intro ⟨hmember, hkey⟩
    cases hfound : list.find? test with
    | none => exact absurd ((h item).mpr hkey) (List.find?_eq_none.mp hfound item hmember)
    | some other =>
      have hother := (h other).mp (List.find?_some hfound)
      rw [List.inj_on_of_nodup_map nodup (List.mem_of_find?_eq_some hfound) hmember
        (hother.trans hkey.symm)]

/-- What `mapM` makes of each item. -/
theorem getElem?_of_mapM {α β : Type} {body : α → Option β} {list : List α} {results : List β}
    (h : list.mapM body = some results) {i : Nat} {item : α} (member : list[i]? = some item) :
    ∃ result, body item = some result ∧ results[i]? = some result := by
  induction list generalizing results i with
  | nil => cases member
  | cons head rest ih =>
    rw [List.mapM_cons] at h
    obtain ⟨result, hhead, h⟩ := Option.bind_eq_some_iff.mp h
    obtain ⟨others, hrest, h⟩ := Option.bind_eq_some_iff.mp h
    cases h
    cases i with
    | zero =>
      cases member
      exact ⟨result, hhead, rfl⟩
    | succ i => exact ih hrest member

theorem mapM_snd_eq {α β : Type} {outcomes : List (α × Option β)} {results : List β}
    (h : outcomes.map Prod.snd = results.map some) : outcomes.mapM Prod.snd = some results := by
  induction results generalizing outcomes with
  | nil => rw [List.map_eq_nil_iff.mp h]; rfl
  | cons result results ih =>
    obtain ⟨outcome, rest, rfl, hfirst, hrest⟩ := List.map_eq_cons_iff.mp h
    rw [List.mapM_cons, hfirst, ih hrest]
    rfl

/-- A list read entry by entry. -/
theorem filterMap_range'_eq {α : Type} {f : Nat → Option α} {list : List α} {first : Nat}
    (h : ∀ (i : Nat) (hi : i < list.length), f (first + i) = some (list[i])) :
    (List.range' first list.length).filterMap f = list := by
  induction list generalizing first with
  | nil => rfl
  | cons head tail ih =>
    have hhead : f first = some head := h 0 (Nat.zero_lt_succ _)
    rw [List.length_cons, List.range'_succ, List.filterMap_cons_some hhead]
    congr 1
    apply ih
    intro i hi
    rw [Nat.add_assoc, Nat.add_comm 1 i]
    exact h (i + 1) (Nat.succ_lt_succ hi)

/-- For each number of a list, whether it has come before; the ones before are bits. -/
def repeated : Nat → List Nat → List Bool
  | _, [] => []
  | seen, value :: rest => seen.testBit value :: repeated (seen ||| 2 ^ value) rest

/-- A number that is new at its place is found there. -/
theorem idxOf?_of_new {list : List Nat} {seen idx value : Nat}
    (new : (repeated seen list)[idx]? = some false) (here : list[idx]? = some value) :
    list.idxOf? value = some idx ∧ seen.testBit value = false := by
  induction list generalizing seen idx with
  | nil => cases here
  | cons head rest ih =>
    rw [List.idxOf?_cons]
    cases idx with
    | zero =>
      cases here
      exact ⟨if_pos (beq_self_eq_true value), Option.some.inj new⟩
    | succ idx =>
      obtain ⟨found, fresh⟩ := ih new here
      rw [Nat.testBit_or, Nat.testBit_two_pow, Bool.or_eq_false_iff, decide_eq_false_iff_not] at fresh
      rw [if_neg (fun same => fresh.2 (eq_of_beq same)), found]
      exact ⟨rfl, fresh.1⟩

section Grouping

variable {α κ : Type} [DecidableEq κ] {key : α → κ} {keys : List κ} {list : List α} {k : κ}

/-- The groups of the keys, each rearranged in the same way. -/
def grouped (key : α → κ) (arrange : List α → List α) (keys : List κ) (list : List α) : List α :=
  keys.flatMap fun k => arrange (list.filter fun a => key a = k)

section Arrange

variable {arrange : List α → List α} (rearranges : ∀ group, (arrange group).Perm group)
include rearranges

/-- Each element is in the group of its key. -/
theorem grouped_perm (distinct : keys.Nodup) :
    (grouped key arrange keys list).Perm (list.filter fun a => key a ∈ keys) := by
  induction keys with
  | nil => simp [grouped]
  | cons k keys ih =>
    obtain ⟨fresh, distinct⟩ := List.nodup_cons.mp distinct
    rw [grouped, List.flatMap_cons, ← grouped]
    refine ((rearranges _).append (ih distinct)).trans ?_
    have parts := List.filter_append_perm (fun a => decide (key a = k))
      (list.filter fun a => key a ∈ k :: keys)
    rw [List.filter_filter, List.filter_filter] at parts
    refine List.Perm.trans ?_ parts
    have left : (list.filter fun a => key a = k) =
        list.filter fun a => decide (key a = k) && decide (key a ∈ k :: keys) := by
      congr 1
      funext a
      by_cases same : key a = k <;> simp [same]
    have right : (list.filter fun a => key a ∈ keys) =
        list.filter fun a => !decide (key a = k) && decide (key a ∈ k :: keys) := by
      congr 1
      funext a
      by_cases same : key a = k
      · simp [same, fresh]
      · simp [same]
    rw [left, right]

theorem grouped_perm_of_mem (distinct : keys.Nodup) (all : ∀ a ∈ list, key a ∈ keys) :
    (grouped key arrange keys list).Perm list := by
  refine (grouped_perm rearranges distinct).trans (.of_eq (List.filter_eq_self.mpr ?_))
  exact fun a member => decide_eq_true (all a member)

/-- The group of a key is found again. -/
theorem filter_grouped (distinct : keys.Nodup) (member : k ∈ keys) :
    ((grouped key arrange keys list).filter fun a => key a = k) =
      arrange (list.filter fun a => key a = k) := by
  have own : ∀ other, ∀ a ∈ arrange (list.filter fun a => key a = other), key a = other := by
    intro other a inside
    have there := (rearranges _).mem_iff.mp inside
    simpa using (List.mem_filter.mp there).2
  have none_ : ∀ keys : List κ, k ∉ keys →
      ((grouped key arrange keys list).filter fun a => key a = k) = [] := by
    intro keys apart
    rw [List.filter_eq_nil_iff]
    intro a inside same
    obtain ⟨other, here, there⟩ := List.mem_flatMap.mp inside
    have same : key a = k := by simpa using same
    exact apart (same ▸ own other a there ▸ here)
  induction keys with
  | nil => cases member
  | cons other keys ih =>
    obtain ⟨fresh, distinct⟩ := List.nodup_cons.mp distinct
    rw [grouped, List.flatMap_cons, ← grouped, List.filter_append]
    rcases List.mem_cons.mp member with rfl | later
    · rw [none_ keys fresh, List.append_nil, List.filter_eq_self]
      intro a inside
      simpa using own k a inside
    · rw [ih distinct later]
      have apart : other ≠ k := fun same => fresh (same ▸ later)
      have nil : ((arrange (list.filter fun a => key a = other)).filter fun a => key a = k) = [] := by
        rw [List.filter_eq_nil_iff]
        intro a inside same
        have same : key a = k := by simpa using same
        exact apart ((own other a inside).symm.trans same)
      rw [nil, List.nil_append]

end Arrange

section SortBy

variable {number : α → Nat}

/-- `sort_by_key`, which is stable. -/
def sortBy (number : α → Nat) (list : List α) : List α :=
  list.mergeSort fun one two => number one ≤ number two

theorem sortBy_perm : (sortBy number list).Perm list := List.mergeSort_perm _ _

theorem sortBy_sorted : (sortBy number list).Pairwise fun one two => number one ≤ number two := by
  have sorted : (sortBy number list).Pairwise fun one two => decide (number one ≤ number two) :=
    List.pairwise_mergeSort (fun a b c first second => by simp_all; omega)
      (fun a b => by simp; omega) list
  exact sorted.imp of_decide_eq_true

theorem sortBy_of_sorted (sorted : list.Pairwise fun one two => number one ≤ number two) :
    sortBy number list = list :=
  List.mergeSort_of_pairwise (sorted.imp decide_eq_true)

/-- A change that keeps the numbers may come before the sort or behind it. -/
theorem map_sortBy {f : α → α} (keeps : ∀ a, number (f a) = number a) :
    (sortBy number list).map f = sortBy number (list.map f) :=
  List.map_mergeSort fun a _ b _ => by rw [keeps a, keeps b]

end SortBy

end Grouping

section Recent
variable {α : Type}

theorem getLast?_rtake {n : Nat} (pos : 0 < n) {l : List α} :
    (l.rtake n).getLast? = l.getLast? := by
  unfold List.rtake
  rw [List.getLast?_drop]
  split
  · have empty : l = [] := List.eq_nil_of_length_eq_zero (by omega)
    rw [empty]
    rfl
  · rfl

/-- The last ones where one more comes: the oldest of so many leaves. -/
theorem rtake_concat {n : Nat} (pos : 0 < n) {b : α} {l : List α} :
    (l ++ [b]).rtake n =
      (if n ≤ (l.rtake n).length then (l.rtake n).tail else l.rtake n) ++ [b] := by
  obtain ⟨n, rfl⟩ := Nat.exists_eq_add_one.mpr pos
  rw [List.rtake_concat_succ]
  congr 1
  unfold List.rtake
  rw [List.length_drop, List.tail_drop]
  split
  · congr 1
    omega
  · congr 1
    omega

variable [DecidableEq α] (a b : α) (l : List α)

theorem getLast?_destutter' :
    (l.destutter' (· ≠ ·) a).getLast? = (a :: l).getLast? := by
  induction l generalizing a with
  | nil => rfl
  | cons b l ih =>
    rw [List.getLast?_cons_cons]
    by_cases same : a ≠ b
    · rw [List.destutter'_cons_pos _ same, List.getLast?_cons, ih b, List.getLast?_cons]
      rfl
    · rw [List.destutter'_cons_neg _ same, ih a, not_not.mp same]

theorem destutter'_concat :
    (l ++ [b]).destutter' (· ≠ ·) a = if (a :: l).getLast? = some b then l.destutter' (· ≠ ·) a
      else l.destutter' (· ≠ ·) a ++ [b] := by
  induction l generalizing a with
  | nil =>
    by_cases same : a = b
    · simp [same]
    · simp [same]
  | cons c l ih =>
    rw [List.getLast?_cons_cons, List.cons_append]
    by_cases same : a ≠ c
    · rw [List.destutter'_cons_pos _ same, List.destutter'_cons_pos _ same, ih c]
      split
      · rfl
      · rfl
    · rw [List.destutter'_cons_neg _ same, List.destutter'_cons_neg _ same, ih a,
        not_not.mp same]

theorem getLast?_destutter :
    (l.destutter (· ≠ ·)).getLast? = l.getLast? := by
  cases l with
  | nil => rfl
  | cons a l => exact getLast?_destutter' a l

theorem destutter_concat :
    (l ++ [b]).destutter (· ≠ ·) = if l.getLast? = some b then l.destutter (· ≠ ·)
      else l.destutter (· ≠ ·) ++ [b] := by
  cases l with
  | nil => rfl
  | cons a l => exact destutter'_concat a b l

end Recent

end Warpine.Lib
