import Mathlib.Data.List.Basic

/-! Hash maps that are also searched by value: a list of entries with no key twice,
in the order of the iteration. -/
namespace Warpine.Lib

abbrev Dict (κ α : Type) := List (κ × α)

namespace Dict

variable {κ α : Type} [DecidableEq κ]

def get (dict : Dict κ α) (key : κ) : Option α :=
  (dict.find? fun entry => entry.1 = key).map Prod.snd

def erase (dict : Dict κ α) (key : κ) : Dict κ α := dict.filter fun entry => entry.1 ≠ key

def insert (dict : Dict κ α) (key : κ) (value : α) : Dict κ α :=
  dict.erase key ++ [(key, value)]

def contains (dict : Dict κ α) (key : κ) : Bool := (dict.get key).isSome

theorem mem_of_get {dict : Dict κ α} {key : κ} {value : α} (found : dict.get key = some value) :
    (key, value) ∈ dict := by
  obtain ⟨entry, here, rfl⟩ := Option.map_eq_some_iff.mp found
  have same : entry.1 = key := by simpa using List.find?_some here
  rw [← same]
  exact List.mem_of_find?_eq_some here

theorem mem_erase {dict : Dict κ α} {key : κ} {entry : κ × α} (member : entry ∈ dict.erase key) :
    entry ∈ dict :=
  List.mem_of_mem_filter member

theorem get_erase (dict : Dict κ α) (key other : κ) :
    (dict.erase key).get other = if other = key then none else dict.get other := by
  unfold get erase
  rw [List.find?_filter]
  split
  · rename_i same
    subst same
    simp
  · rename_i apart
    congr 2
    funext entry
    by_cases h : entry.1 = other <;> simp_all

theorem get_insert (dict : Dict κ α) (key : κ) (value : α) :
    (dict.insert key value).get key = some value := by
  have gone : (dict.erase key).find? (fun entry => entry.1 = key) = none := by
    have := get_erase dict key key
    rwa [if_pos rfl, get, Option.map_eq_none_iff] at this
  rw [get, insert, List.find?_append, gone, Option.none_or]
  simp

end Dict
end Warpine.Lib
