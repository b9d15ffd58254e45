import LawNexus.Ids
import Mathlib.Data.List.AList

/-!
# Maps by ids

A `HashMap` by the texts of ids of one kind: the text tells the id, so the id itself is the key.
-/

namespace LawNexus

abbrev IdMap (kind : String) (β : Type) := AList fun _ : CheckedId kind => β

namespace IdMap

variable {kind : String} {β : Type} (m : IdMap kind β) (id id' : CheckedId kind)

def get : Option β := m.lookup id

def insert (value : β) : IdMap kind β := AList.insert id value m

def remove : IdMap kind β := AList.erase id m

def len : Nat := m.entries.length

@[simp] theorem get_empty : (∅ : IdMap kind β).get id = none := AList.lookup_empty id

theorem get_insert (value : β) :
    (m.insert id value).get id' = if id' = id then some value else m.get id' := by
  unfold get insert
  split_ifs with h
  · rw [h, AList.lookup_insert]
  · exact AList.lookup_insert_ne h

theorem get_remove : (m.remove id).get id' = if id' = id then none else m.get id' := by
  unfold get remove
  split_ifs with h
  · rw [h, AList.lookup_erase]
  · exact AList.lookup_erase_ne h

variable {m id}

theorem len_insert (h : m.get id = none) (value : β) : (m.insert id value).len = m.len + 1 := by
  unfold len insert
  rw [AList.entries_insert_of_notMem (AList.lookup_eq_none.mp h), List.length_cons]

end IdMap

end LawNexus
