import LawNexus.Nesting
import Mathlib.Data.List.Nodup

/-!
# First occurrences

The items of a list whose key no item in front of them has, and the other ones with the place of
the first item of their key.
-/

namespace LawNexus.Firsts

open Nesting (withFront withFront_concat mem_withFront length_withFront)

variable {α κ : Type*} [DecidableEq κ] {key : α → κ}

def isNew (key : α → κ) (item : List α × α) : Bool := key item.2 ∉ item.1.map key

def firsts (key : α → κ) (items : List α) : List α :=
  ((withFront items).filter (isNew key)).map (·.2)

/-- A repeated item, the place of the first item of its key, and its own place. -/
def repeatedAt (key : α → κ) (items : List α) : List (α × Nat × Nat) :=
  ((withFront items).filter fun item => !isNew key item).map fun (front, a) =>
    (a, (front.map key).idxOf (key a), front.length)

/-- The keys with the places of their first items. -/
def places (key : α → κ) (items : List α) : List (κ × Nat) :=
  ((withFront items).filter (isNew key)).map fun (front, a) => (key a, front.length)

theorem isNew_iff {front : List α} {a : α} :
    isNew key (front, a) = true ↔ key a ∉ front.map key := decide_eq_true_iff

theorem isNew_eq_false_iff {front : List α} {a : α} :
    isNew key (front, a) = false ↔ key a ∈ front.map key := by
  rw [← Bool.not_eq_true, isNew_iff, not_not]

theorem firsts_concat (items : List α) (a : α) : firsts key (items ++ [a]) =
    firsts key items ++ if key a ∈ items.map key then [] else [a] := by
  unfold firsts
  rw [withFront_concat, List.filter_append, List.map_append]
  by_cases h : key a ∈ items.map key
  · rw [if_pos h]
    simp [isNew_eq_false_iff.mpr h]
  · rw [if_neg h]
    simp [isNew_iff.mpr h]

theorem repeatedAt_concat (items : List α) (a : α) : repeatedAt key (items ++ [a]) =
    repeatedAt key items ++
      if key a ∈ items.map key then [(a, (items.map key).idxOf (key a), items.length)] else [] := by
  unfold repeatedAt
  rw [withFront_concat, List.filter_append, List.map_append]
  by_cases h : key a ∈ items.map key
  · rw [if_pos h]
    simp [isNew_eq_false_iff.mpr h]
  · rw [if_neg h]
    simp [isNew_iff.mpr h]

theorem places_concat (items : List α) (a : α) : places key (items ++ [a]) =
    places key items ++ if key a ∈ items.map key then [] else [(key a, items.length)] := by
  unfold places
  rw [withFront_concat, List.filter_append, List.map_append]
  by_cases h : key a ∈ items.map key
  · rw [if_pos h]
    simp [isNew_eq_false_iff.mpr h]
  · rw [if_neg h]
    simp [isNew_iff.mpr h]

/-- A search in the places finds where the first item of a key stands. -/
theorem find?_places (items : List α) (k : κ) : (places key items).find? (·.1 = k) =
    if k ∈ items.map key then some (k, (items.map key).idxOf k) else none := by
  induction items using List.reverseRecOn with
  | nil => rfl
  | append_singleton items a ih =>
    rw [places_concat, List.find?_append, ih, List.map_append, List.map_singleton]
    by_cases hold : k ∈ items.map key
    · rw [if_pos hold, Option.some_or, if_pos (List.mem_append_left _ hold),
        List.idxOf_append_of_mem hold]
    · rw [if_neg hold, Option.none_or]
      by_cases hk : key a = k
      · subst hk
        rw [if_neg hold, List.find?_cons_of_pos (by simp), if_pos (by simp),
          List.idxOf_append_of_notMem hold]
        simp
      · have hnot : k ∉ items.map key ++ [key a] := by
          simpa [Ne.symm hk] using hold
        rw [if_neg hnot, List.find?_eq_none]
        split_ifs with hseen <;> simp [hk]

theorem length_firsts_add (items : List α) :
    (firsts key items).length + (repeatedAt key items).length = items.length := by
  unfold firsts repeatedAt
  rw [List.length_map, List.length_map, ← List.length_eq_length_filter_add, length_withFront]

theorem mem_firsts_key {items : List α} {k : κ} :
    k ∈ (firsts key items).map key ↔ k ∈ items.map key := by
  induction items using List.reverseRecOn with
  | nil => rfl
  | append_singleton items a ih =>
    rw [firsts_concat, List.map_append, List.mem_append, ih, List.map_append, List.mem_append,
      List.map_singleton]
    refine ⟨Or.imp_right fun h => ?_, fun h => ?_⟩
    · split_ifs at h with hold
      · cases h
      · exact h
    · by_cases hold : key a ∈ items.map key
      · rw [if_pos hold]
        exact Or.inl (h.elim id fun hk => List.mem_singleton.mp hk ▸ hold)
      · rwa [if_neg hold]

theorem nodup_firsts (items : List α) : ((firsts key items).map key).Nodup := by
  induction items using List.reverseRecOn with
  | nil => exact List.nodup_nil
  | append_singleton items a ih =>
    rw [firsts_concat, List.map_append]
    split_ifs with hold
    · rwa [List.map_nil, List.append_nil]
    · rw [List.map_singleton, List.nodup_append_comm, List.singleton_append, List.nodup_cons]
      exact ⟨fun hmem => hold (mem_firsts_key.mp hmem), ih⟩

theorem firsts_sublist (items : List α) : (firsts key items).Sublist items := by
  induction items using List.reverseRecOn with
  | nil => exact .slnil
  | append_singleton items a ih =>
    rw [firsts_concat]
    refine ih.append ?_
    split_ifs
    · exact List.nil_sublist _
    · exact .refl _

/-- An item at a place is one of the firsts where its key is new there. -/
theorem mem_firsts {items : List α} {a : α} : a ∈ firsts key items ↔
    ∃ i, items[i]? = some a ∧ key a ∉ (items.take i).map key := by
  unfold firsts
  rw [List.mem_map]
  constructor
  · rintro ⟨⟨front, b⟩, hmem, rfl⟩
    obtain ⟨hmem, hnew⟩ := List.mem_filter.mp hmem
    obtain ⟨i, hi, rfl⟩ := mem_withFront.mp hmem
    exact ⟨i, hi, isNew_iff.mp hnew⟩
  · rintro ⟨i, hi, hnew⟩
    refine ⟨(items.take i, a), List.mem_filter.mpr ⟨?_, isNew_iff.mpr hnew⟩, rfl⟩
    exact mem_withFront.mpr ⟨i, hi, rfl⟩

/-- The first place of a key. -/
theorem first_idxOf {items : List α} {k : κ} (h : k ∈ items.map key) :
    ∃ first, items[(items.map key).idxOf k]? = some first ∧ key first = k ∧
      k ∉ (items.take ((items.map key).idxOf k)).map key := by
  have hget := List.getElem?_idxOf h
  rw [List.getElem?_map, Option.map_eq_some_iff] at hget
  obtain ⟨first, hfirst, hkey⟩ := hget
  refine ⟨first, hfirst, hkey, ?_⟩
  rw [List.map_take]
  intro hmem
  have hlt := List.idxOf_lt_length_of_mem hmem
  rw [List.length_take] at hlt
  have hsame : ((items.map key).take ((items.map key).idxOf k) ++
      (items.map key).drop ((items.map key).idxOf k)).idxOf k = _ := List.idxOf_append_of_mem hmem
  rw [List.take_append_drop] at hsame
  omega

/-- A repeated item stands behind the first one of its key. -/
theorem mem_repeatedAt {items : List α} {a : α} {i j : Nat} (h : (a, i, j) ∈ repeatedAt key items) :
    items[j]? = some a ∧ i < j ∧ ∃ first, items[i]? = some first ∧ key first = key a ∧
      key first ∉ (items.take i).map key := by
  obtain ⟨⟨front, b⟩, hmem, hitem⟩ := List.mem_map.mp h
  cases hitem
  obtain ⟨hmem, hold⟩ := List.mem_filter.mp hmem
  rw [Bool.not_eq_true', isNew_eq_false_iff] at hold
  obtain ⟨n, hn, rfl⟩ := mem_withFront.mp hmem
  have hlen : (items.take n).length = n := by
    rw [List.length_take]
    exact Nat.min_eq_left (Nat.le_of_lt (List.getElem?_eq_some_iff.mp hn).1)
  rw [hlen]
  obtain ⟨first, hfirst, hkey, hnew⟩ := first_idxOf hold
  have hlt : ((items.take n).map key).idxOf (key a) < n := by
    have hlt := List.idxOf_lt_length_of_mem hold
    rwa [List.length_map, hlen] at hlt
  rw [List.getElem?_take_of_lt hlt] at hfirst
  rw [List.take_take, Nat.min_eq_left (Nat.le_of_lt hlt)] at hnew
  exact ⟨hn, hlt, first, hfirst, hkey, hkey ▸ hnew⟩

end LawNexus.Firsts
