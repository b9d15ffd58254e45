import Mathlib.Data.List.Basic
import Mathlib.Data.List.Induction
import Mathlib.Data.Nat.Init
import Mathlib.Order.Defs.LinearOrder

/-!
# Ordinals in a list

The index at which each ordinal of a list starts, collected with at most one index for an element.
-/

namespace LawNexus.Ordinals

def starts (ordinals : List Nat) : List Nat :=
  ordinals.zipIdx.foldl (fun starts (n, index) =>
    if starts.length ≤ n then starts ++ [index] else starts) []

theorem starts_concat (l : List Nat) (n : Nat) :
    starts (l ++ [n]) = if (starts l).length ≤ n then starts l ++ [l.length] else starts l := by
  rw [starts, List.zipIdx_append, List.foldl_append, List.zipIdx_singleton, Nat.zero_add]
  rfl

/-- Every ordinal finds the first index that it has. -/
def Located (l : List Nat) : Prop := ∀ n ∈ l, (starts l)[n]? = some (l.idxOf n)

/-- No ordinal from `n` on is left out below one that occurs. -/
def Gapless (n : Nat) (l : List Nat) : Prop := ∀ m ∈ l, ∀ k, n ≤ k → k < m → k ∈ l

/-! ## Indices and ordinals -/

theorem lt_length_of_mem_starts {l : List Nat} {i : Nat} (h : i ∈ starts l) : i < l.length := by
  induction l using List.reverseRecOn with
  | nil => cases h
  | append_singleton l n ih =>
    rw [starts_concat] at h
    rw [List.length_append, List.length_singleton]
    split_ifs at h
    · rcases List.mem_append.mp h with h | h
      · exact Nat.lt_succ_of_lt (ih h)
      · rw [List.mem_singleton.mp h]
        exact Nat.lt_succ_self _
    · exact Nat.lt_succ_of_lt (ih h)

theorem pairwise_starts (l : List Nat) : (starts l).Pairwise (· < ·) := by
  induction l using List.reverseRecOn with
  | nil => exact List.Pairwise.nil
  | append_singleton l n ih =>
    rw [starts_concat]
    split_ifs
    · refine List.pairwise_append.mpr ⟨ih, List.pairwise_singleton _ _, fun i hi j hj => ?_⟩
      rw [List.mem_singleton.mp hj]
      exact lt_length_of_mem_starts hi
    · exact ih

/-- An index is only pushed for an ordinal that is not below its place. -/
theorem le_of_starts {l : List Nat} {k i : Nat} (h : (starts l)[k]? = some i) :
    ∃ n, l[i]? = some n ∧ k ≤ n := by
  induction l using List.reverseRecOn with
  | nil => cases h
  | append_singleton l n ih =>
    have hold : (starts l)[k]? = some i → ∃ m, (l ++ [n])[i]? = some m ∧ k ≤ m := fun h => by
      obtain ⟨m, hm, hle⟩ := ih h
      exact ⟨m, List.getElem?_append_left (List.getElem?_eq_some_iff.mp hm).1 ▸ hm, hle⟩
    rw [starts_concat] at h
    split_ifs at h with hpush
    · rcases Nat.lt_or_ge k (starts l).length with hk | hk
      · rw [List.getElem?_append_left hk] at h
        exact hold h
      · rw [List.getElem?_append_right hk, List.getElem?_singleton] at h
        split_ifs at h with hlast
        rw [← Option.some.inj h]
        exact ⟨n, List.getElem?_concat_length .., by omega⟩
    · exact hold h

/-! ## Located and gapless -/

variable {l : List Nat}

theorem Gapless.of_located (hsorted : l.Pairwise (· ≤ ·)) (h : Located l) : Gapless 0 l := by
  -- The ordinal just below one that occurs does occur.
  have hpred : ∀ n, n + 1 ∈ l → n ∈ l := by
    intro n hn
    have hat := h (n + 1) hn
    obtain ⟨hlt, hfirst⟩ := List.getElem?_eq_some_iff.mp hat
    obtain ⟨m, hm, hle⟩ := le_of_starts (List.getElem?_eq_getElem (Nat.lt_of_succ_lt hlt))
    have hbefore : (starts l)[n] < l.idxOf (n + 1) := by
      rw [← hfirst]
      exact List.pairwise_iff_getElem.mp (pairwise_starts l) _ _ _ _ (Nat.lt_succ_self n)
    obtain ⟨hi, hget⟩ := List.getElem?_eq_some_iff.mp hm
    have hle' : m ≤ n + 1 := by
      have hidx := List.idxOf_lt_length_of_mem hn
      have hmono := List.pairwise_iff_getElem.mp hsorted _ _ hi hidx hbefore
      rwa [hget, List.getElem_idxOf] at hmono
    have hne : m ≠ n + 1 := by
      rintro rfl
      exact absurd (List.not_of_lt_findIdx hbefore) (by simp [hget])
    have hmn : m = n := by omega
    exact hmn ▸ List.mem_of_getElem? hm
  intro m hm k _ hk
  induction m, hk using Nat.le_induction with
  | base => exact hpred k hm
  | succ m _ ih => exact ih (hpred _ hm)

/-- The starts of a gapless list are one for each ordinal. -/
theorem starts_of_gapless (hsorted : l.Pairwise (· ≤ ·)) (h : Gapless 0 l) :
    (∀ n, n < (starts l).length ↔ n ∈ l) ∧ Located l := by
  induction l using List.reverseRecOn with
  | nil => exact ⟨fun n => by simp [starts], fun n hn => by cases hn⟩
  | append_singleton l n ih =>
    obtain ⟨hfront, -, hlast⟩ := List.pairwise_append.mp hsorted
    have hbelow : ∀ m ∈ l, m ≤ n := fun m hm => hlast m hm n (List.mem_singleton_self n)
    have hgapless : Gapless 0 l := fun m hm k hk hkm => by
      rcases List.mem_append.mp (h m (List.mem_append_left _ hm) k hk hkm) with hin | hin
      · exact hin
      · have hkn := List.mem_singleton.mp hin
        have hmn := hbelow m hm
        omega
    obtain ⟨hlength, hlocated⟩ := ih hfront hgapless
    by_cases hn : n ∈ l
    · have hkept : starts (l ++ [n]) = starts l := by
        rw [starts_concat, if_neg (Nat.not_le.mpr ((hlength n).mpr hn))]
      have hsame : ∀ m, m ∈ l ++ [n] ↔ m ∈ l := fun m => by
        rw [List.mem_append, List.mem_singleton]
        exact or_iff_left_of_imp fun hm => hm ▸ hn
      refine ⟨fun m => by rw [hkept, hlength, hsame], fun m hm => ?_⟩
      have hm := (hsame m).mp hm
      rw [hkept, List.idxOf_append_of_mem hm]
      exact hlocated m hm
    · have hnew : (starts l).length = n := by
        refine Nat.le_antisymm (Nat.le_of_not_lt fun hlt => hn ((hlength n).mp hlt))
          (Nat.le_of_not_lt fun hlt => ?_)
        have hin := h n (List.mem_append_right _ (List.mem_singleton_self n)) _ (Nat.zero_le _) hlt
        rcases List.mem_append.mp hin with hin | hin
        · exact Nat.lt_irrefl _ ((hlength _).mpr hin)
        · exact Nat.ne_of_lt hlt (List.mem_singleton.mp hin)
      have hpushed : starts (l ++ [n]) = starts l ++ [l.length] := by
        rw [starts_concat, if_pos (Nat.le_of_eq hnew)]
      refine ⟨fun m => ?_, fun m hm => ?_⟩
      · rw [hpushed, List.length_append, List.length_singleton, Nat.lt_succ_iff_lt_or_eq, hlength,
          hnew, List.mem_append, List.mem_singleton]
      · rw [hpushed]
        rcases List.mem_append.mp hm with hm | hm
        · rw [List.getElem?_append_left ((hlength m).mpr hm), List.idxOf_append_of_mem hm]
          exact hlocated m hm
        · rw [List.mem_singleton.mp hm, List.idxOf_append_of_notMem hn, List.idxOf_cons_self,
            Nat.add_zero]
          exact hnew ▸ List.getElem?_concat_length ..

theorem located_iff (hsorted : l.Pairwise (· ≤ ·)) : Located l ↔ Gapless 0 l :=
  ⟨Gapless.of_located hsorted, fun h => (starts_of_gapless hsorted h).2⟩

/-! ## One element after the other -/

theorem gapless_nil (n : Nat) : Gapless n [] := fun _ h => by cases h

/-- The first of a sorted list is the next ordinal or one that was there already. -/
theorem gapless_cons {n m : Nat} (hge : ∀ k ∈ l, m ≤ k) (hn : n ≤ m + 1) :
    Gapless n (m :: l) ↔ m ≤ n ∧ Gapless (m + 1) l := by
  constructor
  · refine fun h => ⟨Nat.le_of_not_lt fun hlt => ?_, fun j hj k hk hkj => ?_⟩
    · rcases List.mem_cons.mp (h m List.mem_cons_self n (Nat.le_refl n) hlt) with hin | hin
      · exact Nat.ne_of_lt hlt hin
      · exact Nat.not_le.mpr hlt (hge n hin)
    · rcases List.mem_cons.mp (h j (List.mem_cons_of_mem _ hj) k (by omega) hkj) with hin | hin
      · omega
      · exact hin
  · rintro ⟨hmn, h⟩ j hj k hk hkj
    rw [List.mem_cons] at hj ⊢
    rcases hj with rfl | hj
    · omega
    · rcases Nat.lt_or_ge m k with hmk | hkm
      · exact Or.inr (h j hj k hmk hkj)
      · exact Or.inl (by omega)

end LawNexus.Ordinals
