import LawNexus.Loops
import Mathlib.Data.List.TakeWhile

/-!
# Ties of a stable sort

What is left of the order before a stable sort: the elements at the cut of the sorted list, and
the first element that passes a test. Both are the same for every order if and only if the
elements in question that have one key are equal.
-/

namespace LawNexus.Ties

open Loops

variable {α κ : Type*} [LinearOrder κ] {key : α → κ} {l : List α}

/-! ## Three parts of a sorted list -/

def below (key : α → κ) (k : κ) (l : List α) : List α := l.filter fun a => key a < k

def tied (key : α → κ) (k : κ) (l : List α) : List α := l.filter fun a => key a = k

def above (key : α → κ) (k : κ) (l : List α) : List α := l.filter fun a => k < key a

theorem parts_of_sorted (hsorted : l.Pairwise fun a b => key a ≤ key b) (k : κ) :
    below key k l ++ tied key k l ++ above key k l = l := by
  have hlow : l.filter (fun a => key a < k || key a = k) = below key k l ++ tied key k l :=
    filter_append_filter
      (hsorted.imp fun hab ha => decide_eq_false (not_lt.mpr (of_decide_eq_true ha ▸ hab)))
      fun a _ ha => decide_eq_false (not_lt.mpr (of_decide_eq_true ha).ge)
  have hall : l.filter (fun a => (key a < k || key a = k) || k < key a) =
      l.filter (fun a => key a < k || key a = k) ++ above key k l := by
    refine filter_append_filter (hsorted.imp fun hab ha => ?_) fun a _ ha => ?_
    · have hb := (of_decide_eq_true ha).trans_le hab
      simp [hb.not_gt, hb.ne']
    · have hk := of_decide_eq_true ha
      simp [hk.not_gt, hk.ne']
  rw [← hlow, ← hall, List.filter_eq_self]
  intro a _
  rcases lt_trichotomy (key a) k with h | h | h <;> simp [h]

theorem sorted_parts {b t a : List α} (k : κ) (hb : ∀ x ∈ b, key x < k)
    (ht : ∀ x ∈ t, key x = k) (ha : ∀ x ∈ a, k < key x)
    (hbelow : b.Pairwise fun x y => key x ≤ key y) (habove : a.Pairwise fun x y => key x ≤ key y) :
    (b ++ t ++ a).Pairwise fun x y => key x ≤ key y := by
  refine List.pairwise_append.mpr ⟨List.pairwise_append.mpr ⟨hbelow, ?_, fun x hx y hy => ?_⟩,
    habove, fun x hx y hy => ?_⟩
  · exact List.pairwise_of_forall_mem_list fun x hx y hy => (ht x hx).trans_le (ht y hy).ge
  · exact (hb x hx).le.trans (ht y hy).ge
  · rcases List.mem_append.mp hx with hx | hx
    · exact (hb x hx).le.trans (ha y hy).le
    · exact (ht x hx).trans_le (ha y hy).le

theorem tied_subset {k : κ} {x : α} (h : x ∈ tied key k l) : x ∈ l ∧ key x = k := by
  simpa [tied] using h

/-! ## The cut of a sorted list -/

/-- Where a cut goes through the elements of one key, these are equal. -/
def CutApart (key : α → κ) (l : List α) (n : Nat) : Prop :=
  ∀ x ∈ l, ∀ y ∈ l, key x = key y → (below key (key x) l).length < n →
    n < (below key (key x) l).length + (tied key (key x) l).length → x = y

theorem below_perm {l' : List α} (h : l'.Perm l) (k : κ) : (below key k l').Perm (below key k l) :=
  h.filter _

theorem tied_perm {l' : List α} (h : l'.Perm l) (k : κ) : (tied key k l').Perm (tied key k l) :=
  h.filter _

/-- The element behind a cut stands among those of its key. -/
theorem cut_at {S : List α} {x : α} {n : Nat} (hsorted : S.Pairwise fun a b => key a ≤ key b)
    (hx : S[n]? = some x) : (below key (key x) S).length ≤ n ∧
      n < (below key (key x) S).length + (tied key (key x) S).length := by
  have hparts := parts_of_sorted hsorted (key x)
  rw [← hparts] at hx
  have hbelow : ∀ y ∈ below key (key x) S, key y < key x := fun y hy => by
    simpa using (List.mem_filter.mp hy).2
  have habove : ∀ y ∈ above key (key x) S, key x < key y := fun y hy => by
    simpa using (List.mem_filter.mp hy).2
  constructor
  · by_contra hlt
    rw [Nat.not_le] at hlt
    rw [List.append_assoc, List.getElem?_append_left hlt] at hx
    exact lt_irrefl _ (hbelow x (List.mem_of_getElem? hx))
  · by_contra hge
    rw [Nat.not_lt] at hge
    rw [List.getElem?_append_right (by rwa [List.length_append])] at hx
    exact lt_irrefl _ (habove x (List.mem_of_getElem? hx))

/-- What a cut takes of a sorted list. -/
theorem take_parts {S : List α} {k : κ} {n : Nat} (hsorted : S.Pairwise fun a b => key a ≤ key b)
    (hlow : (below key k S).length ≤ n)
    (hhigh : n < (below key k S).length + (tied key k S).length) :
    S.take n = below key k S ++ (tied key k S).take (n - (below key k S).length) := by
  conv_lhs => rw [← parts_of_sorted hsorted k]
  rw [List.take_append_of_le_length (by rw [List.length_append]; omega), List.take_append,
    List.take_of_length_le hlow]

/-- The cut leaves the same elements whatever the order was. -/
theorem take_perm_of_cutApart {l' : List α} {n : Nat} (h : CutApart key l n) (hperm : l'.Perm l) :
    ((sortBy key l').take n).Perm ((sortBy key l).take n) := by
  have hsorted := pairwise_sortBy key l
  have hsame : (sortBy key l').Perm (sortBy key l) :=
    (sortBy_perm key l').trans (hperm.trans (sortBy_perm key l).symm)
  rcases Nat.lt_or_ge n (sortBy key l).length with hn | hn
  · -- The key at the cut parts both lists in the same way.
    obtain ⟨hlow, hhigh⟩ := cut_at hsorted (List.getElem?_eq_getElem hn)
    have hx : (sortBy key l)[n] ∈ l := mem_sortBy.mp (List.getElem_mem hn)
    generalize (sortBy key l)[n] = x at hlow hhigh hx
    have hbelow : (below key (key x) (sortBy key l')).Perm (below key (key x) (sortBy key l)) :=
      below_perm hsame (key x)
    have htied : (tied key (key x) (sortBy key l')).Perm (tied key (key x) (sortBy key l)) :=
      tied_perm hsame (key x)
    rw [take_parts hsorted hlow hhigh, take_parts (pairwise_sortBy key l')
      (hbelow.length_eq.trans_le hlow) (by rw [hbelow.length_eq, htied.length_eq]; exact hhigh),
      hbelow.length_eq]
    refine hbelow.append ?_
    rcases Nat.eq_zero_or_pos (n - (below key (key x) (sortBy key l)).length) with hzero | hpos
    · rw [hzero, List.take_zero, List.take_zero]
    · have hequal : ∀ y ∈ tied key (key x) (sortBy key l), y = x := by
        intro y hy
        obtain ⟨hyl, hkey⟩ := tied_subset hy
        rw [(below_perm (sortBy_perm key l) (key x)).length_eq] at hpos hhigh
        rw [(tied_perm (sortBy_perm key l) (key x)).length_eq] at hhigh
        exact (h x hx y (mem_sortBy.mp hyl) hkey.symm (by omega) hhigh).symm
      rw [List.eq_replicate_of_mem hequal,
        List.eq_replicate_of_mem fun y hy => hequal y (htied.mem_iff.mp hy), htied.length_eq]
  · rw [List.take_of_length_le hn, List.take_of_length_le (hsame.length_eq.trans_le hn)]
    exact hsame

/-- A cut through the elements of one key, the first of which are written out. -/
theorem take_within {b t a : List α} {x y : α} {m : Nat} (hm : m ≤ t.length) :
    (b ++ (x :: t ++ [y]) ++ a).take (b.length + (m + 1)) = b ++ x :: t.take m := by
  rw [List.append_assoc, List.take_length_add_append, List.append_assoc, List.cons_append,
    List.take_succ_cons, List.take_append_of_le_length hm]

theorem exists_ends [DecidableEq α] {t : List α} {x y : α} (hx : x ∈ t) (hy : y ∈ t)
    (hne : x ≠ y) : ∃ mid, t.Perm (x :: mid ++ [y]) ∧ t.Perm (y :: mid ++ [x]) := by
  have hrest := (List.mem_erase_of_ne hne.symm).mpr hy
  have hpair : t.Perm (x :: y :: (t.erase x).erase y) :=
    (List.perm_cons_erase hx).trans ((List.perm_cons_erase hrest).cons x)
  refine ⟨(t.erase x).erase y, hpair.trans ?_, (hpair.trans (List.Perm.swap ..)).trans ?_⟩
  · exact (List.perm_append_singleton y _).symm.cons x
  · exact (List.perm_append_singleton x _).symm.cons y

/-- The elements of one key in any order, between those of the lower keys and of the higher ones,
are still sorted. -/
theorem sortBy_reordered (k : κ) {t : List α} (h : (tied key k (sortBy key l)).Perm t) :
    ((below key k (sortBy key l) ++ t ++ above key k (sortBy key l)).Perm l) ∧
      sortBy key (below key k (sortBy key l) ++ t ++ above key k (sortBy key l)) =
        below key k (sortBy key l) ++ t ++ above key k (sortBy key l) := by
  have hsorted := pairwise_sortBy key l
  constructor
  · refine List.Perm.trans ?_ (sortBy_perm key l)
    conv_rhs => rw [← parts_of_sorted hsorted k]
    exact (h.symm.append_left _).append_right _
  · refine sortBy_eq_self (sorted_parts k (fun z hz => ?_) (fun z hz => ?_) (fun z hz => ?_)
      (hsorted.sublist List.filter_sublist) (hsorted.sublist List.filter_sublist))
    · simpa using (List.mem_filter.mp hz).2
    · exact (tied_subset (h.mem_iff.mpr hz)).2
    · simpa using (List.mem_filter.mp hz).2

/-- Two elements of one key at a cut: one order leaves the one of them, another order the other. -/
theorem exists_orders {x y : α} {n : Nat} (hx : x ∈ l) (hy : y ∈ l) (hkey : key x = key y)
    (hne : x ≠ y) (hlow : (below key (key x) l).length < n)
    (hhigh : n < (below key (key x) l).length + (tied key (key x) l).length) :
    ∃ l₁ l₂, l₁.Perm l ∧ l₂.Perm l ∧
      ¬ ((sortBy key l₁).take n).Perm ((sortBy key l₂).take n) := by
  classical
  rw [← (below_perm (sortBy_perm key l) (key x)).length_eq] at hlow hhigh
  rw [← (tied_perm (sortBy_perm key l) (key x)).length_eq] at hhigh
  have hxin : x ∈ tied key (key x) (sortBy key l) :=
    List.mem_filter.mpr ⟨mem_sortBy.mpr hx, by simp⟩
  have hyin : y ∈ tied key (key x) (sortBy key l) :=
    List.mem_filter.mpr ⟨mem_sortBy.mpr hy, by simp [hkey]⟩
  obtain ⟨mid, hfirst, hsecond⟩ := exists_ends hxin hyin hne
  obtain ⟨m, rfl⟩ := Nat.exists_eq_add_of_lt hlow
  have hm : m ≤ mid.length := by
    have hlength := hfirst.length_eq
    rw [List.length_append, List.length_cons, List.length_singleton] at hlength
    omega
  obtain ⟨hperm₁, hsort₁⟩ := sortBy_reordered (key x) hfirst
  obtain ⟨hperm₂, hsort₂⟩ := sortBy_reordered (key x) hsecond
  refine ⟨_, _, hperm₁, hperm₂, fun hsame => ?_⟩
  rw [hsort₁, hsort₂, Nat.add_assoc, take_within hm, take_within hm,
    List.perm_append_left_iff] at hsame
  have hcount := hsame.count_eq x
  rw [List.count_cons_self, List.count_cons_of_ne hne.symm] at hcount
  omega

theorem cutApart_iff {n : Nat} : CutApart key l n ↔
    ∀ l', l'.Perm l → ((sortBy key l').take n).Perm ((sortBy key l).take n) := by
  refine ⟨fun h l' => take_perm_of_cutApart h, fun h x hx y hy hkey hlow hhigh => ?_⟩
  by_contra hne
  obtain ⟨l₁, l₂, h₁, h₂, hdiffer⟩ := exists_orders hx hy hkey hne hlow hhigh
  exact hdiffer ((h l₁ h₁).trans (h l₂ h₂).symm)

/-! ## What is shown of the sorted list -/

/-- What is shown of the sorted list is the same for every order exactly when the elements of one
key are shown alike. -/
theorem map_sortBy_iff {β : Type*} {shown : α → β} :
    (∀ l', l'.Perm l → (sortBy key l').map shown = (sortBy key l).map shown) ↔
      ∀ x ∈ l, ∀ y ∈ l, key x = key y → shown x = shown y := by
  classical
  constructor
  · intro h x hx y hy hkey
    by_contra hne
    have hxin : x ∈ tied key (key x) (sortBy key l) :=
      List.mem_filter.mpr ⟨mem_sortBy.mpr hx, by simp⟩
    have hyin : y ∈ tied key (key x) (sortBy key l) :=
      List.mem_filter.mpr ⟨mem_sortBy.mpr hy, by simp [hkey]⟩
    obtain ⟨mid, hfirst, hsecond⟩ := exists_ends hxin hyin fun heq => hne (congrArg shown heq)
    obtain ⟨hperm₁, hsort₁⟩ := sortBy_reordered (key x) hfirst
    obtain ⟨hperm₂, hsort₂⟩ := sortBy_reordered (key x) hsecond
    have hsame := (h _ hperm₁).trans (h _ hperm₂).symm
    rw [hsort₁, hsort₂] at hsame
    simp only [List.append_assoc, List.cons_append, List.map_append, List.map_cons,
      List.append_cancel_left_eq, List.cons.injEq] at hsame
    exact hne hsame.1
  · intro h l' hperm
    have hkeys : (sortBy key l').map key = (sortBy key l).map key := by
      refine List.Perm.eq_of_pairwise (fun _ _ _ _ => le_antisymm)
        (List.pairwise_map.mpr (pairwise_sortBy key l'))
        (List.pairwise_map.mpr (pairwise_sortBy key l)) ?_
      exact (((sortBy_perm key l').trans hperm).trans (sortBy_perm key l).symm).map key
    -- The key alone tells what is shown.
    let shownOf : κ → Option β := fun k => (l.find? (key · = k)).map shown
    have hshown : ∀ x ∈ l, some (shown x) = shownOf (key x) := by
      intro x hx
      have hsome : (l.find? (key · = key x)).isSome :=
        List.find?_isSome.mpr ⟨x, hx, decide_eq_true rfl⟩
      obtain ⟨y, hfind⟩ := Option.isSome_iff_exists.mp hsome
      have hkey : key y = key x := by simpa using List.find?_some hfind
      simp only [shownOf, hfind, Option.map_some]
      rw [h y (List.mem_of_find?_eq_some hfind) x hx hkey]
    refine List.map_injective_iff.mpr (Option.some_injective β) ?_
    rw [List.map_map, List.map_map]
    calc (sortBy key l').map (some ∘ shown)
        = (sortBy key l').map (shownOf ∘ key) :=
          List.map_congr_left fun x hx => hshown x (hperm.mem_iff.mp (mem_sortBy.mp hx))
      _ = (sortBy key l).map (shownOf ∘ key) := by
          rw [← List.map_map, hkeys, List.map_map]
      _ = (sortBy key l).map (some ∘ shown) :=
          (List.map_congr_left fun x hx => hshown x (mem_sortBy.mp hx)).symm

/-! ## The first that passes -/

/-- The elements that pass and have the lowest key of those are equal. -/
def FirstApart (key : α → κ) (p : α → Bool) (l : List α) : Prop :=
  ∀ x ∈ l, ∀ y ∈ l, p x = true → p y = true → key x = key y →
    (∀ z ∈ l, p z = true → key x ≤ key z) → x = y

variable {p : α → Bool}

theorem find?_sorted {S : List α} {x : α} (hsorted : S.Pairwise fun a b => key a ≤ key b)
    (h : S.find? p = some x) : x ∈ S ∧ p x = true ∧ ∀ z ∈ S, p z = true → key x ≤ key z := by
  obtain ⟨hp, front, back, rfl, hfront⟩ := List.find?_eq_some_iff_append.mp h
  refine ⟨by simp, hp, fun z hz hpz => ?_⟩
  rcases List.mem_append.mp hz with hz | hz
  · have := hfront z hz
    simp [hpz] at this
  · rcases List.mem_cons.mp hz with rfl | hz
    · exact le_refl _
    · exact (List.pairwise_cons.mp (List.pairwise_append.mp hsorted).2.1).1 z hz

theorem find?_sortBy_cons {x : α} (hp : p x = true) (h : ∀ z ∈ l, p z = true → key x ≤ key z) :
    (sortBy key (x :: l)).find? p = some x := by
  unfold sortBy
  rw [List.insertionSort_cons_eq_take_drop, List.find?_append, List.find?_cons_of_pos hp,
    List.find?_eq_none.mpr, Option.none_or]
  intro z hz hpz
  have hmem := (List.mem_insertionSort _).mp ((List.takeWhile_prefix _).subset hz)
  have hlt := List.mem_takeWhile_imp hz
  exact absurd (h z hmem hpz) (by simpa using hlt)

theorem firstApart_iff : FirstApart key p l ↔
    ∀ l', l'.Perm l → (sortBy key l').find? p = (sortBy key l).find? p := by
  constructor
  · intro h l' hperm
    have hmem : ∀ z, z ∈ sortBy key l' ↔ z ∈ sortBy key l := fun z => by
      rw [mem_sortBy, mem_sortBy, hperm.mem_iff]
    cases hx : (sortBy key l).find? p with
    | none =>
      rw [List.find?_eq_none] at hx ⊢
      exact fun z hz => hx z ((hmem z).mp hz)
    | some x =>
      obtain ⟨hxin, hpx, hxleast⟩ := find?_sorted (pairwise_sortBy key l) hx
      cases hy : (sortBy key l').find? p with
      | none => exact absurd hpx (List.find?_eq_none.mp hy x ((hmem x).mpr hxin))
      | some y =>
        obtain ⟨hyin, hpy, hyleast⟩ := find?_sorted (pairwise_sortBy key l') hy
        rw [hmem] at hyin
        have hkey : key x = key y :=
          le_antisymm (hxleast y hyin hpy) (hyleast x ((hmem x).mpr hxin) hpx)
        rw [h x (mem_sortBy.mp hxin) y (mem_sortBy.mp hyin) hpx hpy hkey
          fun z hz => hxleast z (mem_sortBy.mpr hz)]
  · classical
    intro h x hx y hy hpx hpy hkey hleast
    have hfind : ∀ z ∈ l, p z = true → key x = key z → (sortBy key l).find? p = some z := by
      intro z hz hpz hxz
      rw [← h _ (List.perm_cons_erase hz).symm]
      exact find?_sortBy_cons hpz fun w hw hpw => hxz ▸ hleast w (List.mem_of_mem_erase hw) hpw
    exact Option.some.inj ((hfind x hx hpx rfl).symm.trans (hfind y hy hpy hkey))

end LawNexus.Ties
