import LawNexus.Loops
import Mathlib.Data.List.MinMax

/-!
# Ranked hits

A scan over hits that keeps the groups of the lowest rank so far, and what it comes to: the
hits of the lowest rank decide.
-/

namespace LawNexus.Ranked

open Loops

variable {α β κ : Type*}

structure Hit (α β κ : Type*) where
  rank : κ
  group : α
  note : β
deriving DecidableEq, Repr

/-- What the hits say. -/
inductive Verdict (α : Type*)
  | unknown
  | bound (group : α)
  | conflict (groups : List α)
deriving DecidableEq, Repr

section

variable [LinearOrder κ]

/-- The hits that no hit outranks. -/
def leastHits (hits : List (Hit α β κ)) : List (Hit α β κ) :=
  hits.filter fun h => ∀ h' ∈ hits, h.rank ≤ h'.rank

theorem mem_leastHits {hits : List (Hit α β κ)} {h : Hit α β κ} :
    h ∈ leastHits hits ↔ h ∈ hits ∧ ∀ h' ∈ hits, h.rank ≤ h'.rank := by
  simp [leastHits]

theorem exists_leastHit {hits : List (Hit α β κ)} (h : hits ≠ []) :
    ∃ least, least ∈ leastHits hits := by
  cases hmin : hits.argmin (·.rank) with
  | none => exact absurd (List.argmin_eq_none.mp hmin) h
  | some least =>
    exact ⟨least, mem_leastHits.mpr ⟨List.argmin_mem hmin, fun _ h' => List.le_of_mem_argmin h' hmin⟩⟩

theorem leastHits_eq_nil_iff {hits : List (Hit α β κ)} : leastHits hits = [] ↔ hits = [] := by
  constructor
  · intro h
    by_contra hne
    obtain ⟨least, hleast⟩ := exists_leastHit hne
    simp [h] at hleast
  · rintro rfl
    rfl

theorem rank_eq_of_mem_leastHits {hits : List (Hit α β κ)} {h h' : Hit α β κ}
    (hh : h ∈ leastHits hits) (hh' : h' ∈ leastHits hits) : h.rank = h'.rank := by
  rw [mem_leastHits] at hh hh'
  exact le_antisymm (hh.2 h' hh'.1) (hh'.2 h hh.1)

/-- One more hit leads alone, joins the others or is outranked. -/
theorem leastHits_concat {hits : List (Hit α β κ)} {least : Hit α β κ}
    (hleast : least ∈ leastHits hits) (hit : Hit α β κ) :
    leastHits (hits ++ [hit]) =
      if hit.rank < least.rank then [hit]
      else if hit.rank = least.rank then leastHits hits ++ [hit]
      else leastHits hits := by
  have hall := (mem_leastHits.mp hleast).2
  have hnew : (∀ h' ∈ hits, hit.rank ≤ h'.rank) ↔ hit.rank ≤ least.rank :=
    ⟨fun h => h least (mem_leastHits.mp hleast).1, fun h h' hh' => h.trans (hall h' hh')⟩
  have hold : hits.filter (fun h => ∀ h' ∈ hits ++ [hit], h.rank ≤ h'.rank) =
      (leastHits hits).filter fun h => h.rank ≤ hit.rank := by
    unfold leastHits
    rw [List.filter_filter]
    refine List.filter_congr fun h _ => ?_
    simp only [List.forall_mem_append, List.forall_mem_singleton, Bool.decide_and, Bool.and_comm]
  have hsame : ∀ h ∈ leastHits hits, h.rank = least.rank := fun h hh =>
    rank_eq_of_mem_leastHits hh hleast
  have hlast : [hit].filter (fun h => ∀ h' ∈ hits ++ [hit], h.rank ≤ h'.rank) =
      if hit.rank ≤ least.rank then [hit] else [] := by
    simp [List.filter_singleton, hnew, or_imp, forall_and]
  have hsplit : leastHits (hits ++ [hit]) = (leastHits hits).filter (fun h => h.rank ≤ hit.rank) ++
      if hit.rank ≤ least.rank then [hit] else [] := by
    rw [← hold, ← hlast, ← List.filter_append]
    rfl
  rw [hsplit]
  rcases lt_trichotomy hit.rank least.rank with hlt | heq | hgt
  · have hnone : (leastHits hits).filter (fun h => h.rank ≤ hit.rank) = [] := by
      rw [List.filter_eq_nil_iff]
      intro h hh
      simpa [hsame h hh] using hlt
    rw [if_pos hlt, if_pos hlt.le, hnone, List.nil_append]
  · have hkeep : (leastHits hits).filter (fun h => h.rank ≤ hit.rank) = leastHits hits := by
      rw [List.filter_eq_self]
      intro h hh
      simp [hsame h hh, heq]
    rw [if_pos heq.le, if_neg heq.not_lt, if_pos heq, hkeep]
  · have hkeep : (leastHits hits).filter (fun h => h.rank ≤ hit.rank) = leastHits hits := by
      rw [List.filter_eq_self]
      intro h hh
      simpa [hsame h hh] using hgt.le
    rw [if_neg (not_lt.mpr hgt.le), if_neg hgt.ne', if_neg (not_le.mpr hgt), hkeep,
      List.append_nil]

/-- What the verdict has to be. The groups of a conflict are sorted. -/
inductive IsVerdict [LinearOrder α] (hits : List (Hit α β κ)) : Verdict α → Prop
  | unknown (h : hits = []) : IsVerdict hits .unknown
  | bound {group : α} (hsome : hits ≠ []) (h : ∀ hit ∈ leastHits hits, hit.group = group) :
      IsVerdict hits (.bound group)
  | conflict {groups : List α} (hsome : hits ≠ [])
      (hmany : ¬ ∃ group, ∀ hit ∈ leastHits hits, hit.group = group)
      (hsorted : groups.Pairwise (· < ·))
      (h : ∀ group, group ∈ groups ↔ ∃ hit ∈ leastHits hits, hit.group = group) :
      IsVerdict hits (.conflict groups)

end

/-! ## The scan -/

section

variable [DecidableEq α] [LinearOrder κ]

/-- The lowest rank so far, its groups and the note of its first hit. -/
structure Best (α β κ : Type*) where
  rank : Option κ
  groups : List α
  note : Option β

def Best.start : Best α β κ := ⟨none, [], none⟩

def Best.step (best : Best α β κ) (hit : Hit α β κ) : Best α β κ :=
  match best.rank with
  | none => ⟨some hit.rank, [hit.group], some hit.note⟩
  | some rank =>
    if hit.rank < rank then ⟨some hit.rank, [hit.group], some hit.note⟩
    else if hit.rank = rank then { best with groups := pushNew best.groups hit.group }
    else best

def scan (hits : List (Hit α β κ)) : Best α β κ := hits.foldl Best.step .start

theorem scan_eq (hits : List (Hit α β κ)) :
    scan hits = ⟨(leastHits hits).head?.map (·.rank), distinct ((leastHits hits).map (·.group)),
      (leastHits hits).head?.map (·.note)⟩ := by
  induction hits using List.reverseRecOn with
  | nil => rfl
  | append_singleton hits hit ih =>
    unfold scan at ih ⊢
    rw [List.foldl_append, ih]
    by_cases hnil : hits = []
    · subst hnil
      simp [leastHits, Best.step, distinct, pushNew]
    · obtain ⟨least, hleast⟩ := exists_leastHit hnil
      obtain ⟨first, rest, hfirst⟩ := List.exists_cons_of_ne_nil (List.ne_nil_of_mem hleast)
      have hrank : first.rank = least.rank :=
        rank_eq_of_mem_leastHits (hfirst ▸ List.mem_cons_self) hleast
      rw [leastHits_concat hleast, hfirst]
      simp only [List.foldl_cons, List.foldl_nil, List.head?_cons, Option.map_some, Best.step, hrank]
      split_ifs
      · simp [distinct, pushNew]
      · simp [distinct, List.foldl_append, hrank]
      · simp [hrank]

/-- The verdict of the groups that are left. -/
def verdictOf [LinearOrder α] : List α → Verdict α
  | [] => .unknown
  | [group] => .bound group
  | groups => .conflict (sortBy id groups)

/-- The scan finds the verdict that the hits of the lowest rank give. -/
theorem isVerdict_scan [LinearOrder α] (hits : List (Hit α β κ)) :
    IsVerdict hits (verdictOf (scan hits).groups) := by
  rw [scan_eq]
  dsimp only
  have hmem : ∀ group, group ∈ distinct ((leastHits hits).map (·.group)) ↔
      ∃ hit ∈ leastHits hits, hit.group = group := by simp
  have hnodup := nodup_distinct ((leastHits hits).map (·.group))
  have hsome : ∀ group, group ∈ distinct ((leastHits hits).map (·.group)) → hits ≠ [] := by
    rintro group hgroup rfl
    simp [leastHits] at hgroup
  generalize distinct ((leastHits hits).map (·.group)) = groups at hmem hnodup hsome
  match groups with
  | [] =>
    refine .unknown (leastHits_eq_nil_iff.mp (List.eq_nil_iff_forall_not_mem.mpr fun hit hhit => ?_))
    simpa using (hmem hit.group).mpr ⟨hit, hhit, rfl⟩
  | [group] =>
    exact .bound (hsome group List.mem_cons_self) fun hit hhit =>
      List.mem_singleton.mp ((hmem _).mpr ⟨hit, hhit, rfl⟩)
  | first :: second :: rest =>
    refine .conflict (hsome first List.mem_cons_self) ?_ ?_ fun group => ?_
    · rintro ⟨group, hall⟩
      obtain ⟨hit, hhit, rfl⟩ := (hmem first).mp List.mem_cons_self
      obtain ⟨hit', hhit', rfl⟩ := (hmem second).mp (by simp)
      simp [hall hit hhit, hall hit' hhit'] at hnodup
    · have hsorted := pairwise_sortBy id (first :: second :: rest)
      have hapart : (sortBy id (first :: second :: rest)).Nodup :=
        (sortBy_perm id _).nodup_iff.mpr hnodup
      exact (hsorted.and hapart).imp fun h => lt_of_le_of_ne h.1 h.2
    · rw [mem_sortBy, hmem]

end

end LawNexus.Ranked
