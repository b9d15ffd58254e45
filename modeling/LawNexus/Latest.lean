import LawNexus.Loops

/-!
# The values of the latest day

A list of dated values, in any order. The values of the latest day, and a scan that keeps
them: it starts again at each later day.
-/

namespace LawNexus.Latest

open Loops

variable {δ σ : Type*} [LinearOrder δ]

def IsLatest (records : List (δ × σ)) (s : σ) : Prop :=
  ∃ d, (d, s) ∈ records ∧ ∀ r ∈ records, r.1 ≤ d

/-- With the latest day known, its values are the ones that count. -/
theorem isLatest_iff {records : List (δ × σ)} {latest : δ} {v : σ}
    (hmem : (latest, v) ∈ records) (hmax : ∀ r ∈ records, r.1 ≤ latest) (s : σ) :
    IsLatest records s ↔ (latest, s) ∈ records := by
  constructor
  · rintro ⟨d, hd, hle⟩
    have : d = latest := le_antisymm (hmax _ hd) (hle _ hmem)
    exact this ▸ hd
  · intro h
    exact ⟨latest, h, hmax⟩

variable [DecidableEq σ]

/-- One step of the scan: the latest day so far and the values seen on it. -/
def scanStep (acc : Option δ × List σ) (r : δ × σ) : Option δ × List σ :=
  match acc.1 with
  | none => (some r.1, acc.2 ++ [r.2])
  | some latest =>
    if r.1 > latest then (some r.1, [r.2])
    else if r.1 = latest then (some latest, pushNew acc.2 r.2)
    else acc

/-- What the scan knows after these records. -/
inductive Scanned : List (δ × σ) → Option δ × List σ → Prop
  | start : Scanned [] (none, [])
  | seen {records : List (δ × σ)} {latest : δ} {values : List σ} {v : σ}
      (hmem : (latest, v) ∈ records) (hmax : ∀ r ∈ records, r.1 ≤ latest)
      (hvalues : ∀ s, s ∈ values ↔ (latest, s) ∈ records) (hnodup : values.Nodup) :
      Scanned records (some latest, values)

theorem Scanned.step {records : List (δ × σ)} {acc : Option δ × List σ} (h : Scanned records acc)
    (r : δ × σ) : Scanned (records ++ [r]) (scanStep acc r) := by
  cases h with
  | start =>
    refine .seen (v := r.2) (by simp) (by simp) (fun s => ?_) (List.nodup_singleton _)
    obtain ⟨d, s'⟩ := r
    simp
  | @seen _ latest values v hmem hmax hvalues hnodup =>
    obtain ⟨d, s'⟩ := r
    simp only [scanStep]
    split_ifs with hlater hsame
    · -- A later day: nothing seen so far counts any more.
      refine .seen (v := s') (by simp) ?_ (fun s => ?_) (List.nodup_singleton _)
      · intro r hr
        rcases List.mem_append.mp hr with hr | hr
        · exact (hmax r hr).trans hlater.le
        · rw [List.mem_singleton.mp hr]
      · have hold : (d, s) ∉ records := fun h => absurd (hmax _ h) (not_le.mpr hlater)
        simp [hold]
    · subst hsame
      refine .seen (v := v) (by simp [hmem]) ?_ (fun s => ?_) (nodup_pushNew hnodup s')
      · intro r hr
        rcases List.mem_append.mp hr with hr | hr
        · exact hmax r hr
        · rw [List.mem_singleton.mp hr]
      · simp [mem_pushNew, hvalues]
    · refine .seen (v := v) (by simp [hmem]) ?_ (fun s => ?_) hnodup
      · intro r hr
        rcases List.mem_append.mp hr with hr | hr
        · exact hmax r hr
        · rw [List.mem_singleton.mp hr]
          exact not_lt.mp hlater
      · simp [hvalues, Ne.symm hsame]

theorem scanned_foldl (records : List (δ × σ)) :
    Scanned records (records.foldl scanStep (none, [])) := by
  induction records using List.reverseRecOn with
  | nil => exact .start
  | append_singleton records r ih =>
    rw [List.foldl_append]
    exact ih.step r

omit [DecidableEq σ] in
/-- The scan ends with the values of the latest day, each of them once. -/
theorem Scanned.spec {records : List (δ × σ)} {acc : Option δ × List σ}
    (h : Scanned records acc) :
    acc.2.Nodup ∧ ∀ s, s ∈ acc.2 ↔ IsLatest records s := by
  cases h with
  | start => exact ⟨.nil, by simp [IsLatest]⟩
  | seen hmem hmax hvalues hnodup =>
    exact ⟨hnodup, fun s => by rw [hvalues, isLatest_iff hmem hmax]⟩

end LawNexus.Latest
