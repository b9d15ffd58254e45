import LawNexus.Binding.Assembly

/-!
# The order in which claims are offered

When the act that the claims identify is the same for every order of them.
-/

namespace LawNexus.Binding

open Loops Ties

variable {lower : List Char → List Char} {claims claims' : List IdentityFieldClaim} {limit : Nat}

/-- One variant, with one candidate, the same missing fields, or the same claims retained. -/
def SameOutcome : ActAssemblyOutcome → ActAssemblyOutcome → Prop
  | .compatible a, .compatible b => a = b
  | .conflicting retained, .conflicting retained' => retained.Perm retained'
  | .incomplete missing retained, .incomplete missing' retained' =>
    missing = missing' ∧ retained.Perm retained'
  | .rejected reason retained, .rejected reason' retained' =>
    reason = reason' ∧ retained.Perm retained'
  | _, _ => False

/-- The claims conflict, or a place of an address stands for a jurisdiction. -/
def Contradicted (lower : List Char → List Char) (claims : List IdentityFieldClaim) : Prop :=
  conflictMarked claims = true ∨ conflictValued claims = true ∨ addressed lower claims = true

/-- There is a type, and no field that an act of this type needs is missing. -/
def Complete (lower : List Char → List Char) (claims : List IdentityFieldClaim) : Prop :=
  ∃ c ∈ claims, usable .type c = true ∧ missingFields claims (actTypeOf lower c.value) = []

/-- Claims at one place are equal wherever one of them is taken and another is not: at the limit,
and for the first claim of each field of an act that can be identified. -/
structure OrderFree (lower : List Char → List Char) (claims : List IdentityFieldClaim)
    (limit : Nat) : Prop where
  cut : limit < claims.length → CutApart position claims limit
  firsts : claims.length ≤ limit → ¬ Contradicted lower claims → Complete lower claims →
    ∀ field, FirstApart position (usable field) claims

/-! ## Within the limit -/

theorem contradicted_perm (h : claims'.Perm claims) :
    Contradicted lower claims' ↔ Contradicted lower claims := by
  unfold Contradicted
  rw [conflictMarked_perm h, conflictValued_perm h, addressed_perm h]

theorem assembleSorted_of_over (h : limit < claims.length) :
    assembleSorted lower claims limit = .rejected (.claimLimit limit) (claims.take limit) :=
  if_pos h

theorem assembleSorted_of_clear (h : claims.length ≤ limit) (hclear : ¬ Contradicted lower claims) :
    assembleSorted lower claims limit = selectAct lower claims := by
  unfold Contradicted at hclear
  push Not at hclear
  unfold assembleSorted
  rw [if_neg (Nat.not_lt.mpr h), if_neg hclear.1, if_neg hclear.2.1, if_neg hclear.2.2]

/-- Claims that contradict each other do so in every order. -/
theorem sameOutcome_of_contradicted (hperm : claims'.Perm claims) (h : claims.length ≤ limit)
    (hcontra : Contradicted lower claims) :
    SameOutcome (assembleSorted lower claims' limit) (assembleSorted lower claims limit) := by
  unfold assembleSorted
  rw [if_neg (Nat.not_lt.mpr h), if_neg (Nat.not_lt.mpr (hperm.length_eq.trans_le h)),
    conflictMarked_perm hperm, conflictValued_perm hperm, addressed_perm hperm]
  split_ifs with hmarked hvalued haddressed
  · exact hperm
  · exact hperm
  · exact ⟨rfl, hperm⟩
  · rcases hcontra with hcontra | hcontra | hcontra
    · exact absurd hcontra hmarked
    · exact absurd hcontra hvalued
    · exact absurd hcontra haddressed

/-! ## The act that is selected -/

theorem mem_of_selected {field : FieldKind} {c : IdentityFieldClaim}
    (h : selected claims field = some c) : c ∈ claims ∧ usable field c = true :=
  ⟨List.mem_of_find?_eq_some h, List.find?_some h⟩

theorem field_of_usable {field : FieldKind} {c : IdentityFieldClaim} (h : usable field c = true) :
    c.field = field := by
  unfold usable at h
  exact of_decide_eq_true (Bool.and_eq_true_iff.mp h).1

theorem selectAct_of_none (h : selected claims .type = none) :
    selectAct lower claims = .incomplete [.type] claims := by
  rw [selectAct, h]

theorem selectAct_of_some {c : IdentityFieldClaim} (h : selected claims .type = some c) :
    selectAct lower claims = if missingFields claims (actTypeOf lower c.value) ≠ [] then
        .incomplete (missingFields claims (actTypeOf lower c.value)) claims
      else .compatible ⟨actTypeOf lower c.value, c, selected claims .org, selected claims .geo,
        selected claims .date, selected claims .number, selected claims .name⟩ := by
  rw [selectAct, h]

/-- Each order has a type claim if one of them has, and the values are the same. -/
theorem exists_selected_type (hperm : claims'.Perm claims) (hclear : conflictValued claims = false)
    {c : IdentityFieldClaim} (h : selected claims .type = some c) :
    ∃ c', selected claims' .type = some c' ∧ c'.value = c.value := by
  have hsome : (selected claims' .type).isNone = false := by
    rw [selected_isNone_perm hperm, h]
    rfl
  obtain ⟨c', hc'⟩ := Option.isSome_iff_exists.mp (Option.isNone_eq_false_iff.mp hsome)
  obtain ⟨hin, husable⟩ := mem_of_selected h
  obtain ⟨hin', husable'⟩ := mem_of_selected hc'
  exact ⟨c', hc', value_eq_of_type hclear (hperm.mem_iff.mp hin') hin (field_of_usable husable')
    (field_of_usable husable)⟩

/-- Without a conflict the type of a complete act does not depend on the claim it is read off. -/
theorem missingFields_of_complete (hclear : conflictValued claims = false)
    (h : Complete lower claims) {c : IdentityFieldClaim} (hc : selected claims .type = some c) :
    missingFields claims (actTypeOf lower c.value) = [] := by
  obtain ⟨d, hd, husable, hmissing⟩ := h
  obtain ⟨hin, husable'⟩ := mem_of_selected hc
  rwa [value_eq_of_type hclear hin hd (field_of_usable husable') (field_of_usable husable)]

theorem exists_selected_of_complete (h : Complete lower claims) :
    ∃ c, selected claims .type = some c := by
  obtain ⟨d, hd, husable, -⟩ := h
  refine Option.isSome_iff_exists.mp (Option.isNone_eq_false_iff.mp ?_)
  exact Bool.eq_false_iff.mpr fun hnone => selected_isNone_iff.mp hnone d hd husable

/-- The same claims selected make the same act, and those that are missing are missing in every
order. -/
theorem sameOutcome_selectAct (hperm : claims'.Perm claims)
    (hclear : conflictValued claims = false)
    (hselected : Complete lower claims → ∀ field, selected claims' field = selected claims field) :
    SameOutcome (selectAct lower claims') (selectAct lower claims) := by
  cases hc : selected claims .type with
  | none =>
    have hnone : selected claims' .type = none := by
      rw [← Option.isNone_iff_eq_none, selected_isNone_perm hperm, hc]
      rfl
    rw [selectAct_of_none hc, selectAct_of_none hnone]
    exact ⟨rfl, hperm⟩
  | some c =>
    obtain ⟨c', hc', hvalue⟩ := exists_selected_type hperm hclear hc
    rw [selectAct_of_some hc, selectAct_of_some hc', hvalue, missingFields_perm hperm]
    split_ifs with hmissing
    · exact ⟨rfl, hperm⟩
    · obtain ⟨hin, husable⟩ := mem_of_selected hc
      have hsame := hselected ⟨c, hin, husable, not_not.mp hmissing⟩
      have htype : c' = c := Option.some.inj (hc'.symm.trans ((hsame .type).trans hc))
      simp only [SameOutcome, htype, hsame]

/-- A complete act tells which claims were selected. -/
theorem selected_of_sameOutcome (hperm : claims'.Perm claims)
    (hclear : conflictValued claims = false) (hcomplete : Complete lower claims)
    (h : SameOutcome (selectAct lower claims') (selectAct lower claims)) (field : FieldKind) :
    selected claims' field = selected claims field := by
  obtain ⟨c, hc⟩ := exists_selected_of_complete hcomplete
  obtain ⟨c', hc', hvalue⟩ := exists_selected_type hperm hclear hc
  have hmissing := missingFields_of_complete hclear hcomplete hc
  rw [selectAct_of_some hc, selectAct_of_some hc', hvalue, missingFields_perm hperm,
    if_neg (not_not.mpr hmissing), if_neg (not_not.mpr hmissing)] at h
  have hcandidate := IdentifyingActCandidate.mk.inj h
  obtain ⟨-, htype, horg, hgeo, hdate, hnumber, hname⟩ := hcandidate
  cases field with
  | type => rw [hc, hc', htype]
  | org => exact horg
  | geo => exact hgeo
  | date => exact hdate
  | number => exact hnumber
  | name => exact hname

theorem complete_perm (hperm : claims'.Perm claims) :
    Complete lower claims' ↔ Complete lower claims := by
  unfold Complete
  simp only [hperm.mem_iff, missingFields_perm hperm]

/-! ## Every order -/

theorem sortBy_perm_sortBy (h : claims'.Perm claims) :
    (sortBy position claims').Perm (sortBy position claims) :=
  (sortBy_perm position _).trans (h.trans (sortBy_perm position _).symm)

/-- The outcome is the same for every order of the claims. -/
def SameForAll (lower : List Char → List Char) (claims : List IdentityFieldClaim) (limit : Nat) :
    Prop :=
  ∀ claims', claims'.Perm claims →
    SameOutcome (assembleIdentifyingActWithLimit lower claims' limit)
      (assembleIdentifyingActWithLimit lower claims limit)

/-- Past the limit the claims up to the limit are retained. -/
theorem sameForAll_of_over (h : limit < claims.length) :
    SameForAll lower claims limit ↔ CutApart position claims limit := by
  have houtcome : ∀ claims', claims'.Perm claims →
      assembleIdentifyingActWithLimit lower claims' limit =
        .rejected (.claimLimit limit) ((sortBy position claims').take limit) :=
    fun claims' hperm => assembleSorted_of_over (by
      rwa [(sortBy_perm position claims').length_eq, hperm.length_eq])
  rw [cutApart_iff]
  refine forall₂_congr fun claims' hperm => ?_
  rw [houtcome claims' hperm, houtcome claims (List.Perm.refl _)]
  exact and_iff_right rfl

theorem sameForAll_of_contradicted (h : claims.length ≤ limit)
    (hcontra : Contradicted lower claims) : SameForAll lower claims limit := by
  have hself := sortBy_perm position claims
  intro claims' hperm
  exact sameOutcome_of_contradicted (sortBy_perm_sortBy hperm) (hself.length_eq.trans_le h)
    ((contradicted_perm hself).mpr hcontra)

/-- Claims that can be put together are told apart by the act that they make. -/
theorem sameForAll_of_clear (h : claims.length ≤ limit) (hclear : ¬ Contradicted lower claims) :
    SameForAll lower claims limit ↔
      (Complete lower claims → ∀ field, FirstApart position (usable field) claims) := by
  have hself := sortBy_perm position claims
  have houtcome : ∀ claims', claims'.Perm claims →
      assembleIdentifyingActWithLimit lower claims' limit =
        selectAct lower (sortBy position claims') := fun claims' hperm =>
    have hall := (sortBy_perm position claims').trans hperm
    assembleSorted_of_clear (hall.length_eq.trans_le h) fun hcontra =>
      hclear ((contradicted_perm hall).mp hcontra)
  have hvalued : conflictValued (sortBy position claims) = false := by
    rw [conflictValued_perm hself]
    exact Bool.eq_false_iff.mpr fun hvalued => hclear (Or.inr (Or.inl hvalued))
  constructor
  · intro hall hcomplete field
    refine firstApart_iff.mpr fun claims' hperm => ?_
    have hsame := hall claims' hperm
    rw [houtcome claims' hperm, houtcome claims (List.Perm.refl _)] at hsame
    exact selected_of_sameOutcome (sortBy_perm_sortBy hperm) hvalued
      ((complete_perm hself).mpr hcomplete) hsame field
  · intro hfirsts claims' hperm
    rw [houtcome claims' hperm, houtcome claims (List.Perm.refl _)]
    exact sameOutcome_selectAct (sortBy_perm_sortBy hperm) hvalued fun hcomplete field =>
      firstApart_iff.mp (hfirsts ((complete_perm hself).mp hcomplete) field) claims' hperm

/-- The outcome is the same for every order of the claims if and only if claims at one place are
equal where one of them is taken and another is not. -/
theorem order_free_iff (lower : List Char → List Char) (claims : List IdentityFieldClaim)
    (limit : Nat) : SameForAll lower claims limit ↔ OrderFree lower claims limit := by
  rcases Nat.lt_or_ge limit claims.length with hover | hwithin
  · rw [sameForAll_of_over hover]
    exact ⟨fun h => ⟨fun _ => h, fun hle => absurd hover (Nat.not_lt.mpr hle)⟩,
      fun h => h.cut hover⟩
  · by_cases hcontra : Contradicted lower claims
    · exact ⟨fun _ => ⟨fun hover => absurd hwithin (Nat.not_le.mpr hover),
        fun _ hclear => absurd hcontra hclear⟩, fun _ => sameForAll_of_contradicted hwithin hcontra⟩
    · rw [sameForAll_of_clear hwithin hcontra]
      exact ⟨fun h => ⟨fun hover => absurd hwithin (Nat.not_le.mpr hover), fun _ _ => h⟩,
        fun h => h.firsts hwithin hcontra⟩

namespace OrderFree.Sample

/-! ### Two names at one place -/

def lowerCase (text : List Char) : List Char := text.map fun c => if c = 'Ф' then 'ф' else c

def claimAt (field : FieldKind) (value : String) : IdentityFieldClaim :=
  ⟨field, 7, ⟨0, 2, Nat.zero_le 2⟩, .explicitMember, .explicit, value.toList, Nat.zero_ne_add_one 1⟩

def firstName : IdentityFieldClaim := claimAt .name "N1"

def secondName : IdentityFieldClaim := claimAt .name "N2"

def act : List IdentityFieldClaim :=
  [claimAt .type "Ф", claimAt .number "12", firstName, secondName]

def swapped : List IdentityFieldClaim :=
  [claimAt .type "Ф", claimAt .number "12", secondName, firstName]

def identified (title : IdentityFieldClaim) : ActAssemblyOutcome :=
  .compatible ⟨.federal, claimAt .type "Ф", none, none, none, some (claimAt .number "12"),
    some title⟩

theorem name_depends_on_order : ¬ SameForAll lowerCase act 32 := by
  intro h
  have hperm : swapped.Perm act := ((List.Perm.swap _ _ []).cons _).cons _
  have hsame := h swapped hperm
  have hswapped : assembleIdentifyingActWithLimit lowerCase swapped 32 = identified secondName := by
    decide
  have hact : assembleIdentifyingActWithLimit lowerCase act 32 = identified firstName := by
    decide
  rw [hswapped, hact] at hsame
  exact absurd (congrArg IdentifyingActCandidate.title hsame) (by decide)

end OrderFree.Sample

end LawNexus.Binding
