import LawNexus.Groups.Lines
import LawNexus.Semantic.Scope
import LawNexus.Ties

/-!
# Assembly of an act

The act that the claims of a block identify, from `ln-temporal/src/identity_binding.rs`.
`str::to_lowercase` is a parameter.
-/

namespace LawNexus.Binding

open Loops Ties Groups
open Semantic (TextSpan)

inductive FieldKind where
  | type
  | org
  | geo
  | date
  | number
  | name
deriving DecidableEq, Repr

/-- The place of a field in the derived order. -/
def FieldKind.rank : FieldKind → Nat
  | .type => 0
  | .org => 1
  | .geo => 2
  | .date => 3
  | .number => 4
  | .name => 5

inductive FieldSource where
  | explicitMember
  | sameSeriesHead
  | priorFrame
  | currentDocumentRequisites
deriving DecidableEq, Repr

inductive FieldStatus where
  | explicit
  | inherited
  | conflicting
  | unresolved
deriving DecidableEq, Repr

structure IdentityFieldClaim where
  field : FieldKind
  block : Nat
  span : TextSpan
  source : FieldSource
  status : FieldStatus
  compatibilityBasis : List Char
  inhabited : span.start ≠ span.stop
deriving DecidableEq, Repr

def IdentityFieldClaim.value (c : IdentityFieldClaim) : List Char := c.compatibilityBasis

/-- The key of the sort: claims of one field at one span are not told apart. -/
def position (c : IdentityFieldClaim) : Nat ×ₗ Nat ×ₗ Nat ×ₗ Nat :=
  toLex (c.field.rank, toLex (c.block, toLex (c.span.start, c.span.stop)))

inductive ActType where
  | federal
  | presidentialAgency
  | regionalMunicipal
  | other (value : List Char)
deriving DecidableEq, Repr

structure IdentifyingActCandidate where
  actType : ActType
  typeClaim : IdentityFieldClaim
  org : Option IdentityFieldClaim
  geo : Option IdentityFieldClaim
  date : Option IdentityFieldClaim
  number : Option IdentityFieldClaim
  title : Option IdentityFieldClaim
deriving DecidableEq, Repr

inductive AssemblyRejection where
  | claimLimit (limit : Nat)
  | invalidGeoJurisdiction
deriving DecidableEq, Repr

inductive ActAssemblyOutcome where
  | compatible (candidate : IdentifyingActCandidate)
  | conflicting (retained : List IdentityFieldClaim)
  | incomplete (missing : List FieldKind) (retained : List IdentityFieldClaim)
  | rejected (reason : AssemblyRejection) (retained : List IdentityFieldClaim)
deriving DecidableEq, Repr

/-! ## The claims of a field -/

/-- A claim that can be selected for a field. -/
def usable (field : FieldKind) (c : IdentityFieldClaim) : Bool :=
  c.field = field && c.status ≠ .unresolved

def selected (claims : List IdentityFieldClaim) (field : FieldKind) : Option IdentityFieldClaim :=
  claims.find? (usable field)

def distinctValues (claims : List IdentityFieldClaim) (field : FieldKind) : Bool :=
  match (claims.filter (·.field = field)).map (·.value) with
  | [] => false
  | first :: rest => rest.any (· ≠ first)

section

variable (lower : List Char → List Char)

def isAddressMarker (value : List Char) : Bool :=
  ["площадка", "станция", "вокзал", "адрес"].any fun x => contains (lower value) x.toList

def isFederal (v : List Char) : Bool :=
  contains (lower v) "федерал".toList || v = "Ф".toList

def isPresidential (v : List Char) : Bool :=
  contains (lower v) "президент".toList || contains (lower v) "агент".toList

def isRegional (v : List Char) : Bool :=
  contains (lower v) "регион".toList || contains (lower v) "муницип".toList ||
    contains (lower v) "субъект".toList

def actTypeOf (v : List Char) : ActType :=
  if isFederal lower v then .federal
  else if isPresidential lower v then .presidentialAgency
  else if isRegional lower v then .regionalMunicipal
  else .other v

/-- A claim says itself that the values of its field conflict. -/
def conflictMarked (claims : List IdentityFieldClaim) : Bool :=
  claims.any fun c => c.status = .conflicting && distinctValues claims c.field

/-- The names are not compared. -/
def conflictValued (claims : List IdentityFieldClaim) : Bool :=
  distinctValues claims .org || distinctValues claims .geo || distinctValues claims .type ||
    distinctValues claims .date || distinctValues claims .number

def addressed (claims : List IdentityFieldClaim) : Bool :=
  claims.any fun c => c.field = .geo && isAddressMarker lower c.compatibilityBasis

def missingFields (claims : List IdentityFieldClaim) (actType : ActType) : List FieldKind :=
  (if (selected claims .number).isNone then [.number] else []) ++
    (if (actType = .presidentialAgency ∨ actType = .regionalMunicipal) ∧
      (selected claims .org).isNone then [.org] else []) ++
    (if actType = .regionalMunicipal ∧ (selected claims .geo).isNone then [.geo] else [])

/-! ## Assembly -/

/-- The act of claims that do not conflict. -/
def selectAct (claims : List IdentityFieldClaim) : ActAssemblyOutcome :=
  match selected claims .type with
  | none => .incomplete [.type] claims
  | some typeClaim =>
    let actType := actTypeOf lower typeClaim.value
    let missing := missingFields claims actType
    if missing ≠ [] then .incomplete missing claims
    else .compatible ⟨actType, typeClaim, selected claims .org, selected claims .geo,
      selected claims .date, selected claims .number, selected claims .name⟩

/-- The checks on the sorted claims. -/
def assembleSorted (claims : List IdentityFieldClaim) (limit : Nat) : ActAssemblyOutcome :=
  if limit < claims.length then .rejected (.claimLimit limit) (claims.take limit)
  else if conflictMarked claims then .conflicting claims
  else if conflictValued claims then .conflicting claims
  else if addressed lower claims then .rejected .invalidGeoJurisdiction claims
  else selectAct lower claims

def assembleIdentifyingActWithLimit (claims : List IdentityFieldClaim) (limit : Nat) :
    ActAssemblyOutcome :=
  assembleSorted lower (sortBy position claims) limit

end

/-! ## What the order of the claims does not change -/

variable {lower : List Char → List Char} {claims claims' : List IdentityFieldClaim}

theorem distinctValues_iff {field : FieldKind} : distinctValues claims field = true ↔
    ∃ a ∈ claims, ∃ b ∈ claims, a.field = field ∧ b.field = field ∧ a.value ≠ b.value := by
  have hmem : ∀ {v}, v ∈ (claims.filter (·.field = field)).map (·.value) ↔
      ∃ c ∈ claims, c.field = field ∧ c.value = v := by simp [and_assoc]
  unfold distinctValues
  constructor
  · intro h
    cases hvalues : (claims.filter (·.field = field)).map (·.value) with
    | nil =>
      rw [hvalues] at h
      cases h
    | cons first rest =>
      rw [hvalues] at h
      obtain ⟨v, hv, hne⟩ := List.any_eq_true.mp h
      obtain ⟨a, ha, hfield, rfl⟩ := hmem.mp (hvalues ▸ List.mem_cons_of_mem first hv)
      obtain ⟨b, hb, hfield', rfl⟩ := hmem.mp (hvalues ▸ List.mem_cons_self)
      exact ⟨a, ha, b, hb, hfield, hfield', of_decide_eq_true hne⟩
  · rintro ⟨a, ha, b, hb, hfield, hfield', hne⟩
    have hain := hmem.mpr ⟨a, ha, hfield, rfl⟩
    have hbin := hmem.mpr ⟨b, hb, hfield', rfl⟩
    generalize (claims.filter (·.field = field)).map (·.value) = values at hain hbin
    cases values with
    | nil => cases hain
    | cons first rest =>
      rw [List.any_eq_true]
      rcases List.mem_cons.mp hain with rfl | hain
      · rcases List.mem_cons.mp hbin with hsame | hbin
        · exact absurd hsame.symm hne
        · exact ⟨b.value, hbin, decide_eq_true (Ne.symm hne)⟩
      · by_cases hfirst : a.value = first
        · rcases List.mem_cons.mp hbin with hsame | hbin
          · exact absurd (hfirst.trans hsame.symm) hne
          · exact ⟨b.value, hbin, decide_eq_true (hfirst ▸ Ne.symm hne)⟩
        · exact ⟨a.value, hain, decide_eq_true hfirst⟩

theorem distinctValues_perm (h : claims'.Perm claims) (field : FieldKind) :
    distinctValues claims' field = distinctValues claims field := by
  rw [Bool.eq_iff_iff, distinctValues_iff, distinctValues_iff]
  simp only [h.mem_iff]

theorem conflictMarked_perm (h : claims'.Perm claims) :
    conflictMarked claims' = conflictMarked claims := by
  unfold conflictMarked
  simp only [distinctValues_perm h]
  exact h.any_eq

theorem conflictValued_perm (h : claims'.Perm claims) :
    conflictValued claims' = conflictValued claims := by
  simp only [conflictValued, distinctValues_perm h]

theorem addressed_perm (h : claims'.Perm claims) : addressed lower claims' = addressed lower claims :=
  h.any_eq

theorem selected_isNone_iff {field : FieldKind} :
    (selected claims field).isNone = true ↔ ∀ c ∈ claims, ¬ usable field c = true := by
  rw [selected, Option.isNone_iff_eq_none, List.find?_eq_none]

theorem selected_isNone_perm (h : claims'.Perm claims) (field : FieldKind) :
    (selected claims' field).isNone = (selected claims field).isNone := by
  rw [Bool.eq_iff_iff, selected_isNone_iff, selected_isNone_iff]
  simp only [h.mem_iff]

theorem missingFields_perm (h : claims'.Perm claims) (actType : ActType) :
    missingFields claims' actType = missingFields claims actType := by
  simp only [missingFields, selected_isNone_perm h]

/-- Without a conflict the claims of the type have one value. -/
theorem value_eq_of_type (h : conflictValued claims = false) {a b : IdentityFieldClaim}
    (ha : a ∈ claims) (hb : b ∈ claims) (hat : a.field = .type) (hbt : b.field = .type) :
    a.value = b.value := by
  by_contra hne
  have hdistinct : distinctValues claims .type = true :=
    distinctValues_iff.mpr ⟨a, ha, b, hb, hat, hbt, hne⟩
  simp [conflictValued, hdistinct] at h

end LawNexus.Binding
