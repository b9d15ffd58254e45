import LawNexus.Loops
import LawNexus.Texts
import Mathlib.Data.String.Basic

/-!
# The requisites of the current document

The sidecar of `current_requisites.rs` in `ln-decode`: what its claims agree on for each field,
and the references that it authorizes.
-/

namespace LawNexus.Decode

open Loops

inductive RequisitesField where
  | type
  | org
  | geo
  | date
  | number
  | title
  | family
deriving DecidableEq, Repr

def RequisitesField.ALL : List RequisitesField :=
  [.type, .org, .geo, .date, .number, .title, .family]

def RequisitesField.asStr : RequisitesField → String
  | .type => "type"
  | .org => "org"
  | .geo => "geo"
  | .date => "date"
  | .number => "number"
  | .title => "title"
  | .family => "family"

theorem RequisitesField.mem_ALL (field : RequisitesField) : field ∈ RequisitesField.ALL := by
  cases field <;> decide

inductive RequisitesSourceKind where
  | documentHead
  | sourceFilename
  | sourceCatalog
deriving DecidableEq, Repr

def RequisitesSourceKind.debug : RequisitesSourceKind → String
  | .documentHead => "DocumentHead"
  | .sourceFilename => "SourceFilename"
  | .sourceCatalog => "SourceCatalog"

inductive RequisitesExtractionStatus where
  | observed
  | missing
  | malformed
  | wrongDocument
  | unavailable
deriving DecidableEq, Repr

def RequisitesExtractionStatus.debug : RequisitesExtractionStatus → String
  | .observed => "Observed"
  | .missing => "Missing"
  | .malformed => "Malformed"
  | .wrongDocument => "WrongDocument"
  | .unavailable => "Unavailable"

/-! ## Claims -/

def isBlank (s : String) : Bool := Texts.trim s = ""

structure RequisitesClaim where
  claimId : String
  documentVersionRef : String
  field : RequisitesField
  rawValue : String
  sourceKind : RequisitesSourceKind
  extractorProfile : String
  extractionStatus : RequisitesExtractionStatus
  identified : (isBlank claimId || isBlank documentVersionRef || isBlank extractorProfile) = false
  observed : (extractionStatus = .observed && isBlank rawValue) = false
deriving DecidableEq, Repr

inductive FieldResolutionStatus where
  | agreed
  | singleSource
  | conflicting
  | missing
  | invalid
  | associationFailed
deriving DecidableEq, Repr

structure FieldResolution where
  field : RequisitesField
  status : FieldResolutionStatus
  compatibleCandidateRefs : List String
  competingCandidateRefs : List String
deriving DecidableEq, Repr

inductive SidecarCompleteness where
  | completeAgreed
  | usablePartial
  | conflicting
  | unavailable
deriving DecidableEq, Repr

def SidecarCompleteness.debug : SidecarCompleteness → String
  | .completeAgreed => "CompleteAgreed"
  | .usablePartial => "UsablePartial"
  | .conflicting => "Conflicting"
  | .unavailable => "Unavailable"

inductive RequisitesDiagnostic where
  | headFilenameConflict
  | headCatalogConflict
  | filenameCatalogConflict
  | regionalGeoConflict
  | orgGeoRoleCollapse
  | numberNormalizationAmbiguous
  | titleAliasOnly
  | wrongDocumentAssociation
  | requiredFieldMissing
  | sourceAuthorityPolicyMissing
deriving DecidableEq, Repr

/-! ## The reduction of the claims -/

/-- The conflicts between the kinds of sources that the observed claims of a field come from. -/
def sourceConflicts (sources : List RequisitesSourceKind) : List RequisitesDiagnostic :=
  (if sources.any (· = .documentHead) && sources.any (· = .sourceFilename) then
    [.headFilenameConflict] else []) ++
  (if sources.any (· = .documentHead) && sources.any (· = .sourceCatalog) then
    [.headCatalogConflict] else []) ++
  (if sources.any (· = .sourceFilename) && sources.any (· = .sourceCatalog) then
    [.filenameCatalogConflict] else [])

/-- One turn of the loop over the fields: the resolution and the diagnostics it pushes. -/
def resolveField (claims : List RequisitesClaim) (field : RequisitesField) :
    FieldResolution × List RequisitesDiagnostic :=
  let fieldClaims := claims.filter (·.field = field)
  let wrong := fieldClaims.any (·.extractionStatus = .wrongDocument)
  let usable := fieldClaims.filter (·.extractionStatus = .observed)
  let values := distinct (usable.map (·.rawValue))
  -- The groups of a `BTreeMap` come in the order of their values.
  let refs := (sortBy (·.rawValue) usable).map (·.claimId)
  let association : List RequisitesDiagnostic := if wrong then [.wrongDocumentAssociation] else []
  if wrong && usable.isEmpty then (⟨field, .associationFailed, [], []⟩, association)
  else if values.isEmpty then
    (⟨field, if fieldClaims.any (·.extractionStatus = .malformed) then .invalid else .missing,
      [], []⟩, association ++ [.requiredFieldMissing])
  else if values.length = 1 then
    (⟨field, if 1 < refs.length then .agreed else .singleSource, refs, []⟩, association)
  else
    (⟨field, .conflicting, [], refs⟩, association ++ sourceConflicts (usable.map (·.sourceKind)))

theorem resolveField_field (claims : List RequisitesClaim) (field : RequisitesField) :
    (resolveField claims field).1.field = field := by
  unfold resolveField
  dsimp only
  split_ifs <;> rfl

def FieldResolution.observed (r : FieldResolution) : Bool :=
  r.status = .agreed || r.status = .singleSource

def sidecarCompleteness (resolutions : List FieldResolution) : SidecarCompleteness :=
  let observed := resolutions.countP (·.observed)
  if resolutions.any fun r => r.status = .conflicting || r.status = .associationFailed then
    .conflicting
  else if observed = RequisitesField.ALL.length && resolutions.all (·.status = .agreed) then
    .completeAgreed
  else if 0 < observed then .usablePartial
  else .unavailable

/-- The sidecar: every field is reduced. -/
structure CurrentDocumentRequisites where
  documentVersionRef : String
  rawClaims : List RequisitesClaim
  fieldResolutions : List FieldResolution
  completeness : SidecarCompleteness
  diagnostics : List RequisitesDiagnostic
  reduced : fieldResolutions.map (·.field) = RequisitesField.ALL
deriving DecidableEq, Repr

theorem map_resolveField (claims : List RequisitesClaim) :
    ((RequisitesField.ALL.map (resolveField claims)).map (·.1)).map (·.field) =
      RequisitesField.ALL := by
  rw [List.map_map, List.map_map]
  exact (List.map_congr_left fun field _ => resolveField_field claims field).trans (List.map_id _)

def CurrentDocumentRequisites.tryNew (documentVersionRef : String)
    (claims : List RequisitesClaim) : Except String CurrentDocumentRequisites :=
  if isBlank documentVersionRef then .error "document version ref is empty"
  else if claims.any (·.documentVersionRef ≠ documentVersionRef) ||
      (claims.map (·.claimId)).dedup.length ≠ claims.length then
    .error "claims must have unique ids and match document version"
  else
    let reduced := RequisitesField.ALL.map (resolveField claims)
    .ok
      { documentVersionRef
        rawClaims := claims
        fieldResolutions := reduced.map (·.1)
        completeness := sidecarCompleteness (reduced.map (·.1))
        diagnostics := reduced.flatMap (·.2)
        reduced := map_resolveField claims }

/-! ## Identity and authorization -/

def RequisitesClaim.fingerprint (claim : RequisitesClaim) : String :=
  "|" ++ claim.claimId ++ ":" ++ claim.field.asStr ++ ":" ++ claim.rawValue ++ ":" ++
    claim.sourceKind.debug ++ "/" ++ claim.extractionStatus.debug ++ "/" ++ claim.extractorProfile

def CurrentDocumentRequisites.identityFingerprint (r : CurrentDocumentRequisites) : String :=
  r.rawClaims.foldl (fun out claim => out ++ claim.fingerprint)
    (r.documentVersionRef ++ ":" ++ r.completeness.debug)

/-- The admitted fields of a self-reference. -/
structure ThisRefGrammarEvidence where
  contains : RequisitesField → Bool

def ThisRefGrammarEvidence.empty : ThisRefGrammarEvidence := ⟨fun _ => false⟩

def ThisRefGrammarEvidence.new (fields : List RequisitesField) : ThisRefGrammarEvidence :=
  ⟨fun field => fields.any (· = field)⟩

def ThisRefGrammarEvidence.fields (e : ThisRefGrammarEvidence) : List RequisitesField :=
  RequisitesField.ALL.filter e.contains

def ThisRefGrammarEvidence.fingerprint (e : ThisRefGrammarEvidence) : String :=
  "|".intercalate (e.fields.map (·.asStr))

theorem ThisRefGrammarEvidence.names (e : ThisRefGrammarEvidence) :
    (e.fingerprint.toList.splitOn '|').filter (· ≠ []) = e.fields.map (·.asStr.toList) := by
  have hbar : ∀ field : RequisitesField, '|' ∉ field.asStr.toList := by
    intro field
    cases field <;> decide
  have hne : ∀ field : RequisitesField, field.asStr.toList ≠ [] := by
    intro field
    cases field <;> decide
  have hlist : e.fingerprint.toList = ['|'].intercalate (e.fields.map (·.asStr.toList)) := by
    rw [fingerprint, String.toList_intercalate, List.map_map]
    rfl
  rw [hlist]
  by_cases hnil : e.fields = []
  · rw [hnil]
    rfl
  · rw [List.splitOn_intercalate, List.filter_eq_self]
    · intro name hname
      obtain ⟨field, -, rfl⟩ := List.mem_map.mp hname
      exact decide_eq_true (hne field)
    · intro name hname
      obtain ⟨field, -, rfl⟩ := List.mem_map.mp hname
      exact hbar field
    · exact fun h => hnil (List.map_eq_nil_iff.mp h)

/-- The fingerprint tells which fields are admitted. -/
theorem ThisRefGrammarEvidence.fingerprint_injective :
    Function.Injective ThisRefGrammarEvidence.fingerprint := by
  intro e e' h
  have hnames : e.fields.map (·.asStr.toList) = e'.fields.map (·.asStr.toList) := by
    rw [← e.names, ← e'.names, h]
  have hinj : Function.Injective fun field : RequisitesField => field.asStr.toList := by
    intro field field'
    cases field <;> cases field' <;> decide
  have hfields : e.fields = e'.fields := hinj.list_map hnames
  cases e with
  | mk contains =>
  cases e' with
  | mk contains' =>
    congr 1
    funext field
    have hmem : field ∈ (ThisRefGrammarEvidence.mk contains).fields ↔
        field ∈ (ThisRefGrammarEvidence.mk contains').fields := by rw [hfields]
    unfold ThisRefGrammarEvidence.fields at hmem
    rw [List.mem_filter, List.mem_filter, and_iff_right field.mem_ALL,
      and_iff_right field.mem_ALL] at hmem
    exact Bool.eq_iff_iff.mpr hmem

theorem CurrentDocumentRequisites.resolution_isSome (r : CurrentDocumentRequisites)
    (field : RequisitesField) : (r.fieldResolutions.find? (·.field = field)).isSome := by
  have hmem : field ∈ r.fieldResolutions.map (·.field) := r.reduced ▸ field.mem_ALL
  obtain ⟨resolution, hresolution, rfl⟩ := List.mem_map.mp hmem
  exact List.find?_isSome.mpr ⟨resolution, hresolution, decide_eq_true rfl⟩

def CurrentDocumentRequisites.resolution (r : CurrentDocumentRequisites)
    (field : RequisitesField) : FieldResolution :=
  (r.fieldResolutions.find? (·.field = field)).get (r.resolution_isSome field)

def CurrentDocumentRequisites.authorizeThisDocumentReference (r : CurrentDocumentRequisites)
    (evidence : ThisRefGrammarEvidence) : Bool :=
  !evidence.fields.isEmpty && r.completeness ≠ .unavailable &&
    evidence.fields.all fun field => (r.resolution field).observed

end LawNexus.Decode
