import LawNexus.Groups.Profile
import LawNexus.Ranked

/-!
# The group of a document

`detect_metadata` of `structural_profile.rs` and `classify_document_group` of `catalog.rs`:
one scan over the needles that match. `str::to_lowercase` is a parameter.
-/

namespace LawNexus.Groups

open Chars Loops Ranked

/-! ## The hits -/

/-- The metadata of a document. -/
structure Metadata where
  path : Option (List Char)
  kind : Option (List Char)
  docType : Option (List Char)
deriving DecidableEq, Repr

def Metadata.field (m : Metadata) (field : List Char) : Option (List Char) :=
  if field = "path".toList then m.path
  else if field = "kind".toList then m.kind
  else if field = "type".toList then m.docType
  else none

/-- A needle matches in the field it names, in lower case. -/
def needleMatches (lower : List Char → List Char) (m : Metadata) (needle : GroupNeedle) : Bool :=
  (m.field needle.field).any fun text => contains (lower text) (lower needle.needle)

/-- The needles that match, each with the id of its group. -/
def groupHits (lower : List Char → List Char) (m : Metadata)
    (groups : List (List Char × List GroupNeedle)) : List (Hit (List Char) (List Char) Nat) :=
  groups.flatMap fun group =>
    (group.2.filter (needleMatches lower m)).map fun needle =>
      ⟨needle.rank, group.1, needle.needle⟩

/-! ## The outcome -/

inductive GroupOutcome
  | bound (group needle : List Char)
  | unknown
  | conflict (groups : List (List Char))
deriving DecidableEq, Repr

def outcomeOf (best : Best (List Char) (List Char) Nat) : GroupOutcome :=
  match best.groups with
  | [] => .unknown
  | [group] => .bound group (best.note.getD [])
  | groups => .conflict (sortBy id groups)

def GroupOutcome.verdict : GroupOutcome → Verdict (List Char)
  | .bound group _ => .bound group
  | .unknown => .unknown
  | .conflict groups => .conflict groups

theorem verdict_outcomeOf (best : Best (List Char) (List Char) Nat) :
    (outcomeOf best).verdict = verdictOf best.groups := by
  unfold outcomeOf verdictOf
  rcases best.groups with _ | ⟨group, _ | ⟨group', rest⟩⟩ <;> rfl

def StructuralProfile.needleGroups (profile : StructuralProfile) :
    List (List Char × List GroupNeedle) :=
  profile.groups.map fun group => (group.id, group.needles)

def OntologyCatalog.needleGroups (catalog : OntologyCatalog) :
    List (List Char × List GroupNeedle) :=
  catalog.documentGroups.map fun group => (group.id, group.needles)

def StructuralProfile.detectMetadata (profile : StructuralProfile)
    (lower : List Char → List Char) (m : Metadata) : GroupOutcome :=
  outcomeOf (scan (groupHits lower m profile.needleGroups))

def OntologyCatalog.classifyDocumentGroup (catalog : OntologyCatalog)
    (lower : List Char → List Char) (m : Metadata) : GroupOutcome :=
  outcomeOf (scan (groupHits lower m catalog.needleGroups))

/-! ## The verdict -/

/-- The needles of the lowest rank that match decide. -/
theorem detectMetadata_isVerdict (profile : StructuralProfile) (lower : List Char → List Char)
    (m : Metadata) :
    IsVerdict (groupHits lower m profile.needleGroups) (profile.detectMetadata lower m).verdict := by
  unfold StructuralProfile.detectMetadata
  rw [verdict_outcomeOf]
  exact isVerdict_scan _

theorem classifyDocumentGroup_isVerdict (catalog : OntologyCatalog)
    (lower : List Char → List Char) (m : Metadata) :
    IsVerdict (groupHits lower m catalog.needleGroups)
      (catalog.classifyDocumentGroup lower m).verdict := by
  unfold OntologyCatalog.classifyDocumentGroup
  rw [verdict_outcomeOf]
  exact isVerdict_scan _

end LawNexus.Groups
