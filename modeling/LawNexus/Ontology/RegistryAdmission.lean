import LawNexus.Loops
import LawNexus.Ontology.Hierarchy

/-!
# The admission of registry rows

`admit_candidates` of `ln-kb-ontology/src/registry_admission.rs`: rows that name components
pass a sequence of gates against the evidence of a candidate artifact.
-/

namespace LawNexus

open Loops

/-! ## Evidence and source -/

def admissionSchemaV1 : String := "law-nexus-kb-hierarchy-admission/v1"

def candidateArtifactSchemaV1 : String := "law-nexus-hierarchy-candidate-artifact/v1"

def registrySchemaV1 : String := "law-nexus-kb-hierarchy-registry/v1"

def proposedLifecycle : String := "[proposed]"

structure CandidateIdentity where
  catalogToken : String
  number : String
  path : Option String
  keyPath : String
deriving DecidableEq, Repr

structure CandidateEvidence where
  artifactSchema : String
  lifecycle : String
  authoritative : Bool
  artifactPath : String
  artifactSha256 : String
  sourceDigest : String
  identityDigest : String
  candidates : List CandidateIdentity
deriving DecidableEq, Repr

inductive AdmissionProvenance
  | legacyHuman
  | candidateBackedM202
  | candidateBackedM209
deriving DecidableEq, Repr

def AdmissionProvenance.parse (value : String) : Option AdmissionProvenance :=
  if value = "legacy-human" then some .legacyHuman
  else if value = "m202-candidate-backed" then some .candidateBackedM202
  else if value = "m209-candidate-backed" then some .candidateBackedM209
  else none

def AdmissionProvenance.isCandidateBacked : AdmissionProvenance → Bool
  | .legacyHuman => false
  | .candidateBackedM202 | .candidateBackedM209 => true

structure AdmissionBinding where
  pathNeedle : String
  level : String
  number : String
  keyPath : Option String
  cc : String
  provenance : AdmissionProvenance
deriving DecidableEq, Repr

structure AdmissionSource where
  schema : String
  lifecycle : String
  authoritative : Bool
  candidateArtifactPath : String
  candidateArtifactSha256 : String
  candidateSourceDigest : String
  candidateIdentityDigest : String
  bindings : List AdmissionBinding
deriving DecidableEq, Repr

structure AdmittedRegistry where
  schema : String
  lifecycle : String
  authoritative : Bool
  bindings : List AdmissionBinding
deriving DecidableEq, Repr

/-- The detail of an identity mismatch is a text about the row's level, number and key path. -/
inductive RegistryAdmissionError
  | unknownKey (key : String)
  | unsupportedSchema (got : String)
  | missingField (field : String)
  | missingCandidate (keyPath : String)
  | identityMismatch (keyPath level number : String)
  | malformedComponentConcept (cc : String)
  | conflictingComponentConcept (key existing conflicting : String)
  | conflictingDuplicate (key : String)
  | digestDrift (field expected got : String)
  | authorityEscalation (detail : String)
deriving DecidableEq, Repr

/-! ## The gates -/

def schemaGate (evidence : CandidateEvidence) (source : AdmissionSource) :
    Except RegistryAdmissionError Unit :=
  if source.schema ≠ admissionSchemaV1 then .error (.unsupportedSchema source.schema)
  else if evidence.artifactSchema ≠ candidateArtifactSchemaV1 then
    .error (.unsupportedSchema evidence.artifactSchema)
  else .ok ()

def authorityGate (evidence : CandidateEvidence) (source : AdmissionSource) :
    Except RegistryAdmissionError Unit :=
  if source.authoritative || source.lifecycle ≠ proposedLifecycle then
    .error (.authorityEscalation
      "admission source must stay [proposed] and authoritative: false")
  else if evidence.authoritative || evidence.lifecycle ≠ proposedLifecycle then
    .error (.authorityEscalation
      "candidate evidence must stay [proposed] and authoritative: false")
  else .ok ()

/-- The bound fields: their name, what the source expects and what the evidence has. -/
def boundFields (evidence : CandidateEvidence) (source : AdmissionSource) :
    List (String × String × String) :=
  [("candidate_artifact_path", source.candidateArtifactPath, evidence.artifactPath),
    ("candidate_artifact_sha256", source.candidateArtifactSha256, evidence.artifactSha256),
    ("candidate_source_digest", source.candidateSourceDigest, evidence.sourceDigest),
    ("candidate_identity_digest", source.candidateIdentityDigest, evidence.identityDigest)]

def digestGate (evidence : CandidateEvidence) (source : AdmissionSource) :
    Except RegistryAdmissionError Unit :=
  (boundFields evidence source).forM fun (field, expected, got) =>
    if expected ≠ got then .error (.digestDrift field expected got) else .ok ()

/-- The candidates of each pair of a level and a number. -/
abbrev CandidateIndex := List ((String × String) × List CandidateIdentity)

def CandidateIndex.bucket (index : CandidateIndex) (pair : String × String) :
    Option (List CandidateIdentity) := (index.find? fun entry => entry.1 = pair).map (·.2)

def indexCandidate (index : CandidateIndex) (candidate : CandidateIdentity) :
    Except RegistryAdmissionError CandidateIndex :=
  let pair := (candidate.catalogToken, candidate.number)
  let duplicate := ((index.bucket pair).getD []).any fun existing =>
    existing.keyPath = candidate.keyPath && existing.path = candidate.path
  if duplicate then
    .error (.conflictingDuplicate (candidate.catalogToken ++ "/" ++ candidate.number))
  else .ok (pushAt pair candidate index)

def candidateIndex (evidence : CandidateEvidence) : Except RegistryAdmissionError CandidateIndex :=
  evidence.candidates.foldlM indexCandidate []

/-- A component is `cc:` with nonempty segments behind it. -/
def isWellFormedComponentConcept (cc : String) : Bool :=
  match "cc:".toList.isPrefixOf? cc.toList with
  | none => false
  | some rest => !rest.isEmpty && (rest.splitOn ':').all fun segment => !segment.isEmpty

def componentGate (source : AdmissionSource) : Except RegistryAdmissionError Unit :=
  source.bindings.forM fun row =>
    if !isWellFormedComponentConcept row.cc then .error (.malformedComponentConcept row.cc)
    else .ok ()

def resolveRow (index : CandidateIndex) (row : AdmissionBinding) :
    Except RegistryAdmissionError Unit :=
  if !row.provenance.isCandidateBacked then .ok ()
  else match row.keyPath with
    | none => .error (.missingCandidate (row.level ++ "/" ++ row.number))
    | some rowKeyPath =>
      match index.bucket (row.level, row.number) with
      | none => .error (.missingCandidate rowKeyPath)
      | some bucket =>
        let matched := bucket.countP fun candidate =>
          candidate.catalogToken = row.level && candidate.number = row.number &&
            candidate.keyPath = rowKeyPath && candidate.path.all (· = rowKeyPath)
        if matched = 0 then .error (.identityMismatch rowKeyPath row.level row.number)
        else if 1 < matched then .error (.conflictingDuplicate (row.level ++ "/" ++ row.number))
        else .ok ()

/-- The key that the last gate keeps unique. -/
def AdmissionBinding.admissionKey (row : AdmissionBinding) : String × String × String :=
  (row.pathNeedle, row.level, row.number)

/-- The loop of the last gate over the rows, with the rows seen so far. -/
def registryKeyStep (seen : List AdmissionBinding) (row : AdmissionBinding) :
    Except RegistryAdmissionError (List AdmissionBinding) :=
  match seen.find? fun existing => existing.admissionKey = row.admissionKey with
  | none => .ok (seen ++ [row])
  | some existing =>
    let key := row.pathNeedle ++ "/" ++ row.level ++ "/" ++ row.number
    if existing.cc ≠ row.cc then .error (.conflictingComponentConcept key existing.cc row.cc)
    else .error (.conflictingDuplicate key)

def registryKeyGate (source : AdmissionSource) : Except RegistryAdmissionError Unit :=
  (source.bindings.foldlM registryKeyStep []).map fun _ => ()

/-- Every gate but the last one. -/
def earlierGates (evidence : CandidateEvidence) (source : AdmissionSource) :
    Except RegistryAdmissionError Unit := do
  schemaGate evidence source
  authorityGate evidence source
  digestGate evidence source
  let index ← candidateIndex evidence
  componentGate source
  source.bindings.forM (resolveRow index)

def admitCandidates (evidence : CandidateEvidence) (source : AdmissionSource) :
    Except RegistryAdmissionError AdmittedRegistry := do
  earlierGates evidence source
  registryKeyGate source
  return ⟨registrySchemaV1, source.lifecycle, false, source.bindings⟩

/-! ## Keys at run time -/

/-- The path that is rendered: only a nested ladder. -/
def AdmissionBinding.path (row : AdmissionBinding) : Option String :=
  row.keyPath.filter fun key => '/' ∈ key.toList

def AdmissionBinding.effectiveKeyPath (row : AdmissionBinding) : String :=
  row.path.getD row.number

/-- The key that the runtime registry looks a row up with, for one path needle. -/
def AdmissionBinding.runtimeKey (row : AdmissionBinding) : String × String × String :=
  (row.pathNeedle, row.level, row.effectiveKeyPath)

/-- The binding that the runtime registry makes of a row. -/
def AdmissionBinding.toBinding (row : AdmissionBinding) (component : ComponentConceptId) :
    Except WriteSetError HierarchyBinding :=
  HierarchyBinding.tryNewWithPath none row.level row.number row.path component

/-- Two rows agree in their key. -/
def Repeats {κ : Type*} (key : AdmissionBinding → κ) (rows : List AdmissionBinding) : Prop :=
  ¬ (rows.map key).Nodup

end LawNexus
