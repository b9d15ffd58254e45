import LawNexus.Chars
import LawNexus.Ontology.RegistryAdmission
import LawNexus.Utf8
import Mathlib.Data.Prod.Lex

/-!
# The texts of the registry

The reader of an admission source, the renderer of the admitted rows, and the runtime reader
of the rendered text: the rest of `registry_admission.rs`, with `parse_hierarchy_registry` of
`registry.rs` and `flow_field` of `catalog.rs`.
-/

namespace LawNexus

open Chars Loops

/-! ## Fields -/

/-- A key and its value, cut at the first colon. -/
def splitField (segment : List Char) : Option (List Char × List Char) :=
  match cutAt ':' segment with
  | none => none
  | some (before, after) => if (trim before).isEmpty then none else some (trim before, trim after)

/-- The text between two quotes, or the text itself. -/
def unquote (value : List Char) : List Char :=
  let value := trim value
  if 2 ≤ value.length && value.head? = some '"' && value.getLast? = some '"' then
    value.tail.dropLast
  else value

def parseAuthoritative (value : List Char) : Except RegistryAdmissionError Bool :=
  if value = "true".toList then .ok true
  else if value = "false".toList then .ok false
  else .error (.unknownKey ("authoritative=" ++ .ofList value))

/-! ## One row of the source -/

/-- The fields of a row as far as they are read. -/
structure RowFields where
  pathNeedle : Option String
  level : Option String
  number : Option String
  keyPath : Option String
  cc : Option String
  provenance : Option AdmissionProvenance
deriving DecidableEq, Repr

def RowFields.empty : RowFields := ⟨none, none, none, none, none, none⟩

def readRowField (fields : RowFields) (part : List Char) :
    Except RegistryAdmissionError RowFields :=
  let field := trim part
  if field.isEmpty then .ok fields
  else match splitField field with
    | none => .error (.unknownKey (.ofList field))
    | some (key, value) =>
      let text := String.ofList (unquote value)
      if key = "path_needle".toList then .ok { fields with pathNeedle := some text }
      else if key = "level".toList then .ok { fields with level := some text }
      else if key = "number".toList then .ok { fields with number := some text }
      else if key = "key_path".toList then .ok { fields with keyPath := some text }
      else if key = "cc".toList then .ok { fields with cc := some text }
      else if key = "provenance".toList then
        match AdmissionProvenance.parse (.ofList value) with
        | none => .error (.unknownKey ("provenance=" ++ .ofList value))
        | some provenance => .ok { fields with provenance := some provenance }
      else .error (.unknownKey (.ofList key))

def orMissing {α : Type} (field : String) : Option α → Except RegistryAdmissionError α
  | none => .error (.missingField field)
  | some a => .ok a

def RowFields.toBinding (fields : RowFields) : Except RegistryAdmissionError AdmissionBinding := do
  let pathNeedle ← orMissing "path_needle" fields.pathNeedle
  let level ← orMissing "level" fields.level
  let number ← orMissing "number" fields.number
  let cc ← orMissing "cc" fields.cc
  let provenance ← orMissing "provenance" fields.provenance
  return ⟨pathNeedle, level, number, fields.keyPath, cc, provenance⟩

/-- The row, and what stands behind its closing brace. -/
def parseAdmissionRow (line : List Char) :
    Except RegistryAdmissionError (AdmissionBinding × List Char) :=
  match cutAt '{' line with
  | none => .error (.unknownKey "admissions row without flow mapping")
  | some (_, inner) =>
    match cutAt '}' inner with
    | none => .error (.unknownKey "admissions row without closing brace")
    | some (body, tail) => do
      let fields ← (body.splitOn ',').foldlM readRowField .empty
      let binding ← fields.toBinding
      return (binding, trim tail)

/-- What is left behind a row is shorter than the row. -/
theorem parseAdmissionRow_shorter {line tail : List Char} {binding : AdmissionBinding}
    (h : parseAdmissionRow line = .ok (binding, tail)) : tail.length < line.length := by
  unfold parseAdmissionRow at h
  cases hopen : cutAt '{' line with
  | none => simp [hopen] at h
  | some cut =>
    obtain ⟨before, inner⟩ := cut
    cases hclose : cutAt '}' inner with
    | none => simp [hopen, hclose] at h
    | some cut =>
      obtain ⟨body, rest⟩ := cut
      simp only [hopen, hclose] at h
      obtain ⟨fields, -, h⟩ := bind_eq_ok_iff.mp h
      obtain ⟨binding', -, h⟩ := bind_eq_ok_iff.mp h
      obtain ⟨-, rfl⟩ := Prod.mk.inj (Except.ok.inj h)
      have htrim := length_trim_le rest
      rw [(cutAt_eq_some.mp hopen).1, (cutAt_eq_some.mp hclose).1]
      simp
      omega

/-! ## The source -/

structure SourceState where
  schema : Option String
  lifecycle : Option String
  authoritative : Option Bool
  candidateArtifactPath : Option String
  candidateArtifactSha256 : Option String
  candidateSourceDigest : Option String
  candidateIdentityDigest : Option String
  admissionsSeen : Bool
  bindings : List AdmissionBinding
deriving DecidableEq, Repr

def SourceState.start : SourceState := ⟨none, none, none, none, none, none, none, false, []⟩

def readSourceField (s : SourceState) (rest : List Char) :
    Except RegistryAdmissionError SourceState :=
  match splitField rest with
  | none => .error (.unknownKey (.ofList rest))
  | some (key, value) =>
    let text := String.ofList (unquote value)
    if key = "schema".toList then .ok { s with schema := some text }
    else if key = "lifecycle".toList then .ok { s with lifecycle := some text }
    else if key = "authoritative".toList then
      match parseAuthoritative value with
      | .error e => .error e
      | .ok authoritative => .ok { s with authoritative := some authoritative }
    else if key = "candidate_artifact_path".toList then
      .ok { s with candidateArtifactPath := some text }
    else if key = "candidate_artifact_sha256".toList then
      .ok { s with candidateArtifactSha256 := some text }
    else if key = "candidate_source_digest".toList then
      .ok { s with candidateSourceDigest := some text }
    else if key = "candidate_identity_digest".toList then
      .ok { s with candidateIdentityDigest := some text }
    else if key = "admissions".toList && value.isEmpty then .ok { s with admissionsSeen := true }
    else .error (.unknownKey (.ofList key))

/-- A dash that is alone or has a space behind it. -/
def startsRow (rest : List Char) : Bool :=
  rest.head? = some '-' && (rest.length = 1 || rest.tail.head? = some ' ')

/-- The loop over the segments of one line. A field takes the whole rest of it. -/
def readSegments (s : SourceState) (rest : List Char) :
    Except RegistryAdmissionError SourceState :=
  if rest.isEmpty then .ok s
  else if startsRow rest then
    match _hrow : parseAdmissionRow rest with
    | .error e => .error e
    | .ok (binding, tail) => readSegments { s with bindings := s.bindings ++ [binding] } tail
  else readSourceField s rest
termination_by rest.length
decreasing_by exact parseAdmissionRow_shorter _hrow

def SourceState.toSource (s : SourceState) : Except RegistryAdmissionError AdmissionSource := do
  let schema ← orMissing "schema" s.schema
  let lifecycle ← orMissing "lifecycle" s.lifecycle
  let authoritative ← orMissing "authoritative" s.authoritative
  let candidateArtifactPath ← orMissing "candidate_artifact_path" s.candidateArtifactPath
  let candidateArtifactSha256 ← orMissing "candidate_artifact_sha256" s.candidateArtifactSha256
  let candidateSourceDigest ← orMissing "candidate_source_digest" s.candidateSourceDigest
  let candidateIdentityDigest ← orMissing "candidate_identity_digest" s.candidateIdentityDigest
  if !s.admissionsSeen then .error (.missingField "admissions")
  else if schema ≠ admissionSchemaV1 then .error (.unsupportedSchema schema)
  else return ⟨schema, lifecycle, authoritative, candidateArtifactPath, candidateArtifactSha256,
    candidateSourceDigest, candidateIdentityDigest, s.bindings⟩

def parseAdmissionSource (text : List Char) : Except RegistryAdmissionError AdmissionSource := do
  let s ← (lines text).foldlM (fun s raw => readSegments s (trim (stripComment raw))) .start
  s.toSource

/-! ## The rendered registry -/

def levelCatalogRank (level : String) : Nat :=
  if level = "glava" then 0 else if level = "statya" then 1 else if level = "punkt" then 2 else 3

def registrySortKey (row : AdmissionBinding) : String ×ₗ Nat ×ₗ String ×ₗ String ×ₗ String :=
  toLex (row.pathNeedle, toLex (levelCatalogRank row.level, toLex (row.level,
    toLex (row.keyPath.getD row.number, row.cc))))

def sortedRows (rows : List AdmissionBinding) : List AdmissionBinding :=
  sortBy registrySortKey rows

def renderRow (row : AdmissionBinding) : List Char :=
  "- \x7bpath_needle: ".toList ++ row.pathNeedle.toList ++ ", level: ".toList ++
    row.level.toList ++ ", number: \"".toList ++ row.number.toList ++ "\", cc: ".toList ++
    row.cc.toList ++ (row.path.map fun path => ", path: ".toList ++ path.toList).getD [] ++
    "\x7d".toList

/-- The lines in front of the rows. -/
def registryHeader : List String :=
  ["# Explicit marker -> ComponentConcept bindings (KBO-R013 / R041 companion)",
    "#",
    "# Lifecycle: [proposed]",
    "# Non-authority: not legal identity, not CTV text, not 44-FZ history,",
    "# not InForce, not Applicable. Bindings are human-admitted fixture keys.",
    "# A path that matches no needle gets an empty map (all markers Unknown).",
    "",
    "schema_version: law-nexus-kb-hierarchy-registry/v1",
    "lifecycle: \"[proposed]\"",
    "authoritative: false",
    "boundary: >",
    "  Scoped fixture registry only. Number+level still does not mint a CC",
    "  outside this table. Same-level articles form a forest. A fixture with",
    "  glava then statya drafts attach; it still does not write the membership log.",
    ""]

def registryLines (admitted : AdmittedRegistry) : List (List Char) :=
  registryHeader.map (·.toList) ++ "bindings:".toList ::
    (sortedRows admitted.bindings).map renderRow

def renderRegistry (admitted : AdmittedRegistry) : List Char :=
  (registryLines admitted).flatMap (· ++ ['\n'])

/-! ## The runtime reader -/

structure CatalogError where
  reason : String
deriving DecidableEq, Repr

structure HierarchyRegistryBinding where
  pathNeedle : String
  level : String
  number : String
  path : Option String
  cc : String
deriving DecidableEq, Repr

/-- What may stand in front of a key. At the start of the line nothing does. -/
def isKeyBoundary : Option Char → Bool
  | none => true
  | some c => c = ' ' || c = ',' || c = '\x7b' || c = '-' || c = '\t'

/-- The text behind the first place of the token with a boundary in front of it. The source
goes on behind a place without one, which is the same: no token overlaps itself. -/
def seekKey (token : List Char) : Option Char → List Char → Option (List Char)
  | _, [] => none
  | prev, c :: rest =>
    if isKeyBoundary prev && token.isPrefixOf (c :: rest) then
      some ((c :: rest).drop token.length)
    else seekKey token (some c) rest

def isScalarEnd (c : Char) : Bool := c = ',' || c = '\x7d' || c = ' '

/-- A quoted value, or the first part that is not empty when the text is split. -/
def flowScalar (text : List Char) : Option (List Char) :=
  let rest := trimStart text
  if rest.head? = some '"' then (cutAt '"' rest.tail).map (·.1)
  else
    let value := (rest.dropWhile isScalarEnd).takeWhile fun c => !isScalarEnd c
    if value.isEmpty then none else some (trim value)

def flowField (line : List Char) (key : String) : Option (List Char) :=
  (seekKey (key.toList ++ [':']) none line).bind flowScalar

def orCatalogError {α : Type} (reason : String) : Option α → Except CatalogError α
  | none => .error ⟨reason⟩
  | some a => .ok a

theorem orCatalogError_ok {α : Type} {reason : String} {o : Option α} {a : α} :
    orCatalogError reason o = .ok a ↔ o = some a := by
  cases o <;> simp [orCatalogError]

def readBinding (line : List Char) : Except CatalogError HierarchyRegistryBinding := do
  let pathNeedle ← orCatalogError "hierarchy binding missing path_needle"
    (flowField line "path_needle")
  let level ← orCatalogError "hierarchy binding missing level" (flowField line "level")
  let number ← orCatalogError "hierarchy binding missing number" (flowField line "number")
  let cc ← orCatalogError "hierarchy binding missing cc" (flowField line "cc")
  if pathNeedle.isEmpty || level.isEmpty || number.isEmpty || cc.isEmpty then
    .error ⟨"hierarchy binding has an empty field"⟩
  else
    let path := (flowField line "path").map trim
    if path.any (·.isEmpty) then .error ⟨"hierarchy binding has an empty path"⟩
    else return ⟨.ofList pathNeedle, .ofList level, .ofList number, path.map .ofList, .ofList cc⟩

/-- The loop over the lines, with what it keeps: whether it is in the list, the indent of the
heading, and the bindings so far. -/
def readBindings (inList : Bool) (headingIndent : Nat) (bindings : List HierarchyRegistryBinding) :
    List (List Char) → Except CatalogError (List HierarchyRegistryBinding)
  | [] => .ok bindings
  | raw :: rest =>
    let line := trim (stripComment raw)
    let indent := Utf8.byteLen raw - Utf8.byteLen (trimStart raw)
    if line.isEmpty then readBindings inList headingIndent bindings rest
    else if line = "bindings:".toList then readBindings true indent bindings rest
    else if inList && indent ≤ headingIndent && line.head? ≠ some '-' then .ok bindings
    else if !inList || line.head? ≠ some '-' then readBindings inList headingIndent bindings rest
    else match readBinding line with
      | .error e => .error e
      | .ok binding => readBindings inList headingIndent (bindings ++ [binding]) rest

def parseHierarchyRegistry (text : List Char) :
    Except CatalogError (List HierarchyRegistryBinding) :=
  readBindings false 0 [] (lines text)

end LawNexus
