import LawNexus.Chars
import LawNexus.CleanedWire.Envelope

/-!
# The reader

`inspect_cleaned_wire` and `read_cleaned_wire`. A reading that panics or does not come to an end is
told apart from one that refuses.
-/

namespace LawNexus.CleanedWire

open Chars Loops Reader
open SourcePackage (TextSlot isHex64)

inductive ReadHalt where
  | refused (error : EnvelopeError)
  | panicked
  | endless
deriving DecidableEq, Repr

abbrev Reading (α : Type) := Except ReadHalt α

def refuse {α : Type} (kind : EnvelopeErrorKind) (detail : String) : Reading α :=
  .error (.refused ⟨kind, detail⟩)

def ReadHalt.ofScan : Halt → ReadHalt
  | .refused error => .refused ⟨.unknownKind, error.detail⟩
  | .panicked => .panicked
  | .endless => .endless

def parseFields (raw : List Char) : Reading JsonFields := (JsonFields.parse raw).mapError .ofScan

/-- `ok_or_else` -/
def orRefuse {α : Type} (value : Option α) (kind : EnvelopeErrorKind) (detail : String) :
    Reading α :=
  orError value (.refused ⟨kind, detail⟩)

/-! ## Fields -/

/-- The value as it is written. -/
def JsonFields.get (fields : JsonFields) (key : String) : Option (List Char) :=
  (fields.entries.find? (·.1 = key.toList)).map (·.2)

def stringField (fields : JsonFields) (key : String) : Option String :=
  match fields.get key with
  | none => none
  | some raw =>
    if raw.head? = some '\x22' ∧ raw.getLast? = some '\x22' then
      (unescapeJsonString raw).map .ofList
    else none

/-- `parse::<u64>` -/
def parseU64 (text : List Char) : Option Nat :=
  let digits := if text.head? = some '+' then text.tail else text
  if digits ≠ [] ∧ digits.all Char.isDigit ∧ Nat.ofDigitChars 10 digits 0 < 2 ^ 64 then
    some (Nat.ofDigitChars 10 digits 0)
  else none

def u64Field (fields : JsonFields) (key : String) : Option Nat :=
  (fields.get key).bind fun raw => parseU64 (trim raw)

def boolField (fields : JsonFields) (key : String) : Option Bool :=
  (fields.get key).bind fun raw =>
    if trim raw = ['t', 'r', 'u', 'e'] then some true
    else if trim raw = ['f', 'a', 'l', 's', 'e'] then some false
    else none

/-- The loop over the bytes of an item behind its opening quote. There is none left where a
backslash is the last byte: the index is then past the end. -/
def itemEnd : List Char → Option (List Char)
  | [] => some []
  | byte :: rest =>
    if byte = '\x5c' then
      match rest with
      | [] => none
      | _ :: rest => itemEnd rest
    else if byte = '\x22' then some rest
    else itemEnd rest

def itemsLoop (source : Source) : Nat → List (List Char) → List Char →
    Scan (Option (List (List Char)))
  | 0, _, _ => .error .endless
  | turns + 1, items, rest =>
    let start := skipWs rest
    match start.head? with
    | none => .ok (some items)
    | some byte =>
      if byte ≠ '\x22' then .ok none
      else
        match itemEnd start.tail with
        | none => .error .panicked
        | some stop => do
          let raw ← source.slice start stop
          match unescapeJsonString raw with
          | none => .ok none
          | some item =>
            let rest := skipWs stop
            let rest := if rest.head? = some ',' then rest.tail else rest
            itemsLoop source turns (items ++ [item]) rest

/-- The items of an array of strings from its first byte behind the bracket. -/
def parseItems (inner : List Char) : Scan (Option (List (List Char))) :=
  itemsLoop (.ofRaw inner) (Source.ofRaw inner).turns [] (Utf8.byteChars inner)

def stringArrayField (fields : JsonFields) (key : String) : Reading (Option (List String)) :=
  match fields.get key with
  | none => .ok none
  | some raw =>
    let raw := trim raw
    if raw.head? = some '[' ∧ raw.tail.getLast? = some ']' then do
      let items ← (parseItems raw.tail.dropLast).mapError .ofScan
      .ok (items.map (·.map .ofList))
    else .ok none

def hexField (fields : JsonFields) (key : String) : Reading String := do
  let value ← orRefuse (stringField fields key) .hashShapeInvalid s!"{key} is not a JSON string"
  if !isHex64 value then refuse .hashShapeInvalid s!"{key} is not 64 lowercase hex"
  else .ok value

def optHexField (fields : JsonFields) (key : String) : Reading (Option String) := do
  let raw ← orRefuse (fields.get key) .hashShapeInvalid s!"{key} is missing"
  if trim raw = ['n', 'u', 'l', 'l'] then .ok none
  else
    let value ← orRefuse ((unescapeJsonString (trim raw)).map String.ofList) .hashShapeInvalid
      s!"{key} is not a JSON string"
    if !isHex64 value then refuse .hashShapeInvalid s!"{key} is not 64 lowercase hex"
    else .ok (some value)

def reasonFromToken : String → Option IncompleteReason := fromTokens [
  ("hold", .hold),
  ("text_only", .textOnly),
  ("limit_reached", .limitReached),
  ("unsupported_source", .unsupportedSource),
  ("caller_scope", .callerScope)]

/-! ## The contract of a line -/

def lineKind (fields : JsonFields) : Reading String :=
  orRefuse (stringField fields "kind") .unknownKind "line has no readable kind"

def isClosedKind (kind : String) : Bool :=
  kind = KIND_MANIFEST || kind = KIND_POLICIES || kind = KIND_VIEW || kind = KIND_SEGMENT ||
    kind = KIND_REFERENCE || kind = KIND_FOOTER

def expectSchema (fields : JsonFields) (expected : String) : Reading Unit := do
  let schema ← orRefuse (stringField fields "schema") .schemaMismatch "line has no readable schema"
  if schema ≠ expected then
    refuse .schemaMismatch s!"expected schema {expected}, found {schema}"
  else .ok ()

def expectVersion (fields : JsonFields) : Reading Unit := do
  let raw ← orRefuse (fields.get "version") .versionMismatch "line has no readable version"
  if trim raw ≠ Nat.toDigits 10 CONTRACT_VERSION then
    refuse .versionMismatch s!"expected version {CONTRACT_VERSION}"
  else .ok ()

def contractError {α : Type} (detail : String) : Reading α := refuse .contractFieldInvalid detail

def expectStringValue (fields : JsonFields) (key expected : String) : Reading Unit :=
  if stringField fields key = some expected then .ok ()
  else contractError s!"{key} must be {expected}"

def expectTrueValue (fields : JsonFields) (key : String) : Reading Unit :=
  if boolField fields key = some true then .ok () else contractError s!"{key} must be true"

/-- An object of the manifest that the contract asks for. -/
def contractObject (manifest : JsonFields) (key : String) : Reading JsonFields :=
  match manifest.get key with
  | none => contractError s!"manifest has no {key} object"
  | some raw =>
    match JsonFields.parse (trim raw) with
    | .ok fields => .ok fields
    | .error (.refused _) => contractError s!"manifest {key} is not an object"
    | .error .panicked => .error .panicked
    | .error .endless => .error .endless

def expectManifestContract (manifest : JsonFields) : Reading Unit := do
  expectStringValue manifest "model" MODEL
  expectStringValue manifest "profile" PROFILE
  expectStringValue manifest "capability" CAPABILITY
  expectTrueValue manifest "non_authoritative"
  let generator ← contractObject manifest "generator"
  if (stringField generator "name").isNone then
    contractError "generator.name is missing or not a string"
  if (stringField generator "version").isNone then
    contractError "generator.version is missing or not a string"
  let limits ← contractObject manifest "limits"
  ["max_line_bytes", "max_records", "max_text_bytes"].forM fun key =>
    if (u64Field limits key).isNone then contractError s!"manifest limits.{key} is not a u64"
    else .ok ()

def checkDeclaredLine (maxLineBytes : Nat) (line : List Char) : Reading Unit :=
  let bytes := Utf8.byteLen line
  if bytes > maxLineBytes then
    refuse .lineBytesLimit s!"line of {bytes} bytes exceeds declared max_line_bytes {maxLineBytes}"
  else .ok ()

def enforceDeclaredReadLimits (manifest : JsonFields) (lines : List (List Char))
    (lastIndex : Nat) : Reading Unit := do
  let limits ← contractObject manifest "limits"
  let maxLineBytes ← orRefuse (u64Field limits "max_line_bytes") .contractFieldInvalid
    "manifest limits.max_line_bytes is not a u64"
  let maxRecords ← orRefuse (u64Field limits "max_records") .contractFieldInvalid
    "manifest limits.max_records is not a u64"
  lines.forM (checkDeclaredLine maxLineBytes)
  let records := lastIndex - 2
  if records > maxRecords then
    refuse .recordsLimit s!"record total {records} exceeds declared max_records {maxRecords}"
  else .ok ()

def expectPoliciesContract (policies : JsonFields) : Reading Unit := do
  expectStringValue policies "cleaning_mode" POLICY_CLEANING_MODE
  expectStringValue policies "text_retention" POLICY_TEXT_RETENTION
  expectStringValue policies "hold_text_only" POLICY_HOLD_TEXT_ONLY
  expectStringValue policies "counts_scope" POLICY_COUNTS_SCOPE
  expectStringValue policies "display_scope" POLICY_DISPLAY_SCOPE
  expectStringValue policies "unknown_context" POLICY_UNKNOWN_CONTEXT
  expectStringValue policies "normalization" POLICY_NORMALIZATION
  expectStringValue policies "authenticity" POLICY_AUTHENTICITY
  expectTrueValue policies "non_authoritative"

/-! ## Completion and counts -/

def parseCompletion (fields : JsonFields) : Reading (String × String × List String) := do
  let completion ← orRefuse (stringField fields "completion") .completionMarkerInvalid
    "footer has no completion"
  let basis ← orRefuse (stringField fields "completion_basis") .completionMarkerInvalid
    "footer has no completion_basis"
  let reasons ← orRefuse (← stringArrayField fields "incomplete_reasons") .completionMarkerInvalid
    "footer has no incomplete_reasons array"
  if completion = "complete" then
    if basis ≠ BASIS_COMPLETE ∨ reasons ≠ [] then
      refuse .completionMarkerInvalid "complete requires bounded_projection_complete and no reasons"
    else .ok (completion, basis, reasons)
  else if completion = "incomplete" then
    if reasons = [] then
      refuse .completionMarkerInvalid "incomplete requires a non-empty incomplete_reasons set"
    else if (reasonFromToken basis).isNone then
      refuse .completionMarkerInvalid s!"unknown completion_basis {basis}"
    else do
      reasons.forM fun reason =>
        if (reasonFromToken reason).isNone then
          refuse .completionMarkerInvalid s!"unknown incomplete_reason {reason}"
        else .ok ()
      if basis ∉ reasons then
        refuse .completionMarkerInvalid "incomplete_reasons does not contain completion_basis"
      else .ok (completion, basis, reasons)
  else refuse .completionMarkerInvalid s!"unknown completion {completion}"

def countsField (counts : JsonFields) (key : String) : Reading Nat :=
  orRefuse (u64Field counts key) .unknownKind s!"counts.{key} is not a u64"

structure SummaryCounts where
  sourceSegments : Nat
  derivedSegments : Nat
  textChars : Nat
  textBytes : Nat
deriving DecidableEq, Repr

def parseCounts (fields : JsonFields) : Reading SummaryCounts := do
  let raw ← orRefuse (fields.get "counts") .unknownKind "footer has no counts object"
  let counts ← parseFields (trim raw)
  .ok {
    sourceSegments := ← countsField counts "source_segments"
    derivedSegments := ← countsField counts "derived_segments"
    textChars := ← countsField counts "text_chars"
    textBytes := ← countsField counts "text_bytes" }

/-! ## The inspection -/

structure WireEnvelopeSummary where
  contractVersion : Nat
  records : Nat
  views : Nat
  segments : Nat
  references : Nat
  sourceSegments : Nat
  derivedSegments : Nat
  textChars : Nat
  textBytes : Nat
  completion : String
  completionBasis : String
  incompleteReasons : List String
  recordsSealHash : Option String
  manifestHash : Option String
deriving DecidableEq, Repr

/-- `items[index]` -/
def indexed {α : Type} (items : List α) (index : Nat) : Reading α :=
  orError items[index]? .panicked

/-- `&items[start..stop]` -/
def ranged {α : Type} (items : List α) (start stop : Nat) : Reading (List α) :=
  if start ≤ stop ∧ stop ≤ items.length then .ok ((items.take stop).drop start)
  else .error .panicked

/-- `&text[..text.len() - 1]` -/
def bodyOf (text : List Char) : Reading (List Char) :=
  orError (Utf8.sliceTo text (Utf8.byteLen text - 1)) .panicked

abbrev WireLine := String × JsonFields

def readLine (line : List Char) : Reading WireLine := do
  let fields ← parseFields line
  .ok (← lineKind fields, fields)

def inspectLine (line : List Char) : Reading WireLine := do
  let (kind, fields) ← readLine line
  if !isClosedKind kind then refuse .unknownKind s!"unknown line kind {kind}"
  else .ok (kind, fields)

def footerPositions (kinds : List String) : List Nat :=
  (kinds.zipIdx.filter (·.1 = KIND_FOOTER)).map (·.2)

/-- The manifest first, then the policies, and the footer last. -/
def checkPositions (kinds : List String) : Reading Unit := do
  let first ← indexed kinds 0
  if first = KIND_POLICIES then
    refuse .misorderedPolicies "policies precedes the manifest"
  else if first ≠ KIND_MANIFEST then
    refuse .missingManifest "first line is not a manifest"
  else if kinds.length < 2 then
    refuse .missingPolicies "no policies line"
  else do
    let second ← indexed kinds 1
    if second = KIND_MANIFEST then
      refuse .misorderedManifest "manifest appears after the first line"
    else if second ≠ KIND_POLICIES then
      refuse .missingPolicies "second line is not a policies line"
    else
      let lastIndex := kinds.length - 1
      match footerPositions kinds with
      | [] => refuse .missingFooter "document has no footer"
      | _ :: _ :: _ => refuse .misorderedFooter "document has more than one footer"
      | [position] =>
        if position ≠ lastIndex then
          refuse .trailingRecordAfterFooter "records follow the footer"
        else do
          let body ← ranged kinds 2 lastIndex
          if KIND_MANIFEST ∈ body then
            refuse .misorderedManifest "a manifest line appears inside the body"
          else if KIND_POLICIES ∈ body then
            refuse .misorderedPolicies "a policies line appears inside the body"
          else .ok ()

/-- The schema that a record of this kind has. -/
def recordSchema (kind : String) : Option String :=
  if kind = KIND_VIEW then some VIEW_SCHEMA
  else if kind = KIND_SEGMENT then some SEGMENT_SCHEMA
  else if kind = KIND_REFERENCE then some REFERENCE_SCHEMA
  else none

def inspectRecord (line : WireLine) : Reading Unit :=
  match recordSchema line.1 with
  | some schema => expectSchema line.2 schema
  | none => refuse .unknownKind s!"unexpected record kind {line.1}"

def inspectManifest (manifest : JsonFields) (lines : List (List Char)) (lastIndex : Nat) :
    Reading Unit := do
  expectSchema manifest MANIFEST_SCHEMA
  expectVersion manifest
  expectManifestContract manifest
  enforceDeclaredReadLimits manifest lines lastIndex
  let sourceRaw ← orRefuse (manifest.get "source") .hashShapeInvalid "manifest has no source object"
  let source ← parseFields (trim sourceRaw)
  let _ ← hexField source "sha256"
  let _ ← orRefuse (u64Field source "bytes") .contractFieldInvalid
    "manifest source.bytes is not a u64"
  let parentRaw ← orRefuse (manifest.get "parent") .hashShapeInvalid "manifest has no parent object"
  let parent ← parseFields (trim parentRaw)
  let _ ← optHexField parent "records_seal_hash"
  let _ ← optHexField parent "manifest_hash"

def inspectPolicies (policies : JsonFields) : Reading Unit := do
  expectSchema policies POLICIES_SCHEMA
  expectVersion policies
  expectPoliciesContract policies

/-- The part of the inspection that looks at the footer. -/
def inspectFooter (footer : JsonFields) (records : List WireLine) :
    Reading WireEnvelopeSummary := do
  expectSchema footer FOOTER_SCHEMA
  expectVersion footer
  expectTrueValue footer "non_authoritative"
  let (completion, completionBasis, incompleteReasons) ← parseCompletion footer
  let recordsSealHash ← hexField footer "records_seal_hash"
  let manifestHash ← hexField footer "manifest_hash"
  let counts ← parseCounts footer
  let total kind := (records.filter (·.1 = kind)).length
  .ok {
    contractVersion := CONTRACT_VERSION
    records := total KIND_VIEW + total KIND_SEGMENT + total KIND_REFERENCE
    views := total KIND_VIEW
    segments := total KIND_SEGMENT
    references := total KIND_REFERENCE
    sourceSegments := counts.sourceSegments
    derivedSegments := counts.derivedSegments
    textChars := counts.textChars
    textBytes := counts.textBytes
    completion, completionBasis, incompleteReasons
    recordsSealHash := some recordsSealHash
    manifestHash := some manifestHash }

/-- The lines of a document. -/
def documentLines (text : List Char) : Reading (List (List Char)) :=
  if '\r' ∈ text then refuse .carriageReturn "document contains a carriage return"
  else if text.getLast? ≠ some '\n' then
    refuse .missingTrailingLf "document does not end with LF"
  else do
    let body ← bodyOf text
    if body = [] then refuse .emptyLine "empty document"
    else if (body.splitOn '\n').any List.isEmpty then
      refuse .emptyLine "document contains an empty line"
    else .ok (body.splitOn '\n')

def inspectCleanedWire (text : List Char) : Reading WireEnvelopeSummary := do
  let lines ← documentLines text
  let parsed ← lines.mapM inspectLine
  checkPositions (parsed.map (·.1))
  let lastIndex := parsed.length - 1
  let manifest ← indexed parsed 0
  inspectManifest manifest.2 lines lastIndex
  let policies ← indexed parsed 1
  inspectPolicies policies.2
  let records ← ranged parsed 2 lastIndex
  records.forM inspectRecord
  let footer ← indexed parsed lastIndex
  inspectFooter footer.2 records

end LawNexus.CleanedWire
