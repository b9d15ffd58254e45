import LawNexus.Loops
import LawNexus.SourcePackage.Json

/-!
# Packages as JSONL

`to_jsonl` and `read_package`. `serde_json` and SHA-256 are parameters.
-/

namespace LawNexus.SourcePackage

def u64Max : Nat := 2 ^ 64 - 1

def saturatingAdd (a b : Nat) : Nat := min (a + b) u64Max

def effectiveLimits (caller declared : Limits) : Limits where
  maxInputBytes := min caller.maxInputBytes declared.maxInputBytes
  maxPackageBytes := min caller.maxPackageBytes declared.maxPackageBytes
  maxLineBytes := min caller.maxLineBytes declared.maxLineBytes
  maxDepth := min caller.maxDepth declared.maxDepth
  maxNodes := min caller.maxNodes declared.maxNodes
  maxTextFragments := min caller.maxTextFragments declared.maxTextFragments
  maxTextBytes := min caller.maxTextBytes declared.maxTextBytes
  maxRecords := min caller.maxRecords declared.maxRecords
  maxAttrsPerElement := min caller.maxAttrsPerElement declared.maxAttrsPerElement

/-! ## Hashes -/

def hexDigit (n : Nat) : Char := if n < 10 then Char.ofNat (48 + n) else Char.ofNat (87 + n)

def hexLower (bytes : List UInt8) : String :=
  .ofList (bytes.flatMap fun byte => [hexDigit (byte.toNat / 16), hexDigit (byte.toNat % 16)])

def isHex64 (value : String) : Bool :=
  let bytes := Utf8.bytes value.toList
  bytes.length = 64 &&
    bytes.all fun byte => (48 ≤ byte.toNat && byte.toNat ≤ 57) || (97 ≤ byte.toNat && byte.toNat ≤ 102)

section

variable (serde : SerdeJson) (sha256 : List UInt8 → List UInt8)

def recordsSealHash (records : List Record) : Except SourcePackageError String := do
  let lines ← records.mapM (serializeRecord serde)
  .ok (hexLower (sha256 (Utf8.bytes (['\n'].intercalate lines))))

def manifestHash (manifest : Manifest) (records : List Record) (footer : Footer) :
    Except SourcePackageError String := do
  let body := { footer with recordsSealHash := none, manifestHash := none }
  let manifestLine ← canonicalJson serde manifest.serialize
  let sealHash ← recordsSealHash serde sha256 records
  let bodyLine ← canonicalJson serde body.serialize
  .ok (hexLower (sha256 (Utf8.bytes (['\n'].intercalate [manifestLine, sealHash.toList, bodyLine]))))

/-! ## Verification -/

def require (condition : Bool) (kind : ErrorKind) (detail : String) :
    Except SourcePackageError Unit :=
  if condition then .ok () else fail kind detail

def requireSome {α : Type} (value : Option α) (kind : ErrorKind) (detail : String) :
    Except SourcePackageError α :=
  match value with
  | none => fail kind detail
  | some a => .ok a

def verifyManifest (manifest : Manifest) : Except SourcePackageError Unit := do
  require (manifest.kind = "source_package_manifest" && manifest.schema = MANIFEST_SCHEMA &&
      manifest.model = MODEL && manifest.profile = PROFILE && manifest.capability = CAPABILITY &&
      manifest.capturePolicy = CAPTURE_POLICY && manifest.nonAuthoritative)
    .schemaMismatch "manifest identity/constants mismatch"
  let version := manifest.version
  require (version = SCHEMA_VERSION) .versionUnsupported s!"manifest version {version}"
  require (isHex64 manifest.source.sha256) .hashMalformed
    "manifest source sha256 is not 64 lowercase hex"
  require (manifest.policies = .expected) .schemaMismatch "policy declaration mismatch"

def verifyFooter (manifest : Manifest) (footer : Footer) : Except SourcePackageError Unit := do
  require (footer.kind = "source_package_footer" && footer.schema = FOOTER_SCHEMA &&
      footer.completionBasis = COMPLETION_BASIS && footer.nonAuthoritative)
    .schemaMismatch "footer identity/constants mismatch"
  let version := footer.version
  require (version = SCHEMA_VERSION) .versionUnsupported s!"footer version {version}"
  require (footer.sourceSha256 = manifest.source.sha256) .sourceHashMismatch
    "footer source sha256 differs from manifest"
  require (isHex64 footer.sourceSha256) .hashMalformed
    "footer source sha256 is not 64 lowercase hex"

def verifyHashes (package : Package) : Except SourcePackageError Unit := do
  let sealHash ← requireSome package.footer.recordsSealHash .hashMissing "missing records_seal_hash"
  require (isHex64 sealHash) .hashMalformed "records_seal_hash is not 64 lowercase hex"
  let actual ← recordsSealHash serde sha256 package.records
  require (sealHash = actual) .recordsSealMismatch "records seal hash mismatch"
  let root ← requireSome package.footer.manifestHash .hashMissing "missing manifest_hash"
  require (isHex64 root) .hashMalformed "manifest_hash is not 64 lowercase hex"
  let actual ← manifestHash serde sha256 package.manifest package.records package.footer
  require (root = actual) .manifestHashMismatch "manifest root hash mismatch"

def verifyPackage (package : Package) (limits : Limits) : Except SourcePackageError Unit := do
  verifyManifest package.manifest
  verifyFooter package.manifest package.footer
  verifyRecords package limits
  let bytes := package.manifest.source.bytes
  let cap := limits.maxInputBytes
  require (bytes ≤ cap) .limitExceeded s!"source bytes {bytes} > max_input_bytes {cap}"
  verifyHashes serde sha256 package

/-! ## Writing -/

/-- The closure of `check_exportable`, over its total and its line index. -/
def checkLine (limits : Limits) (state : Nat × Nat) (lineLen : Nat) :
    Except SourcePackageError (Nat × Nat) := do
  let (total, lineIndex) := state
  if lineLen > limits.maxLineBytes then
    fail .lineTooLong s!"line {lineIndex} exceeds cap {limits.maxLineBytes}"
  else
    let total := saturatingAdd total (saturatingAdd lineLen 1)
    if total > limits.maxPackageBytes then
      fail .packageTooLarge s!"package exceeds cap {limits.maxPackageBytes}"
    else .ok (total, saturatingAdd lineIndex 1)

def checkSerialized (limits : Limits) (state : Nat × Nat) (value : Json) :
    Except SourcePackageError (Nat × Nat) := do
  let line ← canonicalJson serde value
  checkLine limits state (Utf8.byteLen line)

def checkExportable (package : Package) (limits : Limits) : Except SourcePackageError Unit := do
  let state ← checkSerialized serde limits (0, 0) package.manifest.serialize
  let state ← package.records.foldlM
    (fun state record => checkSerialized serde limits state record.serialize) state
  let _ ← checkSerialized serde limits state package.footer.serialize
  .ok ()

def toJsonl (package : Package) : Except SourcePackageError (List Char) := do
  let limits := package.manifest.limits
  verifyPackage serde sha256 package limits
  checkExportable serde package limits
  let out ← canonicalJson serde package.manifest.serialize
  let out ← package.records.foldlM (fun out record => do
    let line ← serializeRecord serde record
    .ok (out ++ '\n' :: line)) out
  let line ← canonicalJson serde package.footer.serialize
  .ok (out ++ '\n' :: (line ++ ['\n']))

end

/-! ## Lines of a reader -/

/-- A `BufRead`: each list is what one `fill_buf` gives. -/
abbrev Reader := List (List UInt8)

def checkTake (lineCap totalCap outLen total take : Nat) : Except SourcePackageError Nat :=
  if outLen + take > lineCap then fail .lineTooLong "line exceeds the cap"
  else if saturatingAdd total take > totalCap then fail .packageTooLarge "package exceeds the cap"
  else .ok (saturatingAdd total take)

inductive LineRead where
  | eof
  | eofNoLf
  | line (out : List UInt8) (total : Nat) (reader : Reader)
deriving DecidableEq, Repr

def readLineBounded (lineCap totalCap : Nat) :
    Reader → List UInt8 → Nat → Except SourcePackageError LineRead
  | [], out, _ => .ok (if out.isEmpty then .eof else .eofNoLf)
  | [] :: reader, out, total => readLineBounded lineCap totalCap reader out total
  | (byte :: more) :: reader, out, total =>
    let buf := byte :: more
    match buf.idxOf? 10 with
    | some position => do
      let total ← checkTake lineCap totalCap out.length total (position + 1)
      .ok (.line (out ++ buf.take (position + 1)) total (buf.drop (position + 1) :: reader))
    | none => do
      let total ← checkTake lineCap totalCap out.length total buf.length
      readLineBounded lineCap totalCap reader (out ++ buf) total

def finishLine (line : List UInt8) (lineNumber : Nat) : Except SourcePackageError (List Char) :=
  if 13 ∈ line then fail .carriageReturnForbidden "package contains carriage returns"
  else if line.isEmpty then fail .emptyLine s!"blank line {lineNumber}"
  else
    match Utf8.decode line with
    | none => fail .nonUtf8Package "package line is not valid UTF-8"
    | some text => .ok text

/-! ## Reading -/

structure ReadState where
  records : List Record
  elementCount : Nat
  textCount : Nat
  textBytes : Nat
deriving DecidableEq, Repr

def ReadState.init : ReadState := ⟨[], 0, 0, 0⟩

namespace ReadState

variable (state : ReadState) (effective : Limits)

/-- The last check before a record is pushed. -/
def push (record : Record) : Except SourcePackageError ReadState :=
  if saturatingAdd state.elementCount state.textCount > effective.maxRecords then
    fail .recordCapExceeded "record count reached the effective cap"
  else .ok { state with records := state.records ++ [record] }

def accept : Record → Except SourcePackageError ReadState
  | .element element =>
    let state := { state with elementCount := saturatingAdd state.elementCount 1 }
    if state.elementCount > effective.maxNodes then
      fail .nodeCapExceeded "element count reached the effective cap"
    else if element.depth > effective.maxDepth then
      fail .depthExceeded "element depth reached the effective cap"
    else if element.attributeCount > effective.maxAttrsPerElement then
      fail .attributeCountExceeded "attributes+declarations reached the effective cap"
    else state.push effective (.element element)
  | .text text =>
    let state := { state with textCount := saturatingAdd state.textCount 1 }
    if state.textCount > effective.maxTextFragments then
      fail .textFragmentCapExceeded "text fragment count reached the effective cap"
    else
      let state := { state with textBytes := saturatingAdd state.textBytes text.bytes }
      if state.textBytes > effective.maxTextBytes then
        fail .textByteCapExceeded "text bytes reached the effective cap"
      else state.push effective (.text text)

end ReadState

section

variable (serde : SerdeJson) (sha256 : List UInt8 → List UInt8)

/-- The bytes that a reader still holds. -/
def Reader.left (reader : Reader) : Nat := reader.flatten.length

theorem left_readLineBounded {lineCap totalCap total total' : Nat} {reader reader' : Reader}
    {out line : List UInt8}
    (h : readLineBounded lineCap totalCap reader out total = .ok (.line line total' reader')) :
    reader'.left < reader.left := by
  induction reader generalizing out total with
  | nil => cases out <;> cases h
  | cons buf reader ih =>
    cases buf with
    | nil => exact ih h
    | cons byte more =>
      rw [readLineBounded] at h
      cases hposition : (byte :: more).idxOf? 10 with
      | some position =>
        simp only [hposition] at h
        obtain ⟨total₁, -, hline⟩ := Loops.bind_eq_ok_iff.mp h
        cases hline
        simp only [Reader.left, List.flatten_cons, List.length_append, List.length_drop,
          List.length_cons]
        omega
      | none =>
        simp only [hposition] at h
        obtain ⟨total₁, -, hrest⟩ := Loops.bind_eq_ok_iff.mp h
        refine (ih hrest).trans ?_
        simp only [Reader.left, List.flatten_cons, List.length_append, List.length_cons]
        omega

/-- The loop over the lines behind the manifest. -/
def readLines (manifest : Manifest) (effective : Limits) (state : ReadState) (lineNumber total : Nat)
    (reader : Reader) : Except SourcePackageError Package :=
  match _h : readLineBounded effective.maxLineBytes effective.maxPackageBytes reader [] total with
  | .error e => .error e
  | .ok .eof => fail .missingFooter "package has no footer"
  | .ok .eofNoLf => fail .missingTrailingLf "package does not end with LF"
  | .ok (.line line total reader') => do
    let lineNumber := lineNumber + 1
    let text ← finishLine line.dropLast lineNumber
    let value ← strictValue serde text lineNumber
    match kindOf value with
    | some "source_package_footer" =>
      let footer ← fromValueTyped (serde.footer value) lineNumber
      if reader'.left ≠ 0 then fail .misorderedFooter "footer is not the last line"
      else
        let package : Package := ⟨manifest, state.records, footer⟩
        verifyPackage serde sha256 package effective
        .ok package
    | some "source_package_manifest" => fail .misorderedManifest "more than one manifest line"
    | some "element" =>
      let record ← parseRecord serde value lineNumber
      let state ← state.accept effective record
      readLines manifest effective state lineNumber total reader'
    | some "text" =>
      let record ← parseRecord serde value lineNumber
      let state ← state.accept effective record
      readLines manifest effective state lineNumber total reader'
    | _ => fail .unknownKind s!"line {lineNumber}: unknown record kind"
termination_by reader.left
decreasing_by all_goals exact left_readLineBounded _h

def readPackage (reader : Reader) (limits : Limits) : Except SourcePackageError Package := do
  match ← readLineBounded limits.maxLineBytes limits.maxPackageBytes reader [] 0 with
  | .eof => fail .emptyPackage "empty package"
  | .eofNoLf => fail .missingTrailingLf "package does not end with LF"
  | .line line total reader =>
    let text ← finishLine line.dropLast 1
    let value ← strictValue serde text 1
    if kindOf value ≠ some "source_package_manifest" then
      fail .misorderedManifest "manifest is not the first line"
    else
      let manifest ← fromValueTyped (serde.manifest value) 1
      readLines serde sha256 manifest (effectiveLimits limits manifest.limits) .init 1 total reader

end

end LawNexus.SourcePackage
