import LawNexus.SourcePackage.Wire

/-!
# Reading with numbers of 64 bits

`read_package` on a machine: each `+` on `u64` may overflow, and what is held in memory is no longer
than `isize::MAX`. `saturating_add` stays as it is.
-/

namespace LawNexus.SourcePackage

/-- How a run ends without a package. -/
inductive Halt where
  | refused (error : SourcePackageError)
  | overflow
  | outOfMemory
deriving DecidableEq, Repr

abbrev Run (α : Type) := Except Halt α

def Run.of {α : Type} (r : Except SourcePackageError α) : Run α := r.mapError .refused

namespace Machine

def isizeMax : Nat := 2 ^ 63 - 1

/-- `a + b`, checked. -/
def add (a b : Nat) : Run Nat := if u64Max < a + b then .error .overflow else .ok (a + b)

def hold (n : Nat) : Run Unit := if isizeMax < n then .error .outOfMemory else .ok ()

/-- A `BufRead`: what `fill_buf` gives is a slice. -/
structure Stream where
  buffers : Reader
  slices : ∀ buf ∈ buffers, buf.length ≤ isizeMax

/-! ## Lines -/

def checkTake (lineCap totalCap outLen total take : Nat) : Run Nat := do
  let _ ← add outLen take
  .of (SourcePackage.checkTake lineCap totalCap outLen total take)

def readLineBounded (lineCap totalCap : Nat) : Reader → List UInt8 → Nat → Run LineRead
  | [], out, _ => .ok (if out.isEmpty then .eof else .eofNoLf)
  | [] :: reader, out, total => readLineBounded lineCap totalCap reader out total
  | (byte :: more) :: reader, out, total =>
    let buf := byte :: more
    match buf.idxOf? 10 with
    | some position => do
      let total ← checkTake lineCap totalCap out.length total (position + 1)
      let out := out ++ buf.take (position + 1)
      hold out.length
      .ok (.line out total (buf.drop (position + 1) :: reader))
    | none => do
      let total ← checkTake lineCap totalCap out.length total buf.length
      let out := out ++ buf
      hold out.length
      readLineBounded lineCap totalCap reader out total

/-! ## Verification -/

def countRecord (counts : Counts) : Record → Run Counts
  | .element element => do
    let elements ← add counts.elements 1
    let namespaceDeclarations ←
      add counts.namespaceDeclarations element.namespaceDeclarations.len
    .ok { counts with elements, namespaceDeclarations }
  | .text text => do
    let textFragments ← add counts.textFragments 1
    let textChars ← add counts.textChars text.chars
    let textBytes ← add counts.textBytes text.bytes
    .ok { counts with textFragments, textChars, textBytes }

def recomputeCounts (records : List Record) : Run Counts :=
  records.foldlM countRecord ⟨0, 0, 0, 0, 0, records.length⟩

def capAttributes (limits : Limits) (index : Nat) : Record → Run Unit
  | .element element => do
    let attributeCount ← add element.attrs.len element.namespaceDeclarations.len
    let detail := s!"element {index} attributes+declarations {attributeCount} > cap "
    .of (capped attributeCount limits.maxAttrsPerElement
      (detail ++ toString limits.maxAttrsPerElement))
  | .text _ => .ok ()

def enforceLimits (limits : Limits) (counts : Counts) (records : List Record) : Run Unit := do
  .of (capped counts.elements limits.maxNodes
    s!"elements {counts.elements} > max_nodes {limits.maxNodes}")
  .of (capped counts.textFragments limits.maxTextFragments
    s!"text_fragments {counts.textFragments} > cap {limits.maxTextFragments}")
  .of (capped counts.textBytes limits.maxTextBytes
    s!"text_bytes {counts.textBytes} > cap {limits.maxTextBytes}")
  .of (capped counts.records limits.maxRecords
    s!"records {counts.records} > cap {limits.maxRecords}")
  let maxDepth := ((records.filterMap Record.element?).map (·.depth)).foldl max 0
  .of (capped maxDepth limits.maxDepth s!"depth {maxDepth} > cap {limits.maxDepth}")
  records.zipIdx.forM fun (record, index) => capAttributes limits index record

section

variable (elements : List ElementRecord)

def checkParent (element : ElementRecord) (index : Nat) : Run Unit :=
  match element.parent with
  | none =>
    if element.depth ≠ 0 ∨ element.childIndex.isSome then
      .of (fail .depthMismatch "root element has non-zero depth or child_index")
    else .ok ()
  | some id =>
    match (idIndex elements id).bind (elements[·]?) with
    | none => .of (fail .parentDangling s!"element e{index} parent is not an element")
    | some parent => do
      let below ← add parent.depth 1
      if below ≠ element.depth then
        .of (fail .depthMismatch s!"element e{index} depth is not parent depth + 1")
      else .ok ()

/-- What follows on the loop over the parents. -/
def checkOrder : Except SourcePackageError Nat :=
  match roots elements with
  | [root] => do
    (List.range elements.length).forM fun parent =>
      (children elements parent).zipIdx.forM fun (child, position) =>
        checkChildIndex elements parent position child
    if preorder elements root ≠ List.range elements.length then
      fail .elementOrderMismatch "element records are not in canonical pre-order"
    else .ok root
  | roots => fail .rootCount s!"{roots.length} root elements"

def checkTopology : Run Nat := do
  elements.zipIdx.forM fun (element, index) => checkParent elements element index
  .of (checkOrder elements)

end

def verifyRecords (package : Package) (limits : Limits) : Run Unit := do
  let actual ← recomputeCounts package.records
  enforceLimits limits actual package.records
  .of (compareCounts package.footer.counts actual)
  let (elements, texts) ← .of (sections false package.records)
  .of (checkIds elements texts)
  if elements.isEmpty then .of (fail .noRoot "no element records")
  else
    let root ← checkTopology elements
    .of (elements.zipIdx.forM fun (element, index) => checkSpace elements element index)
    .of (checkTexts elements [] 0 texts)
    .of (checkTextOrder elements texts root)
    .of (checkRefs elements texts)

section

variable (serde : SerdeJson) (sha256 : List UInt8 → List UInt8)

def verifyPackage (package : Package) (limits : Limits) : Run Unit := do
  .of (verifyManifest package.manifest)
  .of (verifyFooter package.manifest package.footer)
  verifyRecords package limits
  let bytes := package.manifest.source.bytes
  let cap := limits.maxInputBytes
  .of (require (bytes ≤ cap) .limitExceeded s!"source bytes {bytes} > max_input_bytes {cap}")
  .of (verifyHashes serde sha256 package)

/-! ## Reading -/

/-- A record and each entry of its maps take a byte at least. -/
def footprint : Record → Nat
  | .element element => 1 + (element.attrs.len + element.namespaceDeclarations.len)
  | .text _ => 1

/-- The record that is parsed lies in memory beside the ones that are kept. -/
def parseRecord (kept : List Record) (value : Json) (line : Nat) : Run Record := do
  let record ← .of (SourcePackage.parseRecord serde value line)
  hold ((kept ++ [record]).map footprint).sum
  .ok record

def accept (effective : Limits) (state : ReadState) : Record → Run ReadState
  | .element element =>
    let state := { state with elementCount := saturatingAdd state.elementCount 1 }
    if state.elementCount > effective.maxNodes then
      .of (fail .nodeCapExceeded "element count reached the effective cap")
    else if element.depth > effective.maxDepth then
      .of (fail .depthExceeded "element depth reached the effective cap")
    else do
      let attributeCount ← add element.attrs.len element.namespaceDeclarations.len
      if attributeCount > effective.maxAttrsPerElement then
        .of (fail .attributeCountExceeded "attributes+declarations reached the effective cap")
      else .of (state.push effective (.element element))
  | .text text => .of (state.accept effective (.text text))

end

theorem of_eq_ok_iff {α : Type} {r : Except SourcePackageError α} {a : α} :
    Run.of r = .ok a ↔ r = .ok a := Loops.mapError_eq_ok_iff

theorem ok_of_checkTake {lineCap totalCap outLen total take total' : Nat}
    (h : checkTake lineCap totalCap outLen total take = .ok total') :
    SourcePackage.checkTake lineCap totalCap outLen total take = .ok total' := by
  obtain ⟨length, -, htake⟩ := Loops.bind_eq_ok_iff.mp h
  exact of_eq_ok_iff.mp htake

/-- A line that is read is the line that is read without bounds. -/
theorem ok_of_readLineBounded {lineCap totalCap total : Nat} {reader : Reader} {out : List UInt8}
    {r : LineRead} (h : readLineBounded lineCap totalCap reader out total = .ok r) :
    SourcePackage.readLineBounded lineCap totalCap reader out total = .ok r := by
  induction reader generalizing out total with
  | nil => exact congrArg Except.ok (Except.ok.inj h)
  | cons buf reader ih =>
    cases buf with
    | nil => exact ih h
    | cons byte more =>
      rw [readLineBounded] at h
      rw [SourcePackage.readLineBounded]
      cases hposition : (byte :: more).idxOf? 10 with
      | some position =>
        simp only [hposition] at h
        obtain ⟨total₁, htake, h⟩ := Loops.bind_eq_ok_iff.mp h
        obtain ⟨⟨⟩, -, h⟩ := Loops.bind_eq_ok_iff.mp h
        simp only [ok_of_checkTake htake, Loops.ok_bind]
        exact congrArg Except.ok (Except.ok.inj h)
      | none =>
        simp only [hposition] at h
        obtain ⟨total₁, htake, h⟩ := Loops.bind_eq_ok_iff.mp h
        obtain ⟨⟨⟩, -, h⟩ := Loops.bind_eq_ok_iff.mp h
        simp only [ok_of_checkTake htake, Loops.ok_bind]
        exact ih h

section

variable (serde : SerdeJson) (sha256 : List UInt8 → List UInt8)

def readLines (manifest : Manifest) (effective : Limits) (state : ReadState)
    (lineNumber total : Nat) (reader : Reader) : Run Package :=
  match _h : readLineBounded effective.maxLineBytes effective.maxPackageBytes reader [] total with
  | .error halt => .error halt
  | .ok .eof => .of (fail .missingFooter "package has no footer")
  | .ok .eofNoLf => .of (fail .missingTrailingLf "package does not end with LF")
  | .ok (.line line total reader') => do
    let lineNumber ← add lineNumber 1
    let text ← .of (finishLine line.dropLast lineNumber)
    let value ← .of (strictValue serde text lineNumber)
    match kindOf value with
    | some "source_package_footer" =>
      let footer ← .of (fromValueTyped (serde.footer value) lineNumber)
      if reader'.left ≠ 0 then .of (fail .misorderedFooter "footer is not the last line")
      else
        let package : Package := ⟨manifest, state.records, footer⟩
        verifyPackage serde sha256 package effective
        .ok package
    | some "source_package_manifest" =>
      .of (fail .misorderedManifest "more than one manifest line")
    | some "element" =>
      let record ← parseRecord serde state.records value lineNumber
      let state ← accept effective state record
      readLines manifest effective state lineNumber total reader'
    | some "text" =>
      let record ← parseRecord serde state.records value lineNumber
      let state ← accept effective state record
      readLines manifest effective state lineNumber total reader'
    | _ => .of (fail .unknownKind s!"line {lineNumber}: unknown record kind")
termination_by reader.left
decreasing_by all_goals exact left_readLineBounded (ok_of_readLineBounded _h)

def readPackage (stream : Stream) (limits : Limits) : Run Package := do
  match ← readLineBounded limits.maxLineBytes limits.maxPackageBytes stream.buffers [] 0 with
  | .eof => .of (fail .emptyPackage "empty package")
  | .eofNoLf => .of (fail .missingTrailingLf "package does not end with LF")
  | .line line total reader =>
    let text ← .of (finishLine line.dropLast 1)
    let value ← .of (strictValue serde text 1)
    if kindOf value ≠ some "source_package_manifest" then
      .of (fail .misorderedManifest "manifest is not the first line")
    else
      let manifest ← .of (fromValueTyped (serde.manifest value) 1)
      readLines serde sha256 manifest (effectiveLimits limits manifest.limits) .init 1 total reader

end

end Machine

end LawNexus.SourcePackage
