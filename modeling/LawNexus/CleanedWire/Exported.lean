import LawNexus.CleanedWire.RoundTrip
import LawNexus.SourcePackage.RoundTrip
import Mathlib.Algebra.Order.BigOperators.Group.List

/-!
# The export

What the writer checks, what it writes, and that the reader takes it.
-/

namespace LawNexus.CleanedWire

open Chars Loops Reader
open SourcePackage (Package TextRecord Limits SerdeJson isHex64 verifyPackage)

/-! ## What the writer checks -/

section

variable {package : Package} {index : String → Option TextRecord} {segment : ProjectedSegment}
  {text : List Char}

/-- The texts that the writer gives a segment. -/
theorem resolveText_eq_ok_iff : resolveText index segment = .ok text ↔
    (segment.origin = .sourceFragment ∧ segment.segmentKind = .text ∧
      ∃ fragment record, segment.fragmentRef = some fragment ∧ index fragment = some record ∧
        record.owner = segment.elementRef ∧ some record.slot = segment.slot ∧
        record.value = text) ∨
    (segment.origin ≠ .sourceFragment ∧ segment.segmentKind = .derived ∧
      segment.fragmentRef = none ∧ segment.slot = none ∧ segment.span = none ∧
      segment.text = some text) := by
  unfold resolveText wireFail
  cases horigin : segment.origin with
  | sourceFragment =>
    by_cases hkind : segment.segmentKind = .text
    · cases hfragment : segment.fragmentRef with
      | none => simp [hkind]
      | some fragment =>
        cases hrecord : index fragment with
        | none => simp [hkind, hrecord]
        | some record =>
          by_cases howner : record.owner = segment.elementRef
          · by_cases hslot : some record.slot = segment.slot
            · simp [hkind, hrecord, howner, hslot]
            · simp [hkind, hrecord, howner, hslot]
          · simp [hkind, hrecord, howner]
    · simp [hkind]
  | derived kind =>
    dsimp only
    by_cases hsource : segment.segmentKind ≠ .derived ∨ segment.fragmentRef.isSome ∨
        segment.slot.isSome ∨ segment.span.isSome
    · rw [if_pos hsource]
      simp only [reduceCtorEq, false_and, false_or, not_false_eq_true, true_and, ne_eq, false_iff]
      rintro ⟨hkind, hfragment, hslot, hspan, -⟩
      simp [hkind, hfragment, hslot, hspan] at hsource
    · rw [if_neg hsource]
      have hsome := hsource
      simp only [not_or, ne_eq, not_not, Bool.not_eq_true, Option.isSome_eq_false_iff,
        Option.isNone_iff_eq_none] at hsome
      obtain ⟨hkind, hfragment, hslot, hspan⟩ := hsome
      cases htext : segment.text <;> simp [hkind, hfragment, hslot, hspan]

theorem provenanced_of_resolveText (h : resolveText index segment = .ok text) :
    Provenanced segment := by
  intro hderived
  rcases resolveText_eq_ok_iff.mp h with ⟨hsource, -⟩ | ⟨-, -, hfragment, hslot, hspan, -⟩
  · exact absurd hsource hderived
  · exact ⟨hfragment, hslot, hspan⟩

end

/-! ## What it writes -/

section

variable (sha256 : Sha256) (package : Package) (projection : ReaderProjection)
  (completion : WireCompletion) (limits : WireLimits) (texts : List (List Char))

/-- The lines of a document. -/
def wireLines : List (List Char) :=
  let manifest := renderCompact (manifestJson package limits)
  let records := recordLines projection texts
  framed manifest (renderCompact policiesJson) records
    (footerLine sha256 manifest records completion (cleanedCounts projection texts))

/-- The document is within the limits. -/
structure Within : Prop where
  maxRecords : (cleanedCounts projection texts).records ≤ limits.maxRecords
  maxTextBytes : (cleanedCounts projection texts).textBytes ≤ limits.maxTextBytes
  maxLineBytes : ∀ line ∈ wireLines sha256 package projection completion limits texts,
    Utf8.byteLen line ≤ limits.maxLineBytes

/-- The projection can be written, with these texts in its segments. -/
structure Writable : Prop extends Within sha256 package projection completion limits texts where
  substrate : validateSubstrate package = .ok ()
  completes : validateCompletion completion = .ok ()
  resolves : List.Forall₂ (fun segment text => resolveText (textIndex package) segment = .ok text)
    projection.segments texts
  attributes : ∀ text ∈ textRecords package, (attributed projection.segments).count text.id = 1

theorem check_eq_ok_iff {α : Type} {c : Prop} [Decidable c] {kind : EnvelopeErrorKind}
    {detail : String} {rest : Except EnvelopeError α} {a : α} :
    (if c then do wireFail kind detail; rest else rest) = .ok a ↔ ¬ c ∧ rest = .ok a := by
  by_cases h : c
  · rw [if_pos h]
    exact iff_of_false (by simp [wireFail, bind, Except.bind]) fun hrest => hrest.1 h
  · rw [if_neg h]
    exact (and_iff_right h).symm

/-- The writer writes just what can be written. -/
theorem renderCleanedProjection_eq_ok_iff {text : List Char} :
    renderCleanedProjection sha256 package projection completion limits = .ok text ↔
      ∃ texts, Writable sha256 package projection completion limits texts ∧
        text = written (wireLines sha256 package projection completion limits texts) := by
  have hloss : (textRecords package).forM (checkTextLoss projection completion) = .ok () ↔
      ∀ text ∈ textRecords package, (attributed projection.segments).count text.id = 1 := by
    rw [forM_ok_iff]
    refine forall₂_congr fun text _ => ?_
    unfold checkTextLoss wireFail
    simp
  have hbytes : ∀ lines : List (List Char), lines.forM (checkLineBytes limits) = .ok () ↔
      ∀ line ∈ lines, Utf8.byteLen line ≤ limits.maxLineBytes := by
    intro lines
    rw [forM_ok_iff]
    refine forall₂_congr fun line _ => ?_
    unfold checkLineBytes wireFail
    simp
  unfold renderCleanedProjection
  simp only [bind_eq_ok_iff, check_eq_ok_iff, mapM_eq_ok_iff]
  constructor
  · rintro ⟨⟨⟩, hsubstrate, ⟨⟩, hcompletion, texts, htexts, ⟨⟩, hattributed, hrecords, hsize, ⟨⟩,
      hlines, hwritten⟩
    exact ⟨texts, ⟨⟨Nat.not_lt.mp hrecords, Nat.not_lt.mp hsize, (hbytes _).mp hlines⟩, hsubstrate,
      hcompletion, htexts, hloss.mp hattributed⟩, (Except.ok.inj hwritten).symm⟩
  · rintro ⟨texts, h, rfl⟩
    exact ⟨(), h.substrate, (), h.completes, texts, h.resolves, (), hloss.mpr h.attributes,
      Nat.not_lt.mpr h.maxRecords, Nat.not_lt.mpr h.maxTextBytes, (), (hbytes _).mpr h.maxLineBytes,
      rfl⟩

/-- What a written projection reads back as. -/
def readBack : CleanedProjection where
  contractVersion := CONTRACT_VERSION
  source := sourcePin package
  parent := parentPin package
  projection := {
    views := projection.views
    segments := projection.segments.zipWith readSegment texts
    references := projection.references
    contentHash := none }
  inlineTexts := projection.segments.zipWith inlineText texts
  completion := completion
  counts := cleanedCounts projection texts
  recordsSealHash :=
    recordsSealHash sha256 (renderCompact policiesJson) (recordLines projection texts)
  manifestHash :=
    let recordsSeal :=
      recordsSealHash sha256 (renderCompact policiesJson) (recordLines projection texts)
    manifestHash sha256 (renderCompact (manifestJson package limits)) recordsSeal
      (footerBody completion (cleanedCounts projection texts))

end

/-! ## Counts -/

/-- The numbers of a projection fit in a word. -/
structure ProjectionFits (projection : ReaderProjection) : Prop where
  segments : ∀ segment ∈ projection.segments, SegmentFits segment
  references : ∀ reference ∈ projection.references,
    reference.ordinal < 2 ^ 64 ∧ reference.sourcePos < 2 ^ 64

section

variable {sha256 : Sha256} {package : Package} {projection : ReaderProjection}
  {completion : WireCompletion} {limits : WireLimits} {texts : List (List Char)}

theorem byteLen_le_textBytes {text : List Char} (h : text ∈ texts) :
    Utf8.byteLen text ≤ (cleanedCounts projection texts).textBytes :=
  List.le_sum_of_mem (List.mem_map_of_mem h)

theorem textChars_le_textBytes :
    (cleanedCounts projection texts).textChars ≤ (cleanedCounts projection texts).textBytes :=
  List.sum_le_sum fun text _ => length_le_byteLen text

theorem counts_fits (h : Writable sha256 package projection completion limits texts)
    (hlimits : limits.Fits) : (cleanedCounts projection texts).Fits := by
  have hrecords := Nat.lt_of_le_of_lt h.maxRecords hlimits.maxRecords
  have hbytes := Nat.lt_of_le_of_lt h.maxTextBytes hlimits.maxTextBytes
  have hchars := @textChars_le_textBytes projection texts
  have hsource := List.length_filter_le (fun s => s.origin = .sourceFragment) projection.segments
  have hderived := List.length_filter_le (fun s => s.origin ≠ .sourceFragment) projection.segments
  simp only [cleanedCounts, sourceSegments] at *
  constructor <;> simp only <;> omega

/-! ## The reader takes what was written -/

/-- The fields of the footer. -/
def footerFields (sha256 : Sha256) (package : Package) (projection : ReaderProjection)
    (completion : WireCompletion) (limits : WireLimits) (texts : List (List Char)) : JsonFields :=
  let read := readBack sha256 package projection completion limits texts
  fieldsOf (footerJson completion read.counts (some read.recordsSealHash)
    (some read.manifestHash)).entries

/-- The lines of the document, as the reader has them. -/
def parsedLines (sha256 : Sha256) (package : Package) (projection : ReaderProjection)
    (completion : WireCompletion) (limits : WireLimits) (texts : List (List Char)) :
    List WireLine :=
  framed (manifestLine package limits) policiesLine (parsedRecords projection texts)
    (KIND_FOOTER, footerFields sha256 package projection completion limits texts)

theorem length_parsedRecords (h : projection.segments.length = texts.length) :
    (parsedRecords projection texts).length = (cleanedCounts projection texts).records := by
  simp [parsedRecords, cleanedCounts, h, Nat.add_assoc]

variable (h : Writable sha256 package projection completion limits texts)

include h

theorem renders_wireLines :
    List.Forall₂ Renders (wireLines sha256 package projection completion limits texts)
      (parsedLines sha256 package projection completion limits texts) := by
  refine .cons (renders_manifest package limits) (.cons renders_policies ?_)
  refine List.rel_append (renders_records fun segment hsegment => ?_)
    (.cons (renders_footer completion _ _ _) .nil)
  obtain ⟨text, -, htext⟩ := (forall₂_partner h.resolves).1 segment hsegment
  exact provenanced_of_resolveText htext

theorem documentLines_wireLines :
    documentLines (written (wireLines sha256 package projection completion limits texts)) =
      .ok (wireLines sha256 package projection completion limits texts) :=
  documentLines_written (areLines_of_renders (List.cons_ne_nil _ _) (renders_wireLines h))

theorem records_le :
    (parsedRecords projection texts).length + 2 - 2 ≤ limits.maxRecords := by
  rw [Nat.add_sub_cancel, length_parsedRecords h.resolves.length_eq]
  exact h.maxRecords

theorem inspectCleanedWire_wireLines_eq :
    inspectCleanedWire (written (wireLines sha256 package projection completion limits texts)) =
      (do
        inspectManifest (fieldsOf (manifestJson package limits).entries)
          (wireLines sha256 package projection completion limits texts)
          ((parsedRecords projection texts).length + 2)
        inspectPolicies (fieldsOf policiesJson.entries)
        (parsedRecords projection texts).forM inspectRecord
        inspectFooter (footerFields sha256 package projection completion limits texts)
          (parsedRecords projection texts)) :=
  inspectCleanedWire_framed (documentLines_wireLines h) (mapM_inspectLine (renders_wireLines h))
    fun _ => isBodyKind_parsedRecords

variable (hlimits : limits.Fits)

include hlimits

theorem readFooter_footerFields :
    readFooter (footerFields sha256 package projection completion limits texts) =
      .ok (readBack sha256 package projection completion limits texts).pin :=
  readFooter_footer h.completes (counts_fits h hlimits) (isHex64_hexLower (sha256 _).2)
    (isHex64_hexLower (sha256 _).2) (holdsFooter completion _ _ _)

theorem inspectFooter_footerFields (records : List WireLine) : ∃ summary,
    inspectFooter (footerFields sha256 package projection completion limits texts) records =
      .ok summary := by
  let read := readBack sha256 package projection completion limits texts
  have hrecords : isHex64 read.recordsSealHash = true := isHex64_hexLower (sha256 _).2
  have hmanifest : isHex64 read.manifestHash = true := isHex64_hexLower (sha256 _).2
  exact inspectFooter_footer h.completes (counts_fits h hlimits) hrecords hmanifest
    (holdsFooter completion _ _ _) records

variable (hbytes : package.manifest.source.bytes < 2 ^ 64)

include hbytes

theorem readCleanedWire_unpinned (hpins : ¬ Pinned package) : ∃ detail,
    readCleanedWire sha256 (written (wireLines sha256 package projection completion limits texts)) =
      refuse .hashShapeInvalid detail := by
  obtain ⟨detail, hdetail⟩ := inspectManifest_unpinned (holdsManifest package limits) hbytes hlimits
    h.maxLineBytes (records_le h) hpins
  refine ⟨detail, ?_⟩
  unfold readCleanedWire
  rw [inspectCleanedWire_wireLines_eq h, hdetail]
  rfl

variable (hpins : Pinned package)

include hpins

theorem inspectCleanedWire_wireLines : ∃ summary,
    inspectCleanedWire (written (wireLines sha256 package projection completion limits texts)) =
      .ok summary := by
  obtain ⟨summary, hsummary⟩ :=
    inspectFooter_footerFields h hlimits (parsedRecords projection texts)
  refine ⟨summary, ?_⟩
  rw [inspectCleanedWire_wireLines_eq h,
    inspectManifest_manifest (holdsManifest package limits) hbytes hlimits h.maxLineBytes
      (records_le h) hpins, ok_bind, inspectPolicies_policies, ok_bind, inspectRecord_records,
    ok_bind, hsummary]

/-- The reader gives back what was written. -/
theorem readCleanedWire_wireLines (hfits : ProjectionFits projection) :
    readCleanedWire sha256
        (written (wireLines sha256 package projection completion limits texts)) =
      .ok (readBack sha256 package projection completion limits texts) := by
  obtain ⟨summary, hsummary⟩ := inspectCleanedWire_wireLines h hlimits hbytes hpins
  have hrecords : (parsedRecords projection texts).foldlM readRecord ⟨[], [], [], []⟩ =
      .ok ⟨projection.views, projection.segments.zipWith readSegment texts, projection.references,
        projection.segments.zipWith inlineText texts⟩ := by
    unfold parsedRecords
    rw [List.foldlM_append, List.foldlM_append, foldlM_readRecord_views, ok_bind,
      foldlM_readRecord_segments, ok_bind, foldlM_readRecord_references hfits.references]
    · rw [List.map_zip_eq_zipWith, List.map_zip_eq_zipWith]
      rfl
    · exact fun entry hentry => hfits.segments _ (List.of_mem_zip hentry).1
    · exact fun entry hentry => Nat.lt_of_le_of_lt (byteLen_le_textBytes (List.of_mem_zip hentry).2)
        (counts_fits h hlimits).textBytes
  have hseals : checkSeals sha256
      (wireLines sha256 package projection completion limits texts)
      (readBack sha256 package projection completion limits texts).pin = .ok () :=
    (checkSeals_framed ..).mpr ⟨rfl, rfl⟩
  have hversion := recordU64_number (holdsManifest package limits).version (by decide)
  rw [readCleanedWire_framed sha256 hsummary (documentLines_wireLines h)
    (mapM_readLine (renders_wireLines h)), enforceRecordGroupOrder_records, ok_bind,
    readPins_manifest (holdsManifest package limits) hpins hbytes, ok_bind,
    readFooter_footerFields h hlimits]
  dsimp only
  rw [ok_bind, hrecords, ok_bind]
  rw [hseals, ok_bind, hversion]
  rfl

end

/-! ## The exporter -/

section

variable (sha256 : Sha256) (package : Package) (projection : ReaderProjection)
  (completion : WireCompletion) (limits : WireLimits) (hlimits : limits.Fits)
  (hbytes : package.manifest.source.bytes < 2 ^ 64)

include hlimits hbytes

theorem exportCleanedProjection_unpinned (hpins : ¬ Pinned package) {text : List Char}
    (hrender : renderCleanedProjection sha256 package projection completion limits = .ok text) :
    ∃ detail : String, exportCleanedProjection sha256 package projection completion limits =
      refuse .hashShapeInvalid s!"exporter self-check failed: {detail}" := by
  obtain ⟨texts, h, rfl⟩ := (renderCleanedProjection_eq_ok_iff ..).mp hrender
  obtain ⟨detail, hread⟩ := readCleanedWire_unpinned h hlimits hbytes hpins
  refine ⟨detail, ?_⟩
  unfold exportCleanedProjection
  rw [hrender]
  simp only [Except.mapError, ok_bind, hread]
  rfl

variable (hfits : ProjectionFits projection)

include hfits

theorem exportCleanedProjection_eq_render (hpins : Pinned package) :
    exportCleanedProjection sha256 package projection completion limits =
      (renderCleanedProjection sha256 package projection completion limits).mapError .refused := by
  unfold exportCleanedProjection
  cases hrender : renderCleanedProjection sha256 package projection completion limits with
  | error error => rfl
  | ok text =>
    obtain ⟨texts, h, rfl⟩ := (renderCleanedProjection_eq_ok_iff ..).mp hrender
    simp only [Except.mapError, ok_bind, readCleanedWire_wireLines h hlimits hbytes hpins hfits]

/-- The exporter gives what the writer writes where the pins of the package are hashes: it refuses
its own artifact for nothing else. -/
theorem export_outcome :
    (Pinned package → exportCleanedProjection sha256 package projection completion limits =
      (renderCleanedProjection sha256 package projection completion limits).mapError .refused) ∧
    (¬ Pinned package → ∀ text,
      renderCleanedProjection sha256 package projection completion limits = .ok text →
        ∃ detail : String, exportCleanedProjection sha256 package projection completion limits =
          refuse .hashShapeInvalid s!"exporter self-check failed: {detail}") :=
  ⟨exportCleanedProjection_eq_render sha256 package projection completion limits hlimits hbytes hfits,
    fun hpins _ => exportCleanedProjection_unpinned sha256 package projection completion limits
      hlimits hbytes hpins⟩

/-- An export that is not refused can be read. -/
theorem answers_export :
    Answers (fun text => ∃ texts, Writable sha256 package projection completion limits texts ∧
        readCleanedWire sha256 text =
          .ok (readBack sha256 package projection completion limits texts))
      (exportCleanedProjection sha256 package projection completion limits) := by
  cases hrender : renderCleanedProjection sha256 package projection completion limits with
  | error error =>
    refine Or.inl ⟨error, ?_⟩
    unfold exportCleanedProjection
    rw [hrender]
    rfl
  | ok text =>
    by_cases hpins : Pinned package
    · rw [exportCleanedProjection_eq_render sha256 package projection completion limits hlimits
        hbytes hfits hpins, hrender]
      obtain ⟨texts, hwritable, rfl⟩ := (renderCleanedProjection_eq_ok_iff ..).mp hrender
      exact answers_ok
        ⟨texts, hwritable, readCleanedWire_wireLines hwritable hlimits hbytes hpins hfits⟩
    · obtain ⟨detail, hrefuse⟩ := exportCleanedProjection_unpinned sha256 package projection
        completion limits hlimits hbytes hpins hrender
      rw [hrefuse]
      exact answers_refuse _ _

/-- An exported projection reads back, each of its segments with its text. -/
theorem read_export :
    (do
      let text ← exportCleanedProjection sha256 package projection completion limits
      readCleanedWire sha256 text) =
    (do
      let _ ← exportCleanedProjection sha256 package projection completion limits
      let texts ← (projection.segments.mapM (resolveText (textIndex package))).mapError .refused
      .ok (readBack sha256 package projection completion limits texts)) := by
  rcases answers_export sha256 package projection completion limits hlimits hbytes hfits with
    ⟨error, h⟩ | ⟨text, ⟨texts, hwritable, hread⟩, h⟩
  · rw [h]
    rfl
  · rw [h, ok_bind, ok_bind, hread, mapM_eq_ok_iff.mpr hwritable.resolves]
    rfl

end

/-! ## Packages that verify -/

theorem requireSome_ok_iff {α : Type} {value : Option α} {kind : SourcePackage.ErrorKind}
    {detail : String} {a : α} :
    SourcePackage.requireSome value kind detail = .ok a ↔ value = some a := by
  cases value <;> simp [SourcePackage.requireSome, SourcePackage.fail]

/-- A package that verifies can be cited. -/
theorem verified_spec {package : Package} {serde : SerdeJson} {digest : List UInt8 → List UInt8}
    {caps : Limits} (h : verifyPackage serde digest package caps = .ok ()) :
    validateSubstrate package = .ok () ∧ Pinned package := by
  unfold verifyPackage SourcePackage.verifyManifest SourcePackage.verifyHashes at h
  obtain ⟨⟨⟩, hmanifest, h⟩ := bind_eq_ok_iff.mp h
  obtain ⟨⟨⟩, hidentity, hmanifest⟩ := bind_eq_ok_iff.mp hmanifest
  obtain ⟨⟨⟩, hversion, hmanifest⟩ := bind_eq_ok_iff.mp hmanifest
  obtain ⟨⟨⟩, hsource, -⟩ := bind_eq_ok_iff.mp hmanifest
  obtain ⟨⟨⟩, -, h⟩ := bind_eq_ok_iff.mp h
  obtain ⟨⟨⟩, -, h⟩ := bind_eq_ok_iff.mp h
  obtain ⟨⟨⟩, -, h⟩ := bind_eq_ok_iff.mp h
  obtain ⟨records, hrecords, h⟩ := bind_eq_ok_iff.mp h
  obtain ⟨⟨⟩, hseal, h⟩ := bind_eq_ok_iff.mp h
  obtain ⟨actual, -, h⟩ := bind_eq_ok_iff.mp h
  obtain ⟨⟨⟩, -, h⟩ := bind_eq_ok_iff.mp h
  obtain ⟨root, hroot, h⟩ := bind_eq_ok_iff.mp h
  obtain ⟨⟨⟩, hhash, -⟩ := bind_eq_ok_iff.mp h
  rw [requireSome_ok_iff] at hrecords hroot
  rw [SourcePackage.require_ok_iff] at hidentity hversion hsource hseal hhash
  simp only [Bool.and_eq_true, decide_eq_true_eq] at hidentity hversion
  obtain ⟨⟨⟨⟨⟨⟨hkind, hschema⟩, hmodel⟩, hprofile⟩, hcapability⟩, -⟩, -⟩ := hidentity
  refine ⟨?_, hsource, ?_, ?_⟩
  · unfold validateSubstrate
    rw [if_neg (not_not.mpr ⟨hkind, hschema, hmodel, hprofile, hcapability⟩),
      if_neg (not_not.mpr hversion)]
  · rw [hrecords]
    rintro _ ⟨⟩
    exact hseal
  · rw [hroot]
    rintro _ ⟨⟩
    exact hhash

namespace Sample

/-! ### A package without a text -/

open SourcePackage.Sample (signed verifyPackage_signed)

/-- The projection of `<p/>`. -/
def single : ReaderProjection where
  views := [⟨"v0", .residual, "e0", none, [], [], ["r0"], ⟨true⟩⟩]
  segments := []
  references := [⟨"r0", "v0", 0, .foreignElement, "e0", 0, false⟩]
  contentHash := none

theorem fits_single : ProjectionFits single := by
  constructor <;> simp [single]

def limits : WireLimits := ⟨4096, 100, 4096⟩

theorem fits_limits : limits.Fits := by
  constructor <;> simp [limits]

/-- What the records of the document and the document itself are hashed from. -/
def sealInput : List UInt8 :=
  Utf8.bytes (renderCompact policiesJson ++ (recordLines single []).flatten)

def digest : List UInt8 :=
  [140, 143, 24, 231, 159, 88, 8, 239, 5, 110, 67, 116, 176, 195, 4, 244, 221, 14, 115, 82, 0, 143,
    72, 39, 177, 91, 228, 164, 110, 90, 60, 210]

def rootInput : List UInt8 :=
  Utf8.bytes (manifestInput (renderCompact (manifestJson signed limits))
    (SourcePackage.hexLower digest) (footerBody .complete (cleanedCounts single [])))

def rootDigest : List UInt8 :=
  [184, 101, 61, 66, 28, 214, 100, 218, 67, 116, 158, 254, 186, 156, 2, 9, 158, 129, 100, 140, 224,
    190, 155, 96, 47, 48, 171, 206, 99, 165, 41, 25]

def sha256 : Sha256 := fun bytes =>
  if bytes = sealInput then ⟨digest, rfl⟩
  else if bytes = rootInput then ⟨rootDigest, rfl⟩
  else ⟨List.replicate 32 0, rfl⟩

theorem export_single : exportCleanedProjection sha256 signed single .complete limits =
    (renderCleanedProjection sha256 signed single .complete limits).mapError .refused :=
  (export_outcome sha256 signed single .complete limits fits_limits (by decide) fits_single).1
    (verified_spec verifyPackage_signed).2

theorem read_single :
    (do
      let text ← exportCleanedProjection sha256 signed single .complete limits
      readCleanedWire sha256 text) =
    (do
      let _ ← exportCleanedProjection sha256 signed single .complete limits
      let texts ← ((single.segments.mapM (resolveText (textIndex signed))).mapError .refused)
      .ok (readBack sha256 signed single .complete limits texts)) :=
  read_export sha256 signed single .complete limits fits_limits (by decide) fits_single

end Sample

end LawNexus.CleanedWire
