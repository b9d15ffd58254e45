import LawNexus.CleanedWire.Answers

/-!
# What the reader accepts

A text is refused, or it is a sealed document with a well-formed projection in it.
-/

namespace LawNexus.CleanedWire

open Chars Loops Reader
open SourcePackage (TextSlot isHex64)

/-! ## Records -/

section

variable (fields : JsonFields)

theorem answers_segmentSlot : Answers (fun _ => True) (segmentSlot fields) := by
  unfold segmentSlot
  refine (answers_optRecordString _ _).bind fun token _ => ?_
  cases token with
  | none => exact answers_ok trivial
  | some token =>
    dsimp only [parseTextSlot]
    cases fromTokens [("text", TextSlot.text), ("tail", .tail)] token with
    | none => exact Or.inl ⟨_, rfl⟩
    | some slot => exact answers_ok trivial

theorem answers_parseSegmentOrigin : Answers (fun _ => True) (parseSegmentOrigin fields) := by
  unfold parseSegmentOrigin
  refine (answers_recordString _ _).bind fun token _ => ?_
  refine answers_ite (fun _ => answers_ok trivial) fun _ => ?_
  cases "derived:".toList.isPrefixOf? token.toList with
  | none => exact answers_refuse _ _
  | some rest => exact (answers_orInvalid _).mono fun _ _ => trivial

theorem answers_parseSegmentSpan : Answers (fun _ => True) (parseSegmentSpan fields) := by
  unfold parseSegmentSpan
  refine (answers_orInvalid _).bind fun raw _ => ?_
  refine answers_ite (fun _ => answers_ok trivial) fun _ => ?_
  refine (answers_parseFields _).bind fun inner _ => (answers_recordString _ _).bind fun _ _ => ?_
  refine (answers_recordU64 _ _).bind fun _ _ => (answers_recordU64 _ _).bind fun _ _ => ?_
  exact answers_ok trivial

variable {fields}

theorem answers_reconstructView (h : fields.Valued) :
    Answers (fun _ => True) (reconstructView fields) := by
  unfold reconstructView
  refine (answers_recordString _ _).bind fun _ _ => (answers_recordToken _ _ _).bind fun _ _ => ?_
  refine (answers_recordString _ _).bind fun _ _ => ?_
  refine (answers_optRecordString _ _).bind fun _ _ => ?_
  iterate 3 refine (answers_recordStringArray h _).bind fun _ _ => ?_
  refine (answers_recordObject _ _).bind fun flags _ => (answers_recordBool _ _).bind fun _ _ => ?_
  exact answers_ok trivial

theorem answers_reconstructReference (fields : JsonFields) :
    Answers (fun _ => True) (reconstructReference fields) := by
  unfold reconstructReference
  iterate 2 refine (answers_recordString _ _).bind fun _ _ => ?_
  refine (answers_recordU64 _ _).bind fun _ _ => (answers_recordToken _ _ _).bind fun _ _ => ?_
  refine (answers_recordString _ _).bind fun _ _ => (answers_recordU64 _ _).bind fun _ _ => ?_
  exact (answers_recordBool _ _).bind fun _ _ => answers_ok trivial

/-- The text of a segment is beside it; only a derived segment has it too. -/
structure Beside (segment : ProjectedSegment) (inline : SegmentText) : Prop where
  segmentId : inline.segmentId = segment.id
  fragmentRef : inline.fragmentRef = segment.fragmentRef
  text : segment.text = if segment.origin = .sourceFragment then none else some inline.text

theorem answers_reconstructSegment (fields : JsonFields) :
    Answers (fun read => Beside read.1 read.2) (reconstructSegment fields) := by
  unfold reconstructSegment
  iterate 2 refine (answers_recordString _ _).bind fun _ _ => ?_
  refine (answers_recordU64 _ _).bind fun _ _ => (answers_recordToken _ _ _).bind fun _ _ => ?_
  refine (answers_optRecordString _ _).bind fun _ _ => (answers_segmentSlot _).bind fun _ _ => ?_
  refine (answers_parseSegmentSpan _).bind fun _ _ => ?_
  iterate 3 refine (answers_recordU64 _ _).bind fun _ _ => ?_
  refine (answers_parseSegmentOrigin _).bind fun _ _ => ?_
  refine (answers_recordToken _ _ _).bind fun _ _ => (answers_recordBool _ _).bind fun _ _ => ?_
  refine (answers_recordString _ _).bind fun _ _ => (answers_recordU64 _ _).bind fun _ _ => ?_
  refine (answers_recordString _ _).bind fun _ _ => ?_
  iterate 2 refine (answers_recordU64 _ _).bind fun _ _ => ?_
  exact answers_ok ⟨rfl, rfl, rfl⟩

end

/-! ## The loop over the records -/

theorem answers_foldlM {α β : Type} {f : β → α → Reading β} {I : List α → β → Prop} {l : List α}
    (h : ∀ done s, I done s → ∀ a ∈ l, Answers (I (done ++ [a])) (f s a)) {done : List α} {s : β}
    (hs : I done s) : Answers (I (done ++ l)) (l.foldlM f s) := by
  induction l generalizing done s with
  | nil =>
    rw [List.append_nil]
    exact answers_ok hs
  | cons a l ih =>
    rw [List.foldlM_cons]
    refine (h done s hs a List.mem_cons_self).bind fun s' hs' => ?_
    rw [← List.singleton_append, ← List.append_assoc]
    exact ih (fun done s hs b hb => h done s hs b (List.mem_cons_of_mem _ hb)) hs'

def IsRecordKind (kind : String) : Prop :=
  kind = KIND_VIEW ∨ kind = KIND_SEGMENT ∨ kind = KIND_REFERENCE

/-- What the loop has collected of records of these kinds. -/
structure Collected (kinds : List String) (records : Records) : Prop where
  recordKinds : ∀ kind ∈ kinds, IsRecordKind kind
  views : kinds.count KIND_VIEW = records.views.length
  segments : kinds.count KIND_SEGMENT = records.segments.length
  references : kinds.count KIND_REFERENCE = records.references.length
  beside : List.Forall₂ Beside records.segments records.inlineTexts

theorem collected_nil : Collected [] ⟨[], [], [], []⟩ :=
  ⟨List.forall_mem_nil _, rfl, rfl, rfl, .nil⟩

theorem answers_readRecord {records : Records} {kinds : List String} (h : Collected kinds records)
    {line : WireLine} (hline : line.2.Valued) :
    Answers (Collected (kinds ++ [line.1])) (readRecord records line) := by
  obtain ⟨kind, fields⟩ := line
  have hkinds : IsRecordKind kind → ∀ k ∈ kinds ++ [kind], IsRecordKind k := fun hkind =>
    List.forall_mem_append.mpr ⟨h.recordKinds, List.forall_mem_singleton.mpr hkind⟩
  unfold readRecord
  dsimp only
  refine answers_ite (fun hview => ?_) fun _ => answers_ite (fun hsegment => ?_) fun _ =>
    answers_ite (fun hreference => ?_) fun _ => answers_refuse _ _
  · subst hview
    refine (answers_reconstructView hline).bind fun view _ => answers_ok ?_
    refine ⟨hkinds (Or.inl rfl), ?_, ?_, ?_, h.beside⟩ <;>
      simp [KIND_VIEW, KIND_SEGMENT, KIND_REFERENCE, ← h.views, ← h.segments, ← h.references]
  · subst hsegment
    refine (answers_reconstructSegment fields).bind ?_
    rintro ⟨segment, inline⟩ hbeside
    refine answers_ok ⟨hkinds (Or.inr (Or.inl rfl)), ?_, ?_, ?_,
      List.rel_append h.beside (.cons hbeside .nil)⟩ <;>
      simp [KIND_VIEW, KIND_SEGMENT, KIND_REFERENCE, ← h.views, ← h.segments, ← h.references]
  · subst hreference
    refine (answers_reconstructReference fields).bind fun reference _ => answers_ok ?_
    refine ⟨hkinds (Or.inr (Or.inr rfl)), ?_, ?_, ?_, h.beside⟩ <;>
      simp [KIND_VIEW, KIND_SEGMENT, KIND_REFERENCE, ← h.views, ← h.segments, ← h.references]

theorem answers_readRecords {body : List WireLine} (h : ∀ line ∈ body, line.2.Valued) :
    Answers (Collected (body.map (·.1))) (body.foldlM readRecord ⟨[], [], [], []⟩) := by
  have hstep : ∀ (done : List WireLine) records, Collected (done.map (·.1)) records →
      ∀ line ∈ body, Answers (Collected ((done ++ [line]).map (·.1))) (readRecord records line) := by
    intro done records hrecords line hline
    rw [List.map_append]
    exact answers_readRecord hrecords (h line hline)
  have hstart : Collected (([] : List WireLine).map (·.1)) ⟨[], [], [], []⟩ := collected_nil
  exact answers_foldlM hstep hstart

/-- The kinds of views, then those of segments, then those of references. -/
def grouped (views segments references : Nat) : List String :=
  List.replicate views KIND_VIEW ++
    (List.replicate segments KIND_SEGMENT ++ List.replicate references KIND_REFERENCE)

theorem answers_groupPhase (phase : Nat) (kind : String) :
    Answers (fun _ => True) (groupPhase phase kind) := by
  unfold groupPhase
  refine answers_ite (fun _ => ?_) fun _ => answers_ite (fun _ => ?_) fun _ =>
    answers_ite (fun _ => answers_ok trivial) fun _ => answers_ok trivial
  · exact answers_ite (fun _ => answers_refuse _ _) fun _ => answers_ok trivial
  · exact answers_ite (fun _ => answers_refuse _ _) fun _ => answers_ok trivial

/-- Record kinds in order are grouped: from the first phase on no view comes, and from the second on
no segment. -/
theorem exists_grouped {kinds : List String} {phase last : Nat}
    (h : kinds.foldlM groupPhase phase = .ok last) (hkinds : ∀ kind ∈ kinds, IsRecordKind kind) :
    ∃ views segments references, kinds = grouped views segments references ∧
      (1 ≤ phase → views = 0) ∧ (2 ≤ phase → segments = 0) := by
  induction kinds generalizing phase with
  | nil => exact ⟨0, 0, 0, rfl, fun _ => rfl, fun _ => rfl⟩
  | cons kind kinds ih =>
    rw [List.foldlM_cons] at h
    obtain ⟨next, hnext, hrest⟩ := bind_eq_ok_iff.mp h
    obtain ⟨hkind, hkinds⟩ := List.forall_mem_cons.mp hkinds
    obtain ⟨views, segments, references, rfl, hviews, hsegments⟩ := ih hrest hkinds
    unfold groupPhase at hnext
    rcases hkind with rfl | rfl | rfl
    · rw [if_pos rfl] at hnext
      unfold refuse at hnext
      split_ifs at hnext with hphase
      obtain rfl := Except.ok.inj hnext
      exact ⟨views + 1, segments, references, rfl, by omega, by omega⟩
    · rw [if_neg (by simp [KIND_SEGMENT, KIND_VIEW]), if_pos rfl] at hnext
      unfold refuse at hnext
      split_ifs at hnext with hphase
      obtain rfl := Except.ok.inj hnext
      obtain rfl := hviews (Nat.le_refl 1)
      exact ⟨0, segments + 1, references, rfl, fun _ => rfl, by omega⟩
    · rw [if_neg (by simp [KIND_REFERENCE, KIND_VIEW]),
        if_neg (by simp [KIND_REFERENCE, KIND_SEGMENT]), if_pos rfl] at hnext
      obtain rfl := Except.ok.inj hnext
      obtain rfl := hviews (by omega)
      obtain rfl := hsegments (Nat.le_refl 2)
      exact ⟨0, 0, references + 1, rfl, fun _ => rfl, fun _ => rfl⟩

theorem Collected.grouped {kinds : List String} {records : Records} (h : Collected kinds records)
    {last : Nat} (hphases : kinds.foldlM groupPhase 0 = .ok last) :
    kinds = grouped records.views.length records.segments.length records.references.length := by
  obtain ⟨views, segments, references, rfl, -, -⟩ := exists_grouped hphases h.recordKinds
  have hviews := h.views
  have hsegments := h.segments
  have hreferences := h.references
  simp [CleanedWire.grouped, List.count_replicate, KIND_VIEW, KIND_SEGMENT, KIND_REFERENCE]
    at hviews hsegments hreferences
  rw [hviews, hsegments, hreferences]

theorem answers_enforceRecordGroupOrder (kinds : List String) :
    Answers (fun _ => ∃ last, kinds.foldlM groupPhase 0 = .ok last)
      (enforceRecordGroupOrder kinds) := by
  unfold enforceRecordGroupOrder
  have hfold : Answers (fun _ => True) (kinds.foldlM groupPhase 0) :=
    @answers_foldlM _ _ groupPhase (fun _ _ => True) kinds
      (fun _ phase _ kind _ => answers_groupPhase phase kind) [] 0 trivial
  rcases hfold with ⟨error, h⟩ | ⟨last, -, h⟩
  · exact Or.inl ⟨error, by rw [h]; rfl⟩
  · rw [h]
    exact answers_ok ⟨last, rfl⟩

/-! ## The pins -/

theorem answers_readPins (manifest : JsonFields) :
    Answers (fun pins => (isHex64 pins.1.sha256 = true ∧ pins.1.bytes < 2 ^ 64) ∧
        (∀ hash ∈ pins.2.recordsSealHash, isHex64 hash = true) ∧
          ∀ hash ∈ pins.2.manifestHash, isHex64 hash = true) (readPins manifest) := by
  unfold readPins
  refine (answers_recordObject _ _).bind fun source _ => (answers_hexField _ _).bind fun _ hsha => ?_
  refine (answers_recordU64 _ _).bind fun _ hbytes => (answers_recordObject _ _).bind fun _ _ => ?_
  refine (answers_optHexField _ _).bind fun _ hrecords => ?_
  exact (answers_optHexField _ _).bind fun _ hmanifest =>
    answers_ok ⟨⟨hsha, hbytes.2⟩, hrecords, hmanifest⟩

theorem answers_parseCleanedCounts (fields : JsonFields) :
    Answers CleanedCounts.Fits (parseCleanedCounts fields) := by
  unfold parseCleanedCounts
  refine (answers_recordObject _ _).bind fun counts _ => ?_
  refine (answers_countsField _ _).bind fun _ h1 => (answers_countsField _ _).bind fun _ h2 => ?_
  refine (answers_countsField _ _).bind fun _ h3 => (answers_countsField _ _).bind fun _ h4 => ?_
  refine (answers_countsField _ _).bind fun _ h5 => (answers_countsField _ _).bind fun _ h6 => ?_
  refine (answers_countsField _ _).bind fun _ h7 => (answers_countsField _ _).bind fun _ h8 => ?_
  exact answers_ok ⟨h1, h2, h3, h4, h5, h6, h7, h8⟩

/-- A completion that is valid, counts of a word, and two hashes. -/
structure FooterPin.WellFormed (pin : FooterPin) : Prop where
  completion : validateCompletion pin.completion = .ok ()
  counts : pin.counts.Fits
  recordsSealHash : isHex64 pin.recordsSealHash = true
  manifestHash : isHex64 pin.manifestHash = true

theorem answers_readFooter {footer : JsonFields} (h : footer.Valued) :
    Answers FooterPin.WellFormed (readFooter footer) := by
  unfold readFooter
  refine (answers_parseCompletion h).bind ?_
  rintro ⟨marker, basis, reasons⟩ ⟨completion, hvalid, hcompletion⟩
  dsimp only at hcompletion ⊢
  rw [hcompletion, ok_bind]
  refine (answers_parseCleanedCounts _).bind fun counts hcounts => ?_
  refine (answers_hexField _ _).bind fun _ hrecords => (answers_hexField _ _).bind fun _ hroot => ?_
  exact answers_ok ⟨hvalid, hcounts, hrecords, hroot⟩

/-! ## The document -/

section

variable (sha256 : Sha256)

/-- What holds in a projection that was read. -/
structure CleanedProjection.WellFormed (read : CleanedProjection) : Prop where
  contractVersion : read.contractVersion = CONTRACT_VERSION
  source : isHex64 read.source.sha256 = true ∧ read.source.bytes < 2 ^ 64
  parent : (∀ hash ∈ read.parent.recordsSealHash, isHex64 hash = true) ∧
    ∀ hash ∈ read.parent.manifestHash, isHex64 hash = true
  pin : read.pin.WellFormed
  beside : List.Forall₂ Beside read.projection.segments read.inlineTexts

/-- The document holds the records of the projection in their groups, under its seals. -/
structure Frame.Holds (frame : Frame) (read : CleanedProjection) : Prop where
  grouped : frame.body.map (·.1) = grouped read.projection.views.length
    read.projection.segments.length read.projection.references.length
  recordsSeal :
    recordsSealHash sha256 frame.policiesLine frame.recordLines = read.recordsSealHash
  root : manifestHash sha256 frame.manifestLine read.recordsSealHash
    (footerBody read.completion read.counts) = read.manifestHash

theorem answers_checkSeals (lines : List (List Char)) (hlines : 2 < lines.length) (pin : FooterPin) :
    Answers (fun _ => True) (checkSeals sha256 lines pin) := by
  unfold checkSeals ranged
  refine (answers_indexed (by omega)).bind fun policies _ => ?_
  rw [if_pos ⟨by omega, by omega⟩, ok_bind]
  refine answers_ite (fun _ => answers_refuse _ _) fun _ => ?_
  refine (answers_indexed (by omega)).bind fun manifest _ => ?_
  exact answers_ite (fun _ => answers_refuse _ _) fun _ => answers_ok trivial

/-- What the steps of the reader have read of a document. -/
structure Frame.Reads (frame : Frame) (read : CleanedProjection) : Prop where
  order : enforceRecordGroupOrder (frame.body.map (·.1)) = .ok ()
  pins : readPins frame.manifest = .ok (read.source, read.parent)
  footer : readFooter frame.footer = .ok read.pin
  records : frame.body.foldlM readRecord ⟨[], [], [], []⟩ = .ok ⟨read.projection.views,
    read.projection.segments, read.projection.references, read.inlineTexts⟩
  seals : checkSeals sha256 frame.lines read.pin = .ok ()
  version : recordU64 frame.manifest "version" = .ok read.contractVersion
  contractVersion : read.contractVersion = CONTRACT_VERSION
  contentHash : read.projection.contentHash = none

theorem Frame.Frames.footerValued {frame : Frame} {text : List Char} (h : frame.Frames text) :
    frame.footer.Valued :=
  h.valued (KIND_FOOTER, frame.footer) (by simp [Frame.parsed, framed])

theorem Frame.Frames.bodyValued {frame : Frame} {text : List Char} (h : frame.Frames text) :
    ∀ line ∈ frame.body, line.2.Valued :=
  fun line hline => h.valued line (by simp [Frame.parsed, framed, hline])

theorem answers_readCleanedWire (text : List Char) :
    Answers (fun read => ∃ frame : Frame, frame.Frames text ∧ frame.Reads sha256 read)
      (readCleanedWire sha256 text) := by
  rcases answers_inspectCleanedWire text with ⟨error, h⟩ | ⟨summary, ⟨frame, hframe⟩, hsummary⟩
  · refine Or.inl ⟨error, ?_⟩
    unfold readCleanedWire
    rw [h]
    rfl
  rw [readCleanedWire_framed sha256 hsummary hframe.documentLines hframe.readLines]
  refine (answers_enforceRecordGroupOrder _).given.bind fun _ horder => ?_
  refine (answers_readPins _).given.bind ?_
  rintro ⟨source, parent⟩ hpins
  refine (answers_readFooter hframe.footerValued).given.bind fun pin hpin => ?_
  refine (answers_readRecords hframe.bodyValued).given.bind fun records hrecords => ?_
  refine (answers_checkSeals sha256 _ (by simp [Frame.lines]) pin).given.bind fun _ hseals => ?_
  have hversion : recordU64 frame.manifest "version" = .ok CONTRACT_VERSION := by
    rw [recordU64, hframe.version]
    rfl
  rw [hversion, ok_bind]
  exact answers_ok ⟨frame, hframe, horder, hpins, hpin, hrecords, hseals, hversion, rfl, rfl⟩

/-- The reader comes to an end on each text without a panic: it refuses the text, or the text is a
document that holds a well-formed projection. -/
theorem accepted (text : List Char) :
    Answers (fun read => read.WellFormed ∧
        ∃ frame : Frame, frame.Frames text ∧ frame.Holds sha256 read)
      (readCleanedWire sha256 text) := by
  refine (answers_readCleanedWire sha256 text).mono fun read hread => ?_
  obtain ⟨frame, hframe, hreads⟩ := hread
  obtain ⟨last, hphases⟩ := (answers_enforceRecordGroupOrder _).of_ok hreads.order
  obtain ⟨hsource, hparent⟩ := (answers_readPins _).of_ok hreads.pins
  have hpin := (answers_readFooter hframe.footerValued).of_ok hreads.footer
  have hrecords := (answers_readRecords hframe.bodyValued).of_ok hreads.records
  obtain ⟨hseal, hroot⟩ := (checkSeals_framed sha256 ..).mp hreads.seals
  exact ⟨⟨hreads.contractVersion, hsource, hparent, hpin, hrecords.beside⟩, frame, hframe,
    hrecords.grouped hphases, hseal, hroot⟩

end

end LawNexus.CleanedWire
