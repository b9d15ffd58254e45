import LawNexus.CleanedWire.Document
import LawNexus.CleanedWire.Frame

/-!
# A cleaned projection reads back

What the writer renders the reader takes, and it gives back what went in: the views, the references,
the completion and the pins as they were, and each segment with its text beside it.
-/

namespace LawNexus.CleanedWire

open Chars JsonText Loops Reader
open SourcePackage (Package TextRecord hexLower isHex64)

/-! ## Rendered lines -/

theorem mem_separated {parts : List (List Char)} {c : Char} (h : c ∈ separated parts) :
    c = ',' ∨ ∃ part ∈ parts, c ∈ part := by
  induction parts with
  | nil => simp [separated] at h
  | cons part parts ih =>
    by_cases hparts : parts = []
    · subst hparts
      rw [separated_singleton] at h
      exact Or.inr ⟨part, List.mem_cons_self, h⟩
    · rw [separated_cons hparts, List.mem_append, List.mem_cons] at h
      rcases h with h | h | h
      · exact Or.inr ⟨part, List.mem_cons_self, h⟩
      · exact Or.inl h
      · rcases ih h with h | ⟨other, hother, h⟩
        · exact Or.inl h
        · exact Or.inr ⟨other, List.mem_cons_of_mem _ hother, h⟩

def Printable (text : List Char) : Prop := ∀ c ∈ text, 32 ≤ c.toNat

theorem printable_hex {c : Char} (h : isHex c = true) : 32 ≤ c.toNat := by
  simp only [isHex, Bool.or_eq_true, Bool.and_eq_true, decide_eq_true_eq] at h
  rcases h with (h | h) | h <;>
    exact Nat.le_trans (by decide) (UInt32.le_iff_toNat_le.mp h.1)

theorem printable_body {body : List Char} (h : IsStringBody body) : Printable body := by
  induction h with
  | nil => exact List.forall_mem_nil _
  | plain hc _ _ _ ih => exact List.forall_mem_cons.mpr ⟨hc, ih⟩
  | short hc _ ih =>
    refine List.forall_mem_cons.mpr ⟨by decide, List.forall_mem_cons.mpr ⟨?_, ih⟩⟩
    simp only [shortEscapes, List.mem_cons, List.not_mem_nil, or_false] at hc
    rcases hc with rfl | rfl | rfl | rfl | rfl | rfl | rfl | rfl <;> decide
  | unicode _ hdigits _ ih =>
    refine List.forall_mem_cons.mpr ⟨by decide, List.forall_mem_cons.mpr ⟨by decide, ?_⟩⟩
    exact List.forall_mem_append.mpr ⟨fun c hc => printable_hex (hdigits c hc), ih⟩

theorem printable_write (text : List Char) : Printable (writeJsonString text) := by
  unfold writeJsonString
  refine List.forall_mem_cons.mpr ⟨by decide, List.forall_mem_append.mpr ⟨?_, ?_⟩⟩
  · exact printable_body (isStringBody_escaped text)
  · exact List.forall_mem_singleton.mpr (by decide)

theorem printable_separated {parts : List (List Char)} (h : ∀ part ∈ parts, Printable part) :
    Printable (separated parts) := by
  intro c hc
  rcases mem_separated hc with rfl | ⟨part, hpart, hc⟩
  · decide
  · exact h part hpart c hc

/-- There is no control character in what is rendered. -/
theorem printable_render {room : Nat} {value : Json} (h : value.Fits room) :
    Printable (renderCompact value) := by
  induction h with
  | null => simp [Printable, renderCompact]
  | bool flag => cases flag <;> simp [Printable, renderCompact]
  | number n =>
    intro c hc
    have hdigit := (digits_toDigits n).2 c hc
    simp only [Char.isDigit, Bool.and_eq_true, decide_eq_true_eq] at hdigit
    exact Nat.le_trans (by decide) (UInt32.le_iff_toNat_le.mp hdigit.1)
  | str text => exact printable_write text
  | @arr room items _ ih =>
    rw [renderCompact, renderItems_eq]
    refine List.forall_mem_cons.mpr ⟨by decide, List.forall_mem_append.mpr ⟨?_, ?_⟩⟩
    · apply printable_separated
      intro part hpart
      obtain ⟨item, hitem, rfl⟩ := List.mem_map.mp hpart
      exact ih item hitem
    · exact List.forall_mem_singleton.mpr (by decide)
  | @obj room entries _ _ ih =>
    rw [renderCompact]
    refine List.forall_mem_cons.mpr ⟨by decide, List.forall_mem_append.mpr ⟨?_, ?_⟩⟩
    · apply printable_separated
      intro part hpart
      obtain ⟨entry, hentry, rfl⟩ := List.mem_map.mp hpart
      obtain ⟨e, he, rfl⟩ := mem_rendered.mp hentry
      exact List.forall_mem_append.mpr ⟨printable_write _,
        List.forall_mem_cons.mpr ⟨by decide, ih e he⟩⟩
    · exact List.forall_mem_singleton.mpr (by decide)

/-- The line is a rendered object of a closed kind, and this is what the reader has of it. -/
def Renders (line : List Char) (parsed : WireLine) : Prop :=
  ∃ entries, Readable entries ∧ line = renderCompact (.obj entries) ∧
    parsed.2 = fieldsOf entries ∧ parsed.2.Holds "kind" (.string parsed.1) ∧
    isClosedKind parsed.1 = true

section

variable {line : List Char} {parsed : WireLine}

theorem Renders.readLine (h : Renders line parsed) : readLine line = .ok parsed := by
  obtain ⟨entries, hentries, rfl, hfields, hkind, -⟩ := h
  obtain ⟨kind, fields⟩ := parsed
  unfold CleanedWire.readLine
  rw [parseFields_render hentries, ok_bind, ← hfields, lineKind_string hkind, ok_bind]

theorem Renders.inspectLine (h : Renders line parsed) : inspectLine line = .ok parsed := by
  obtain ⟨kind, fields⟩ := parsed
  unfold CleanedWire.inspectLine
  rw [h.readLine, ok_bind]
  obtain ⟨entries, -, -, -, -, hclosed⟩ := h
  dsimp only at hclosed ⊢
  rw [hclosed]
  rfl

theorem Renders.printable (h : Renders line parsed) : Printable line := by
  obtain ⟨entries, hentries, rfl, -⟩ := h
  exact printable_render (hentries.fits_obj hentries.fits)

theorem Renders.ne_nil (h : Renders line parsed) : line ≠ [] := by
  obtain ⟨entries, -, rfl, -⟩ := h
  rw [renderCompact_obj]
  exact List.cons_ne_nil _ _

end

section

variable {lines : List (List Char)} {parsed : List WireLine}

theorem mapM_readLine (h : List.Forall₂ Renders lines parsed) :
    lines.mapM readLine = .ok parsed :=
  mapM_eq_ok_iff.mpr (h.imp fun _ _ h => h.readLine)

theorem mapM_inspectLine (h : List.Forall₂ Renders lines parsed) :
    lines.mapM inspectLine = .ok parsed :=
  mapM_eq_ok_iff.mpr (h.imp fun _ _ h => h.inspectLine)

theorem areLines_of_renders (hne : lines ≠ []) (h : List.Forall₂ Renders lines parsed) :
    AreLines lines := by
  have hall : ∀ line ∈ lines, ∃ p, Renders line p := by
    intro line hline
    obtain ⟨p, -, hp⟩ := (forall₂_partner h).1 line hline
    exact ⟨p, hp⟩
  refine ⟨hne, ?_, ?_, ?_⟩
  · intro line hline
    obtain ⟨p, hp⟩ := hall line hline
    exact hp.ne_nil
  · intro line hline hmem
    obtain ⟨p, hp⟩ := hall line hline
    exact absurd (hp.printable _ hmem) (by decide)
  · intro line hline hmem
    obtain ⟨p, hp⟩ := hall line hline
    exact absurd (hp.printable _ hmem) (by decide)

end

/-! ## The lines of a projection -/

def viewLine (view : ProjectedView) : WireLine := (KIND_VIEW, fieldsOf (viewJson view).entries)

def segmentLine (segment : ProjectedSegment) (text : List Char) : WireLine :=
  (KIND_SEGMENT, fieldsOf (segmentEntries segment text))

def referenceLine (reference : ProjectedReference) : WireLine :=
  (KIND_REFERENCE, fieldsOf (referenceJson reference).entries)

theorem renders_of_readable {entries : List (String × Json)} {kind : String}
    (h : Readable entries) (hkind : ("kind", .string kind) ∈ entries)
    (hclosed : isClosedKind kind = true) :
    Renders (renderCompact (.obj entries)) (kind, fieldsOf entries) :=
  ⟨entries, h, rfl, rfl, holds_fieldsOf h _ hkind, hclosed⟩

theorem renders_view (view : ProjectedView) :
    Renders (renderCompact (viewJson view)) (viewLine view) :=
  renders_of_readable (readable_view view) (by simp) rfl

theorem renders_segment {segment : ProjectedSegment} (h : Provenanced segment)
    (text : List Char) :
    Renders (renderCompact (segmentJson segment text)) (segmentLine segment text) := by
  rw [segmentJson_eq h]
  exact renders_of_readable (readable_segment segment text) (by simp [segmentEntries]) rfl

theorem renders_reference (reference : ProjectedReference) :
    Renders (renderCompact (referenceJson reference)) (referenceLine reference) :=
  renders_of_readable (readable_reference reference) (by simp) rfl

def manifestLine (package : Package) (limits : WireLimits) : WireLine :=
  (KIND_MANIFEST, fieldsOf (manifestJson package limits).entries)

theorem renders_manifest (package : Package) (limits : WireLimits) :
    Renders (renderCompact (manifestJson package limits)) (manifestLine package limits) :=
  renders_of_readable (readable_manifest package limits) (by simp) rfl

def policiesLine : WireLine := (KIND_POLICIES, fieldsOf policiesJson.entries)

theorem renders_policies : Renders (renderCompact policiesJson) policiesLine :=
  renders_of_readable readable_policies (by simp) rfl

theorem renders_footer (completion : WireCompletion) (counts : CleanedCounts)
    (recordsSeal manifestSeal : Option String) :
    Renders (renderCompact (footerJson completion counts recordsSeal manifestSeal))
      (KIND_FOOTER, fieldsOf (footerJson completion counts recordsSeal manifestSeal).entries) :=
  renders_of_readable (readable_footer completion counts recordsSeal manifestSeal) (by simp) rfl

/-- The records of a projection, as the reader has them. -/
def parsedRecords (projection : ReaderProjection) (texts : List (List Char)) : List WireLine :=
  projection.views.map viewLine ++
    (projection.segments.zip texts).map (fun entry => segmentLine entry.1 entry.2) ++
    projection.references.map referenceLine

section

variable {projection : ReaderProjection} {texts : List (List Char)}

theorem forall₂_map_map {α β γ : Type} {R : β → γ → Prop} {f : α → β} {g : α → γ} {l : List α}
    (h : ∀ a ∈ l, R (f a) (g a)) : List.Forall₂ R (l.map f) (l.map g) := by
  rw [List.forall₂_map_left_iff, List.forall₂_map_right_iff, List.forall₂_same]
  exact h

theorem renders_records (h : ∀ segment ∈ projection.segments, Provenanced segment) :
    List.Forall₂ Renders (recordLines projection texts) (parsedRecords projection texts) := by
  unfold recordLines parsedRecords
  refine List.rel_append (List.rel_append ?_ ?_) ?_
  · exact forall₂_map_map fun view _ => renders_view view
  · apply forall₂_map_map
    intro entry hentry
    exact renders_segment (h _ (List.of_mem_zip hentry).1) _
  · exact forall₂_map_map fun reference _ => renders_reference reference

/-- Each record line has one of the three kinds. -/
theorem kind_parsedRecords {line : WireLine} (h : line ∈ parsedRecords projection texts) :
    line.1 = KIND_VIEW ∨ line.1 = KIND_SEGMENT ∨ line.1 = KIND_REFERENCE := by
  unfold parsedRecords at h
  rw [List.mem_append, List.mem_append] at h
  rcases h with (h | h) | h
  · obtain ⟨view, -, rfl⟩ := List.mem_map.mp h
    exact Or.inl rfl
  · obtain ⟨entry, -, rfl⟩ := List.mem_map.mp h
    exact Or.inr (Or.inl rfl)
  · obtain ⟨reference, -, rfl⟩ := List.mem_map.mp h
    exact Or.inr (Or.inr rfl)

theorem isBodyKind_parsedRecords {kind : String}
    (h : kind ∈ (parsedRecords projection texts).map (·.1)) : IsBodyKind kind := by
  obtain ⟨line, hline, rfl⟩ := List.mem_map.mp h
  rcases kind_parsedRecords hline with hkind | hkind | hkind <;> rw [hkind] <;>
    simp [IsBodyKind, KIND_VIEW, KIND_SEGMENT, KIND_REFERENCE, KIND_MANIFEST, KIND_POLICIES,
      KIND_FOOTER]

theorem inspectRecord_records :
    (parsedRecords projection texts).forM inspectRecord = .ok () := by
  rw [forM_ok_iff]
  intro line hline
  unfold parsedRecords at hline
  rw [List.mem_append, List.mem_append] at hline
  rcases hline with (hline | hline) | hline
  · obtain ⟨view, -, rfl⟩ := List.mem_map.mp hline
    refine expectSchema_string (holds_fieldsOf (readable_view view) ("schema", _) ?_)
    simp [viewJson, Json.entries, Json.string]
  · obtain ⟨entry, -, rfl⟩ := List.mem_map.mp hline
    refine expectSchema_string (holds_fieldsOf (readable_segment _ _) ("schema", _) ?_)
    simp [segmentEntries, Json.string]
  · obtain ⟨reference, -, rfl⟩ := List.mem_map.mp hline
    refine expectSchema_string (holds_fieldsOf (readable_reference reference) ("schema", _) ?_)
    simp [referenceJson, Json.entries, Json.string]

end

/-! ## The loops over the records -/

/-- Records of one kind, which end in one phase from any that they may start in. -/
theorem foldlM_groupPhase {kind : String} {phase bound : Nat}
    (h : ∀ n ≤ bound, groupPhase n kind = .ok phase) (hphase : phase ≤ bound) (count : Nat) {n : Nat}
    (hn : n ≤ bound) :
    ∃ m ≤ bound, (List.replicate count kind).foldlM groupPhase n = .ok m := by
  induction count generalizing n with
  | zero => exact ⟨n, hn, rfl⟩
  | succ count ih =>
    rw [List.replicate_succ, List.foldlM_cons, h n hn, ok_bind]
    exact ih hphase

theorem enforceRecordGroupOrder_records (projection : ReaderProjection)
    (texts : List (List Char)) :
    enforceRecordGroupOrder ((parsedRecords projection texts).map (·.1)) = .ok () := by
  have hview : ∀ n ≤ 0, groupPhase n KIND_VIEW = .ok 0 := by
    intro n hn
    obtain rfl := Nat.le_zero.mp hn
    rfl
  have hsegment : ∀ n ≤ 1, groupPhase n KIND_SEGMENT = .ok 1 := by
    intro n hn
    unfold groupPhase
    rw [if_neg (by simp [KIND_SEGMENT, KIND_VIEW]), if_pos rfl, if_neg (Nat.not_lt.mpr hn)]
  have hreference : ∀ n ≤ 2, groupPhase n KIND_REFERENCE = .ok 2 := by
    intro n _
    unfold groupPhase
    rw [if_neg (by simp [KIND_REFERENCE, KIND_VIEW]),
      if_neg (by simp [KIND_REFERENCE, KIND_SEGMENT]), if_pos rfl]
  have hkinds : (parsedRecords projection texts).map (·.1) =
      List.replicate projection.views.length KIND_VIEW ++
        List.replicate (projection.segments.zip texts).length KIND_SEGMENT ++
        List.replicate projection.references.length KIND_REFERENCE := by
    simp only [parsedRecords, List.map_append, List.map_map, Function.comp_def, viewLine,
      segmentLine, referenceLine, List.map_const']
  obtain ⟨first, hfirst, hviews⟩ :=
    foldlM_groupPhase hview (Nat.le_refl 0) projection.views.length (Nat.le_refl 0)
  obtain ⟨second, hsecond, hsegments⟩ := foldlM_groupPhase hsegment (Nat.le_refl 1)
    (projection.segments.zip texts).length (Nat.le_trans hfirst (Nat.zero_le 1))
  obtain ⟨third, -, hreferences⟩ := foldlM_groupPhase hreference (Nat.le_refl 2)
    projection.references.length (Nat.le_trans hsecond (by decide))
  unfold enforceRecordGroupOrder
  rw [hkinds, List.foldlM_append, List.foldlM_append, hviews, ok_bind, hsegments, ok_bind,
    hreferences]
  rfl

section

variable {records : Records}

theorem foldlM_readRecord_views (views : List ProjectedView) :
    (views.map viewLine).foldlM readRecord records =
      .ok { records with views := records.views ++ views } := by
  induction views generalizing records with
  | nil => simp [pure, Except.pure]
  | cons view views ih =>
    have hstep : readRecord records (viewLine view) =
        .ok { records with views := records.views ++ [view] } := by
      unfold readRecord viewLine
      rw [if_pos rfl, reconstructView_view]
      rfl
    rw [List.map_cons, List.foldlM_cons, hstep, ok_bind, ih]
    simp

theorem foldlM_readRecord_segments {entries : List (ProjectedSegment × List Char)}
    (hfits : ∀ entry ∈ entries, SegmentFits entry.1)
    (hbytes : ∀ entry ∈ entries, Utf8.byteLen entry.2 < 2 ^ 64) :
    (entries.map fun entry => segmentLine entry.1 entry.2).foldlM readRecord records =
      .ok { records with
        segments := records.segments ++ entries.map fun entry => readSegment entry.1 entry.2
        inlineTexts := records.inlineTexts ++
          entries.map fun entry => inlineText entry.1 entry.2 } := by
  induction entries generalizing records with
  | nil => simp [pure, Except.pure]
  | cons entry entries ih =>
    rw [List.forall_mem_cons] at hfits hbytes
    have hstep : readRecord records (segmentLine entry.1 entry.2) =
        .ok { records with
          segments := records.segments ++ [readSegment entry.1 entry.2]
          inlineTexts := records.inlineTexts ++ [inlineText entry.1 entry.2] } := by
      unfold readRecord segmentLine
      rw [if_neg (by simp [KIND_SEGMENT, KIND_VIEW]), if_pos rfl,
        reconstructSegment_segment hfits.1 hbytes.1]
      rfl
    rw [List.map_cons, List.foldlM_cons, hstep, ok_bind, ih hfits.2 hbytes.2]
    simp

theorem foldlM_readRecord_references {references : List ProjectedReference}
    (h : ∀ reference ∈ references, reference.ordinal < 2 ^ 64 ∧ reference.sourcePos < 2 ^ 64) :
    (references.map referenceLine).foldlM readRecord records =
      .ok { records with references := records.references ++ references } := by
  induction references generalizing records with
  | nil => simp [pure, Except.pure]
  | cons reference references ih =>
    rw [List.forall_mem_cons] at h
    have hstep : readRecord records (referenceLine reference) =
        .ok { records with references := records.references ++ [reference] } := by
      unfold readRecord referenceLine
      rw [if_neg (by simp [KIND_REFERENCE, KIND_VIEW]),
        if_neg (by simp [KIND_REFERENCE, KIND_SEGMENT]), if_pos rfl,
        reconstructReference_reference h.1.1 h.1.2]
      rfl
    rw [List.map_cons, List.foldlM_cons, hstep, ok_bind, ih h.2]
    simp

end

end LawNexus.CleanedWire
