import LawNexus.Ontology.RegistryKeys
import LawNexus.Ontology.RegistryRows

/-!
# The round trip of the registry

A source is read and admitted, the admitted rows are rendered, and the runtime reader reads
the rendering. The result is for which sources it reads what was admitted.
-/

namespace LawNexus

open Chars Loops

/-! ## What was read -/

theorem Clean.mono {value whole : List Char} (h : value ⊆ whole) (hwhole : Clean whole) :
    Clean value :=
  ⟨fun hc => hwhole.1 (h hc), fun hc => hwhole.2.1 (h hc), fun hc => hwhole.2.2.1 (h hc),
    fun hc => hwhole.2.2.2 (h hc)⟩

/-- The fields that were read so far. -/
structure RowFields.IsClean (fields : RowFields) : Prop where
  needle : ∀ text ∈ fields.pathNeedle, Clean text.toList
  level : ∀ text ∈ fields.level, Clean text.toList
  number : ∀ text ∈ fields.number, Clean text.toList
  keyPath : ∀ text ∈ fields.keyPath, Clean text.toList
  cc : ∀ text ∈ fields.cc, Clean text.toList

section

variable {fields next : RowFields} {part line tail : List Char} {row : AdmissionBinding}

theorem splitField_subset {segment key value : List Char}
    (h : splitField segment = some (key, value)) : value ⊆ segment := by
  unfold splitField at h
  cases hcut : cutAt ':' segment with
  | none => simp [hcut] at h
  | some cut =>
    obtain ⟨before, after⟩ := cut
    simp only [hcut] at h
    split_ifs at h
    obtain ⟨-, rfl⟩ := Prod.mk.inj (Option.some.inj h)
    intro c hc
    rw [(cutAt_eq_some.mp hcut).1]
    exact List.mem_append_right _ (List.mem_cons_of_mem _ (trim_subset _ hc))

theorem unquote_subset (value : List Char) : unquote value ⊆ value := by
  intro c hc
  unfold unquote at hc
  dsimp only at hc
  split_ifs at hc
  · exact trim_subset _ (List.mem_of_mem_tail (List.dropLast_subset _ hc))
  · exact trim_subset _ hc

theorem readRowField_isClean (h : readRowField fields part = .ok next) (hpart : Clean part)
    (hfields : fields.IsClean) : next.IsClean := by
  unfold readRowField at h
  dsimp only at h
  split_ifs at h
  · exact Except.ok.inj h ▸ hfields
  cases hsplit : splitField (trim part) with
  | none => simp [hsplit] at h
  | some cut =>
    obtain ⟨key, value⟩ := cut
    have hvalue : Clean (unquote value) := hpart.mono fun c hc =>
      trim_subset _ (splitField_subset hsplit (unquote_subset _ hc))
    have htext : ∀ text ∈ some (String.ofList (unquote value)), Clean text.toList := by
      rintro text ⟨⟩
      rwa [String.toList_ofList]
    simp only [hsplit] at h
    split_ifs at h
    · exact Except.ok.inj h ▸ { hfields with needle := htext }
    · exact Except.ok.inj h ▸ { hfields with level := htext }
    · exact Except.ok.inj h ▸ { hfields with number := htext }
    · exact Except.ok.inj h ▸ { hfields with keyPath := htext }
    · exact Except.ok.inj h ▸ { hfields with cc := htext }
    · cases hprovenance : AdmissionProvenance.parse (.ofList value) with
      | none => simp [hprovenance] at h
      | some provenance =>
        simp only [hprovenance] at h
        exact Except.ok.inj h ▸ { hfields with }

theorem orMissing_ok {α : Type} {field : String} {o : Option α} {a : α} :
    orMissing field o = .ok a ↔ o = some a := by
  cases o <;> simp [orMissing]

theorem toBinding_isClean (h : fields.toBinding = .ok row) (hfields : fields.IsClean) :
    row.IsClean := by
  unfold RowFields.toBinding at h
  simp only [bind_eq_ok_iff, orMissing_ok] at h
  obtain ⟨needle, hneedle, level, hlevel, number, hnumber, cc, hcc, provenance, -, h⟩ := h
  obtain rfl := Except.ok.inj h
  exact ⟨hfields.needle _ hneedle, hfields.level _ hlevel, hfields.number _ hnumber,
    hfields.keyPath, hfields.cc _ hcc⟩

/-- A row is clean as its line has no comment, its body no brace, and its parts no comma. -/
theorem parseAdmissionRow_isClean (h : parseAdmissionRow line = .ok (row, tail))
    (hhash : '#' ∉ line) (hnewline : '\n' ∉ line) : row.IsClean ∧ tail ⊆ line := by
  unfold parseAdmissionRow at h
  cases hopen : cutAt '{' line with
  | none => simp [hopen] at h
  | some cut =>
    obtain ⟨before, inner⟩ := cut
    cases hclose : cutAt '}' inner with
    | none => simp [hopen, hclose] at h
    | some cut =>
      obtain ⟨body, rest⟩ := cut
      simp only [hopen, hclose] at h
      obtain ⟨fields, hread, h⟩ := bind_eq_ok_iff.mp h
      obtain ⟨row', hrow, h⟩ := bind_eq_ok_iff.mp h
      obtain ⟨rfl, rfl⟩ := Prod.mk.inj (Except.ok.inj h)
      have hline : inner ⊆ line := by
        rw [(cutAt_eq_some.mp hopen).1]
        exact fun c hc => List.mem_append_right _ (List.mem_cons_of_mem _ hc)
      obtain ⟨hinner, hbrace⟩ := cutAt_eq_some.mp hclose
      have hbody : body ⊆ line := fun c hc => hline (hinner ▸ List.mem_append_left _ hc)
      refine ⟨toBinding_isClean hrow ?_, fun c hc => hline (hinner ▸ ?_)⟩
      · refine foldlM_fronts (fun parts fields => (∀ part ∈ parts, Clean part) → fields.IsClean)
          (fun _ => ?_) (fun {parts part fields next} ih hnext hparts => ?_) hread fun part hpart => ?_
        · constructor <;> exact nofun
        · exact readRowField_isClean hnext (hparts part (by simp))
            (ih fun p hp => hparts p (List.mem_append_left _ hp))
        · have hmem := of_mem_splitOn hpart
          exact ⟨fun hc => (hmem _ hc).2 rfl, fun hc => hbrace (hmem _ hc).1,
            fun hc => hhash (hbody (hmem _ hc).1), fun hc => hnewline (hbody (hmem _ hc).1)⟩
      · exact List.mem_append_right _ (List.mem_cons_of_mem _ (trim_subset _ hc))

end

/-! ## The source -/

theorem readSourceField_bindings {s next : SourceState} {rest : List Char}
    (h : readSourceField s rest = .ok next) : next.bindings = s.bindings := by
  unfold readSourceField at h
  cases hsplit : splitField rest with
  | none => simp [hsplit] at h
  | some cut =>
    obtain ⟨key, value⟩ := cut
    simp only [hsplit] at h
    split_ifs at h
    all_goals first
      | exact (Except.ok.inj h).symm ▸ rfl
      | cases hauthoritative : parseAuthoritative value with
        | error e => simp [hauthoritative] at h
        | ok authoritative =>
          simp only [hauthoritative] at h
          exact (Except.ok.inj h).symm ▸ rfl

theorem readSegments_isClean {s next : SourceState} {rest : List Char}
    (h : readSegments s rest = .ok next) (hhash : '#' ∉ rest) (hnewline : '\n' ∉ rest)
    (hs : ∀ row ∈ s.bindings, row.IsClean) : ∀ row ∈ next.bindings, row.IsClean := by
  fun_induction readSegments s rest with
  | case1 s rest hempty => exact Except.ok.inj h ▸ hs
  | case2 s rest hempty hstarts e hrow => simp at h
  | case3 s rest hempty hstarts row tail hrow ih =>
    obtain ⟨hclean, htail⟩ := parseAdmissionRow_isClean hrow hhash hnewline
    refine ih h (fun hc => hhash (htail hc)) (fun hc => hnewline (htail hc)) fun row' hrow' => ?_
    rcases List.mem_append.mp hrow' with hrow' | hrow'
    · exact hs row' hrow'
    · exact List.mem_singleton.mp hrow' ▸ hclean
  | case4 s rest hempty hstarts => exact readSourceField_bindings h ▸ hs

theorem toSource_bindings {s : SourceState} {source : AdmissionSource}
    (h : s.toSource = .ok source) : source.bindings = s.bindings := by
  unfold SourceState.toSource at h
  simp only [bind_eq_ok_iff] at h
  obtain ⟨_, -, _, -, _, -, _, -, _, -, _, -, _, -, h⟩ := h
  split_ifs at h
  exact (Except.ok.inj h).symm ▸ rfl

/-- The rows of a source that was read are clean. -/
theorem parseAdmissionSource_isClean {text : List Char} {source : AdmissionSource}
    (h : parseAdmissionSource text = .ok source) : ∀ row ∈ source.bindings, row.IsClean := by
  obtain ⟨s, hs, h⟩ := bind_eq_ok_iff.mp h
  rw [toSource_bindings h]
  refine foldlM_fronts
    (fun raws (s : SourceState) => (∀ raw ∈ raws, '\n' ∉ raw) → ∀ row ∈ s.bindings, row.IsClean)
    (fun _ _ hrow => absurd hrow (by simp [SourceState.start])) (fun {raws raw s next} ih hnext hraws => ?_) hs fun raw hraw =>
      newline_not_mem_line hraw
  refine readSegments_isClean hnext (fun hc => ?_) (fun hc => ?_)
    (ih fun r hr => hraws r (List.mem_append_left _ hr))
  · exact hash_not_mem_stripComment raw (trim_subset _ hc)
  · exact hraws raw (by simp) (stripComment_subset raw (trim_subset _ hc))

/-- The component of an admitted row is not empty. -/
theorem component_ne_empty {evidence : CandidateEvidence} {source : AdmissionSource}
    (h : earlierGates evidence source = .ok ()) : ∀ row ∈ source.bindings, row.cc ≠ "" := by
  unfold earlierGates at h
  simp only [bind_eq_ok_iff] at h
  obtain ⟨_, -, _, -, _, -, index, -, _, hcomponent, -⟩ := h
  intro row hrow hempty
  have hpass := forM_ok_iff.mp hcomponent row hrow
  have hbad : isWellFormedComponentConcept "" = false := by decide
  simp [hempty, hbad] at hpass

/-! ## The lines of the rendering -/

section

variable {row : AdmissionBinding} {raws : List (List Char)}
  {bindings : List HierarchyRegistryBinding}

theorem not_mem_renderRow {c : Char} (hneedle : c ∉ "- \x7bpath_needle: ".toList)
    (hlevel : c ∉ ", level: ".toList) (hnumber : c ∉ ", number: \"".toList)
    (hcc : c ∉ "\", cc: ".toList) (hpath : c ∉ ", path: ".toList) (hclose : c ∉ "\x7d".toList)
    (h : ∀ value, Clean value → c ∉ value) (hrow : row.IsClean) : c ∉ renderRow row := by
  have hladder : c ∉ (row.path.map fun path => ", path: ".toList ++ path.toList).getD [] := by
    cases hrowPath : row.path with
    | none => exact List.not_mem_nil
    | some path =>
      have hclean := hrow.keyPath path (Option.filter_eq_some_iff.mp hrowPath).1
      exact List.not_mem_append hpath (h _ hclean)
  unfold renderRow
  have h1 := List.not_mem_append hneedle (h _ hrow.needle)
  have h2 := List.not_mem_append (List.not_mem_append h1 hlevel) (h _ hrow.level)
  have h3 := List.not_mem_append (List.not_mem_append h2 hnumber) (h _ hrow.number)
  have h4 := List.not_mem_append (List.not_mem_append h3 hcc) (h _ hrow.cc)
  exact List.not_mem_append (List.not_mem_append h4 hladder) hclose

theorem getLast?_renderRow (row : AdmissionBinding) : (renderRow row).getLast? = some '\x7d' := by
  unfold renderRow
  rw [closing, List.getLast?_concat]

theorem renderRow_isLine (hrow : row.IsClean) : IsLine (renderRow row) := by
  refine ⟨?_, by rw [getLast?_renderRow]; decide⟩
  exact not_mem_renderRow (by decide) (by decide) (by decide) (by decide) (by decide) (by decide)
    (fun _ hvalue => hvalue.2.2.2) hrow

/-- A line of the list of bindings. -/
def IsRow (raw : List Char) : Prop := trim (stripComment raw) = raw ∧ raw.head? = some '-'

theorem renderRow_isRow (hrow : row.IsClean) : IsRow (renderRow row) := by
  have hhash : '#' ∉ renderRow row :=
    not_mem_renderRow (by decide) (by decide) (by decide) (by decide) (by decide) (by decide)
      (fun _ hvalue => hvalue.2.2.1) hrow
  have hhead : (renderRow row).head? = some '-' := by
    rw [renderRow_needle]
    rfl
  have htrim : trim (renderRow row) = renderRow row := by
    refine trim_eq_self (fun c hc => ?_) (fun c hc => ?_)
    · rw [hhead, Option.mem_some_iff] at hc
      exact hc ▸ by decide
    · rw [getLast?_renderRow, Option.mem_some_iff] at hc
      exact hc ▸ by decide
  exact ⟨trim_stripComment hhash htrim, hhead⟩

/-- In front of the list nothing is read. -/
theorem readBindings_before {rest : List (List Char)}
    (h : ∀ raw ∈ raws, trim (stripComment raw) ≠ "bindings:".toList) :
    readBindings false 0 bindings (raws ++ rest) = readBindings false 0 bindings rest := by
  induction raws with
  | nil => rfl
  | cons raw raws ih =>
    obtain ⟨hraw, hraws⟩ := List.forall_mem_cons.mp h
    rw [List.cons_append, readBindings]
    by_cases hempty : (trim (stripComment raw)).isEmpty
    · rw [if_pos hempty, ih hraws]
    · rw [if_neg hempty, if_neg hraw, if_neg (by simp), if_pos (by simp), ih hraws]

/-- In the list each row is read. -/
theorem readBindings_rows (h : ∀ raw ∈ raws, IsRow raw) :
    readBindings true 0 bindings raws = (raws.mapM readBinding).map (bindings ++ ·) := by
  induction raws generalizing bindings with
  | nil =>
    rw [readBindings, List.mapM_nil]
    exact (congrArg Except.ok (List.append_nil bindings)).symm
  | cons raw raws ih =>
    obtain ⟨⟨htrim, hhead⟩, hraws⟩ := List.forall_mem_cons.mp h
    have hne : ¬ raw.isEmpty := by
      intro hempty
      simp [List.isEmpty_iff.mp hempty] at hhead
    have hheading : raw ≠ "bindings:".toList := by
      rintro rfl
      exact absurd hhead (by decide)
    rw [readBindings, List.mapM_cons, htrim, if_neg hne, if_neg hheading, if_neg (by simp [hhead]), if_neg (by simp [hhead])]
    cases readBinding raw with
    | error e => rfl
    | ok binding =>
      dsimp only
      rw [ih hraws, ok_bind]
      cases raws.mapM readBinding with
      | error e => rfl
      | ok read => simp [Except.map, pure, Except.pure]

end

/-- A line in front of the list. -/
def IsHeader (line : List Char) : Prop :=
  IsLine line ∧ trim (stripComment line) ≠ "bindings:".toList
deriving Decidable

/-- A literal is its list of characters, so that a line of the header is decided on the list. -/
theorem isHeader_ofList {line : List Char} (h : IsHeader line) :
    IsHeader (String.ofList line).toList := by
  rwa [String.toList_ofList]

theorem header_isHeader : ∀ line ∈ registryHeader, IsHeader line.toList := by
  unfold registryHeader
  repeat refine List.forall_mem_cons.mpr ⟨isHeader_ofList (by decide), ?_⟩
  exact nofun

theorem registryLines_isLine {admitted : AdmittedRegistry}
    (h : ∀ row ∈ admitted.bindings, row.IsClean) : ∀ line ∈ registryLines admitted, IsLine line := by
  intro line hline
  unfold registryLines at hline
  rw [List.mem_append, List.mem_cons, List.mem_map, List.mem_map] at hline
  rcases hline with ⟨header, hheader, rfl⟩ | rfl | ⟨row, hrow, rfl⟩
  · exact (header_isHeader header hheader).1
  · decide
  · exact renderRow_isLine (h row (mem_sortBy.mp hrow))

theorem rows_isRow {admitted : AdmittedRegistry} (h : ∀ row ∈ admitted.bindings, row.IsClean) :
    ∀ raw ∈ (sortedRows admitted.bindings).map renderRow, IsRow raw :=
  List.forall_mem_map.mpr fun row hrow => renderRow_isRow (h row (mem_sortBy.mp hrow))

/-- A rendering is read line by line. -/
theorem parseHierarchyRegistry_renderRegistry {admitted : AdmittedRegistry}
    (h : ∀ row ∈ admitted.bindings, row.IsClean) :
    parseHierarchyRegistry (renderRegistry admitted) =
      (sortedRows admitted.bindings).mapM fun row => readBinding (renderRow row) := by
  unfold parseHierarchyRegistry renderRegistry
  rw [lines_written (registryLines_isLine h), registryLines, readBindings_before, readBindings]
  · have hheading : trim (stripComment "bindings:".toList) = "bindings:".toList := by decide
    have hindent : Utf8.byteLen "bindings:".toList -
        Utf8.byteLen (trimStart "bindings:".toList) = 0 := by decide
    rw [hheading, if_neg (by decide), if_pos rfl, hindent, readBindings_rows (rows_isRow h),
      List.mapM_map]
    exact congrFun Except.map_id _
  · intro raw hraw
    obtain ⟨header, hheader, rfl⟩ := List.mem_map.mp hraw
    exact (header_isHeader header hheader).2

/-! ## The result -/

/-- Rows that are clean and have a component come back when they can be read back. -/
theorem parse_renderRegistry_iff {admitted : AdmittedRegistry}
    (hclean : ∀ row ∈ admitted.bindings, row.IsClean)
    (hcc : ∀ row ∈ admitted.bindings, row.cc ≠ "") :
    parseHierarchyRegistry (renderRegistry admitted) =
        .ok ((sortedRows admitted.bindings).map (·.projected)) ↔
      ∀ row ∈ admitted.bindings, row.Readable := by
  rw [parseHierarchyRegistry_renderRegistry hclean, mapM_eq_ok_iff, List.forall₂_map_right_iff,
    List.forall₂_same]
  constructor
  · intro h row hrow
    exact (readBinding_renderRow (hclean row hrow) (hcc row hrow)).mp (h row (mem_sortBy.mpr hrow))
  · intro h row hrow
    have hrow := mem_sortBy.mp hrow
    exact (readBinding_renderRow (hclean row hrow) (hcc row hrow)).mpr (h row hrow)

/-- An admitted source comes back from its rendering when its rows can be read back. -/
theorem registry_round_trip_iff {text : List Char} {source : AdmissionSource}
    {evidence : CandidateEvidence} {admitted : AdmittedRegistry}
    (hsource : parseAdmissionSource text = .ok source)
    (hadmitted : admitCandidates evidence source = .ok admitted) :
    parseHierarchyRegistry (renderRegistry admitted) =
        .ok ((sortedRows admitted.bindings).map (·.projected)) ↔
      ∀ row ∈ source.bindings, row.Readable := by
  obtain ⟨hearlier, hbindings⟩ := admitCandidates_ok hadmitted
  rw [← hbindings]
  exact parse_renderRegistry_iff (hbindings ▸ parseAdmissionSource_isClean hsource)
    (hbindings ▸ component_ne_empty hearlier)

/-! ### A needle of two words -/

namespace Sample

def spacedRow : AdmissionBinding :=
  ⟨"law 44-fz", "statya", "1", none, "cc:44-fz:statya-1", .legacyHuman⟩

/-- What is read of the rendered row: only the first word of its needle. -/
example : readBinding (renderRow spacedRow) =
    .ok ⟨"law", "statya", "1", none, "cc:44-fz:statya-1"⟩ := by decide +kernel

/-- A row as the repository has them is readable. -/
example : (⟨"44-fz", "statya", "1", none, "cc:44-fz:statya-1", .legacyHuman⟩ :
    AdmissionBinding).Readable :=
  (readBinding_renderRow ⟨by decide, by decide, by decide, by simp, by decide⟩ (by decide)).mp
    (by decide +kernel)

def spacedLines : List String :=
  ["schema: law-nexus-kb-hierarchy-admission/v1", "lifecycle: [proposed]",
    "authoritative: false", "candidate_artifact_path: a.json", "candidate_artifact_sha256: a",
    "candidate_source_digest: b", "candidate_identity_digest: c", "admissions:",
    "- \x7bpath_needle: law 44-fz, level: statya, number: 1, cc: cc:44-fz:statya-1," ++
      " provenance: legacy-human\x7d"]

def spacedText : List Char := spacedLines.flatMap fun line => line.toList ++ ['\n']

def spaced : AdmissionSource where
  schema := admissionSchemaV1
  lifecycle := proposedLifecycle
  authoritative := false
  candidateArtifactPath := "a.json"
  candidateArtifactSha256 := "a"
  candidateSourceDigest := "b"
  candidateIdentityDigest := "c"
  bindings := [spacedRow]

def spacedEvidence : CandidateEvidence where
  artifactSchema := candidateArtifactSchemaV1
  lifecycle := proposedLifecycle
  authoritative := false
  artifactPath := "a.json"
  artifactSha256 := "a"
  sourceDigest := "b"
  identityDigest := "c"
  candidates := []

def spacedAdmitted : AdmittedRegistry := ⟨registrySchemaV1, proposedLifecycle, false, [spacedRow]⟩

/-- A literal is its list of characters, so that the text is read from the list. -/
theorem toList_lines (a b c d e f g h i j : List Char) :
    ([String.ofList a, String.ofList b, String.ofList c, String.ofList d, String.ofList e,
      String.ofList f, String.ofList g, String.ofList h, String.ofList i ++ String.ofList j].flatMap
        fun line => line.toList ++ ['\n']) =
      [a, b, c, d, e, f, g, h, i ++ j].flatMap (· ++ ['\n']) := by
  simp only [List.flatMap_cons, List.flatMap_nil, String.toList_append, String.toList_ofList]

theorem spaced_read : parseAdmissionSource spacedText = .ok spaced :=
  (congrArg parseAdmissionSource (toList_lines _ _ _ _ _ _ _ _ _ _)).trans (by decide +kernel)

theorem spaced_admitted : admitCandidates spacedEvidence spaced = .ok spacedAdmitted := by
  decide +kernel

theorem spaced_not_readable : ¬ ∀ row ∈ spaced.bindings, row.Readable := by
  intro h
  have hneedle := (h spacedRow List.mem_cons_self).needle.2.2.1
  exact hneedle (by decide)

theorem registry_round_trip_spaced :
    parseHierarchyRegistry (renderRegistry spacedAdmitted) =
        .ok ((sortedRows spacedAdmitted.bindings).map (·.projected)) ↔
      ∀ row ∈ spaced.bindings, row.Readable :=
  registry_round_trip_iff spaced_read spaced_admitted

end Sample

/-- An admitted row whose needle has a space in it does not come back. -/
theorem spaced_lost : ¬ ∀ text source evidence admitted,
    parseAdmissionSource text = .ok source → admitCandidates evidence source = .ok admitted →
      parseHierarchyRegistry (renderRegistry admitted) =
        .ok ((sortedRows admitted.bindings).map (·.projected)) := by
  intro hall
  have hback := hall _ _ _ _ Sample.spaced_read Sample.spaced_admitted
  exact Sample.spaced_not_readable ((parse_renderRegistry_iff
    (parseAdmissionSource_isClean Sample.spaced_read)
    (component_ne_empty (admitCandidates_ok Sample.spaced_admitted).1)).mp hback)

end LawNexus
