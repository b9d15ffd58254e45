import LawNexus.SourcePackage.Lines
import LawNexus.SourcePackage.Trees

/-!
# When a written package reads back
-/

namespace LawNexus.SourcePackage

open Loops

section

variable {serde : SerdeJson} {sha256 : List UInt8 → List UInt8}

/-! ## The caps of the reader -/

/-- The caps leave room for the records that are still to come. -/
structure Admits (effective : Limits) (state : ReadState) (records : List Record) : Prop where
  nodes : state.elementCount + (records.filterMap Record.element?).length ≤ effective.maxNodes
  fragments : state.textCount + (records.filterMap Record.text?).length ≤ effective.maxTextFragments
  bytes : state.textBytes + ((records.filterMap Record.text?).map (·.bytes)).sum ≤
    effective.maxTextBytes
  total : state.elementCount + state.textCount + records.length ≤ effective.maxRecords
  depth : ∀ e ∈ records.filterMap Record.element?, e.depth ≤ effective.maxDepth
  attributes : ∀ e ∈ records.filterMap Record.element?,
    e.attributeCount ≤ effective.maxAttrsPerElement

theorem saturatingAdd_le_add (a b : Nat) : saturatingAdd a b ≤ a + b := Nat.min_le_left _ _

theorem ReadState.push_ok {effective : Limits} {state : ReadState} {record : Record}
    (h : state.elementCount + state.textCount ≤ effective.maxRecords) :
    state.push effective record = .ok { state with records := state.records ++ [record] } := by
  have hle := saturatingAdd_le_add state.elementCount state.textCount
  rw [push, if_neg (by omega)]

theorem Admits.accept {effective : Limits} {state : ReadState} {record : Record}
    {records : List Record} (h : Admits effective state (record :: records)) :
    ∃ state', state.accept effective record = .ok state' ∧
      state'.records = state.records ++ [record] ∧ Admits effective state' records := by
  obtain ⟨hnodes, hfragments, hbytes, htotal, hdepth, hattributes⟩ := h
  rw [List.length_cons] at htotal
  cases record with
  | element e =>
    have hle := saturatingAdd_le_add state.elementCount 1
    simp only [List.filterMap_cons, Record.element?, Record.text?, List.length_cons,
      List.forall_mem_cons] at hnodes hfragments hbytes hdepth hattributes
    refine ⟨⟨state.records ++ [.element e], saturatingAdd state.elementCount 1, state.textCount,
      state.textBytes⟩, ?_, rfl, ?_, hfragments, hbytes, ?_, hdepth.2, hattributes.2⟩
    · rw [ReadState.accept]
      dsimp only
      rw [if_neg (by omega), if_neg (not_lt.mpr hdepth.1), if_neg (not_lt.mpr hattributes.1),
        ReadState.push_ok (by dsimp only; omega)]
    · dsimp only
      omega
    · dsimp only
      omega
  | text x =>
    have hle := saturatingAdd_le_add state.textCount 1
    have hle' := saturatingAdd_le_add state.textBytes x.bytes
    simp only [List.filterMap_cons, Record.element?, Record.text?, List.length_cons, List.map_cons,
      List.sum_cons] at hnodes hfragments hbytes hdepth hattributes
    refine ⟨⟨state.records ++ [.text x], state.elementCount, saturatingAdd state.textCount 1,
      saturatingAdd state.textBytes x.bytes⟩, ?_, rfl, hnodes, ?_, ?_, ?_, hdepth, hattributes⟩
    · rw [ReadState.accept]
      dsimp only
      rw [if_neg (by omega), if_neg (by omega), ReadState.push_ok (by dsimp only; omega)]
    · dsimp only
      omega
    · dsimp only
      omega
    · dsimp only
      omega

theorem capped_ok_iff {value cap : Nat} {detail : String} :
    capped value cap detail = .ok () ↔ value ≤ cap := by
  unfold capped
  split_ifs with h
  · exact iff_of_false nofun (not_le.mpr h)
  · exact iff_of_true rfl (not_lt.mp h)

theorem le_foldl_max {l : List Nat} {start n : Nat} (h : n ≤ start ∨ n ∈ l) :
    n ≤ l.foldl max start := by
  induction l generalizing start with
  | nil => exact h.resolve_right List.not_mem_nil
  | cons a l ih =>
    rw [List.foldl_cons]
    rcases h with hstart | h
    · exact ih (Or.inl (hstart.trans (Nat.le_max_left _ _)))
    · rcases List.mem_cons.mp h with rfl | h
      · exact ih (Or.inl (Nat.le_max_right _ _))
      · exact ih (Or.inr h)

theorem admits_of_enforceLimits {limits : Limits} {records : List Record}
    (h : enforceLimits limits (recomputeCounts records) records = .ok ()) :
    Admits limits .init records := by
  unfold enforceLimits at h
  obtain ⟨⟨⟩, hnodes, h⟩ := bind_eq_ok_iff.mp h
  obtain ⟨⟨⟩, hfragments, h⟩ := bind_eq_ok_iff.mp h
  obtain ⟨⟨⟩, hbytes, h⟩ := bind_eq_ok_iff.mp h
  obtain ⟨⟨⟩, htotal, h⟩ := bind_eq_ok_iff.mp h
  obtain ⟨⟨⟩, hdepth, h⟩ := bind_eq_ok_iff.mp h
  rw [capped_ok_iff] at hnodes hfragments hbytes htotal hdepth
  refine ⟨(Nat.zero_add _).le.trans hnodes, (Nat.zero_add _).le.trans hfragments,
    (Nat.zero_add _).le.trans hbytes, (Nat.zero_add _).le.trans htotal, ?_, ?_⟩
  · exact fun e he => (le_foldl_max (Or.inr (List.mem_map_of_mem he))).trans hdepth
  · intro e he
    obtain ⟨record, hrecord, hsome⟩ := List.mem_filterMap.mp he
    cases record with
    | text x => exact nomatch hsome
    | element e' =>
      obtain rfl := Option.some.inj hsome
      obtain ⟨i, hi⟩ := List.mem_iff_getElem?.mp hrecord
      exact capped_ok_iff.mp (forM_ok_iff.mp h (.element e', i) (List.mem_zipIdx_iff_getElem?.mpr hi))

/-! ## One line of the reader -/

theorem kindOf_manifest (manifest : Manifest) : kindOf manifest.serialize = some manifest.kind := by
  simp [kindOf, Manifest.serialize, Json.get, Json.asStr, Json.str]

theorem kindOf_footer (footer : Footer) : kindOf footer.serialize = some footer.kind := by
  simp [kindOf, Footer.serialize, Json.get, Json.asStr, Json.str]

theorem kindOf_element (element : ElementRecord) :
    kindOf element.serialize = some element.kind := by
  simp [kindOf, ElementRecord.serialize, Json.get, Json.asStr, Json.str]

theorem kindOf_text (text : TextRecord) : kindOf text.serialize = some text.kind := by
  simp [kindOf, TextRecord.serialize, Json.get, Json.asStr, Json.str]

/-- The kind that the line of a record carries, and what its line is read as. -/
structure SerdeJson.ReadsRecord (serde : SerdeJson) (record : Record) : Prop where
  line : serde.PrintsBack record.serialize
  element : ∀ {e}, record = .element e → e.kind = "element" ∧ serde.element e.serialize = .ok e
  text : ∀ {x}, record = .text x → x.kind = "text" ∧ serde.text x.serialize = .ok x

theorem parseRecord_serialize {record : Record} (h : serde.ReadsRecord record) (n : Nat) :
    parseRecord serde record.serialize n = .ok record := by
  cases record with
  | element e =>
    obtain ⟨hkind, he⟩ := h.element rfl
    rw [Record.serialize, parseRecord, kindOf_element, hkind]
    dsimp only
    rw [if_pos rfl, he]
    rfl
  | text x =>
    obtain ⟨hkind, hx⟩ := h.text rfl
    rw [Record.serialize, parseRecord, kindOf_text, hkind]
    dsimp only
    rw [if_neg (by decide), if_pos rfl, hx]
    rfl

section

variable {manifest : Manifest} {effective : Limits} {state : ReadState} {n total : Nat}
  {reader : Reader} {line : List Char} {rest : List UInt8}

theorem readLines_record {record : Record} (h : serde.ReadsRecord record)
    (hline : serde.toString record.serialize = .ok line)
    (hreader : reader.flatten = Utf8.bytes line ++ 10 :: rest)
    (hcap : Utf8.byteLen line + 1 ≤ effective.maxLineBytes)
    (htotal : saturatingAdd total (Utf8.byteLen line + 1) ≤ effective.maxPackageBytes) :
    ∃ reader' : Reader, reader'.flatten = rest ∧
      readLines serde sha256 manifest effective state n total reader =
        (state.accept effective record >>= fun state =>
          readLines serde sha256 manifest effective state (n + 1)
            (saturatingAdd total (Utf8.byteLen line + 1)) reader') := by
  have hnewline := Utf8.newline_notMem_bytes (h.line.newline hline)
  obtain ⟨reader', hflat, hread⟩ := @readLineBounded_of_fits effective.maxLineBytes
    effective.maxPackageBytes total reader (Utf8.bytes line) rest [] hnewline hreader
    (by simpa using hcap) (by simpa using htotal)
  refine ⟨reader', hflat, ?_⟩
  rw [Utf8.length_bytes, List.nil_append] at hread
  rw [readLines, hread]
  dsimp only
  rw [List.dropLast_concat, finishLine_bytes (h.line.ne_nil hline) (h.line.carriage_return hline),
    ok_bind, strictValue_printed h.line record.distinct_serialize hline, ok_bind,
    parseRecord_serialize h]
  cases record with
  | element e =>
    rw [Record.serialize, kindOf_element, (h.element rfl).1]
    rfl
  | text x =>
    rw [Record.serialize, kindOf_text, (h.text rfl).1]
    rfl

theorem readLines_footer {footer : Footer} (h : serde.PrintsBack footer.serialize)
    (hkind : footer.kind = "source_package_footer")
    (hfooter : serde.footer footer.serialize = .ok footer)
    (hline : serde.toString footer.serialize = .ok line)
    (hreader : reader.flatten = Utf8.bytes line ++ [10])
    (hcap : Utf8.byteLen line + 1 ≤ effective.maxLineBytes)
    (htotal : saturatingAdd total (Utf8.byteLen line + 1) ≤ effective.maxPackageBytes) :
    readLines serde sha256 manifest effective state n total reader =
      (verifyPackage serde sha256 ⟨manifest, state.records, footer⟩ effective >>= fun _ =>
        .ok ⟨manifest, state.records, footer⟩) := by
  have hnewline := Utf8.newline_notMem_bytes (h.newline hline)
  obtain ⟨reader', hflat, hread⟩ := @readLineBounded_of_fits effective.maxLineBytes
    effective.maxPackageBytes total reader (Utf8.bytes line) [] [] hnewline hreader
    (by simpa using hcap) (by simpa using htotal)
  have hleft : reader'.left = 0 := by rw [Reader.left, hflat, List.length_nil]
  rw [Utf8.length_bytes, List.nil_append] at hread
  rw [readLines, hread]
  dsimp only
  rw [List.dropLast_concat, finishLine_bytes (h.ne_nil hline) (h.carriage_return hline),
    ok_bind, strictValue_printed h footer.distinct_serialize hline, ok_bind, kindOf_footer, hkind]
  rw [hfooter, fromValueTyped, ok_bind, if_neg (not_not.mpr hleft)]
  rfl

theorem fits_of_readLines {package : Package} (hnewline : '\n' ∉ line)
    (hreader : reader.flatten = Utf8.bytes line ++ 10 :: rest)
    (h : readLines serde sha256 manifest effective state n total reader = .ok package) :
    Utf8.byteLen line + 1 ≤ effective.maxLineBytes := by
  rw [readLines] at h
  cases hread : readLineBounded effective.maxLineBytes effective.maxPackageBytes reader []
    total with
  | error e =>
    rw [hread] at h
    exact nomatch h
  | ok r =>
    simpa using (fits_of_readLineBounded (Utf8.newline_notMem_bytes hnewline) hreader hread).1

/-- The loop ends in the package where each of the lines fits, newline included. -/
theorem readLines_ok_iff {records : List Record} {footer : Footer} {lines : List (List Char)}
    {footerLine : List Char} (hrecords : ∀ record ∈ records, serde.ReadsRecord record)
    (hlines : Printed serde (records.map Record.serialize) lines)
    (hback : serde.PrintsBack footer.serialize) (hkind : footer.kind = "source_package_footer")
    (hfooter : serde.footer footer.serialize = .ok footer)
    (hfooterLine : serde.toString footer.serialize = .ok footerLine)
    (hadmits : Admits effective state records)
    (hreader : reader.flatten = wireBytes (lines ++ [footerLine]))
    (htotal : saturatingAdd total (wireBytes (lines ++ [footerLine])).length ≤
      effective.maxPackageBytes)
    (hverify : verifyPackage serde sha256 ⟨manifest, state.records ++ records, footer⟩ effective =
      .ok ()) :
    readLines serde sha256 manifest effective state n total reader =
        .ok ⟨manifest, state.records ++ records, footer⟩ ↔
      ∀ line ∈ lines ++ [footerLine], Utf8.byteLen line + 1 ≤ effective.maxLineBytes := by
  induction records generalizing state n total reader lines with
  | nil =>
    cases hlines
    rw [List.nil_append] at hreader htotal ⊢
    rw [List.forall_mem_singleton]
    have hflat : reader.flatten = Utf8.bytes footerLine ++ [10] := by
      rw [hreader]
      exact List.append_nil _
    have hcap : saturatingAdd total (Utf8.byteLen footerLine + 1) ≤ effective.maxPackageBytes := by
      rwa [length_wireBytes_singleton] at htotal
    constructor
    · exact fits_of_readLines (hback.newline hfooterLine) hflat
    · intro h
      rw [readLines_footer hback hkind hfooter hfooterLine hflat h hcap]
      rw [List.append_nil] at hverify
      rw [hverify, ok_bind, List.append_nil]
  | cons record records ih =>
    obtain ⟨line, lines, hline, hrest, rfl⟩ := List.forall₂_cons_left_iff.mp hlines
    obtain ⟨hrecord, hrecords⟩ := List.forall_mem_cons.mp hrecords
    obtain ⟨state', haccept, hstate, hadmits'⟩ := hadmits.accept
    have hflat : reader.flatten = Utf8.bytes line ++ 10 :: wireBytes (lines ++ [footerLine]) := by
      rw [hreader, List.cons_append, wireBytes, List.flatMap_cons, List.append_assoc]
      rfl
    rw [List.cons_append, length_wireBytes_cons, length_wireBytes_singleton] at htotal
    have hcap : saturatingAdd total (Utf8.byteLen line + 1) ≤ effective.maxPackageBytes :=
      (saturatingAdd_mono (Nat.le_add_right _ _)).trans htotal
    have hstep : Utf8.byteLen line + 1 ≤ effective.maxLineBytes →
        (readLines serde sha256 manifest effective state n total reader =
          .ok ⟨manifest, state.records ++ record :: records, footer⟩ ↔
        ∀ line ∈ lines ++ [footerLine], Utf8.byteLen line + 1 ≤ effective.maxLineBytes) := by
      intro hfits
      obtain ⟨reader', hflat', hread⟩ := @readLines_record serde sha256 manifest effective state n
        total reader line _ record hrecord hline hflat hfits hcap
      have happend : state.records ++ record :: records = state'.records ++ records := by
        rw [hstate, List.append_assoc]
        rfl
      rw [hread, haccept, ok_bind, happend]
      rw [happend] at hverify
      exact ih hrecords hrest hadmits' hflat' (by rwa [saturatingAdd_assoc]) hverify
    rw [List.cons_append, List.forall_mem_cons]
    constructor
    · intro h
      have hfits := fits_of_readLines (hrecord.line.newline hline) hflat h
      exact ⟨hfits, (hstep hfits).mp h⟩
    · rintro ⟨hfits, hall⟩
      exact (hstep hfits).mpr hall

end

/-! ## The whole package -/

/-- The caps of a caller that are at least the declared ones, field by field. -/
structure Limits.Within (declared caller : Limits) : Prop where
  maxInputBytes : declared.maxInputBytes ≤ caller.maxInputBytes
  maxPackageBytes : declared.maxPackageBytes ≤ caller.maxPackageBytes
  maxLineBytes : declared.maxLineBytes ≤ caller.maxLineBytes
  maxDepth : declared.maxDepth ≤ caller.maxDepth
  maxNodes : declared.maxNodes ≤ caller.maxNodes
  maxTextFragments : declared.maxTextFragments ≤ caller.maxTextFragments
  maxTextBytes : declared.maxTextBytes ≤ caller.maxTextBytes
  maxRecords : declared.maxRecords ≤ caller.maxRecords
  maxAttrsPerElement : declared.maxAttrsPerElement ≤ caller.maxAttrsPerElement

theorem Limits.Within.effectiveLimits_eq {declared caller : Limits} (h : declared.Within caller) :
    effectiveLimits caller declared = declared := by
  obtain ⟨h₁, h₂, h₃, h₄, h₅, h₆, h₇, h₈, h₉⟩ := h
  simp only [effectiveLimits, min_eq_right h₁, min_eq_right h₂, min_eq_right h₃, min_eq_right h₄,
    min_eq_right h₅, min_eq_right h₆, min_eq_right h₇, min_eq_right h₈, min_eq_right h₉]

/-- With its newline, the line of the manifest fits the cap of the caller, and the line of a record
or of the footer the declared one. -/
structure LinesFit (serde : SerdeJson) (package : Package) (caller : Limits) : Prop where
  manifest : ∀ line, serde.toString package.manifest.serialize = .ok line →
    Utf8.byteLen line + 1 ≤ caller.maxLineBytes
  record : ∀ record ∈ package.records, ∀ line, serde.toString record.serialize = .ok line →
    Utf8.byteLen line + 1 ≤ package.manifest.limits.maxLineBytes
  footer : ∀ line, serde.toString package.footer.serialize = .ok line →
    Utf8.byteLen line + 1 ≤ package.manifest.limits.maxLineBytes

theorem require_ok_iff {condition : Bool} {kind : ErrorKind} {detail : String} :
    require condition kind detail = .ok () ↔ condition = true := by
  cases condition with
  | true => exact iff_of_true rfl rfl
  | false => exact iff_of_false nofun nofun

/-- What the reader relies on in a verified package. -/
theorem verifyPackage_parts {package : Package} {limits : Limits}
    (h : verifyPackage serde sha256 package limits = .ok ()) :
    package.manifest.kind = "source_package_manifest" ∧
      package.footer.kind = "source_package_footer" ∧ Admits limits .init package.records ∧
      (∀ e, .element e ∈ package.records → e.kind = "element") ∧
      ∀ x, .text x ∈ package.records → x.kind = "text" := by
  unfold verifyPackage at h
  obtain ⟨⟨⟩, hmanifest, h⟩ := bind_eq_ok_iff.mp h
  obtain ⟨⟨⟩, hfooter, h⟩ := bind_eq_ok_iff.mp h
  obtain ⟨⟨⟩, hrecords, -⟩ := bind_eq_ok_iff.mp h
  obtain ⟨⟨⟩, hmanifest, -⟩ := bind_eq_ok_iff.mp hmanifest
  obtain ⟨⟨⟩, hfooter, -⟩ := bind_eq_ok_iff.mp hfooter
  rw [require_ok_iff] at hmanifest hfooter
  simp only [Bool.and_eq_true, decide_eq_true_eq, and_assoc] at hmanifest hfooter
  unfold verifyRecords at hrecords
  obtain ⟨⟨⟩, hlimits, hrest⟩ := bind_eq_ok_iff.mp hrecords
  obtain ⟨⟨⟩, hcounts, hrest⟩ := bind_eq_ok_iff.mp hrest
  obtain ⟨⟨E, X⟩, hsections, -⟩ := bind_eq_ok_iff.mp hrest
  obtain ⟨heq, -, hE, hX⟩ := sections_eq_ok_iff.mp hsections
  refine ⟨hmanifest.1, hfooter.1, admits_of_enforceLimits hlimits, fun e he => ?_, fun x hx => ?_⟩
  · refine (hE e ?_).1
    simpa [heq] using he
  · refine (hX x ?_).1
    simpa [heq] using hx

theorem printed_iff {l : List Json} {lines : List (List Char)} (h : Printed serde l lines) {cap : Nat} :
    (∀ line ∈ lines, Utf8.byteLen line + 1 ≤ cap) ↔
      ∀ value ∈ l, ∀ line, serde.toString value = .ok line → Utf8.byteLen line + 1 ≤ cap := by
  obtain ⟨hleft, hright⟩ := forall₂_partner h
  constructor
  · intro hall value hvalue line hline
    obtain ⟨line', hmem, hline'⟩ := hleft value hvalue
    obtain rfl := Except.ok.inj (hline.symm.trans hline')
    exact hall line hmem
  · intro hall line hmem
    obtain ⟨value, hvalue, hline⟩ := hright line hmem
    exact hall value hvalue line hline

theorem fits_of_readPackage {package : Package} {caller : Limits} {reader : Reader}
    {line : List Char} {rest : List UInt8} (hnewline : '\n' ∉ line)
    (hreader : reader.flatten = Utf8.bytes line ++ 10 :: rest)
    (h : readPackage serde sha256 reader caller = .ok package) :
    Utf8.byteLen line + 1 ≤ caller.maxLineBytes := by
  rw [readPackage] at h
  obtain ⟨r, hread, -⟩ := bind_eq_ok_iff.mp h
  simpa using (fits_of_readLineBounded (Utf8.newline_notMem_bytes hnewline) hreader hread).1

theorem flatten_wireBytes_cons {reader : Reader} {line : List Char} {lines : List (List Char)}
    (h : reader.flatten = wireBytes (line :: lines)) :
    reader.flatten = Utf8.bytes line ++ 10 :: wireBytes lines := by
  rw [h, wireBytes, List.flatMap_cons, List.append_assoc]
  rfl

/-- Behind a manifest that fits, the effective caps are the declared ones. -/
theorem readPackage_ok_iff {package : Package} {caller : Limits} {reader : Reader}
    {manifestLine footerLine : List Char} {recordLines : List (List Char)}
    (hserde : serde.ReadsBack package)
    (hverify : verifyPackage serde sha256 package package.manifest.limits = .ok ())
    (hmanifest : serde.toString package.manifest.serialize = .ok manifestLine)
    (hrecords : Printed serde (package.records.map Record.serialize) recordLines)
    (hfooter : serde.toString package.footer.serialize = .ok footerLine)
    (hcaller : package.manifest.limits.Within caller)
    (hreader : reader.flatten = wireBytes (manifestLine :: (recordLines ++ [footerLine])))
    (htotal : saturatingAdd 0 (wireBytes (manifestLine :: (recordLines ++ [footerLine]))).length ≤
      package.manifest.limits.maxPackageBytes)
    (hfits : Utf8.byteLen manifestLine + 1 ≤ caller.maxLineBytes) :
    readPackage serde sha256 reader caller = .ok package ↔
      ∀ line ∈ recordLines ++ [footerLine],
        Utf8.byteLen line + 1 ≤ package.manifest.limits.maxLineBytes := by
  obtain ⟨hmkind, hfkind, hadmits, hekind, htkind⟩ := verifyPackage_parts hverify
  have hreads : ∀ record ∈ package.records, serde.ReadsRecord record := by
    intro record hmem
    refine ⟨hserde.record_line record hmem, ?_, ?_⟩
    · rintro e rfl
      exact ⟨hekind e hmem, hserde.element hmem⟩
    · rintro x rfl
      exact ⟨htkind x hmem, hserde.text hmem⟩
  rw [length_wireBytes_cons, length_wireBytes_singleton] at htotal
  have hfirst : saturatingAdd 0 (Utf8.byteLen manifestLine + 1) ≤ caller.maxPackageBytes :=
    (saturatingAdd_mono (Nat.le_add_right _ _)).trans (htotal.trans hcaller.maxPackageBytes)
  have hnewline := Utf8.newline_notMem_bytes (hserde.manifest_line.newline hmanifest)
  obtain ⟨reader', hflat', hread⟩ := @readLineBounded_of_fits caller.maxLineBytes
    caller.maxPackageBytes 0 reader (Utf8.bytes manifestLine) _ [] hnewline
    (flatten_wireBytes_cons hreader) (by simpa using hfits) (by simpa using hfirst)
  rw [Utf8.length_bytes, List.nil_append] at hread
  have hmain := @readLines_ok_iff serde sha256 package.manifest package.manifest.limits .init 1 _
    reader' package.records package.footer recordLines footerLine hreads hrecords
    hserde.footer_line hfkind hserde.footer hfooter hadmits hflat'
    (by rwa [saturatingAdd_assoc]) hverify
  rw [← hmain, readPackage, hread, ok_bind]
  dsimp only
  rw [List.dropLast_concat, finishLine_bytes (hserde.manifest_line.ne_nil hmanifest)
    (hserde.manifest_line.carriage_return hmanifest), ok_bind,
    strictValue_printed hserde.manifest_line package.manifest.distinct_serialize hmanifest,
    ok_bind, kindOf_manifest, hmkind, if_neg (not_not.mpr rfl), hserde.manifest, fromValueTyped,
    ok_bind, hcaller.effectiveLimits_eq]
  rfl

/-- A package that was written reads back, as it was, exactly when each line fits with its
newline: the writer checks the lines without it. -/
theorem readPackage_toJsonl_iff {package : Package} {caller : Limits} {text : List Char}
    {reader : Reader} (hserde : serde.ReadsBack package)
    (htext : toJsonl serde sha256 package = .ok text)
    (hcaller : package.manifest.limits.Within caller) (hreader : reader.flatten = Utf8.bytes text) :
    readPackage serde sha256 reader caller = .ok package ↔ LinesFit serde package caller := by
  obtain ⟨lines, hlines, hbytes, hverify, hexport⟩ := toJsonl_lines htext
  have htotal := checkExportable_total hlines hexport
  obtain ⟨manifestLine, recordLines, footerLine, hmanifest, hrecords, hfooter, rfl⟩ :=
    printed_values.mp hlines
  rw [List.cons_append] at hbytes htotal
  rw [hbytes] at hreader
  have hstep := readPackage_ok_iff hserde hverify hmanifest hrecords hfooter hcaller hreader htotal
  have hrest : (∀ line ∈ recordLines ++ [footerLine],
        Utf8.byteLen line + 1 ≤ package.manifest.limits.maxLineBytes) ↔
      (∀ record ∈ package.records, ∀ line, serde.toString record.serialize = .ok line →
        Utf8.byteLen line + 1 ≤ package.manifest.limits.maxLineBytes) ∧
      ∀ line, serde.toString package.footer.serialize = .ok line →
        Utf8.byteLen line + 1 ≤ package.manifest.limits.maxLineBytes := by
    have hprinted : Printed serde [package.footer.serialize] [footerLine] := .cons hfooter .nil
    rw [List.forall_mem_append, printed_iff hrecords, printed_iff hprinted, List.forall_mem_map,
      List.forall_mem_singleton]
  constructor
  · intro h
    have hfits := fits_of_readPackage (hserde.manifest_line.newline hmanifest)
      (flatten_wireBytes_cons hreader) h
    obtain ⟨hrecord, hfoot⟩ := hrest.mp ((hstep hfits).mp h)
    refine ⟨fun line hline => ?_, hrecord, hfoot⟩
    obtain rfl := Except.ok.inj (hline.symm.trans hmanifest)
    exact hfits
  · rintro ⟨hmanifestFits, hrecord, hfoot⟩
    exact (hstep (hmanifestFits _ hmanifest)).mpr (hrest.mpr ⟨hrecord, hfoot⟩)

end

namespace Sample

/-! ### A manifest line as long as the cap -/

mutual

/-- Compact JSON in front of a rest, for texts that need no escapes. -/
def print : Json → List Char → List Char
  | .null, rest => "null".toList ++ rest
  | .bool true, rest => "true".toList ++ rest
  | .bool false, rest => "false".toList ++ rest
  | .number text, rest => text.toList ++ rest
  | .string text, rest => '\x22' :: (text ++ '\x22' :: rest)
  | .array items, rest => '[' :: printItems items rest
  | .object entries, rest => '\x7b' :: printEntries entries rest

def printItems : List Json → List Char → List Char
  | [], rest => ']' :: rest
  | item :: more, rest =>
    print item (if more.isEmpty then printItems more rest else ',' :: printItems more rest)

def printEntries : List (String × Json) → List Char → List Char
  | [], rest => '\x7d' :: rest
  | (key, value) :: more, rest =>
    '\x22' :: (key.toList ++ '\x22' :: ':' :: print value
      (if more.isEmpty then printEntries more rest else ',' :: printEntries more rest))

end

/-- The length of a text of ASCII characters that are no control characters. -/
def plainLength : List Char → Nat → Option Nat
  | [], n => some n
  | c :: rest, n => if 32 ≤ c.toNat ∧ c.toNat ≤ 127 then plainLength rest (n + 1) else none

theorem plainLength_spec {text : List Char} {n m : Nat} (h : plainLength text n = some m) :
    n + Utf8.byteLen text = m ∧ ∀ c ∈ text, 32 ≤ c.toNat := by
  induction text generalizing n with
  | nil => exact ⟨Option.some.inj h, nofun⟩
  | cons c rest ih =>
    rw [plainLength] at h
    split_ifs at h with hc
    obtain ⟨hlength, hrest⟩ := ih h
    have hone : c.utf8Size = 1 :=
      Char.utf8Size_eq_one_iff.mpr (UInt32.le_iff_toNat_le.mpr hc.2)
    rw [Utf8.byteLen_cons, hone, List.forall_mem_cons]
    exact ⟨by omega, hc.1, hrest⟩

/-- `<p/>` -/
def single : SourceTree where
  root := node "p" none none
  below := .nil
  tail_root := rfl
  tag_ne := by
    simp only [Forest.Siblings.nodes, List.forall_mem_cons]
    exact ⟨rfl, nofun⟩

def singleSource : SourceRef :=
  ⟨"b0ce1a82db7de32dcb040d8b810b05752736534cac3341ce0ee526480b0ed5c3", 4⟩

def element : ElementRecord := single.rootRecord

def manifestLine : List Char := print (manifest singleSource).serialize []

def elementLine : List Char := print element.serialize []

/-- The hash of the element line. -/
def sealBytes : List UInt8 :=
  [13, 95, 134, 254, 149, 125, 163, 166, 192, 218, 24, 235, 179, 156, 13, 215,
    117, 11, 235, 211, 222, 89, 104, 46, 188, 70, 119, 194, 201, 101, 175, 163]

/-- The hash of the manifest line, the seal and the body of the footer. -/
def rootBytes : List UInt8 :=
  [39, 22, 107, 94, 140, 242, 190, 176, 28, 191, 246, 25, 228, 154, 200, 70,
    225, 44, 114, 111, 212, 187, 254, 47, 200, 149, 248, 5, 180, 22, 27, 132]

def rootInput : List Char := ['\n'].intercalate [manifestLine, (hexLower sealBytes).toList,
  print (footer singleSource single.records).serialize []]

def sha256 (bytes : List UInt8) : List UInt8 :=
  if bytes = Utf8.bytes elementLine then sealBytes
  else if bytes = Utf8.bytes rootInput then rootBytes else []

def signedFooter : Footer :=
  { footer singleSource single.records with
    recordsSealHash := some (hexLower sealBytes)
    manifestHash := some (hexLower rootBytes) }

def signed : Package := ⟨manifest singleSource, [.element element], signedFooter⟩

def footerLine : List Char := print signedFooter.serialize []

/-- The value that a line of the package is printed from. -/
def parse (line : List Char) : Json :=
  if line = manifestLine then signed.manifest.serialize
  else if line = elementLine then element.serialize else signedFooter.serialize

def serde : SerdeJson where
  toString value := .ok (print value [])
  tokens line := (parse line).tokens
  fromStr line := .ok (parse line)
  manifest _ := .ok signed.manifest
  element _ := .ok element
  text _ := .error "no text"
  footer _ := .ok signedFooter

def text : List Char :=
  manifestLine ++ '\n' :: elementLine ++ '\n' :: (footerLine ++ ['\n'])

theorem plain_manifest : plainLength manifestLine 0 = some 1227 := by decide +kernel

theorem plain_element : plainLength elementLine 0 = some 259 := by decide +kernel

theorem plain_footer : plainLength footerLine 0 = some 601 := by decide +kernel

/-- Lines of different lengths differ. -/
theorem ne_of_plain {line line' : List Char} {n m : Nat} (h : plainLength line 0 = some n)
    (h' : plainLength line' 0 = some m) (hne : n ≠ m) : line ≠ line' := by
  rintro rfl
  exact hne (Option.some.inj (h.symm.trans h'))

theorem rootInput_ne : Utf8.bytes rootInput ≠ Utf8.bytes elementLine := by
  intro heq
  have hlength := congrArg List.length heq
  have hmanifest := (plainLength_spec plain_manifest).1
  have helement := (plainLength_spec plain_element).1
  rw [Utf8.length_bytes, Utf8.length_bytes, rootInput, List.intercalate_cons_cons,
    List.append_assoc, Utf8.byteLen_append] at hlength
  omega

theorem hashes_shaped :
    isHex64 (hexLower sealBytes) = true ∧ isHex64 (hexLower rootBytes) = true := by decide +kernel

theorem verifyManifest_signed : verifyManifest signed.manifest = .ok () := by decide +kernel

theorem verifyFooter_signed : verifyFooter signed.manifest signed.footer = .ok () := by
  decide +kernel

theorem printsBack_of_plain {value : Json} {n : Nat}
    (hplain : plainLength (print value []) 0 = some n) (hpos : 0 < n)
    (hparse : parse (print value []) = value) : serde.PrintsBack value := by
  obtain ⟨hlength, hcontrol⟩ := plainLength_spec hplain
  constructor
  · rintro _ ⟨⟩ hnil
    rw [hnil] at hlength
    simp at hlength
    omega
  · rintro _ ⟨⟩ hmem
    exact absurd (hcontrol _ hmem) (by decide)
  · rintro _ ⟨⟩ hmem
    exact absurd (hcontrol _ hmem) (by decide)
  · rintro _ ⟨⟩
    exact congrArg Json.tokens hparse
  · rintro _ ⟨⟩
    exact congrArg Except.ok hparse

theorem readsBack : serde.ReadsBack signed where
  manifest_line := printsBack_of_plain plain_manifest (by decide) (if_pos rfl)
  record_line := by
    rintro record hrecord
    obtain rfl := List.mem_singleton.mp hrecord
    refine printsBack_of_plain plain_element (by decide) ?_
    exact (if_neg (ne_of_plain plain_element plain_manifest (by decide))).trans (if_pos rfl)
  footer_line := by
    refine printsBack_of_plain plain_footer (by decide) ?_
    have hmanifest := ne_of_plain plain_footer plain_manifest (by decide)
    have helement := ne_of_plain plain_footer plain_element (by decide)
    exact (if_neg hmanifest).trans (if_neg helement)
  manifest := rfl
  element hrecord := by
    obtain h := List.mem_singleton.mp hrecord
    cases h
    rfl
  text hrecord := nomatch List.mem_singleton.mp hrecord
  footer := rfl

theorem recordsSealHash_signed :
    recordsSealHash serde sha256 signed.records = .ok (hexLower sealBytes) := by
  have hlines : signed.records.mapM (serializeRecord serde) = .ok [elementLine] := rfl
  rw [recordsSealHash, hlines, ok_bind, List.intercalate_singleton, sha256, if_pos rfl]

theorem verifyHashes_signed : verifyHashes serde sha256 signed = .ok () := by
  have hroot : manifestHash serde sha256 signed.manifest signed.records signed.footer =
      .ok (hexLower rootBytes) := by
    rw [manifestHash, recordsSealHash_signed]
    change Except.ok (hexLower (sha256 (Utf8.bytes rootInput))) = _
    rw [sha256, if_neg rootInput_ne, if_pos rfl]
  obtain ⟨hseal64, hroot64⟩ := hashes_shaped
  have hseal : signed.footer.recordsSealHash = some (hexLower sealBytes) := rfl
  have hhash : signed.footer.manifestHash = some (hexLower rootBytes) := rfl
  rw [verifyHashes, hseal, requireSome, ok_bind, require_ok_iff.mpr hseal64, ok_bind,
    recordsSealHash_signed, ok_bind, require_ok_iff.mpr (decide_eq_true rfl), ok_bind, hhash,
    requireSome, ok_bind, require_ok_iff.mpr hroot64, ok_bind, hroot, ok_bind,
    require_ok_iff.mpr (decide_eq_true rfl)]

theorem verifyPackage_signed : verifyPackage serde sha256 signed limits = .ok () := by
  have hrecords : verifyRecords signed limits = .ok () :=
    (verifyRecords_ok_iff rfl rfl).mpr
      ⟨single.elements, single.texts, 0, rfl, List.cons_ne_nil _ _, single.checked⟩
  have hbytes : decide (signed.manifest.source.bytes ≤ limits.maxInputBytes) = true := by decide
  rw [verifyPackage, verifyManifest_signed, ok_bind, verifyFooter_signed, ok_bind, hrecords, ok_bind]
  dsimp only
  rw [require_ok_iff.mpr hbytes, ok_bind, verifyHashes_signed]

theorem checkSerialized_of_plain {value : Json} {state : Nat × Nat} {n : Nat}
    (hplain : plainLength (print value []) 0 = some n) (hline : n ≤ limits.maxLineBytes)
    (htotal : state.1 + (n + 1) ≤ limits.maxPackageBytes) :
    checkSerialized serde limits state value =
      .ok (state.1 + (n + 1), saturatingAdd state.2 1) := by
  obtain ⟨hlength, -⟩ := plainLength_spec hplain
  rw [Nat.zero_add] at hlength
  have hcap : limits.maxPackageBytes ≤ u64Max := by decide
  have hsum : saturatingAdd state.1 (n + 1) = state.1 + (n + 1) :=
    Nat.min_eq_left (htotal.trans hcap)
  change checkLine limits state (Utf8.byteLen (print value [])) = _
  rw [hlength, checkLine]
  dsimp only
  rw [if_neg (not_lt.mpr hline), saturatingAdd_saturatingAdd, hsum, if_neg (not_lt.mpr htotal)]

theorem toJsonl_signed : toJsonl serde sha256 signed = .ok text := by
  have hmanifest : checkSerialized serde limits (0, 0) signed.manifest.serialize = .ok (1228, 1) :=
    checkSerialized_of_plain plain_manifest (by decide) (by decide)
  have helement : checkSerialized serde limits (1228, 1) (Record.element element).serialize =
      .ok (1488, 2) :=
    checkSerialized_of_plain plain_element (by decide) (by decide)
  have hfooter : checkSerialized serde limits (1488, 2) signed.footer.serialize = .ok (2090, 3) :=
    checkSerialized_of_plain plain_footer (by decide) (by decide)
  have hlimits : signed.manifest.limits = limits := rfl
  have hrecords : signed.records = [.element element] := rfl
  have hexport : checkExportable serde signed limits = .ok () := by
    rw [checkExportable, hmanifest, ok_bind, hrecords, List.foldlM_cons, helement, ok_bind,
      List.foldlM_nil, pure_bind, hfooter, ok_bind]
  have hmanifestLine : canonicalJson serde signed.manifest.serialize = .ok manifestLine := rfl
  have helementLine : serializeRecord serde (.element element) = .ok elementLine := rfl
  have hfooterLine : canonicalJson serde signed.footer.serialize = .ok footerLine := rfl
  rw [toJsonl, hlimits, verifyPackage_signed, ok_bind, hexport, ok_bind, hmanifestLine, ok_bind, hrecords,
    List.foldlM_cons, helementLine, ok_bind, ok_bind, List.foldlM_nil, hfooterLine]
  rfl

theorem within {n : Nat} (h : limits.maxLineBytes ≤ n) :
    limits.Within { limits with maxLineBytes := n } :=
  ⟨le_rfl, le_rfl, h, le_rfl, le_rfl, le_rfl, le_rfl, le_rfl, le_rfl⟩

theorem byteLen_lines : Utf8.byteLen manifestLine = 1227 ∧ Utf8.byteLen elementLine = 259 ∧
    Utf8.byteLen footerLine = 601 := by
  have hmanifest := (plainLength_spec plain_manifest).1
  have helement := (plainLength_spec plain_element).1
  have hfooter := (plainLength_spec plain_footer).1
  omega

/-- The manifest line is as long as the cap, so the package is written, and its own caps refuse to
read it. -/
theorem readPackage_signed : serde.ReadsBack signed ∧
    toJsonl serde sha256 signed = .ok text ∧ signed.manifest.limits.Within limits ∧
      readPackage serde sha256 [Utf8.bytes text] limits ≠ .ok signed := by
  refine ⟨readsBack, toJsonl_signed, within le_rfl, fun h => ?_⟩
  have hfits := @fits_of_readPackage serde sha256 signed limits [Utf8.bytes text] manifestLine
    (Utf8.bytes (elementLine ++ '\n' :: (footerLine ++ ['\n'])))
    (readsBack.manifest_line.newline rfl) (by
      have hnewline (l : List Char) : Utf8.bytes ('\n' :: l) = 10 :: Utf8.bytes l := rfl
      rw [List.flatten_singleton, text, List.append_assoc, Utf8.bytes_append, List.cons_append,
        hnewline]) h
  rw [byteLen_lines.1] at hfits
  exact absurd hfits (by decide)

theorem readPackage_signed_wider : readPackage serde sha256 [Utf8.bytes text]
    { limits with maxLineBytes := 1228 } = .ok signed := by
  obtain ⟨hmanifest, helement, hfooter⟩ := byteLen_lines
  refine (readPackage_toJsonl_iff readsBack toJsonl_signed (within (by decide))
    (List.flatten_singleton ..)).mpr ⟨?_, ?_, ?_⟩
  · rintro line hline
    obtain rfl : manifestLine = line := Except.ok.inj hline
    rw [hmanifest]
  · rintro record hrecord line hline
    obtain rfl := List.mem_singleton.mp hrecord
    obtain rfl : elementLine = line := Except.ok.inj hline
    rw [helement]
    decide
  · rintro line hline
    obtain rfl : footerLine = line := Except.ok.inj hline
    rw [hfooter]
    decide

end Sample

end LawNexus.SourcePackage
