import LawNexus.CleanedWire.Lines

/-!
# The frame of a document

The manifest, the policies and the footer pass the inspection, and read back.
-/

namespace LawNexus.CleanedWire

open Chars Loops Reader
open SourcePackage (Package hexDigit hexLower isHex64)

/-! ## Hashes -/

theorem hexDigit_range {n : Nat} (h : n < 16) :
    (48 ≤ (hexDigit n).toNat ∧ (hexDigit n).toNat ≤ 57) ∨
      (97 ≤ (hexDigit n).toNat ∧ (hexDigit n).toNat ≤ 102) := by
  interval_cases n <;> decide

theorem isHex64_hexLower {digest : List UInt8} (h : digest.length = 32) :
    isHex64 (hexLower digest) = true := by
  have hchars : ∀ c ∈ (hexLower digest).toList,
      (48 ≤ c.toNat ∧ c.toNat ≤ 57) ∨ (97 ≤ c.toNat ∧ c.toNat ≤ 102) := by
    intro c hc
    rw [hexLower, String.toList_ofList, List.mem_flatMap] at hc
    obtain ⟨byte, -, hc⟩ := hc
    have hbyte := byte.toNat_lt
    simp only [List.mem_cons, List.not_mem_nil, or_false] at hc
    rcases hc with rfl | rfl
    · exact hexDigit_range (by omega)
    · exact hexDigit_range (by omega)
  have hascii : ∀ c ∈ (hexLower digest).toList, c.toNat < 128 := by
    intro c hc
    have hrange := hchars c hc
    omega
  have hlength : (Utf8.bytes (hexLower digest).toList).length = 64 := by
    rw [Utf8.length_bytes, Utf8.byteLen_of_ascii hascii, hexLower, String.toList_ofList]
    simp [List.length_flatMap, h]
  unfold isHex64
  simp only [hlength, decide_true, Bool.true_and, List.all_eq_true]
  intro byte hbyte
  have hmem : Char.ofNat byte.toNat ∈ (hexLower digest).toList := by
    rw [← byteChars_of_ascii hascii]
    exact List.mem_map_of_mem hbyte
  have hrange := hchars _ hmem
  rw [Utf8.toNat_ofNat_byte] at hrange
  simp
  omega

/-! ## The manifest -/

/-- The pins of a package are hashes, where there are any. -/
structure Pinned (package : Package) : Prop where
  sha256 : isHex64 package.manifest.source.sha256 = true
  recordsSealHash : ∀ hash ∈ package.footer.recordsSealHash, isHex64 hash = true
  manifestHash : ∀ hash ∈ package.footer.manifestHash, isHex64 hash = true

/-- Limits that fit in a word. -/
structure WireLimits.Fits (limits : WireLimits) : Prop where
  maxLineBytes : limits.maxLineBytes < 2 ^ 64
  maxRecords : limits.maxRecords < 2 ^ 64
  maxTextBytes : limits.maxTextBytes < 2 ^ 64

theorem readable_generator : Readable generatorJson.entries := by
  refine ⟨by simp [generatorJson, Json.entries], ?_, by simp [generatorJson, Json.entries]⟩
  simp only [generatorJson, Json.entries, List.forall_mem_cons]
  iterate 2 refine ⟨plain_ofList rfl rfl, ?_⟩
  exact List.forall_mem_nil _

theorem readable_limits (limits : WireLimits) : Readable (limitsJson limits).entries := by
  refine ⟨by simp [limitsJson, Json.entries], ?_, by simp [limitsJson, Json.entries]⟩
  simp only [limitsJson, Json.entries, List.forall_mem_cons]
  iterate 3 refine ⟨plain_ofList rfl rfl, ?_⟩
  exact List.forall_mem_nil _

theorem readable_parent (package : Package) : Readable (parentJson package).entries := by
  refine ⟨by simp [parentJson, Json.entries], ?_, by simp [parentJson, Json.entries]⟩
  simp only [parentJson, Json.entries, List.forall_mem_cons]
  iterate 2 refine ⟨plain_ofList rfl rfl, ?_⟩
  exact List.forall_mem_nil _

theorem readable_source (package : Package) : Readable (sourceJson package).entries := by
  refine ⟨by simp [sourceJson, Json.entries], ?_, by simp [sourceJson, Json.entries]⟩
  simp only [sourceJson, Json.entries, List.forall_mem_cons]
  iterate 2 refine ⟨plain_ofList rfl rfl, ?_⟩
  exact List.forall_mem_nil _

theorem readable_manifest (package : Package) (limits : WireLimits) :
    Readable (manifestJson package limits).entries := by
  have hgenerator : generatorJson.Fits 64 := by
    apply readable_generator.fits_obj
    simp [generatorJson, Json.entries]
  have hlimits : (limitsJson limits).Fits 64 := by
    apply (readable_limits limits).fits_obj
    simp [limitsJson, Json.entries]
  have hparent : (parentJson package).Fits 64 := by
    apply (readable_parent package).fits_obj
    simp [parentJson, Json.entries]
  have hsource : (sourceJson package).Fits 64 := by
    apply (readable_source package).fits_obj
    simp [sourceJson, Json.entries]
  refine ⟨by simp [manifestJson, Json.entries], ?_, by
    simp [manifestJson, Json.entries, MAX_JSON_DEPTH, hgenerator, hlimits, hparent, hsource]⟩
  simp only [manifestJson, Json.entries, List.forall_mem_cons]
  iterate 11 refine ⟨plain_ofList rfl rfl, ?_⟩
  exact List.forall_mem_nil _

theorem contractObject_obj {manifest : JsonFields} {key : String}
    {entries : List (String × Json)} (h : manifest.Holds key (.obj entries))
    (hentries : Readable entries) : contractObject manifest key = .ok (fieldsOf entries) := by
  have htrim := trim_render (hentries.fits_obj hentries.fits)
  unfold contractObject
  rw [h]
  dsimp only
  rw [htrim, parse_render hentries.distinct hentries.fits]

/-- What the fields of a manifest hold. -/
structure HoldsManifest (fields : JsonFields) (package : Package) (limits : WireLimits) :
    Prop where
  capability : fields.Holds "capability" (.string CAPABILITY)
  generator : fields.Holds "generator" (.obj generatorJson.entries)
  kind : fields.Holds "kind" (.string KIND_MANIFEST)
  limits : fields.Holds "limits" (.obj (limitsJson limits).entries)
  model : fields.Holds "model" (.string MODEL)
  nonAuthoritative : fields.Holds "non_authoritative" (.bool true)
  parent : fields.Holds "parent" (.obj (parentJson package).entries)
  profile : fields.Holds "profile" (.string PROFILE)
  schema : fields.Holds "schema" (.string MANIFEST_SCHEMA)
  source : fields.Holds "source" (.obj (sourceJson package).entries)
  version : fields.Holds "version" (.number CONTRACT_VERSION)

theorem holdsManifest (package : Package) (limits : WireLimits) :
    HoldsManifest (fieldsOf (manifestJson package limits).entries) package limits := by
  have hall := holds_fieldsOf (readable_manifest package limits)
  generalize fieldsOf (manifestJson package limits).entries = fields at hall ⊢
  simp only [manifestJson, Json.entries, List.forall_mem_cons] at hall
  obtain ⟨h1, h2, h3, h4, h5, h6, h7, h8, h9, h10, h11, -⟩ := hall
  exact ⟨h1, h2, h3, h4, h5, h6, h7, h8, h9, h10, h11⟩

section

variable {fields : JsonFields} {package : Package} {limits : WireLimits}

theorem expectManifestContract_manifest (h : HoldsManifest fields package limits)
    (hlimits : limits.Fits) : expectManifestContract fields = .ok () := by
  have hall := holds_fieldsOf readable_generator
  have hbounds := holds_fieldsOf (readable_limits limits)
  have hgenerator := contractObject_obj h.generator readable_generator
  have hobject := contractObject_obj h.limits (readable_limits limits)
  generalize fieldsOf generatorJson.entries = generator at hall hgenerator
  generalize fieldsOf (limitsJson limits).entries = bounds at hbounds hobject
  simp only [generatorJson, Json.entries, List.forall_mem_cons] at hall
  obtain ⟨hname, hversion, -⟩ := hall
  simp only [limitsJson, Json.entries, List.forall_mem_cons] at hbounds
  obtain ⟨hline, hrecords, htext, -⟩ := hbounds
  unfold expectManifestContract
  rw [expectStringValue_string h.model, ok_bind, expectStringValue_string h.profile, ok_bind,
    expectStringValue_string h.capability, ok_bind, expectTrueValue_bool h.nonAuthoritative,
    ok_bind, hgenerator, ok_bind, stringField_string hname, stringField_string hversion]
  simp only [Option.isNone_some, Bool.false_eq_true, if_false]
  rw [hobject]
  simp [u64Field_number hline hlimits.maxLineBytes, u64Field_number hrecords hlimits.maxRecords,
    u64Field_number htext hlimits.maxTextBytes]

theorem enforceDeclaredReadLimits_manifest (h : HoldsManifest fields package limits)
    (hlimits : limits.Fits) {lines : List (List Char)}
    (hlines : ∀ line ∈ lines, Utf8.byteLen line ≤ limits.maxLineBytes) {lastIndex : Nat}
    (hrecords : lastIndex - 2 ≤ limits.maxRecords) :
    enforceDeclaredReadLimits fields lines lastIndex = .ok () := by
  have hbounds := holds_fieldsOf (readable_limits limits)
  have hobject := contractObject_obj h.limits (readable_limits limits)
  generalize fieldsOf (limitsJson limits).entries = bounds at hbounds hobject
  simp only [limitsJson, Json.entries, List.forall_mem_cons] at hbounds
  obtain ⟨hline, hcount, -⟩ := hbounds
  have hpass : lines.forM (checkDeclaredLine limits.maxLineBytes) = .ok () :=
    forM_ok_iff.mpr fun line hmem => if_neg (Nat.not_lt.mpr (hlines line hmem))
  unfold enforceDeclaredReadLimits
  rw [hobject, ok_bind, u64Field_number hline hlimits.maxLineBytes, orRefuse, orError_some, ok_bind,
    u64Field_number hcount hlimits.maxRecords, orRefuse, orError_some, ok_bind, hpass, ok_bind]
  exact if_neg (Nat.not_lt.mpr hrecords)

/-- The pins of a package, as the reader gives them. -/
def sourcePin (package : Package) : SourcePin :=
  ⟨package.manifest.source.sha256, package.manifest.source.bytes⟩

def parentPin (package : Package) : ParentSealPin :=
  ⟨package.footer.recordsSealHash, package.footer.manifestHash⟩

theorem readPins_manifest (h : HoldsManifest fields package limits) (hpins : Pinned package)
    (hbytes : package.manifest.source.bytes < 2 ^ 64) :
    readPins fields = .ok (sourcePin package, parentPin package) := by
  have hsource := holds_fieldsOf (readable_source package)
  have hparent := holds_fieldsOf (readable_parent package)
  have hobject := recordObject_obj h.source (readable_source package)
  have hobject' := recordObject_obj h.parent (readable_parent package)
  generalize fieldsOf (sourceJson package).entries = source at hsource hobject
  generalize fieldsOf (parentJson package).entries = parent at hparent hobject'
  simp only [sourceJson, Json.entries, List.forall_mem_cons] at hsource
  simp only [parentJson, Json.entries, List.forall_mem_cons] at hparent
  obtain ⟨hcount, hsha, -⟩ := hsource
  obtain ⟨hmanifest, hrecords, -⟩ := hparent
  unfold readPins
  rw [hobject, ok_bind, hexField_string hsha hpins.sha256, ok_bind,
    recordU64_number hcount hbytes, ok_bind, hobject', ok_bind,
    optHexField_optString hrecords hpins.recordsSealHash, ok_bind,
    optHexField_optString hmanifest hpins.manifestHash, ok_bind]
  rfl

theorem parseFields_obj {key : String} {entries : List (String × Json)}
    (h : fields.Holds key (.obj entries)) (hentries : Readable entries) :
    ∃ raw, fields.get key = some raw ∧ parseFields (trim raw) = .ok (fieldsOf entries) := by
  refine ⟨_, h, ?_⟩
  rw [trim_render (hentries.fits_obj hentries.fits), parseFields_render hentries]

section

variable (h : HoldsManifest fields package limits)
  (hbytes : package.manifest.source.bytes < 2 ^ 64) (hlimits : limits.Fits)
  {lines : List (List Char)} (hlines : ∀ line ∈ lines, Utf8.byteLen line ≤ limits.maxLineBytes)
  {lastIndex : Nat} (hrecords : lastIndex - 2 ≤ limits.maxRecords)

include h hbytes hlimits hlines hrecords

/-- What the inspection of a manifest depends on. -/
theorem inspectManifest_eq : ∃ source parent : JsonFields,
    source.Holds "sha256" (.string package.manifest.source.sha256) ∧
      parent.Holds "records_seal_hash" (optString package.footer.recordsSealHash) ∧
      parent.Holds "manifest_hash" (optString package.footer.manifestHash) ∧
      inspectManifest fields lines lastIndex = (do
        let _ ← hexField source "sha256"
        let _ ← optHexField parent "records_seal_hash"
        let _ ← optHexField parent "manifest_hash") := by
  have hsource := holds_fieldsOf (readable_source package)
  have hparent := holds_fieldsOf (readable_parent package)
  obtain ⟨sourceRaw, hsourceRaw, hobject⟩ := parseFields_obj h.source (readable_source package)
  obtain ⟨parentRaw, hparentRaw, hobject'⟩ := parseFields_obj h.parent (readable_parent package)
  generalize fieldsOf (sourceJson package).entries = source at hsource hobject
  generalize fieldsOf (parentJson package).entries = parent at hparent hobject'
  simp only [sourceJson, Json.entries, List.forall_mem_cons] at hsource
  simp only [parentJson, Json.entries, List.forall_mem_cons] at hparent
  obtain ⟨hcount, hsha, -⟩ := hsource
  obtain ⟨hmanifest, hseal, -⟩ := hparent
  refine ⟨source, parent, hsha, hseal, hmanifest, ?_⟩
  unfold inspectManifest
  rw [expectSchema_string h.schema, ok_bind, expectVersion_number h.version, ok_bind,
    expectManifestContract_manifest h hlimits, ok_bind,
    enforceDeclaredReadLimits_manifest h hlimits hlines hrecords, ok_bind, hsourceRaw, orRefuse,
    orError_some, ok_bind, hobject, ok_bind, u64Field_number hcount hbytes, hparentRaw]
  simp only [orRefuse, orError_some, ok_bind, hobject']

theorem inspectManifest_manifest (hpins : Pinned package) :
    inspectManifest fields lines lastIndex = .ok () := by
  obtain ⟨source, parent, hsha, hseal, hmanifest, heq⟩ :=
    inspectManifest_eq h hbytes hlimits hlines hrecords
  rw [heq, hexField_string hsha hpins.sha256, ok_bind,
    optHexField_optString hseal hpins.recordsSealHash, ok_bind,
    optHexField_optString hmanifest hpins.manifestHash]
  rfl

/-- A pin that is no hash is refused. -/
theorem inspectManifest_unpinned (hpins : ¬ Pinned package) :
    ∃ detail, inspectManifest fields lines lastIndex = refuse .hashShapeInvalid detail := by
  obtain ⟨source, parent, hsha, hseal, hmanifest, heq⟩ :=
    inspectManifest_eq h hbytes hlimits hlines hrecords
  rw [heq, hexField_string_eq hsha, optHexField_optString_eq hseal,
    optHexField_optString_eq hmanifest]
  split_ifs with hsource hrecords hparent
  · exact absurd ⟨hsource, (Option.all_eq_true _ _).mp hrecords,
      (Option.all_eq_true _ _).mp hparent⟩ hpins
  all_goals exact ⟨_, rfl⟩

end

end

/-! ## The policies -/

theorem readable_policies : Readable policiesJson.entries := by
  refine ⟨by simp [policiesJson, Json.entries], ?_, by simp [policiesJson, Json.entries]⟩
  simp only [policiesJson, Json.entries, List.forall_mem_cons]
  iterate 12 refine ⟨plain_ofList rfl rfl, ?_⟩
  exact List.forall_mem_nil _

theorem inspectPolicies_policies :
    inspectPolicies (fieldsOf policiesJson.entries) = .ok () := by
  have hall := holds_fieldsOf readable_policies
  generalize fieldsOf policiesJson.entries = fields at hall ⊢
  simp only [policiesJson, Json.entries, List.forall_mem_cons] at hall
  obtain ⟨hauthenticity, hmode, hscope, hdisplay, hhold, -, htrue, hnormal, hschema, htext,
    hcontext, hversion, -⟩ := hall
  unfold inspectPolicies expectPoliciesContract
  rw [expectSchema_string hschema, ok_bind, expectVersion_number hversion, ok_bind,
    expectStringValue_string hmode, ok_bind, expectStringValue_string htext, ok_bind,
    expectStringValue_string hhold, ok_bind, expectStringValue_string hscope, ok_bind,
    expectStringValue_string hdisplay, ok_bind, expectStringValue_string hcontext, ok_bind,
    expectStringValue_string hnormal, ok_bind, expectStringValue_string hauthenticity, ok_bind,
    expectTrueValue_bool htrue]

/-! ## The footer -/

theorem reasonFromToken_asStr (reason : IncompleteReason) :
    reasonFromToken reason.asStr = some reason := by
  apply fromTokens_of_mem (by simp)
  cases reason <;> simp [IncompleteReason.asStr]

theorem asStr_injective : Function.Injective IncompleteReason.asStr := by
  intro a b h
  have htoken := congrArg reasonFromToken h
  rw [reasonFromToken_asStr, reasonFromToken_asStr] at htoken
  exact Option.some.inj htoken

section

variable {fields : JsonFields} {completion : WireCompletion}

theorem validateCompletion_incomplete {basis : IncompleteReason}
    {reasons : List IncompleteReason} :
    validateCompletion (.incomplete basis reasons) = .ok () ↔ basis ∈ reasons := by
  rw [validateCompletion]
  split_ifs with hempty hmem
  · simp [hempty, wireFail]
  · exact iff_of_true rfl hmem
  · exact iff_of_false (by simp [wireFail]) hmem

theorem parseCompletion_completion (hvalid : validateCompletion completion = .ok ())
    (hmarker : fields.Holds "completion" (.string completion.asStr))
    (hbasis : fields.Holds "completion_basis" (.string completion.basisStr))
    (hreasons : fields.Holds "incomplete_reasons" (.strings completion.reasonStrs)) :
    parseCompletion fields =
      .ok (completion.asStr, completion.basisStr, completion.reasonStrs) := by
  unfold parseCompletion
  rw [stringField_string hmarker, orRefuse, orError_some, ok_bind, stringField_string hbasis,
    orRefuse, orError_some, ok_bind, stringArrayField_strings hreasons, ok_bind, orRefuse,
    orError_some, ok_bind]
  cases completion with
  | complete => simp [WireCompletion.asStr, WireCompletion.basisStr, WireCompletion.reasonStrs]
  | incomplete basis reasons =>
    have hmem := validateCompletion_incomplete.mp hvalid
    have hpass : (reasons.map (·.asStr)).forM (fun reason =>
        if (reasonFromToken reason).isNone then
          refuse .completionMarkerInvalid s!"unknown incomplete_reason {reason}"
        else (.ok () : Reading Unit)) = .ok () := by
      rw [forM_ok_iff]
      intro token htoken
      obtain ⟨reason, -, rfl⟩ := List.mem_map.mp htoken
      rw [reasonFromToken_asStr]
      rfl
    have hempty : (WireCompletion.incomplete basis reasons).reasonStrs ≠ [] := by
      simpa [WireCompletion.reasonStrs] using List.ne_nil_of_mem hmem
    have hbasisMem : (WireCompletion.incomplete basis reasons).basisStr ∈
        (WireCompletion.incomplete basis reasons).reasonStrs := List.mem_map_of_mem hmem
    have hmarker : (WireCompletion.incomplete basis reasons).asStr = "incomplete" := rfl
    rw [if_neg (by simp [hmarker]), if_pos hmarker, if_neg hempty,
      if_neg (by simp [WireCompletion.basisStr, reasonFromToken_asStr])]
    refine (congrArg (· >>= _) hpass).trans ?_
    exact if_neg (not_not.mpr hbasisMem)

theorem completionFromParts_completion (completion : WireCompletion) :
    completionFromParts completion.asStr completion.basisStr completion.reasonStrs =
      .ok completion := by
  unfold completionFromParts
  cases completion with
  | complete => rfl
  | incomplete basis reasons =>
    have hreasons : (reasons.map (·.asStr)).mapM (fun reason =>
        orInvalid (reasonFromToken reason) "incomplete_reasons" reason) = .ok reasons := by
      rw [mapM_eq_ok_iff, List.forall₂_map_left_iff, List.forall₂_same]
      intro reason _
      rw [reasonFromToken_asStr]
      rfl
    simp only [WireCompletion.asStr, WireCompletion.basisStr, WireCompletion.reasonStrs]
    rw [if_neg (by simp), if_pos trivial, reasonFromToken_asStr, orInvalid, orRefuse, orError_some,
      ok_bind, hreasons]
    rfl

/-- Counts that fit in a word. -/
structure CleanedCounts.Fits (counts : CleanedCounts) : Prop where
  views : counts.views < 2 ^ 64
  segments : counts.segments < 2 ^ 64
  references : counts.references < 2 ^ 64
  sourceSegments : counts.sourceSegments < 2 ^ 64
  derivedSegments : counts.derivedSegments < 2 ^ 64
  textChars : counts.textChars < 2 ^ 64
  textBytes : counts.textBytes < 2 ^ 64
  records : counts.records < 2 ^ 64

theorem readable_counts (counts : CleanedCounts) : Readable counts.json.entries := by
  refine ⟨by simp [CleanedCounts.json, Json.entries], ?_,
    by simp [CleanedCounts.json, Json.entries]⟩
  simp only [CleanedCounts.json, Json.entries, List.forall_mem_cons]
  iterate 8 refine ⟨plain_ofList rfl rfl, ?_⟩
  exact List.forall_mem_nil _

theorem readable_footer (completion : WireCompletion) (counts : CleanedCounts)
    (recordsSeal manifestSeal : Option String) :
    Readable (footerJson completion counts recordsSeal manifestSeal).entries := by
  have hcounts : counts.json.Fits 64 := by
    apply (readable_counts counts).fits_obj
    simp [CleanedCounts.json, Json.entries]
  refine ⟨by simp [footerJson, Json.entries], ?_, by
    simp [footerJson, Json.entries, MAX_JSON_DEPTH, hcounts]⟩
  simp only [footerJson, Json.entries, List.forall_mem_cons]
  iterate 10 refine ⟨plain_ofList rfl rfl, ?_⟩
  exact List.forall_mem_nil _

/-- What the fields of a footer hold. -/
structure HoldsFooter (fields : JsonFields) (completion : WireCompletion)
    (counts : CleanedCounts) (recordsSeal manifestSeal : Option String) : Prop where
  marker : fields.Holds "completion" (.string completion.asStr)
  basis : fields.Holds "completion_basis" (.string completion.basisStr)
  counts : fields.Holds "counts" (.obj counts.json.entries)
  reasons : fields.Holds "incomplete_reasons" (.strings completion.reasonStrs)
  kind : fields.Holds "kind" (.string KIND_FOOTER)
  manifestHash : fields.Holds "manifest_hash" (optString manifestSeal)
  nonAuthoritative : fields.Holds "non_authoritative" (.bool true)
  recordsSealHash : fields.Holds "records_seal_hash" (optString recordsSeal)
  schema : fields.Holds "schema" (.string FOOTER_SCHEMA)
  version : fields.Holds "version" (.number CONTRACT_VERSION)

theorem holdsFooter (completion : WireCompletion) (counts : CleanedCounts)
    (recordsSeal manifestSeal : Option String) :
    HoldsFooter (fieldsOf (footerJson completion counts recordsSeal manifestSeal).entries)
      completion counts recordsSeal manifestSeal := by
  have hall := holds_fieldsOf (readable_footer completion counts recordsSeal manifestSeal)
  generalize fieldsOf (footerJson completion counts recordsSeal manifestSeal).entries = fields
    at hall ⊢
  simp only [footerJson, Json.entries, List.forall_mem_cons] at hall
  obtain ⟨h1, h2, h3, h4, h5, h6, h7, h8, h9, h10, -⟩ := hall
  exact ⟨h1, h2, h3, h4, h5, h6, h7, h8, h9, h10⟩

variable {counts : CleanedCounts} {recordsSeal manifestSeal : String}

theorem parseCleanedCounts_footer (h : fields.Holds "counts" (.obj counts.json.entries))
    (hfits : counts.Fits) : parseCleanedCounts fields = .ok counts := by
  have hall := holds_fieldsOf (readable_counts counts)
  have hobject := recordObject_obj h (readable_counts counts)
  generalize fieldsOf counts.json.entries = inner at hall hobject
  simp only [CleanedCounts.json, Json.entries, List.forall_mem_cons] at hall
  obtain ⟨hderived, hrecords, hreferences, hsegments, hsource, hbytes, hchars, hviews, -⟩ := hall
  unfold parseCleanedCounts
  rw [hobject, ok_bind, countsField_number hviews hfits.views, ok_bind,
    countsField_number hsegments hfits.segments, ok_bind,
    countsField_number hreferences hfits.references, ok_bind,
    countsField_number hsource hfits.sourceSegments, ok_bind,
    countsField_number hderived hfits.derivedSegments, ok_bind,
    countsField_number hchars hfits.textChars, ok_bind,
    countsField_number hbytes hfits.textBytes, ok_bind,
    countsField_number hrecords hfits.records, ok_bind]

theorem parseCounts_footer (h : fields.Holds "counts" (.obj counts.json.entries))
    (hfits : counts.Fits) : ∃ summary, parseCounts fields = .ok summary := by
  have hall := holds_fieldsOf (readable_counts counts)
  obtain ⟨raw, hraw, hobject⟩ := parseFields_obj h (readable_counts counts)
  generalize fieldsOf counts.json.entries = inner at hall hobject
  simp only [CleanedCounts.json, Json.entries, List.forall_mem_cons] at hall
  obtain ⟨hderived, -, -, -, hsource, hbytes, hchars, -, -⟩ := hall
  unfold parseCounts
  rw [hraw, orRefuse, orError_some, ok_bind, hobject, ok_bind,
    countsField_number hsource hfits.sourceSegments, ok_bind,
    countsField_number hderived hfits.derivedSegments, ok_bind,
    countsField_number hchars hfits.textChars, ok_bind,
    countsField_number hbytes hfits.textBytes, ok_bind]
  exact ⟨_, rfl⟩

variable (hvalid : validateCompletion completion = .ok ()) (hfits : counts.Fits)
  (hrecords : isHex64 recordsSeal = true) (hmanifest : isHex64 manifestSeal = true)

include hvalid hfits hrecords hmanifest

theorem readFooter_footer
    (h : HoldsFooter fields completion counts (some recordsSeal) (some manifestSeal)) :
    readFooter fields = .ok ⟨completion, counts, recordsSeal, manifestSeal⟩ := by
  unfold readFooter
  rw [parseCompletion_completion hvalid h.marker h.basis h.reasons, ok_bind]
  dsimp only
  rw [completionFromParts_completion, ok_bind, parseCleanedCounts_footer h.counts hfits, ok_bind,
    hexField_string h.recordsSealHash hrecords, ok_bind,
    hexField_string h.manifestHash hmanifest, ok_bind]

theorem inspectFooter_footer
    (h : HoldsFooter fields completion counts (some recordsSeal) (some manifestSeal))
    (records : List WireLine) : ∃ summary, inspectFooter fields records = .ok summary := by
  obtain ⟨summary, hsummary⟩ := parseCounts_footer h.counts hfits
  unfold inspectFooter
  rw [expectSchema_string h.schema, ok_bind, expectVersion_number h.version, ok_bind,
    expectTrueValue_bool h.nonAuthoritative, ok_bind,
    parseCompletion_completion hvalid h.marker h.basis h.reasons, ok_bind]
  dsimp only
  rw [hexField_string h.recordsSealHash hrecords, ok_bind,
    hexField_string h.manifestHash hmanifest, ok_bind, hsummary]
  exact ⟨_, rfl⟩

end

end LawNexus.CleanedWire
