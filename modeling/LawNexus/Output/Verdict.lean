import LawNexus.Output.Validate

/-!
# The verdict

What the rules say of a citation and of a claim, and that the verdict does not depend on the order
of either.
-/

namespace LawNexus.Output

variable {ctx : DiagnosticContext} {resolver : OutputIdResolutionPort} {scope : OutputScope}
  {envelope envelope' : RetrievalOutputEnvelope} {citation : CitationBinding} {claim : AnswerClaim}

/-! ## Lists of checks -/

theorem orElse_none {α : Type} {o o' : Option α} : (o <|> o') = none ↔ o = none ∧ o' = none := by
  simp

theorem firstFailing_none {code : OutputDiagnosticCode} {path : String → String}
    {checks : List (Bool × String)} :
    firstFailing ctx code path checks = none ↔ ∀ check ∈ checks, check.1 = false := by
  unfold firstFailing
  rw [List.findSome?_eq_none_iff]
  refine forall₂_congr fun check _ => ?_
  split_ifs with h <;> simp [h]

/-- The index of an item is for the diagnostic only. -/
def Unindexed {α : Type} (check : Nat → α → Option OutputDiagnostic) : Prop :=
  ∀ index item, check index item = none ↔ check 0 item = none

theorem firstItem_none {α : Type} {check : Nat → α → Option OutputDiagnostic}
    (hcheck : Unindexed check) {items : List α} :
    firstItem items check = none ↔ ∀ item ∈ items, check 0 item = none := by
  unfold firstItem
  rw [List.findSome?_eq_none_iff]
  constructor
  · intro h item hitem
    obtain ⟨index, hindex, rfl⟩ := List.mem_iff_getElem.mp hitem
    exact (hcheck index _).mp (h (items[index], index) (List.mem_zipIdx_iff_getElem?.mpr
      (List.getElem?_eq_getElem hindex)))
  · intro h item hitem
    exact (hcheck item.2 item.1).mpr (h item.1 (List.fst_mem_of_mem_zipIdx hitem))

theorem firstItem_perm {α : Type} {check : Nat → α → Option OutputDiagnostic}
    (hcheck : Unindexed check) {items items' : List α} (h : items.Perm items') :
    firstItem items check = none ↔ firstItem items' check = none := by
  rw [firstItem_none hcheck, firstItem_none hcheck]
  exact forall_congr' fun item => imp_congr_left h.mem_iff

theorem unindexed_firstFailing {α : Type} {code : OutputDiagnosticCode}
    {path : Nat → String → String} {checks : α → List (Bool × String)} :
    Unindexed fun index item => firstFailing ctx code (path index) (checks item) := by
  intro index item
  rw [firstFailing_none, firstFailing_none]

/-! ## Namespaces -/

theorem checkNamespace_none {fieldPath token : String} {expected : Option String} :
    checkNamespace ctx fieldPath token expected = none ↔
      ∀ e ∈ expected, e.toList.isPrefixOf token.toList := by
  cases expected with
  | none => simp [checkNamespace]
  | some expected => simp [checkNamespace]

theorem checkNamespaceShape_none {kind fieldPath : String} {shape : FieldShape (OutputId kind)}
    {expected : Option String} :
    checkNamespaceShape ctx fieldPath shape expected = none ↔
      ∀ id ∈ shape.value?, ∀ e ∈ expected, e.toList.isPrefixOf id.asStr.toList := by
  unfold checkNamespaceShape
  split
  next id hid => simp [checkNamespace_none, hid]
  next hnone => simp [hnone]

theorem unindexed_checkCitationNamespaces : Unindexed (checkCitationNamespaces ctx) := by
  intro index citation
  simp only [checkCitationNamespaces, orElse_none, checkNamespaceShape_none]

theorem unindexed_checkClaimNamespaces : Unindexed (checkClaimNamespaces ctx) := by
  intro index claim
  simp only [checkClaimNamespaces, checkNamespaceShape_none]

/-! ## Citations -/

theorem checkCitationKey_none {index : Nat} :
    checkCitationKey ctx resolver index citation scope = none ↔
      ∀ key ∈ citation.citationKey.value?,
        ∃ span, resolver.resolveCitationKey scope.scopeId key = .unique span := by
  unfold checkCitationKey
  split
  next hnone => simp [hnone]
  next key hkey =>
    dsimp only
    split <;> simp [*]

theorem checkPathId_none {kind name : String} {index : Nat} {shape : FieldShape (OutputId kind)}
    {expected : OutputId kind} :
    checkPathId ctx index name shape expected = none ↔ shape = .value expected := by
  unfold checkPathId
  split_ifs with h
  · simpa [FieldShape.value?_eq_some] using h
  · simpa [FieldShape.value?_eq_some] using h

theorem checkParent_none {index : Nat} :
    checkParent ctx index citation envelope = none ↔
      ∀ explicit ∈ citation.retrievalOutputId.value?,
        ∀ parent ∈ envelope.retrievalOutputId.value?, explicit = parent := by
  unfold checkParent
  split
  next explicit parent hexplicit hparent =>
    rw [hexplicit, hparent]
    split_ifs with h <;> simpa using h
  next h =>
    refine iff_of_true rfl fun explicit hexplicit parent hparent => ?_
    exact absurd hparent (h explicit parent hexplicit)

/-- The block of the span leads to a declared document, and the citation names both. -/
def SourcePath (resolver : OutputIdResolutionPort) (citation : CitationBinding)
    (record : EvidenceSpanRecord) : Prop :=
  citation.sourceBlockId = .value record.sourceBlockId ∧
  (∃ block ∈ resolver.resolveSourceBlock record.sourceBlockId,
    (resolver.resolveSourceDocument block.sourceDocumentId).isSome ∧
    record.sourceDocumentId = block.sourceDocumentId ∧
    citation.sourceDocumentId = .value block.sourceDocumentId)

theorem checkSourcePath_none {index : Nat} {record : EvidenceSpanRecord} :
    checkSourcePath ctx resolver index citation record = none ↔
      SourcePath resolver citation record := by
  unfold checkSourcePath SourcePath
  rw [orElse_none, checkPathId_none]
  refine and_congr_right fun _ => ?_
  split
  next hnone => simp [hnone]
  next block hblock =>
    dsimp only
    split_ifs with hdocument hreached
    · simp [hblock, hdocument]
    · simp [hblock, hreached]
    · rw [checkPathId_none]
      simp [hblock, Option.isSome_iff_ne_none, hdocument, not_not.mp hreached]

/-- The unit of the span has the edition that is valid at the date, of the same act, and the
citation names both. -/
def LegalPath (resolver : OutputIdResolutionPort) (scope : OutputScope) (citation : CitationBinding)
    (record : EvidenceSpanRecord) : Prop :=
  citation.legalUnitId = .value record.legalUnitId ∧
  ∃ legalUnit ∈ resolver.resolveLegalUnit record.legalUnitId,
    ∃ validEdition ∈ resolver.resolveValidEdition record.legalUnitId scope.asOfDate,
      citation.actEditionId = .value validEdition ∧ record.actEditionId = validEdition ∧
      ∃ edition ∈ resolver.resolveActEdition validEdition, edition.legalActId = legalUnit.legalActId

theorem checkEdition_none {index : Nat} {record : EvidenceSpanRecord}
    {legalUnit : LegalUnitRecord} :
    checkEdition ctx resolver index citation scope record legalUnit = none ↔
      ∃ validEdition ∈ resolver.resolveValidEdition record.legalUnitId scope.asOfDate,
        citation.actEditionId = .value validEdition ∧ record.actEditionId = validEdition ∧
        ∃ edition ∈ resolver.resolveActEdition validEdition,
          edition.legalActId = legalUnit.legalActId := by
  unfold checkEdition
  simp only [← FieldShape.value?_eq_some]
  split
  next hnone => simp [hnone]
  next validEdition hvalid =>
    rw [hvalid]
    simp only [Option.mem_some_iff, exists_eq_left']
    split_ifs with hcitation hrecord
    · simp [hcitation]
    · simp [hrecord]
    · rw [not_not] at hcitation hrecord
      split
      next edition hedition =>
        split_ifs with hact
        · simp [hedition, hact]
        · simp [hedition, hcitation, hrecord, not_not.mp hact]
      next hnone => simp [hnone]

theorem checkLegalPath_none {index : Nat} {record : EvidenceSpanRecord} :
    checkLegalPath ctx resolver index citation scope record = none ↔
      LegalPath resolver scope citation record := by
  unfold checkLegalPath LegalPath
  rw [orElse_none, checkPathId_none]
  refine and_congr_right fun _ => ?_
  split
  next hnone => simp [hnone]
  next legalUnit hunit =>
    rw [checkEdition_none, hunit]
    simp

/-- A span that resolves, is active, and leads to the ids of the citation. -/
def Reaches (resolver : OutputIdResolutionPort) (envelope : RetrievalOutputEnvelope)
    (scope : OutputScope) (citation : CitationBinding) (span : EvidenceSpanId) : Prop :=
  ∃ record ∈ resolver.resolveEvidenceSpan span, resolver.isSuperseded span scope.asOfDate = false ∧
    (∀ explicit ∈ citation.retrievalOutputId.value?,
      ∀ parent ∈ envelope.retrievalOutputId.value?, explicit = parent) ∧
    SourcePath resolver citation record ∧ LegalPath resolver scope citation record

theorem checkEvidence_none {index : Nat} :
    checkEvidence ctx resolver index citation envelope scope = none ↔
      ∀ span ∈ citation.evidenceSpanId.value?, Reaches resolver envelope scope citation span := by
  unfold checkEvidence
  split
  next hnone => simp [hnone]
  next span hspan =>
    rw [hspan]
    dsimp only
    split
    next hnone => simp [Reaches, hnone]
    next record hrecord =>
      split_ifs with hsuperseded
      · simp [Reaches, hsuperseded]
      · rw [orElse_none, orElse_none, checkParent_none, checkSourcePath_none, checkLegalPath_none]
        simp [Reaches, hrecord, hsuperseded]

theorem checkCitation_none {index : Nat} (hscope : envelope.scope = .complete scope) :
    checkCitation ctx resolver index citation envelope = none ↔
      (∀ key ∈ citation.citationKey.value?,
        ∃ span, resolver.resolveCitationKey scope.scopeId key = .unique span) ∧
      ∀ span ∈ citation.evidenceSpanId.value?, Reaches resolver envelope scope citation span := by
  unfold checkCitation
  rw [hscope]
  dsimp only
  rw [orElse_none, checkCitationKey_none, checkEvidence_none]

theorem unindexed_checkCitation :
    Unindexed fun index citation => checkCitation ctx resolver index citation envelope := by
  intro index citation
  cases hscope : envelope.scope with
  | complete scope => simp only [checkCitation_none hscope]
  | incompleteField field => simp only [checkCitation, hscope]
  | wrongShape => simp only [checkCitation, hscope]
  | missing => simp only [checkCitation, hscope]
  | explicitNull => simp only [checkCitation, hscope]

/-! ## Claims -/

theorem mem_availableKeys {citations : List CitationBinding} {key : CitationKey} :
    key ∈ availableKeys citations ↔
      ∃ citation ∈ citations, citation.citationKey = .value key := by
  simp [availableKeys, FieldShape.value?_eq_some]

theorem checkAnswerClaim_none {keys : List CitationKey} {index : Nat} :
    checkAnswerClaim ctx keys index claim = none ↔
      ∃ supported, claim.supportedCitationKeys = .value supported ∧ supported ≠ [] ∧
        ∀ key ∈ supported, key ∈ keys := by
  unfold checkAnswerClaim
  dsimp only
  simp only [← FieldShape.value?_eq_some]
  split
  next hnone => simp [hnone]
  next supported hsupported =>
    rw [hsupported]
    simp

theorem unindexed_checkAnswerClaim {keys : List CitationKey} :
    Unindexed (checkAnswerClaim ctx keys) := by
  intro index claim
  rw [checkAnswerClaim_none, checkAnswerClaim_none]

/-- Every claim has keys, and each of them is the key of a citation. -/
def Supported (citations : List CitationBinding) (claims : List AnswerClaim) : Prop :=
  ∀ claim ∈ claims, ∃ supported, claim.supportedCitationKeys = .value supported ∧ supported ≠ [] ∧
    ∀ key ∈ supported, ∃ citation ∈ citations, citation.citationKey = .value key

theorem checkAnswerClaims_none {citations : List CitationBinding} :
    checkAnswerClaims ctx envelope citations = none ↔
      Supported citations (valueOrEmpty envelope.answerClaims) := by
  unfold checkAnswerClaims Supported
  rw [firstItem_none unindexed_checkAnswerClaim]
  simp only [checkAnswerClaim_none, mem_availableKeys]

theorem Supported.perm {citations citations' : List CitationBinding}
    {claims claims' : List AnswerClaim} (hcitations : citations.Perm citations')
    (hclaims : claims.Perm claims') (h : Supported citations claims) :
    Supported citations' claims' := by
  intro claim hclaim
  obtain ⟨supported, hvalue, hne, hkeys⟩ := h claim (hclaims.mem_iff.mpr hclaim)
  refine ⟨supported, hvalue, hne, fun key hkey => ?_⟩
  obtain ⟨citation, hcitation, hcarried⟩ := hkeys key hkey
  exact ⟨citation, hcitations.mem_iff.mp hcitation, hcarried⟩

/-! ## Order -/

/-- A list in another order, or no list. -/
def Shuffled {α : Type} (shape shape' : FieldShape (List α)) : Prop :=
  shape = shape' ∨ ∃ items items', shape = .value items ∧ shape' = .value items' ∧
    items.Perm items'

namespace Shuffled

variable {α : Type} {shape shape' : FieldShape (List α)}

theorem perm (h : Shuffled shape shape') : (valueOrEmpty shape).Perm (valueOrEmpty shape') := by
  rcases h with rfl | ⟨items, items', rfl, rfl, h⟩
  · exact .refl _
  · exact h

theorem isWrongShape (h : Shuffled shape shape') : shape'.isWrongShape = shape.isWrongShape := by
  rcases h with rfl | ⟨items, items', rfl, rfl, -⟩ <;> rfl

theorem isAbsentOrNull (h : Shuffled shape shape') :
    shape'.isAbsentOrNull = shape.isAbsentOrNull := by
  rcases h with rfl | ⟨items, items', rfl, rfl, -⟩ <;> rfl

end Shuffled

/-- An envelope with its citations and its claims in another order. -/
def Reordered (envelope envelope' : RetrievalOutputEnvelope) : Prop :=
  ∃ citations answerClaims, envelope' = { envelope with citations, answerClaims } ∧
    Shuffled envelope.citations citations ∧ Shuffled envelope.answerClaims answerClaims

theorem firstDiagnostic_reordered (h : Reordered envelope envelope') :
    firstDiagnostic ctx envelope' resolver = none ↔
      firstDiagnostic ctx envelope resolver = none := by
  obtain ⟨citations, answerClaims, rfl, hcitations, hclaims⟩ := h
  have hanswers : checkAnswerClaims ctx { envelope with citations, answerClaims }
      (valueOrEmpty citations) = none ↔
      checkAnswerClaims ctx envelope (valueOrEmpty envelope.citations) = none := by
    rw [checkAnswerClaims_none, checkAnswerClaims_none]
    exact ⟨.perm hcitations.perm.symm hclaims.perm.symm, .perm hcitations.perm hclaims.perm⟩
  have hresolved : (firstItem (valueOrEmpty citations) fun index citation =>
      checkCitation ctx resolver index citation { envelope with citations, answerClaims }) = none ↔
      (firstItem (valueOrEmpty envelope.citations) fun index citation =>
        checkCitation ctx resolver index citation envelope) = none :=
    (firstItem_perm unindexed_checkCitation hcitations.perm).symm
  unfold firstDiagnostic checkShape checkMissingRequired checkNamespaces
    checkCitationWithoutEvidence
  simp only [orElse_none, hanswers, hresolved, hcitations.isWrongShape, hclaims.isWrongShape,
    hcitations.isAbsentOrNull, ← firstItem_perm unindexed_firstFailing hcitations.perm,
    ← firstItem_perm unindexed_firstFailing hclaims.perm,
    ← firstItem_perm unindexed_checkCitationNamespaces hcitations.perm,
    ← firstItem_perm unindexed_checkClaimNamespaces hclaims.perm]
  exact Iff.rfl

/-! ## The diagnostic of a rule that fails -/

/-- A diagnostic, if there is one, that rejects. -/
def Rejects (found : Option OutputDiagnostic) : Prop := ∀ d ∈ found, d.severity = .error

namespace Rejects

variable {found found' : Option OutputDiagnostic}

theorem none : Rejects none := fun _ h => by cases h

theorem some {d : OutputDiagnostic} (h : d.severity = .error) : Rejects (some d) := by
  rintro _ ⟨⟩
  exact h

theorem orElse (h : Rejects found) (h' : Rejects found') : Rejects (found <|> found') := by
  cases found with
  | none => exact h'
  | some d => exact h

theorem firstFailing {code : OutputDiagnosticCode} {path : String → String}
    {checks : List (Bool × String)} (h : code.severity = .error) :
    Rejects (firstFailing ctx code path checks) := by
  intro d hd
  obtain ⟨check, -, hcheck⟩ := List.exists_of_findSome?_eq_some hd
  split_ifs at hcheck
  obtain rfl := Option.some.inj hcheck
  exact h

theorem firstItem {α : Type} {items : List α} {check : Nat → α → Option OutputDiagnostic}
    (h : ∀ index item, Rejects (check index item)) : Rejects (firstItem items check) := by
  intro d hd
  obtain ⟨item, -, hcheck⟩ := List.exists_of_findSome?_eq_some hd
  exact h item.2 item.1 d hcheck

theorem checkNamespace {fieldPath token : String} {expected : Option String} :
    Rejects (checkNamespace ctx fieldPath token expected) := by
  unfold Output.checkNamespace
  split
  · exact none
  · split_ifs
    · exact none
    · exact some rfl

theorem checkNamespaceShape {kind fieldPath : String} {shape : FieldShape (OutputId kind)}
    {expected : Option String} : Rejects (checkNamespaceShape ctx fieldPath shape expected) := by
  unfold Output.checkNamespaceShape
  split
  · exact checkNamespace
  · exact none

theorem checkShape : Rejects (checkShape ctx envelope) :=
  (firstFailing rfl).orElse ((firstItem fun _ _ => firstFailing rfl).orElse
    (firstItem fun _ _ => firstFailing rfl))

theorem checkMissingRequired : Rejects (checkMissingRequired ctx envelope) := by
  refine (firstFailing rfl).orElse (orElse ?_ ((firstFailing rfl).orElse
    ((firstItem fun _ _ => firstFailing rfl).orElse (firstItem fun _ _ => firstFailing rfl))))
  intro d hd
  obtain ⟨path, -, rfl⟩ := Option.map_eq_some_iff.mp hd
  rfl

theorem checkForbiddenPayload : Rejects (checkForbiddenPayload ctx envelope) := by
  intro d hd
  obtain ⟨name, -, hname⟩ := List.exists_of_findSome?_eq_some hd
  split_ifs at hname
  obtain rfl := Option.some.inj hname
  rfl

theorem checkNamespaces : Rejects (checkNamespaces ctx envelope) := by
  refine checkNamespaceShape.orElse (orElse ?_ ((firstItem fun _ _ => ?_).orElse
    (firstItem fun _ _ => checkNamespaceShape)))
  · unfold checkScopeNamespaces
    split
    · exact checkNamespace.orElse (checkNamespace.orElse checkNamespace)
    · exact none
  · exact checkNamespaceShape.orElse (checkNamespaceShape.orElse (checkNamespaceShape.orElse
      (checkNamespaceShape.orElse (checkNamespaceShape.orElse checkNamespaceShape))))

section

variable {index : Nat} {record : EvidenceSpanRecord}

theorem checkCitationKey : Rejects (checkCitationKey ctx resolver index citation scope) := by
  unfold Output.checkCitationKey
  split
  · exact none
  · dsimp only
    split
    · exact some rfl
    · exact some rfl
    · exact none

theorem checkPathId {kind name : String} {shape : FieldShape (OutputId kind)}
    {expected : OutputId kind} : Rejects (checkPathId ctx index name shape expected) := by
  unfold Output.checkPathId
  split_ifs
  · exact some rfl
  · exact none

theorem checkParent : Rejects (checkParent ctx index citation envelope) := by
  unfold Output.checkParent
  split
  · split_ifs
    · exact some rfl
    · exact none
  · exact none

theorem checkSourcePath : Rejects (checkSourcePath ctx resolver index citation record) := by
  refine checkPathId.orElse ?_
  split
  · exact some rfl
  · dsimp only
    split_ifs
    · exact some rfl
    · exact some rfl
    · exact checkPathId

theorem checkEdition {legalUnit : LegalUnitRecord} :
    Rejects (checkEdition ctx resolver index citation scope record legalUnit) := by
  unfold Output.checkEdition
  dsimp only
  split
  · exact some rfl
  · split_ifs
    · exact some rfl
    · exact some rfl
    · split
      · split_ifs
        · exact some rfl
        · exact none
      · exact some rfl

theorem checkLegalPath : Rejects (checkLegalPath ctx resolver index citation scope record) := by
  refine checkPathId.orElse ?_
  split
  · exact some rfl
  · exact checkEdition

theorem checkEvidence :
    Rejects (checkEvidence ctx resolver index citation envelope scope) := by
  unfold Output.checkEvidence
  split
  · exact none
  · dsimp only
    split
    · exact some rfl
    · split_ifs
      · exact some rfl
      · exact checkParent.orElse (checkSourcePath.orElse checkLegalPath)

theorem checkCitation : Rejects (checkCitation ctx resolver index citation envelope) := by
  unfold Output.checkCitation
  split
  · exact checkCitationKey.orElse checkEvidence
  · exact none

theorem checkAnswerClaim {keys : List CitationKey} :
    Rejects (checkAnswerClaim ctx keys index claim) := by
  unfold Output.checkAnswerClaim
  dsimp only
  split
  · exact some rfl
  · split_ifs
    · exact some rfl
    · exact none

end

theorem firstDiagnostic : Rejects (firstDiagnostic ctx envelope resolver) :=
  checkShape.orElse (checkMissingRequired.orElse (checkForbiddenPayload.orElse
    (checkNamespaces.orElse ((firstItem fun _ _ => checkCitation).orElse
      ((firstItem fun _ _ => checkAnswerClaim).orElse
        (firstItem fun _ _ => firstFailing rfl))))))

end Rejects

/-! ## The verdict -/

/-- The verdict of the rules: the validator never breaks the invariants of an outcome. -/
def verdict (resolver : OutputIdResolutionPort) (envelope : RetrievalOutputEnvelope) :
    OutputVerdict :=
  if firstDiagnostic (.fromEnvelope envelope) envelope resolver = none then
    if envelope.outputKind.value? = some .scopedNoAnswer then
      if (valueOrEmpty envelope.citations).isEmpty ∧ (valueOrEmpty envelope.answerClaims).isEmpty
      then .acceptedScopedNoAnswer
      else .rejected
    else .accepted
  else .rejected

theorem reject_ok {d : OutputDiagnostic} (h : d.severity = .error) :
    reject d = .ok ⟨.rejected, [d]⟩ := by
  simp [reject, ValidationOutcome.checked, h]

theorem validateRetrievalOutput_verdict (envelope : RetrievalOutputEnvelope)
    (resolver : OutputIdResolutionPort) :
    ∃ diagnostics, validateRetrievalOutput envelope resolver =
      .ok ⟨verdict resolver envelope, diagnostics⟩ := by
  unfold validateRetrievalOutput verdict
  dsimp only
  cases hfirst : firstDiagnostic (.fromEnvelope envelope) envelope resolver with
  | some d => exact ⟨[d], reject_ok (Rejects.firstDiagnostic d hfirst)⟩
  | none =>
    rw [if_pos rfl]
    dsimp only
    split_ifs with hkind hitems hempty hempty
    · simp [hempty] at hitems
    · exact ⟨_, reject_ok rfl⟩
    · exact ⟨_, rfl⟩
    · refine absurd ?_ hempty
      simpa using hitems
    · exact ⟨[], rfl⟩

/-- The order of the citations and of the claims is nothing to the verdict. -/
theorem verdict_reordered (h : Reordered envelope envelope') :
    verdict resolver envelope' = verdict resolver envelope := by
  have hfirst : firstDiagnostic (.fromEnvelope envelope) envelope' resolver = none ↔
      firstDiagnostic (.fromEnvelope envelope) envelope resolver = none :=
    firstDiagnostic_reordered h
  obtain ⟨citations, answerClaims, rfl, hcitations, hclaims⟩ := h
  have hcitationsEmpty := hcitations.perm.isEmpty_eq
  have hclaimsEmpty := hclaims.perm.isEmpty_eq
  unfold verdict
  dsimp only
  rw [hcitationsEmpty, hclaimsEmpty]
  exact if_congr hfirst rfl rfl

end LawNexus.Output
