import LawNexus.Output.Validate
import Mathlib.Data.List.AList

/-!
# The fixture graph

`FixtureGraphResolver`, the resolver in memory, with the graph that it is built with.
-/

namespace LawNexus.Output

structure FixtureGraphResolver where
  citationBindings : AList fun _ : OutputScopeId × CitationKey => List EvidenceSpanId
  evidenceSpans : AList fun _ : EvidenceSpanId => EvidenceSpanRecord
  sourceBlocks : AList fun _ : SourceBlockId => SourceBlockRecord
  sourceDocuments : AList fun _ : SourceDocumentId => SourceDocumentRecord
  legalUnits : AList fun _ : LegalUnitId => LegalUnitRecord
  actEditions : AList fun _ : ActEditionId => ActEditionRecord

/-- Dates of one width compare as texts. -/
def dateInValidityWindow (asOf : String) (edition : ActEditionRecord) : Bool :=
  edition.validFrom ≤ asOf &&
    match edition.validTo with
    | none => true
    | some validTo => asOf ≤ validTo

namespace FixtureGraphResolver

def empty : FixtureGraphResolver := ⟨∅, ∅, ∅, ∅, ∅, ∅⟩

variable (resolver : FixtureGraphResolver)

def addSourceDocument (id : SourceDocumentId) (corpusId : SourceCorpusId) :
    FixtureGraphResolver :=
  { resolver with sourceDocuments := resolver.sourceDocuments.insert id ⟨corpusId⟩ }

def addSourceBlock (id : SourceBlockId) (documentId : SourceDocumentId) : FixtureGraphResolver :=
  { resolver with sourceBlocks := resolver.sourceBlocks.insert id ⟨documentId⟩ }

def addActEdition (id : ActEditionId) (legalActId : LegalActId) (validFrom : String)
    (validTo : Option String) : FixtureGraphResolver :=
  { resolver with actEditions := resolver.actEditions.insert id ⟨legalActId, validFrom, validTo⟩ }

def addLegalUnit (id : LegalUnitId) (legalActId : LegalActId) (actEditionId : ActEditionId) :
    FixtureGraphResolver :=
  { resolver with legalUnits := resolver.legalUnits.insert id ⟨actEditionId, legalActId⟩ }

def addEvidenceSpan (id : EvidenceSpanId) (record : EvidenceSpanRecord) : FixtureGraphResolver :=
  { resolver with evidenceSpans := resolver.evidenceSpans.insert id record }

def addCitationBinding (scopeId : OutputScopeId) (citationKey : CitationKey)
    (evidenceSpanId : EvidenceSpanId) : FixtureGraphResolver :=
  let bound := (resolver.citationBindings.lookup (scopeId, citationKey)).getD []
  { resolver with
    citationBindings :=
      resolver.citationBindings.insert (scopeId, citationKey) (bound ++ [evidenceSpanId]) }

def resolveCitationKey (scopeId : OutputScopeId) (citationKey : CitationKey) :
    CitationKeyResolution :=
  match resolver.citationBindings.lookup (scopeId, citationKey) with
  | some [only] => .unique only
  | some _ => .ambiguous
  | none => .unresolved

def resolveValidEdition (legalUnitId : LegalUnitId) (asOfDate : ScopeAsOfDate) :
    Option ActEditionId := do
  let unit ← resolver.legalUnits.lookup legalUnitId
  let edition ← resolver.actEditions.lookup unit.actEditionId
  if dateInValidityWindow asOfDate.asStr edition then some unit.actEditionId else none

def isSuperseded (evidenceSpanId : EvidenceSpanId) : Bool :=
  match resolver.evidenceSpans.lookup evidenceSpanId with
  | some record => record.status = .superseded
  | none => false

def port : OutputIdResolutionPort where
  resolveCitationKey := resolver.resolveCitationKey
  resolveEvidenceSpan id := resolver.evidenceSpans.lookup id
  resolveSourceBlock id := resolver.sourceBlocks.lookup id
  resolveSourceDocument id := resolver.sourceDocuments.lookup id
  resolveLegalUnit id := resolver.legalUnits.lookup id
  resolveActEdition id := resolver.actEditions.lookup id
  resolveValidEdition := resolver.resolveValidEdition
  isSuperseded id _ := resolver.isSuperseded id

/-! ## The graph -/

def consultant : SourceDocumentId := ⟨"SD-M012-44FZ-CONSULTANT", rfl⟩
def garant : SourceDocumentId := ⟨"SD-M012-44FZ-GARANT", rfl⟩
def missingDocument : SourceDocumentId := ⟨"SD-M012-MISSING-DOCUMENT", rfl⟩
def corpus : SourceCorpusId := ⟨"CORPUS-M012-FIXTURE", rfl⟩
def block001 : SourceBlockId := ⟨"SB-M012-001", rfl⟩
def block002 : SourceBlockId := ⟨"SB-M012-002", rfl⟩
def blockOrphan : SourceBlockId := ⟨"SB-M012-ORPHAN", rfl⟩
def edition2024 : ActEditionId := ⟨"ED-M012-44FZ-2024-01-01", rfl⟩
def edition2023 : ActEditionId := ⟨"ED-M012-44FZ-2023-01-01", rfl⟩
def act44 : LegalActId := ⟨"LA-M012-44FZ", rfl⟩
def art001 : LegalUnitId := ⟨"LU-M012-44FZ-ART-001", rfl⟩
def art001Old : LegalUnitId := ⟨"LU-M012-44FZ-ART-001-OLD", rfl⟩
def missingUnit : LegalUnitId := ⟨"LU-M012-MISSING-UNIT", rfl⟩
def span001 : EvidenceSpanId := ⟨"EV-M012-001", rfl⟩
def span002 : EvidenceSpanId := ⟨"EV-M012-002", rfl⟩
def spanSuperseded : EvidenceSpanId := ⟨"EV-M012-SUPERSEDED", rfl⟩
def spanOrphanSource : EvidenceSpanId := ⟨"EV-M012-ORPHAN-SOURCE", rfl⟩
def spanOrphanLegal : EvidenceSpanId := ⟨"EV-M012-ORPHAN-LEGAL", rfl⟩
def scope44 : OutputScopeId := ⟨"SCOPE-M012-44FZ-2024-001", rfl⟩
def key001 : CitationKey := ⟨"CIT-M012-001", rfl⟩
def key002 : CitationKey := ⟨"CIT-M012-002", rfl⟩
def keyAmbig : CitationKey := ⟨"CIT-M012-AMBIG", rfl⟩
def keySuperseded : CitationKey := ⟨"CIT-M012-SUPERSEDED", rfl⟩
def keyOrphanSource : CitationKey := ⟨"CIT-M012-ORPHAN-SOURCE", rfl⟩
def keyOrphanLegal : CitationKey := ⟨"CIT-M012-ORPHAN-LEGAL", rfl⟩

def m012 : FixtureGraphResolver :=
  empty.addSourceDocument consultant corpus
    |>.addSourceDocument garant corpus
    |>.addSourceBlock block001 consultant
    |>.addSourceBlock block002 garant
    |>.addSourceBlock blockOrphan missingDocument
    |>.addActEdition edition2024 act44 "2024-01-01" none
    |>.addActEdition edition2023 act44 "2023-01-01" (some "2023-12-31")
    |>.addLegalUnit art001 act44 edition2024
    |>.addLegalUnit art001Old act44 edition2023
    |>.addEvidenceSpan span001 ⟨block001, consultant, art001, edition2024, .active⟩
    |>.addEvidenceSpan span002 ⟨block002, garant, art001, edition2024, .active⟩
    |>.addEvidenceSpan spanSuperseded
      ⟨block001, consultant, art001Old, edition2023, .superseded⟩
    |>.addEvidenceSpan spanOrphanSource
      ⟨blockOrphan, missingDocument, art001, edition2024, .orphaned⟩
    |>.addEvidenceSpan spanOrphanLegal ⟨block002, garant, missingUnit, edition2024, .orphaned⟩
    |>.addCitationBinding scope44 key001 span001
    |>.addCitationBinding scope44 key002 span002
    |>.addCitationBinding scope44 keyAmbig span001
    |>.addCitationBinding scope44 keyAmbig span002
    |>.addCitationBinding scope44 keySuperseded spanSuperseded
    |>.addCitationBinding scope44 keyOrphanSource spanOrphanSource
    |>.addCitationBinding scope44 keyOrphanLegal spanOrphanLegal

end FixtureGraphResolver

end LawNexus.Output
