import LawNexus.Decode.Lexer
import Mathlib.Data.Prod.Lex

/-!
# Reference captures

`capture_lawrefs` of `ln-decode`: seven matchers over the tokens of a block, the overlap
policies, the sort, the arbitration of pairs and the ceiling. An index off the tokens is a panic.
-/

namespace LawNexus.Decode

open Utf8 Loops

/-! ## The precedence table -/

/-- The one policy that the table's parser accepts. -/
def OVERLAP_POLICIES : List String := ["drop"]

/-- The parsed `npa_lawref_precedence` table, as far as a capture reads it. -/
structure LawRefPrecedence where
  overlapDateDocnoInsideAmendment : String
  overlapSamePatternContainment : String
  chainAbbrevIds : List String
  amendmentAbbrevIds : List String
  quotedMarkerAbbrevIds : List String
  fullwordTails : List String
  anaphoraHeads : List String
  dateDocnoPolicy : overlapDateDocnoInsideAmendment ∈ OVERLAP_POLICIES
  samePatternPolicy : overlapSamePatternContainment ∈ OVERLAP_POLICIES

def PATTERN_CHAIN : String := "abbrev-hier-chain"
def PATTERN_AMENDMENT : String := "abbrev-amendment-window"
def PATTERN_DATE_DOCNO : String := "date-docno-window"
def PATTERN_FULLWORD : String := "fullword-ref"
def PATTERN_QUOTED_ENUM : String := "quoted-enum"
def PATTERN_RANGE : String := "range_candidate"
def PATTERN_ANAPHORA : String := "anaphora_candidate"

/-! ## Candidates -/

/-- The eight slots of a reference. -/
structure LawRefSlots where
  markerChain : List String := []
  hierNums : List (List Char) := []
  date : Option (List Char) := none
  docNo : Option (List Char) := none
  lawCode : Option (List Char) := none
  anaphora : Option (List Char) := none
  range : Option (List Char × List Char) := none
  quotedEnum : Option (List Char) := none
deriving DecidableEq, Repr

structure LawRef where
  span : TextSpan
  patternId : String
  tokenKindSeq : String
  slots : LawRefSlots
deriving DecidableEq, Repr

structure RawCapture where
  start : Nat
  stop : Nat
  patternId : String
  tokenKindSeq : String
  slots : LawRefSlots
deriving DecidableEq, Repr

/-- The names of the kinds with commas between them. -/
def kindSeq (tokens : List NpaToken) : String :=
  ",".intercalate (tokens.map (·.kind.asStr))

def orBounds {α : Type} : Option α → Except Panic α
  | some a => .ok a
  | none => .error .outOfBounds

@[simp] theorem orBounds_some {α : Type} (a : α) : orBounds (some a) = .ok a := rfl

/-- `RawCapture::new` over the tokens from `first` to `last`, both included. -/
def RawCapture.new (tokens : List NpaToken) (first last : Nat) (patternId : String)
    (slots : LawRefSlots) : Except Panic RawCapture := do
  let head ← orBounds tokens[first]?
  let tail ← orBounds tokens[last]?
  if first ≤ last + 1 then
    .ok { start := head.span.start, stop := tail.span.stop, patternId
          tokenKindSeq := kindSeq ((tokens.drop first).take (last + 1 - first)), slots }
  else .error .outOfBounds

def RawCapture.mint (raw : RawCapture) : Option LawRef :=
  if h : raw.start < raw.stop then
    some ⟨⟨raw.start, raw.stop, h⟩, raw.patternId, raw.tokenKindSeq, raw.slots⟩
  else none

/-! ## Tokens by their index -/

def kindAt (tokens : List NpaToken) (index : Nat) : Option TokenKind :=
  tokens[index]?.map (·.kind)

def isSpace (tokens : List NpaToken) (index : Nat) : Bool := kindAt tokens index = some .Space

def lexemeAt (tokens : List NpaToken) (src : List Char) (index : Nat) :
    Except Panic (List Char) := do
  (← orBounds tokens[index]?).lexeme src

def isNumberToken (token : NpaToken) (src : List Char) : Except Panic Bool :=
  if token.kind = .HierNum then .ok true
  else if token.kind = .Word then do
    let lexeme ← token.lexeme src
    .ok (!lexeme.isEmpty && (bytes lexeme).all isAsciiDigit)
  else .ok false

/-- A number token, `false` behind the last one. -/
def isNumberAt (tokens : List NpaToken) (src : List Char) (index : Nat) : Except Panic Bool :=
  tokens[index]?.elim (.ok false) (isNumberToken · src)

/-- A token of the kind whose lexeme passes the test, `false` behind the last one. -/
def lexemeAtIs (tokens : List NpaToken) (src : List Char) (index : Nat) (kind : TokenKind)
    (test : List Char → Bool) : Except Panic Bool :=
  if kindAt tokens index = some kind then do .ok (test (← lexemeAt tokens src index))
  else .ok false

def allowlistedAbbrev (tokens : List NpaToken) (index : Nat) (ids : List String) :
    Option String := do
  let token ← tokens[index]?
  if token.kind ≠ .Abbrev then none
  else
    let id ← token.abbrevId
    ids.find? (· = id.asStr)

/-- The first token that passes, behind fillers only. -/
def scanFiller (pred : NpaToken → Bool) : List NpaToken → Nat → Option Nat
  | [], _ => none
  | token :: tokens, index =>
    if pred token then some index
    else if token.kind ≠ .Space ∧ token.kind ≠ .Word ∧ token.kind ≠ .Punct then none
    else scanFiller pred tokens (index + 1)

def scanFillerForward (tokens : List NpaToken) (anchor maxDistance : Nat)
    (pred : NpaToken → Bool) : Option Nat :=
  scanFiller pred ((tokens.drop (anchor + 1)).take maxDistance) (anchor + 1)

/-! ## Matchers -/

theorem lt_length_of_isSpace {tokens : List NpaToken} {index : Nat}
    (h : isSpace tokens index = true) : index < tokens.length := by
  by_contra hge
  rw [isSpace, kindAt, List.getElem?_eq_none (Nat.le_of_not_lt hge)] at h
  exact nomatch h

/-- The links behind the last number of a chain: the markers, the numbers and the last index. -/
def chainLinks (tokens : List NpaToken) (src : List Char) (ids : List String)
    (markers : List String) (hierNums : List (List Char)) (last : Nat) :
    Except Panic (List String × List (List Char) × Nat) :=
  if _h : isSpace tokens (last + 1) then
    match allowlistedAbbrev tokens (last + 2) ids with
    | none => .ok (markers, hierNums, last)
    | some linkMarker =>
      if isSpace tokens (last + 3) then do
        if ← isNumberAt tokens src (last + 4) then
          let hierNum ← lexemeAt tokens src (last + 4)
          chainLinks tokens src ids (markers ++ [linkMarker]) (hierNums ++ [hierNum]) (last + 4)
        else .ok (markers, hierNums, last)
      else .ok (markers, hierNums, last)
  else .ok (markers, hierNums, last)
termination_by tokens.length - last
decreasing_by
  have := lt_length_of_isSpace _h
  omega

def matchAbbrevHierChain (tokens : List NpaToken) (index : Nat) (precedence : LawRefPrecedence)
    (src : List Char) : Except Panic (Option RawCapture) :=
  match allowlistedAbbrev tokens index precedence.chainAbbrevIds with
  | none => .ok none
  | some firstMarker =>
    if isSpace tokens (index + 1) then do
      if ← isNumberAt tokens src (index + 2) then
        let hierNum ← lexemeAt tokens src (index + 2)
        let (markers, hierNums, last) ←
          chainLinks tokens src precedence.chainAbbrevIds [firstMarker] [hierNum] (index + 2)
        let slots : LawRefSlots := { markerChain := markers, hierNums }
        (RawCapture.new tokens index last PATTERN_CHAIN slots).map some
      else .ok none
    else .ok none

def matchAbbrevAmendmentWindow (tokens : List NpaToken) (index : Nat)
    (precedence : LawRefPrecedence) (src : List Char) : Except Panic (Option RawCapture) :=
  if (allowlistedAbbrev tokens index precedence.amendmentAbbrevIds).isNone then .ok none
  else
    match scanFillerForward tokens index 16 (·.kind = .Date) with
    | none => .ok none
    | some dateIndex =>
      match scanFillerForward tokens dateIndex 4 (·.kind = .DocNo) with
      | none => .ok none
      | some docNoIndex => do
        let date ← lexemeAt tokens src dateIndex
        let docNo ← lexemeAt tokens src docNoIndex
        let slots : LawRefSlots := { date := some date, docNo := some docNo }
        (RawCapture.new tokens index docNoIndex PATTERN_AMENDMENT slots).map some

def matchDateDocnoWindow (tokens : List NpaToken) (index : Nat) (src : List Char) :
    Except Panic (Option RawCapture) :=
  if kindAt tokens index ≠ some .Date then .ok none
  else
    match scanFillerForward tokens index 4 fun t => t.kind = .DocNo || t.kind = .LawCode with
    | none => .ok none
    | some hit => do
      let date ← lexemeAt tokens src index
      let extra ← lexemeAt tokens src hit
      let slots : LawRefSlots :=
        if kindAt tokens hit = some .DocNo then { date := some date, docNo := some extra }
        else { date := some date, lawCode := some extra }
      (RawCapture.new tokens index hit PATTERN_DATE_DOCNO slots).map some

def matchFullwordRef (tokens : List NpaToken) (index : Nat) (precedence : LawRefPrecedence)
    (src : List Char) : Except Panic (Option RawCapture) := do
  let tail ← lexemeAtIs tokens src index .Word fun lexeme =>
    precedence.fullwordTails.any (·.toList = lexeme)
  if !tail || !isSpace tokens (index + 1) then .ok none
  else
    let number ← isNumberAt tokens src (index + 2)
    let docNo := kindAt tokens (index + 2) = some .DocNo
    if docNo ∨ number then
      let lexeme ← lexemeAt tokens src (index + 2)
      let slots : LawRefSlots :=
        if docNo then { docNo := some lexeme } else { hierNums := [lexeme] }
      (RawCapture.new tokens index (index + 2) PATTERN_FULLWORD slots).map some
    else .ok none

/-- The head three tokens before a quoted letter. -/
def quotedHead (tokens : List NpaToken) (src : List Char) (precedence : LawRefPrecedence)
    (index : Nat) : Except Panic Bool := do
  let head ← orBounds tokens[index]?
  if head.kind = .Abbrev then
    .ok (head.abbrevId.any fun id => precedence.quotedMarkerAbbrevIds.any (· = id.asStr))
  else if head.kind = .Word then
    .ok ("подпункт".toList.isPrefixOf (← head.lexeme src))
  else .ok false

def matchQuotedEnum (tokens : List NpaToken) (index : Nat) (precedence : LawRefPrecedence)
    (src : List Char) : Except Panic (Option RawCapture) :=
  if index < 3 then .ok none
  else if kindAt tokens index ≠ some .EnumMarker then .ok none
  else do
    let opened ← lexemeAtIs tokens src (index - 1) .Punct (· = ['"'])
    let closed ← lexemeAtIs tokens src (index + 1) .Punct (·.head? = some '"')
    if !opened || !closed then .ok none
    else if ← quotedHead tokens src precedence (index - 3) then
      let letter ← lexemeAt tokens src index
      let slots : LawRefSlots := { quotedEnum := some letter }
      (RawCapture.new tokens (index - 3) (index + 1) PATTERN_QUOTED_ENUM slots).map some
    else .ok none

def isDash (lexeme : List Char) : Bool := lexeme = ['-'] || lexeme = ['–'] || lexeme = ['—']

/-- The last token before the index that is no space. -/
def lastNonSpace (tokens : List NpaToken) : Nat → Option Nat
  | 0 => none
  | index + 1 => if isSpace tokens index then lastNonSpace tokens index else some index

/-- A long dash takes a word or an abbreviation before the range along. -/
def rangeStart (tokens : List NpaToken) (index : Nat) (dash : List Char) : Nat :=
  if dash = ['–'] ∨ dash = ['—'] then
    ((lastNonSpace tokens index).filter fun candidate =>
      kindAt tokens candidate = some .Word ∨ kindAt tokens candidate = some .Abbrev).getD index
  else index

def matchRangeCandidate (tokens : List NpaToken) (index : Nat) (src : List Char) :
    Except Panic (Option RawCapture) :=
  if kindAt tokens index ≠ some .HierNum || !isSpace tokens (index + 1) then .ok none
  else do
    let dashed ← lexemeAtIs tokens src (index + 2) .Punct isDash
    if !dashed || !isSpace tokens (index + 3) || kindAt tokens (index + 4) ≠ some .HierNum then
      .ok none
    else
      let low ← lexemeAt tokens src index
      let high ← lexemeAt tokens src (index + 4)
      let dash ← lexemeAt tokens src (index + 2)
      let slots : LawRefSlots := { range := some (low, high) }
      (RawCapture.new tokens (rangeStart tokens index dash) (index + 4) PATTERN_RANGE slots).map
        some

def matchAnaphoraCandidate (tokens : List NpaToken) (index : Nat)
    (precedence : LawRefPrecedence) (src : List Char) : Except Panic (Option RawCapture) := do
  let headed ← lexemeAtIs tokens src index .Word fun lexeme =>
    precedence.anaphoraHeads.any (·.toList = lexeme)
  if !headed then .ok none
  else
    let particle ← lexemeAtIs tokens src (index + 2) .Word (· = ['ж', 'е'])
    let headsEnd := if isSpace tokens (index + 1) && particle then index + 2 else index
    if !isSpace tokens (headsEnd + 1) || kindAt tokens (headsEnd + 2) ≠ some .Word then .ok none
    else
      let head ← lexemeAt tokens src index
      let rest ← lexemeAt tokens src headsEnd
      let anaphora := if headsEnd ≠ index then head ++ ' ' :: rest else head
      let slots : LawRefSlots := { anaphora := some anaphora }
      (RawCapture.new tokens index (headsEnd + 2) PATTERN_ANAPHORA slots).map some

/-- The seven matchers at one index, in the order they fire. -/
def matchers (tokens : List NpaToken) (precedence : LawRefPrecedence) (src : List Char)
    (index : Nat) : List (Except Panic (Option RawCapture)) :=
  [matchAbbrevHierChain tokens index precedence src,
    matchAbbrevAmendmentWindow tokens index precedence src,
    matchDateDocnoWindow tokens index src,
    matchFullwordRef tokens index precedence src,
    matchQuotedEnum tokens index precedence src,
    matchRangeCandidate tokens index src,
    matchAnaphoraCandidate tokens index precedence src]

/-- Every matcher at every index. -/
def fireAll (tokens : List NpaToken) (precedence : LawRefPrecedence) (src : List Char) :
    Except Panic (List RawCapture) := do
  let found ← ((List.range tokens.length).flatMap (matchers tokens precedence src)).mapM id
  .ok found.reduceOption

/-! ## Overlaps -/

def strictlyContained (candidate other : RawCapture) : Bool :=
  (other.start < candidate.start && candidate.stop ≤ other.stop) ||
    (other.start ≤ candidate.start && candidate.stop < other.stop)

def dropDateDocno (raw : List RawCapture) : List RawCapture :=
  raw.filter fun candidate => candidate.patternId ≠ PATTERN_DATE_DOCNO ||
    !raw.any fun other => other.patternId = PATTERN_AMENDMENT && strictlyContained candidate other

def dropSamePattern (raw : List RawCapture) : List RawCapture :=
  raw.filter fun candidate => !raw.any fun other =>
    other.patternId = candidate.patternId && strictlyContained candidate other

def applyOverlapPrecedence (raw : List RawCapture) (precedence : LawRefPrecedence) :
    List RawCapture :=
  let raw := if precedence.overlapDateDocnoInsideAmendment = "drop" then dropDateDocno raw else raw
  if precedence.overlapSamePatternContainment = "drop" then dropSamePattern raw else raw

/-! ## Pairs and the ceiling -/

inductive SpanRelation where
  | exact
  | containment
  | partialOverlap
  | disjoint
deriving DecidableEq, Repr

def spanRelation (a b : Nat × Nat) : SpanRelation :=
  if a.1 = b.1 ∧ a.2 = b.2 then .exact
  else if (a.1 ≤ b.1 ∧ b.2 ≤ a.2) ∨ (b.1 ≤ a.1 ∧ a.2 ≤ b.2) then .containment
  else if a.1 < b.2 ∧ b.1 < a.2 then .partialOverlap
  else .disjoint

inductive PairDiagnostic where
  | duplicateMatcherEvidenceMerged
  | exactSpanSlotConflict
  | containmentWithoutPairPolicy
  | partialOverlapConflict
deriving DecidableEq, Repr

inductive PairOutcome where
  | retainBoth (diagnostic : Option PairDiagnostic)
  | mergeEvidence (diagnostic : PairDiagnostic)
  | conflictSet (diagnostic : PairDiagnostic)
deriving DecidableEq, Repr

def arbitratePair (a b : Nat × Nat) (slotsEqual : Bool) : PairOutcome :=
  match spanRelation a b with
  | .exact =>
    if slotsEqual then .mergeEvidence .duplicateMatcherEvidenceMerged
    else .conflictSet .exactSpanSlotConflict
  | .containment => .retainBoth (some .containmentWithoutPairPolicy)
  | .partialOverlap => .conflictSet .partialOverlapConflict
  | .disjoint => .retainBoth none

def PROPOSED_CANDIDATE_CEILING : Nat := 1024

inductive CandidateLimitOutcome where
  | accepted
  | limitReached
deriving DecidableEq, Repr

def onCandidateLimit (acceptedCount : Nat) : CandidateLimitOutcome :=
  if acceptedCount < PROPOSED_CANDIDATE_CEILING then .accepted else .limitReached

/-! ## The batch -/

structure LawRefCaptureBatch where
  captures : List LawRef
  diagnostics : List PairDiagnostic
  limit : CandidateLimitOutcome
  refusedAfterLimit : Nat
deriving DecidableEq, Repr

def LawRefCaptureBatch.empty : LawRefCaptureBatch := ⟨[], [], .accepted, 0⟩

/-- The diagnostics against the captures so far, and whether one of them takes the candidate. -/
def arbitrate (candidate : RawCapture) : List LawRef → List PairDiagnostic × Bool
  | [] => ([], false)
  | prior :: rest =>
    match arbitratePair (prior.span.start, prior.span.stop) (candidate.start, candidate.stop)
        (prior.slots = candidate.slots) with
    | .mergeEvidence diagnostic => ([diagnostic], true)
    | .conflictSet diagnostic | .retainBoth (some diagnostic) =>
      let (diagnostics, merged) := arbitrate candidate rest
      (diagnostic :: diagnostics, merged)
    | .retainBoth none => arbitrate candidate rest

/-- One turn of the loop over the candidates. -/
def LawRefCaptureBatch.push (batch : LawRefCaptureBatch) (candidate : RawCapture) :
    LawRefCaptureBatch :=
  let (found, merged) := arbitrate candidate batch.captures
  let batch := { batch with diagnostics := batch.diagnostics ++ found }
  if merged then batch
  else
    match onCandidateLimit batch.captures.length with
    | .accepted =>
      match candidate.mint with
      | some capture => { batch with captures := batch.captures ++ [capture] }
      | none => batch
    | .limitReached =>
      { batch with limit := .limitReached, refusedAfterLimit := batch.refusedAfterLimit + 1 }

/-- The key of the sort. -/
def captureKey (raw : RawCapture) : Lex (Nat × Lex (Nat × String)) :=
  toLex (raw.start, toLex (raw.stop, raw.patternId))

/-- The candidates that are left after the overlap policies, in the order of the sort. -/
def rawCandidates (tokens : List NpaToken) (precedence : LawRefPrecedence) (src : List Char) :
    Except Panic (List RawCapture) := do
  let raw ← fireAll tokens precedence src
  .ok (sortBy captureKey (applyOverlapPrecedence raw precedence))

def captureLawrefs (lexicon : Lexicon) (precedence : LawRefPrecedence) (src : List Char) :
    Except Panic LawRefCaptureBatch := do
  let tokens ← lex lexicon src
  if tokens.isEmpty then .ok .empty
  else
    let raw ← rawCandidates tokens precedence src
    .ok (raw.foldl LawRefCaptureBatch.push .empty)

end LawNexus.Decode
