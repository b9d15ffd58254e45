import LawNexus.Loops
import LawNexus.Semantic.Tokens
import LawNexus.Texts
import Mathlib.Data.List.Lex
import Mathlib.Data.Prod.Lex

/-!
# Claims of a block

The cues, the participants and the extraction of `ln-temporal/src/semantic_scope.rs`.
-/

namespace LawNexus.Semantic

open Utf8 Ordinals Loops

/-! ## Claims -/

inductive SemanticClaimKind where
  | actor
  | action
  | object
  | polarity
  | condition
  | exception
  | temporalQualifier
deriving DecidableEq, Repr

/-- The place of a kind in the derived order. -/
def SemanticClaimKind.rank : SemanticClaimKind → Nat
  | .actor => 0
  | .action => 1
  | .object => 2
  | .polarity => 3
  | .condition => 4
  | .exception => 5
  | .temporalQualifier => 6

inductive ClaimError where
  | emptySpan
  | missingEvidence
  | evidenceOutsideClaim
deriving DecidableEq, Repr

structure TextSpan where
  start : Nat
  stop : Nat
  ordered : start ≤ stop
deriving DecidableEq, Repr

def TextSpan.new (start stop : Nat) : Option TextSpan :=
  if h : start ≤ stop then some ⟨start, stop, h⟩ else none

/-- An anchor of a claim: not empty, and inside of the span of the claim. -/
def Anchored (span anchor : TextSpan) : Prop :=
  anchor.start < anchor.stop ∧ span.start ≤ anchor.start ∧ anchor.stop ≤ span.stop
deriving Decidable

structure SemanticClaim where
  kind : SemanticClaimKind
  block : Nat
  span : TextSpan
  evidence : List TextSpan
  inhabited : span.start < span.stop
  evidenced : evidence ≠ []
  anchored : ∀ anchor ∈ evidence, Anchored span anchor
deriving DecidableEq, Repr

def SemanticClaim.new (kind : SemanticClaimKind) (block : Nat) (span : TextSpan)
    (evidence : List TextSpan) : Except ClaimError SemanticClaim :=
  if hspan : span.start < span.stop then
    if hevidence : evidence ≠ [] then
      if hanchored : ∀ anchor ∈ evidence, Anchored span anchor then
        .ok ⟨kind, block, span, evidence, hspan, hevidence, hanchored⟩
      else .error .evidenceOutsideClaim
    else .error .missingEvidence
  else .error .emptySpan

/-- The derived order of the claims. -/
def SemanticClaim.key (claim : SemanticClaim) :
    Nat ×ₗ Nat ×ₗ (Nat ×ₗ Nat) ×ₗ List (Nat ×ₗ Nat) :=
  toLex (claim.kind.rank, toLex (claim.block, toLex (toLex (claim.span.start, claim.span.stop),
    claim.evidence.map fun anchor => toLex (anchor.start, anchor.stop))))

structure ClaimLimit where
  limit : Nat
  attempted : Nat
deriving DecidableEq, Repr

structure ExtractionOutcome where
  claims : List SemanticClaim
  limit : Option ClaimLimit
deriving DecidableEq

structure SourceBlock where
  id : Nat
  text : List Char

structure Frame where
  block : Nat

structure AnalysisOverlay where
  frames : List Frame

structure ThisRefEvidence where
  span : TextSpan

/-! ## Cues -/

abbrev Cue := SemanticClaimKind × List String

def cues : List Cue :=
  [(.polarity, ["обязан"]),
   (.polarity, ["должен"]),
   (.polarity, ["вправе"]),
   (.polarity, ["запрещается"]),
   (.polarity, ["shall"]),
   (.polarity, ["must", "not"]),
   (.polarity, ["must"]),
   (.condition, ["если"]),
   (.condition, ["при", "условии"]),
   (.condition, ["provided", "that"]),
   (.exception, ["кроме"]),
   (.exception, ["за", "исключением"]),
   (.exception, ["except"]),
   (.temporalQualifier, ["до"]),
   (.temporalQualifier, ["после"]),
   (.temporalQualifier, ["в", "течение"]),
   (.temporalQualifier, ["с", "момента"]),
   (.temporalQualifier, ["before"]),
   (.temporalQualifier, ["after"])]

def negationParticle : String := "не"

def maxParticipantTokens : Nat := 4

def clauseSeparators : List Char :=
  [',', ';', ':', '.', '!', '?', '(', ')', '[', ']', '\x7b', '\x7d', '«', '»', '„', '“', '”', '—',
    '–']

structure CueMatch where
  kind : SemanticClaimKind
  start : Nat
  stop : Nat
deriving DecidableEq, Repr

def isClauseSeparator (character : Char) : Bool := clauseSeparators.contains character

section

variable (unicode : Unicode) (text : List Char) (tokens : List Token)

/-- The slice of a token is there, because the token is a word. -/
def tokenMatches (token : Token) (expected : String) : Bool :=
  match slice text token.start token.stop with
  | some actual => actual.map unicode.toLowercase = expected.toList.map unicode.toLowercase
  | none => false

def gapHasClauseSeparator (start stop : Nat) : Bool :=
  match slice text start stop with
  | some gap => gap.any isClauseSeparator
  | none => true

def gapIsWhitespace (start stop : Nat) : Bool :=
  match slice text start stop with
  | some gap => gap.all Texts.isWhitespace
  | none => false

/-- The loop of `cue_at`, with the token before the index and the last index that matched. -/
def cueFrom (statement : Nat) (previous : Option Token) (stop index : Nat) :
    List String → Option Nat
  | [] => some stop
  | expected :: rest => do
    let token ← tokens[index]?
    if token.statement ≠ statement ∨ ¬ tokenMatches unicode text token expected then none
    else if previous.any fun last => !gapIsWhitespace text last.stop token.start then none
    else cueFrom statement (some token) index (index + 1) rest

def cueAt (start : Nat) (cue : Cue) : Option Nat := do
  let first ← tokens[start]?
  cueFrom unicode text tokens first.statement none start start cue.2

/-- The longest cue at an index, the first of the table among those of one length. -/
def bestCue (start : Nat) : Option (SemanticClaimKind × Nat) :=
  cues.foldl (fun best cue =>
    match cueAt unicode text tokens start cue with
    | none => best
    | some stop => if best.all (·.2 < stop) then some (cue.1, stop) else best) none

def cueMatches : List CueMatch :=
  (List.range tokens.length).filterMap fun start =>
    (bestCue unicode text tokens start).map fun (kind, stop) => ⟨kind, start, stop⟩

def startOf (index : Nat) : Nat := (tokens[index]?.map (·.start)).getD 0

def stopOf (index : Nat) : Nat := (tokens[index]?.map (·.stop)).getD 0

def statementOf (index : Nat) : Nat := (tokens[index]?.map (·.statement)).getD 0

def isParticle (statement index : Nat) : Bool :=
  tokens[index]?.any fun token =>
    token.statement = statement && tokenMatches unicode text token negationParticle

def negatedRange (cueStarts : List Nat) (matched : CueMatch) : Nat × Nat :=
  if matched.kind ≠ .polarity then (matched.start, matched.stop)
  else
    let statement := statementOf tokens matched.start
    let left := matched.start - 1
    let right := matched.stop + 1
    if 0 < matched.start ∧ left ∉ cueStarts ∧
        gapIsWhitespace text (stopOf tokens left) (startOf tokens matched.start) ∧
        isParticle unicode text tokens statement left then
      (left, matched.stop)
    else if right ∉ cueStarts ∧ isParticle unicode text tokens statement right ∧
        gapIsWhitespace text (stopOf tokens matched.stop) (startOf tokens right) then
      (matched.start, right)
    else (matched.start, matched.stop)

/-! ## Participants -/

/-- A cue start or a clause separator that a participant may not contain. -/
def Blocked (cueStarts : List Nat) (first polarityStart : Nat) : Prop :=
  ∃ index ∈ List.range' first (polarityStart - first), index ∈ cueStarts ∨
    first < index ∧ gapHasClauseSeparator text (stopOf tokens (index - 1)) (startOf tokens index)
deriving Decidable

def participantTokens (starts : List Nat) (polarityStart : Nat) (cueStarts : List Nat) :
    Option (Nat × Nat) := do
  let token ← tokens[polarityStart]?
  let first ← starts[token.statement]?
  if polarityStart < first then none
  else
    let length := polarityStart - first
    if length = 0 ∨ maxParticipantTokens < length then none
    else if Blocked text tokens cueStarts first polarityStart then none
    else some (first, polarityStart - 1)

def tokenSpan (start stop : Nat) : Option TextSpan := do
  let first ← tokens[start]?
  let last ← tokens[stop]?
  (TextSpan.new first.start last.stop).filter fun span => span.start < span.stop

end

def evidenceInBlock (text : List Char) (span : TextSpan) : Bool :=
  span.start < span.stop && span.stop ≤ byteLen text && isCharBoundary text span.start &&
    isCharBoundary text span.stop

def claim (kind : SemanticClaimKind) (block : Nat) (span : TextSpan) : Option SemanticClaim :=
  (SemanticClaim.new kind block span [span]).toOption

/-! ## Extraction -/

section

variable (unicode : Unicode) (block : SourceBlock)

def actorOf (tokens : List Token) (cueStarts : List Nat) (matched : CueMatch) :
    Option SemanticClaim := do
  let (first, last) ← participantTokens block.text tokens (statementStarts tokens) matched.start
    cueStarts
  let span ← tokenSpan tokens first last
  claim .actor block.id span

/-- The loop over the cues, with the statements that have had their first one. -/
def actorsFrom (tokens : List Token) (cueStarts : List Nat) (claimedStatements : List Nat) :
    List CueMatch → List (CueMatch × SemanticClaim)
  | [] => []
  | matched :: rest =>
    let statement := statementOf tokens matched.start
    if matched.kind ≠ .polarity ∨ statement ∈ claimedStatements then
      actorsFrom tokens cueStarts claimedStatements rest
    else
      (actorOf block tokens cueStarts matched).toList.map (matched, ·) ++
        actorsFrom tokens cueStarts (statement :: claimedStatements) rest

/-- The cues of a block with an act, each with its actor. -/
def mintedActors (overlay : AnalysisOverlay) : List (CueMatch × SemanticClaim) :=
  let tokens := tokenize unicode block.text
  let found := cueMatches unicode block.text tokens
  if overlay.frames.any (·.block == block.id) then
    actorsFrom block tokens (found.map (·.start)) [] found
  else []

def thisRefActors (thisRefs : List ThisRefEvidence) : List SemanticClaim :=
  (thisRefs.filter fun evidence => evidenceInBlock block.text evidence.span).filterMap
    fun evidence => claim .actor block.id evidence.span

def cueClaims : List SemanticClaim :=
  let tokens := tokenize unicode block.text
  let found := cueMatches unicode block.text tokens
  found.filterMap fun matched => do
    let (start, stop) := negatedRange unicode block.text tokens (found.map (·.start)) matched
    let span ← tokenSpan tokens start stop
    claim matched.kind block.id span

def extractSemanticClaims (overlay : AnalysisOverlay) (thisRefs : List ThisRefEvidence)
    (maxClaims : Nat) : ExtractionOutcome :=
  let candidates := sortDedup SemanticClaim.key ((mintedActors unicode block overlay).map (·.2) ++
    thisRefActors block thisRefs ++ cueClaims unicode block)
  let claims := candidates.take maxClaims
  ⟨claims, if claims.length < candidates.length then some ⟨maxClaims, candidates.length⟩ else none⟩

end

end LawNexus.Semantic
