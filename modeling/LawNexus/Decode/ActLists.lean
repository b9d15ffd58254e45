import LawNexus.Decode.Leaves
import LawNexus.Decode.Sentences

/-!
# Act lists

`extract_act_list_frames` of `ln-decode/src/local_grammar.rs`: the dates of a block are grouped
by their sentence and by the act word in front of them, the captured ones first, and each group
is one frame.
-/

namespace LawNexus.Decode

open Utf8 Loops

/-! ## Frames -/

inductive EnumerationState where
  | notEvaluated
  | candidate
  | compatible
  | conflicting
  | incomplete
  | rejected
deriving DecidableEq, Repr

inductive FrameDiagnostic where
  | frameMemberLimitReached
  | conflictingFramesRetained
  | ownerUnresolved
  | grammarContractRefused
  | typeUnresolved
deriving DecidableEq, Repr

/-- What a member says, and where it stands. -/
structure CapturedHeadFields where
  value : List Char
  valueSpan : TextSpan
  date : Option (List Char)
  dateSpan : Option TextSpan
  docNo : Option (List Char)
  docNoSpan : Option TextSpan
  state : EnumerationState
deriving DecidableEq, Repr

structure FrameMember extends CapturedHeadFields where
  derivation : DerivationSource
  evidence : List TextSpan
deriving DecidableEq, Repr

structure FrameBounds where
  maxMembers : Nat
  maxExpandedCandidates : Nat
deriving DecidableEq, Repr

/-- The whole record of a frame: `CoordinatingFrame` is what the overlay reads of it. -/
structure ActListFrame extends CoordinatingFrame where
  block : Nat
  members : List FrameMember
  separators : List TextSpan
  alternatives : List FrameMember
  bounds : FrameBounds
  diagnostic : Option FrameDiagnostic
deriving DecidableEq, Repr

def PROPOSED_MAX_FRAME_MEMBERS : Nat := 64
def PROPOSED_MAX_EXPANDED_CANDIDATES : Nat := 64

def ACT_TYPE_LEMMAS : List String :=
  ["закон", "законов", "кодекс", "кодексов", "основы", "указ", "указов", "постановление",
    "постановлений", "распоряжение", "распоряжений", "приказ", "приказов", "письмо", "писем",
    "указание", "указаний"]

/-! ## Places in the text -/

/-- `str::find`: the offset of the first place of a text in another. -/
def find (needle : List Char) : List Char → Option Nat
  | [] => if needle.isEmpty then some 0 else none
  | c :: text =>
    if needle.isPrefixOf (c :: text) then some 0
    else (find needle text).map (c.utf8Size + ·)

def findSubspan (src : List Char) (start stop : Nat) (needle : List Char) : Option TextSpan := do
  let offset ← find needle (← slice src start stop)
  TextSpan.tryNew (offset + start) (offset + start + byteLen needle)

def sentenceContaining (sentences : List TextSpan) (span : TextSpan) : Option Nat :=
  sentences.findIdx? fun sentence => sentence.start ≤ span.start && span.stop ≤ sentence.stop

/-- The lexeme of a token of the lexer, which is never off a char boundary. -/
def NpaToken.text (src : List Char) (token : NpaToken) : List Char :=
  (slice src token.span.start token.span.stop).getD []

section

variable (tables : CharTables) (tokens : List NpaToken) (src : List Char)

/-- The token at a date has the word "от" in front of it, or spaces and that word. -/
def hasLocalOt (date : TextSpan) : Bool :=
  ((tokens.findIdx? (·.span = date)).bind (lastNonSpace tokens)).any fun index =>
    tokens[index]?.any fun token => (token.text src).map Char.toLower = ['о', 'т']

def isActWord (token : NpaToken) : Bool :=
  token.kind = .Word &&
    ACT_TYPE_LEMMAS.any (·.toList = tables.strToLowercase (token.text src))

/-- The last act word in front of a date, within its sentence. -/
def findActHead (date sentence : TextSpan) : Option Nat :=
  (tokens.findIdx? (·.span = date)).bind fun index =>
    (List.range index).reverse.find? fun i => tokens[i]?.any fun token =>
      sentence.start ≤ token.span.start && token.span.stop ≤ sentence.stop &&
        isActWord tables src token

/-- The act words from the head to four tokens in front of it, sorted and each once. -/
def actHeadsAt (head : Nat) : List String :=
  let others := ((List.range head).reverse.take 4).filterMap fun i =>
    tokens[i]?.filter (isActWord tables src)
  sortDedup id (((tokens[head]?).toList ++ others).map fun token => .ofList (token.text src))

/-! ## Candidates -/

inductive ActMemberCandidate where
  | capture (ref : LawRef)
  | incomplete (span : TextSpan) (date : List Char)
deriving DecidableEq, Repr

def ActMemberCandidate.span : ActMemberCandidate → TextSpan
  | .capture ref => ref.span
  | .incomplete span _ => span

def LawRef.subspan (capture : LawRef) (value : Option (List Char)) : Option TextSpan :=
  value.bind (findSubspan src capture.span.start capture.span.stop)

def ActMemberCandidate.fields : ActMemberCandidate → CapturedHeadFields
  | .capture ref =>
    { value := ref.slots.docNo.getD []
      valueSpan := ref.span
      date := ref.slots.date
      dateSpan := ref.subspan src ref.slots.date
      docNo := ref.slots.docNo
      docNoSpan := ref.subspan src ref.slots.docNo
      state := if ref.slots.date.isSome && ref.slots.docNo.isSome then .candidate
        else .incomplete }
  | .incomplete span date =>
    { value := [], valueSpan := span, date := some date, dateSpan := some span, docNo := none
      docNoSpan := none, state := .incomplete }

/-- The sentence and the act word that a candidate is grouped by. -/
abbrev ActKey := Nat × Option Nat

variable (sentences : List TextSpan) (captures : List LawRef)

def actKey (date sentence : TextSpan) (index : Nat) : ActKey :=
  (index, findActHead tables tokens src date sentence)

/-- One turn of the loop over the captures. -/
def captureCandidate (capture : LawRef) : Option (ActKey × ActMemberCandidate) := do
  let date ← capture.subspan src capture.slots.date
  let index ← sentenceContaining sentences date
  if !hasLocalOt tokens src date then none
  else return (actKey tables tokens src date (← sentences[index]?) index, .capture capture)

def alreadyCaptured (token : NpaToken) : Bool :=
  captures.any fun capture => capture.subspan src capture.slots.date = some token.span

/-- One turn of the loop over the tokens, within one sentence. -/
def loneCandidate (sentence : TextSpan) (index : Nat) (token : NpaToken) :
    Option (ActKey × ActMemberCandidate) :=
  if token.span.start < sentence.start || sentence.stop < token.span.stop ||
      token.kind ≠ .Date || !hasLocalOt tokens src token.span then none
  else if alreadyCaptured src captures token then none
  else some (actKey tables tokens src token.span sentence index,
    .incomplete token.span (token.text src))

def actCandidates : List (ActKey × ActMemberCandidate) :=
  captures.filterMap (captureCandidate tables tokens src sentences) ++
    sentences.zipIdx.flatMap fun (sentence, index) =>
      tokens.filterMap (loneCandidate tables tokens src captures sentence index)

/-! ## The frames of the groups -/

def actMember (head : Option Nat) (index : Nat) (candidate : ActMemberCandidate) : FrameMember :=
  { candidate.fields src with
    derivation := if index = 0 then .explicitMember else .sameSeriesHead
    evidence := if index = 0 then [candidate.span]
      else ((head.bind (tokens[·]?)).map (·.span)).toList }

def frameStatus (tooMany unresolved ambiguous incomplete : Bool) : FrameStatus :=
  if tooMany then .rejected
  else if unresolved || ambiguous || incomplete then .ambiguous
  else .proposed

def frameDiagnostic (tooMany unresolved ambiguous : Bool) : Option FrameDiagnostic :=
  if tooMany then some .frameMemberLimitReached
  else if unresolved then some .typeUnresolved
  else if ambiguous then some .conflictingFramesRetained
  else none

/-- The anchor goes from the head, or from the first candidate, to the end of the last one. -/
def frameAnchor (head : Option Nat) (candidates : List ActMemberCandidate) : Option TextSpan := do
  let first ← candidates.head?
  let start := ((head.bind (tokens[·]?)).map (·.span.start)).getD first.span.start
  let last ← candidates.getLast?
  TextSpan.tryNew start last.span.stop

def actFrame (head : Option Nat) (candidates : List ActMemberCandidate) :
    Option ActListFrame := do
  let localAnchor ← frameAnchor tokens head candidates
  let members := candidates.zipIdx.map fun (candidate, index) =>
    actMember tokens src head index candidate
  let headRoles := head.elim [] (actHeadsAt tables tokens src)
  let ambiguous : Bool := 1 < headRoles.length
  let tooMany : Bool := PROPOSED_MAX_FRAME_MEMBERS < members.length
  return {
    frameKind := .actRequisites
    block := 0
    localAnchor, headRoles, members
    separators := []
    continuation := 1 < candidates.length
    alternatives := []
    bounds := ⟨PROPOSED_MAX_FRAME_MEMBERS, PROPOSED_MAX_EXPANDED_CANDIDATES⟩
    status := frameStatus tooMany head.isNone ambiguous
      (members.any fun member => member.state = .incomplete)
    diagnostic := frameDiagnostic tooMany head.isNone ambiguous }

def actFrames : List ActListFrame :=
  (group Prod.fst (actCandidates tables tokens src sentences captures)).filterMap
    fun (key, candidates) => actFrame tables tokens src key.2 (candidates.map Prod.snd)

end

def extractActListFrames (lexicon : Lexicon) (src : List Char) (batch : LawRefCaptureBatch) :
    Except Panic (List ActListFrame) := do
  let tokens ← lex lexicon src
  return actFrames lexicon.tables tokens src (splitLegalSentences lexicon.tables src) batch.captures

end LawNexus.Decode
