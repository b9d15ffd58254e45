import LawNexus.Decode.Lexer

/-!
# Legal markers

`find_legal_markers` of `ln-decode`: the words of the covering lexer that are forms of a marker.
-/

namespace LawNexus.Decode

open Utf8 Loops

inductive LegalMarkerKind where
  | statya
  | punkt
  | obyazan
  | vprave
  | zapret
  | glava
  | chast
  | podpunkt
  | razdel
deriving DecidableEq, Repr

structure MorphologyMatch where
  kind : LegalMarkerKind
  textSpan : TextSpan
  negated : Bool
deriving DecidableEq, Repr

structure CoveringWord where
  normalized : List Char
  start : Nat
  stop : Nat
deriving DecidableEq, Repr

/-- The forms of each marker, in the order of the source. -/
def markerForms : List (List String × LegalMarkerKind) :=
  [(["статья", "статьи", "статье", "статью", "статьёй", "статьей", "статьями", "статьях"],
      .statya),
    (["пункт", "пункта", "пункту", "пунктом", "пункте", "пункты", "пунктов", "пунктам",
      "пунктами", "пунктах"], .punkt),
    (["глава", "главы", "главе", "главу", "главой", "главою", "главам", "главами", "главах",
      "глав"], .glava),
    (["часть", "части", "частью", "частею", "частей", "частям", "частями", "частях"], .chast),
    (["подпункт", "подпункта", "подпункту", "подпунктом", "подпункте", "подпункты",
      "подпунктов", "подпунктам", "подпунктами", "подпунктах"], .podpunkt),
    (["раздел", "раздела", "разделу", "разделом", "разделе", "разделы", "разделов",
      "разделам", "разделами", "разделах"], .razdel),
    (["обязан", "обязана", "обязано", "обязаны"], .obyazan),
    (["вправе"], .vprave),
    (["запрещается", "запрещен", "запрещён", "запрещена", "запрещено", "запрещены"], .zapret)]

def classify (word : List Char) : Option LegalMarkerKind :=
  (markerForms.find? fun forms => forms.1.any (·.toList = word)).map (·.2)

/-- A word of the lexer, unless it is a run of digits. -/
def coveringWord (tables : CharTables) (text : List Char) (token : NpaToken) :
    Except Panic (Option CoveringWord) :=
  if token.kind ≠ .Word then .ok none
  else do
    let slice ← token.lexeme text
    .ok (if slice.any tables.isAlphabetic then
      some ⟨tables.strToLowercase slice, token.span.start, token.span.stop⟩ else none)

def wordsFromCovering (lexicon : Lexicon) (text : List Char) :
    Except Panic (List CoveringWord) := do
  let tokens ← lex lexicon text
  let words ← tokens.mapM (coveringWord lexicon.tables text)
  .ok words.reduceOption

/-- The marker of a word behind the word before it. -/
def legalMarker (text : List Char) (previous : Option CoveringWord) (word : CoveringWord) :
    Except Panic (Option MorphologyMatch) :=
  match classify word.normalized with
  | none => .ok none
  | some kind => do
    let negated ← match previous with
      | some previous =>
        if previous.normalized = ['н', 'е'] then do
          let gap ← orPanic (slice text previous.stop word.start)
          .ok (gap.all Texts.isWhitespace)
        else .ok false
      | none => .ok false
    if h : word.start < word.stop then .ok (some ⟨kind, ⟨word.start, word.stop, h⟩, negated⟩)
    else .error .emptySpan

def findLegalMarkers (lexicon : Lexicon) (text : List Char) :
    Except Panic (List MorphologyMatch) := do
  let words ← wordsFromCovering lexicon text
  let markers ← ((none :: words.map some).zip words).mapM fun (previous, word) =>
    legalMarker text previous word
  .ok markers.reduceOption

end LawNexus.Decode
