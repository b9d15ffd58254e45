import LawNexus.Groups.Profile
import LawNexus.Markers.Numbers

/-!
# Hierarchy markers

`extract_hierarchy` of `ln-decode/src/hierarchy.rs`, with the marker catalog of
`prefix_catalog.rs` as it is read from `kb-ontology.yaml`. An answer `none` is a panic.
-/

namespace LawNexus.Markers

open Utf8 Chars Loops
open Texts (isWhitespace)
open Groups (DecodeLevel NumberStyle SpacePolicy PrefixRule contains)

/-! ## The catalog -/

inductive NumberedStyle where
  | digit
  | letterCyrillic
deriving DecidableEq, Repr

structure NumberedMarkerRule where
  level : DecodeLevel
  numberStyle : NumberedStyle
  suffix : Char
  allowCompound : Bool
deriving DecidableEq, Repr

/-- The markers of `decode_marker_prefixes`, the longest first. -/
def prefixes : List PrefixRule :=
  [⟨.razdel, "Раздел".toList, .required⟩,
   ⟨.razdel, "РАЗДЕЛ".toList, .required⟩,
   ⟨.razdel, "раздел".toList, .required⟩,
   ⟨.statya, "Статья".toList, .required⟩,
   ⟨.statya, "СТАТЬЯ".toList, .required⟩,
   ⟨.statya, "статья".toList, .required⟩,
   ⟨.glava, "Глава".toList, .required⟩,
   ⟨.glava, "ГЛАВА".toList, .required⟩,
   ⟨.glava, "глава".toList, .required⟩,
   ⟨.paragraph, "§".toList, .optional⟩]

def numberStyles : List (DecodeLevel × NumberStyle) :=
  [(.razdel, .romanOrDigit), (.glava, .romanOrDigit), (.paragraph, .digit), (.statya, .digit),
   (.chast, .digit), (.punkt, .digit), (.podpunkt, .digit)]

def numberStyle (level : DecodeLevel) : Option NumberStyle :=
  (numberStyles.find? (·.1 = level)).map (·.2)

/-- The text in front of the first place of a pattern. -/
def upToFirst (pat text : List Char) : List Char :=
  text.take ((text.tails.takeWhile fun rest => !pat.isPrefixOf rest).length)

/-- The text after the first place of a pattern. -/
def afterFirst (pat text : List Char) : Option (List Char) :=
  (text.tails.find? pat.isPrefixOf).map (·.drop pat.length)

/-- The first character after `suffix:`, out of its quotes. -/
def markerSuffix (rest : List Char) : Char :=
  match (afterFirst "suffix:".toList rest).map fun value => trim (upToFirst "suffix:".toList value) with
  | none => '.'
  | some value =>
    if value.head? = some '"' then value.tail.head?.getD '.' else value.head?.getD '.'

def parseNumberedMarker (line : List Char) : Option NumberedMarkerRule := do
  let (token, rest) ← cutAt ':' line
  let level ← DecodeLevel.fromToken (trim token)
  some ⟨level, if contains rest "letter_cyrillic".toList then .letterCyrillic else .digit,
    markerSuffix rest, contains rest "allow_compound: true".toList⟩

/-- The lines are read up to one that has no indent and ends with a colon. -/
def parseNumberedMarkers (text : List Char) : List NumberedMarkerRule :=
  match afterFirst "decode_numbered_markers:".toList text with
  | none => []
  | some rest =>
    let isComment := fun raw => (trim raw).head? = some '#'
    (((lines rest).takeWhile fun raw => isComment raw || raw.head? = some ' ' ||
      raw.head? = some '\t' || (trim raw).getLast? ≠ some ':').filter fun raw =>
        !isComment raw).filterMap fun raw => parseNumberedMarker (trim raw)

/-- The numbered markers of `kb-ontology.yaml`. The first three stand under
`decode_numbered_markers`. The reader goes on to the next line without an indent and takes the
lines of `decode_prefix_space_policy` and of `decode_number_styles` for markers too, with the
suffix that is the default. -/
def numberedMarkers : List NumberedMarkerRule :=
  [⟨.chast, .digit, '.', true⟩,
   ⟨.punkt, .digit, ')', true⟩,
   ⟨.podpunkt, .letterCyrillic, ')', false⟩,
   ⟨.paragraph, .digit, '.', false⟩,
   ⟨.razdel, .digit, '.', false⟩,
   ⟨.glava, .digit, '.', false⟩,
   ⟨.paragraph, .digit, '.', false⟩,
   ⟨.statya, .digit, '.', false⟩,
   ⟨.chast, .digit, '.', false⟩,
   ⟨.punkt, .digit, '.', false⟩,
   ⟨.podpunkt, .digit, '.', false⟩]

/-! The line behind the section is read as a marker. -/

example : parseNumberedMarkers ("decode_numbered_markers:\n" ++
    " Punkt: \x7bsuffix: \")\", allow_compound: true\x7d\n decode_prefix_space_policy:\n" ++
    "  Paragraph: optional\n").toList =
      [⟨.punkt, .digit, ')', true⟩, ⟨.paragraph, .digit, '.', false⟩] := by
  rw [String.toList_append, String.toList_append, String.toList_ofList, String.toList_ofList,
    String.toList_ofList]
  decide

/-! ## Blocks and nodes -/

inductive ParagraphStyle where
  | title
  | bodyText
  | heading
  | jurTerm
  | providerComment
  | tableCell
  | unknown
deriving DecidableEq, Repr

inductive ParserDomainError where
  | emptyBlockText
  | invalidTextSpan (start stop : Nat)
  | emptyHierarchyNumber
  | emptyHierarchyTitle
  | emptyHierarchyText
deriving DecidableEq, Repr

@[ext]
structure TextSpan where
  start : Nat
  stop : Nat
  inhabited : start < stop
deriving Repr

instance : DecidableEq TextSpan := fun s t =>
  decidable_of_iff (s.start = t.start ∧ s.stop = t.stop) TextSpan.ext_iff.symm

def TextSpan.tryNew (start stop : Nat) : Except ParserDomainError TextSpan :=
  if h : start < stop then .ok ⟨start, stop, h⟩ else .error (.invalidTextSpan start stop)

/-- A text that is not blank. -/
def Filled (text : List Char) : Prop := trim text ≠ []
deriving Decidable

structure ParsedBlock where
  text : List Char
  style : ParagraphStyle
  filled : Filled text
deriving DecidableEq, Repr

structure HierarchyNode where
  level : DecodeLevel
  number : List Char
  title : Option (List Char)
  text : List Char
  markerSpan : TextSpan
  numbered : Filled number
  titled : ∀ value ∈ title, Filled value
  filled : Filled text
deriving DecidableEq, Repr

def HierarchyNode.tryNew (level : DecodeLevel) (number : List Char) (title : Option (List Char))
    (text : List Char) (markerSpan : TextSpan) : Except ParserDomainError HierarchyNode :=
  if hnumber : Filled number then
    if htitle : ∀ value ∈ title, Filled value then
      if htext : Filled text then
        .ok ⟨level, number, title, text, markerSpan, hnumber, htitle, htext⟩
      else .error .emptyHierarchyText
    else .error .emptyHierarchyTitle
  else .error .emptyHierarchyNumber

/-! ## The marker at the start of a text -/

def prefixRuleMatch (candidate : List Char) (rule : PrefixRule) : Option (DecodeLevel × Nat) := do
  let rest ← rule.marker.isPrefixOf? candidate
  let whitespaceLen := byteLen (rest.takeWhile isWhitespace)
  if rule.space = .required ∧ whitespaceLen = 0 then none
  else some (rule.level, byteLen rule.marker + whitespaceLen)

def markerPrefix (candidate : List Char) : Option (DecodeLevel × Nat) :=
  prefixes.findSome? (prefixRuleMatch candidate)

def numberedRuleMatch (candidate : List Char) (rule : NumberedMarkerRule) :
    Option (DecodeLevel × Nat) :=
  let bytes := byteChars candidate
  let styled := match rule.numberStyle with
    | .digit => bytes.head?.any Char.isDigit
    | .letterCyrillic => candidate.head?.any fun c => 'а' ≤ c ∧ c ≤ 'я'
  let stop := (numberRun rule.allowCompound bytes).length
  if !styled then none
  else if stop = 0 then none
  else if bytes[stop]? = some rule.suffix then some (rule.level, 0)
  else none

def numberedMarkerPrefix (candidate : List Char) : Option (DecodeLevel × Nat) :=
  numberedMarkers.findSome? (numberedRuleMatch candidate)

/-- The bytes of the number at the start, and none where there is no number. -/
def numberAt (style : NumberStyle) (bytes : List Char) : List Char :=
  if bytes.head?.any Char.isDigit then numberRun true bytes
  else if style = .romanOrDigit then bytes.takeWhile isRoman
  else []

def numberEnd (candidate : List Char) (start : Nat) (level : DecodeLevel) : Option Nat := do
  let style ← numberStyle level
  let number := numberAt style ((byteChars candidate).drop start)
  if number.isEmpty then none else some (start + number.length)

/-- The node of a marker, with the trimmed rest of the text as its title. -/
def makeNode (text number suffix : List Char) (level : DecodeLevel) (markerStart markerStop : Nat) :
    Option HierarchyNode := do
  let title := trim suffix
  let span ← (TextSpan.tryNew markerStart markerStop).toOption
  (HierarchyNode.tryNew level number (if title.isEmpty then none else some title) text
    span).toOption

/-- What may stand behind a number. -/
def isPunctuation (c : Char) : Bool := ['.', ':', ')'].contains c

/-- The rest of `extract_hierarchy`, with the number that was found. -/
def readNumbered (text candidate : List Char) (markerStart : Nat) (level : DecodeLevel)
    (numberStart numberStop : Nat) : Option (Option HierarchyNode) := do
  let number ← slice candidate numberStart numberStop
  match (byteChars candidate)[numberStop]? with
  | none => some none
  | some punctuation =>
    if !isPunctuation punctuation then some none
    else
      let markerStop := markerStart + numberStop + 1
      let suffix ← sliceFrom text markerStop
      if suffix.head?.any fun c => !isWhitespace c then some none
      else some (makeNode text number suffix level markerStart markerStop)

/-- The level of the marker at the start, and where its number starts and ends. -/
def locateNumber (candidate : List Char) : Option (DecodeLevel × Nat × Nat) := do
  let (level, numberStart) ← (markerPrefix candidate).or (numberedMarkerPrefix candidate)
  let numberStop ← numberEnd candidate numberStart level
  some (level, numberStart, numberStop)

def extractHierarchy (text : List Char) : Option (Option HierarchyNode) :=
  if text.all isWhitespace then some none
  else do
    let markerStart := byteLen (text.takeWhile isWhitespace)
    let candidate ← sliceFrom text markerStart
    match locateNumber candidate with
    | none => some none
    | some (level, numberStart, numberStop) =>
      readNumbered text candidate markerStart level numberStart numberStop

end LawNexus.Markers
