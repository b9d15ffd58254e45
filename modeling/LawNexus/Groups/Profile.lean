import LawNexus.Groups.Catalog

/-!
# The structural profile

`DecodePrefixCatalog::parse_yaml` of `prefix_catalog.rs` and `StructuralProfile::parse_yaml` of
`structural_profile.rs`, which read the same YAML text as the ontology catalog.
-/

namespace LawNexus.Groups

open Chars Loops

/-! ## The decode prefixes -/

inductive DecodeLevel
  | razdel
  | glava
  | paragraph
  | statya
  | chast
  | punkt
  | podpunkt
deriving DecidableEq, Repr

def DecodeLevel.all : List DecodeLevel :=
  [.razdel, .glava, .paragraph, .statya, .chast, .punkt, .podpunkt]

def DecodeLevel.asStr : DecodeLevel → List Char
  | .razdel => "Razdel".toList
  | .glava => "Glava".toList
  | .paragraph => "Paragraph".toList
  | .statya => "Statya".toList
  | .chast => "Chast".toList
  | .punkt => "Punkt".toList
  | .podpunkt => "Podpunkt".toList

def DecodeLevel.fromToken (token : List Char) : Option DecodeLevel :=
  DecodeLevel.all.find? fun level => level.asStr = token

inductive NumberStyle
  | digit
  | romanOrDigit
deriving DecidableEq, Repr

inductive SpacePolicy
  | required
  | optional
deriving DecidableEq, Repr

structure PrefixRule where
  level : DecodeLevel
  marker : List Char
  space : SpacePolicy
deriving DecidableEq, Repr

structure DecodePrefixCatalog where
  prefixes : List PrefixRule
  numberStyles : List (DecodeLevel × NumberStyle)
deriving DecidableEq, Repr

def parseSpace (value : List Char) : Option SpacePolicy :=
  if value = "required".toList then some .required
  else if value = "optional".toList then some .optional
  else none

def parseStyle (value : List Char) : Option NumberStyle :=
  if value = "digit".toList then some .digit
  else if value = "roman_or_digit".toList then some .romanOrDigit
  else none

/-- `unquote` of `prefix_catalog.rs` takes both kinds of quotes. -/
def unquoteBoth (value : List Char) : List Char :=
  trimMatches '\'' (trimMatches '"' (trim value))

/-- `parse_inline_list` of `prefix_catalog.rs`, which rejects an empty list. -/
def parseMarkerList (raw : List Char) : Except String (List (List Char)) :=
  match (['['].isPrefixOf? raw).bind fun value => [']'].isSuffixOf? value with
  | none => .error "decode marker prefixes must be inline lists"
  | some body =>
    let items := ((body.splitOn ',').map fun part => unquoteBoth (trim part)).filter
      fun item => !item.isEmpty
    if items.isEmpty then .error "empty decode marker list" else .ok items

def mapInlineLists (key text : List Char) :
    Except String (List (List Char × List (List Char))) :=
  (((linesUnder key false none (lines text)).filterMap splitPair).filter fun pair =>
    !pair.1.isEmpty).mapM fun pair => (parseMarkerList pair.2).map fun items => (pair.1, items)

def mapScalars (key text : List Char) : List (List Char × List Char) :=
  (((linesUnder key false none (lines text)).filterMap splitPair).map fun pair =>
    (pair.1, unquoteBoth pair.2)).filter fun pair => !pair.1.isEmpty && !pair.2.isEmpty

/-- The value of a key, or the default where the key is not there. -/
def lookUp {α : Type} (pairs : List (List Char × List Char)) (key : List Char)
    (read : List Char → Option α) (default : α) : Option α :=
  match pairs.find? fun pair => pair.1 = key with
  | none => some default
  | some pair => read pair.2

/-- The rules of one token. -/
def parsePrefixRules (spaces : List (List Char × List Char)) (defaultSpace : SpacePolicy)
    (row : List Char × List (List Char)) : Except String (List PrefixRule) := do
  let level ← okOr "prefix key is not a decode token" (DecodeLevel.fromToken row.1)
  let space ← okOr "invalid space policy" (lookUp spaces row.1 parseSpace defaultSpace)
  row.2.mapM fun marker =>
    if marker.isEmpty then .error "empty decode marker prefix" else .ok ⟨level, marker, space⟩

def parseNumberStyle (pair : List Char × List Char) : Except String (DecodeLevel × NumberStyle) := do
  let level ← okOr "number-style key is not a decode token" (DecodeLevel.fromToken pair.1)
  let style ← okOr "unknown number style" (parseStyle pair.2)
  return (level, style)

/-- The numbered markers are left out: reading them never fails, and nothing here uses them. -/
def DecodePrefixCatalog.parseYaml (text : List Char) : Except String DecodePrefixCatalog := do
  let prefixLists ← mapInlineLists "decode_marker_prefixes:".toList text
  if prefixLists.isEmpty then .error "decode_marker_prefixes missing"
  else
    let spaces := mapScalars "decode_prefix_space_policy:".toList text
    let styles := mapScalars "decode_number_styles:".toList text
    let defaultSpace ← okOr "invalid default space policy"
      (lookUp spaces "default".toList parseSpace .required)
    let rules ← prefixLists.mapM (parsePrefixRules spaces defaultSpace)
    let numberStyles ← styles.mapM parseNumberStyle
    if numberStyles.isEmpty then .error "decode_number_styles missing"
    else return ⟨sortBy (fun rule => OrderDual.toDual (Utf8.byteLen rule.marker)) rules.flatten,
      numberStyles⟩

/-! ## The profile -/

structure StructuralProfile where
  nonClaims : List (List Char)
  groups : List GroupProfile
  prefixes : DecodePrefixCatalog
deriving DecidableEq, Repr

/-- The headings at which `parse_document_groups_section` stops. -/
def profileKeys : List (List Char) := [nonClaimsKey, groupsKey]

def readProfileHeading (s : List (List Char) × List GroupProfile)
    (heading : List Char × List SectionLine) :
    Except String (List (List Char) × List GroupProfile) :=
  if heading.1 = nonClaimsKey then .ok (dashList heading.2, s.2)
  else ((groupBlocks heading.2).mapM parseGroupProfile).map fun groups => (s.1, groups)

def parseDocumentGroupsSection (text : List Char) :
    Except String (List (List Char) × List GroupProfile) :=
  match sectionLines documentGroupsKey (lines text) with
  | none => .ok ([], [])
  | some body => (headings profileKeys body).foldlM readProfileHeading ([], [])

def StructuralProfile.parseYaml (text : List Char) : Except String StructuralProfile := do
  let prefixes ← DecodePrefixCatalog.parseYaml text
  let groups ← parseDocumentGroupsSection text
  return ⟨groups.1, groups.2, prefixes⟩

end LawNexus.Groups
