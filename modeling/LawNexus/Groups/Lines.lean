import LawNexus.Ontology.RegistryText
import Mathlib.Data.List.Infix

/-!
# The lines of a catalog

The readers of `catalog.rs` and `prefix_catalog.rs` go over the lines of a YAML text and keep
those under a heading. Each of them is written once here, with what its copies differ in.
-/

namespace LawNexus.Groups

open Chars

/-! ## Parts of a line -/

/-- `str::trim_matches` with one character. -/
def trimMatches (c : Char) (text : List Char) : List Char :=
  (text.dropWhile (· = c)).rdropWhile (· = c)

/-- `str::contains`. -/
def contains (text pat : List Char) : Bool := decide (pat <:+: text)

/-- The text from the first place of a pattern on. -/
def fromFirst (pat text : List Char) : Option (List Char) :=
  text.tails.find? fun rest => pat.isPrefixOf rest

/-- `str::eq_ignore_ascii_case`. -/
def eqIgnoreAsciiCase (a b : List Char) : Bool := a.map Char.toLower = b.map Char.toLower

/-- `str::parse::<u32>`: a plus sign may stand in front of the digits. -/
def parseU32 (text : List Char) : Option Nat :=
  let digits := if text.head? = some '+' then text.tail else text
  if digits.isEmpty || !digits.all Char.isDigit then none
  else
    let value := digits.foldl (fun n d => 10 * n + (d.toNat - '0'.toNat)) 0
    if value < 2 ^ 32 then some value else none

def indentOf (raw : List Char) : Nat := Utf8.byteLen raw - Utf8.byteLen (trimStart raw)

/-- The items of `[a, b]` in `catalog.rs`. -/
def parseInlineList (raw : List Char) : Except CatalogError (List (List Char)) :=
  match ['['].isPrefixOf? (trim raw) with
  | none => .error ⟨"inline list expected"⟩
  | some value =>
    match [']'].isSuffixOf? value with
    | none => .error ⟨"inline list expected"⟩
    | some body => .ok (((body.splitOn ',').map trim).filter fun item => !item.isEmpty)

/-! ## Lines under a heading -/

/-- The lines that a loop with an `in_list` flag reads, without their comments. `heading` is
the indent of the heading when the flag is set. Where `dashes` holds, a line that starts with a
dash does not end the list. -/
def linesUnder (key : List Char) (dashes : Bool) : Option Nat → List (List Char) → List (List Char)
  | _, [] => []
  | heading, raw :: rest =>
    let line := trim (stripComment raw)
    if line.isEmpty then linesUnder key dashes heading rest
    else if line = key then linesUnder key dashes (some (indentOf raw)) rest
    else match heading with
      | none => linesUnder key dashes none rest
      | some indent =>
        if indentOf raw ≤ indent && !(dashes && line.head? = some '-') then []
        else line :: linesUnder key dashes heading rest

def requiredScalar (key : List Char) (text : List Char) : Except CatalogError (List Char) :=
  let value := (lines text).findSome? fun raw =>
    ((key ++ [':']).isPrefixOf? (trim (stripComment raw))).bind fun rest =>
      let value := trimMatches '"' (trim rest)
      if value.isEmpty then none else some value
  orCatalogError "required scalar missing" value

/-- The loop of `required_nested_scalar`, with the indent of the section it is in. -/
def nestedScalar (name key : List Char) : Option Nat → List (List Char) → Option (List Char)
  | _, [] => none
  | inSection, raw :: rest =>
    let line := trim (stripComment raw)
    if line.isEmpty then nestedScalar name key inSection rest
    else if line = name then nestedScalar name key (some (indentOf raw)) rest
    else
      let inSection := inSection.filter fun indent =>
        !(indentOf raw ≤ indent && line.getLast? = some ':')
      let value := if inSection.isNone then none else (key.isPrefixOf? line).bind fun rest =>
        let value := trimMatches '"' (trim rest)
        if value.isEmpty then none else some value
      value.or (nestedScalar name key inSection rest)

def requiredNestedScalar (name key text : List Char) : Except CatalogError (List Char) :=
  orCatalogError "required nested scalar missing" (nestedScalar name key none (lines text))

def mapKeysUnder (key text : List Char) : List (List Char) :=
  (linesUnder key false none (lines text)).filterMap fun line =>
    ([':'].isSuffixOf? line).filter fun name =>
      !name.isEmpty && !name.contains ' ' && name.head? ≠ some '-'

/-- The text from the vocabulary on. -/
def vocabulary (text : List Char) : Except CatalogError (List Char) :=
  orCatalogError "vocabulary section missing"
    ((fromFirst "\nvocabulary:".toList text).or
      (if "vocabulary:".toList.isPrefixOf text then some text else none))

def listUnderVocabulary (key text : List Char) : Except CatalogError (List (List Char)) :=
  (vocabulary text).map fun slice =>
    (linesUnder key true none (lines slice)).filterMap fun line =>
      ("- ".toList.isPrefixOf? line).map trim

/-- A key and a value at the first colon of a line. -/
def splitPair (line : List Char) : Option (List Char × List Char) :=
  (cutAt ':' line).map fun cut => (trim cut.1, trim cut.2)

def mapPairsUnderVocabulary (key text : List Char) :
    Except CatalogError (List (List Char × List Char)) :=
  (vocabulary text).map fun slice =>
    ((linesUnder key false none (lines slice)).filterMap splitPair).filter fun pair =>
      !pair.1.isEmpty && !pair.2.isEmpty

/-! ## Lines of a section -/

/-- A line with its comment, and its indent. -/
structure SectionLine where
  raw : List Char
  indent : Nat
deriving DecidableEq, Repr

def SectionLine.text (line : SectionLine) : List Char := trim line.raw

/-- The lines deeper than the heading. -/
def sectionBody (heading : Nat) : List (List Char) → List SectionLine
  | [] => []
  | raw :: rest =>
    if (trim (stripComment raw)).isEmpty then sectionBody heading rest
    else if indentOf raw ≤ heading then []
    else ⟨raw, indentOf raw⟩ :: sectionBody heading rest

def sectionLines (key : List Char) : List (List Char) → Option (List SectionLine)
  | [] => none
  | raw :: rest =>
    if trim (stripComment raw) = key then some (sectionBody (indentOf raw) rest)
    else sectionLines key rest

/-- The lines that a loop under a heading of the section goes over. -/
def deeper (heading : Nat) (rest : List SectionLine) : List SectionLine :=
  rest.takeWhile fun line => heading < line.indent

/-- The items of `dash_list`, of the lines under its heading. -/
def dashList (under : List SectionLine) : List (List Char) :=
  under.filterMap fun line =>
    ("- ".toList.isPrefixOf? line.text).map fun item => trim (trimMatches '"' (trim item))

/-- The headings that the loop over a section stops at, each with the lines under it. The loop
goes on behind these. -/
def headings (keys : List (List Char)) : List SectionLine →
    List (List Char × List SectionLine)
  | [] => []
  | line :: rest =>
    if line.text ∈ keys then
      (line.text, deeper line.indent rest) ::
        headings keys (rest.dropWhile fun next => line.indent < next.indent)
    else headings keys rest
termination_by lines => lines.length
decreasing_by
  · exact Nat.lt_succ_of_le (List.dropWhile_sublist _).length_le
  · exact Nat.lt_succ_self _

def startsGroup (line : SectionLine) : Bool := "- id:".toList.isPrefixOf line.text

/-- The blocks of a list of groups: each goes from its `- id:` to the next one at its indent. -/
def groupBlocks : List SectionLine → List (List SectionLine)
  | [] => []
  | line :: rest =>
    if startsGroup line then
      (line :: rest.takeWhile fun next => !(next.indent = line.indent && startsGroup next)) ::
        groupBlocks (rest.dropWhile fun next => !(next.indent = line.indent && startsGroup next))
    else groupBlocks rest
termination_by lines => lines.length
decreasing_by
  · exact Nat.lt_succ_of_le (List.dropWhile_sublist _).length_le
  · exact Nat.lt_succ_self _

end LawNexus.Groups
