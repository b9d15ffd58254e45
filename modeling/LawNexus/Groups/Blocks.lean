import LawNexus.Groups.Lines

/-!
# The group blocks

One block of `document_groups`, as `parse_group_block` of `catalog.rs` and
`parse_group_profile` of `structural_profile.rs` read it. Both crates declare the records of a
needle and of a ladder entry in the same way.
-/

namespace LawNexus.Groups

open Chars

/-! ## Records -/

structure GroupNeedle where
  field : List Char
  needle : List Char
  rank : Nat
deriving DecidableEq, Repr

structure LadderEntry where
  token : List Char
  role : List Char
  recursive : Bool
  maxDepth : Option Nat
  compound : Option Bool
  suffix : Option (List Char)
  numberStyle : Option (List Char)
  surface : Option (List Char)
deriving DecidableEq, Repr

structure DocumentGroup where
  id : List Char
  granularity : Option (List Char)
  textBoundary : List (List Char)
  maxDepth : Option Nat
  textOnly : Bool
  needles : List GroupNeedle
  ladder : List LadderEntry
deriving DecidableEq, Repr

structure GroupProfile where
  id : List Char
  textOnly : Bool
  ladder : List LadderEntry
  needles : List GroupNeedle
deriving DecidableEq, Repr

/-! ## Entries of a list -/

/-- `ok_or`, for the errors of `structural_profile.rs`. -/
def okOr {α : Type} (reason : String) : Option α → Except String α
  | none => .error reason
  | some a => .ok a

/-- `parse_group_needle` of `structural_profile.rs`. -/
def parseGroupNeedle (flow : List Char) : Except String GroupNeedle := do
  let field ← okOr "group needle missing field" (flowField flow "field")
  let needle ← okOr "group needle missing needle" (flowField flow "needle")
  let rank ← okOr "group needle missing rank" (flowField flow "rank")
  let rank ← okOr "group needle rank is not an integer" (parseU32 rank)
  return ⟨field, needle, rank⟩

/-- `parse_group_needle` of `catalog.rs` has the same texts, and rejects an empty needle. -/
def parseCatalogNeedle (flow : List Char) : Except CatalogError GroupNeedle := do
  let needle ← (parseGroupNeedle flow).mapError CatalogError.mk
  if needle.needle.isEmpty then .error ⟨"group needle is empty"⟩ else return needle

def readMaxDepth (badDepth : String) : Option (List Char) → Except String (Option Nat)
  | none => .ok none
  | some value => (okOr badDepth (parseU32 value)).map some

/-- `parse_ladder_entry`, with the text for a depth that is no number. -/
def readLadderEntry (badDepth : String) (flow : List Char) : Except String LadderEntry := do
  let token ← okOr "ladder entry missing token" (flowField flow "token")
  let role ← okOr "ladder entry missing role" (flowField flow "role")
  let maxDepth ← readMaxDepth badDepth (flowField flow "max_depth")
  return ⟨token, role, contains flow "recursive: true".toList, maxDepth,
    (flowField flow "compound").map fun value => value = "true".toList,
    flowField flow "suffix", flowField flow "number_style", flowField flow "surface"⟩

def parseLadderEntry (flow : List Char) : Except String LadderEntry :=
  readLadderEntry "bad max_depth" flow

def parseCatalogLadderEntry (flow : List Char) : Except CatalogError LadderEntry :=
  (readLadderEntry "ladder entry max_depth is not an integer" flow).mapError CatalogError.mk

/-! ## The lists of a block -/

/-- The flags of the loop over a block. -/
structure ListState where
  inNeedles : Bool
  needlesIndent : Nat
  inLadder : Bool
  ladderIndent : Nat
deriving DecidableEq, Repr

def ListState.start : ListState := ⟨false, 0, false, 0⟩

/-- What a line of a block is: an entry of a list, another line inside a list, or a line of
the block itself. -/
inductive Place
  | needle (flow : List Char)
  | ladder (flow : List Char)
  | inside
  | top
deriving DecidableEq, Repr

/-- The two checks at the head of the loop. A line at the indent of the list ends it. -/
def ListState.place (s : ListState) (line : SectionLine) : Place × ListState :=
  let s := if s.inNeedles && line.indent ≤ s.needlesIndent then { s with inNeedles := false } else s
  let entry := "- ".toList.isPrefixOf? line.text
  if s.inNeedles then (entry.elim .inside .needle, s)
  else
    let s := if s.inLadder && line.indent ≤ s.ladderIndent then { s with inLadder := false } else s
    if s.inLadder then (entry.elim .inside .ladder, s) else (.top, s)

def ListState.openNeedles (s : ListState) (indent : Nat) : ListState :=
  { s with inNeedles := true, needlesIndent := indent }

def ListState.openLadder (s : ListState) (indent : Nat) : ListState :=
  { s with inLadder := true, ladderIndent := indent }

/-! ## The profile's block -/

structure ProfileState where
  id : Option (List Char)
  textOnly : Bool
  needles : List GroupNeedle
  ladder : List LadderEntry
  lists : ListState
deriving DecidableEq, Repr

def ProfileState.start : ProfileState := ⟨none, false, [], [], .start⟩

def ProfileState.top (s : ProfileState) (line : SectionLine) : ProfileState :=
  match "- id:".toList.isPrefixOf? line.text with
  | some rest => { s with id := some (trim rest) }
  | none =>
    match "text_only:".toList.isPrefixOf? line.text with
    | some rest => { s with textOnly := trim rest = "true".toList }
    | none =>
      if line.text = "needles:".toList then { s with lists := s.lists.openNeedles line.indent }
      else if line.text = "ladder:".toList then { s with lists := s.lists.openLadder line.indent }
      else s

def ProfileState.step (s : ProfileState) (line : SectionLine) : Except String ProfileState :=
  let (place, lists) := s.lists.place line
  match place with
  | .needle flow =>
    (parseGroupNeedle flow).map fun needle => { s with lists, needles := s.needles ++ [needle] }
  | .ladder flow =>
    (parseLadderEntry flow).map fun entry => { s with lists, ladder := s.ladder ++ [entry] }
  | .inside => .ok { s with lists }
  | .top => .ok ({ s with lists }.top line)

def parseGroupProfile (block : List SectionLine) : Except String GroupProfile := do
  let s ← block.foldlM ProfileState.step .start
  let id ← okOr "document group missing id" s.id
  return ⟨id, s.textOnly, s.ladder, s.needles⟩

/-! ## The catalog's block -/

structure BlockState where
  id : Option (List Char)
  granularity : Option (List Char)
  textBoundary : List (List Char)
  maxDepth : Option Nat
  textOnly : Bool
  needles : List GroupNeedle
  ladder : List LadderEntry
  lists : ListState
deriving DecidableEq, Repr

def BlockState.start : BlockState := ⟨none, none, [], none, false, [], [], .start⟩

/-- A list that is written in its own line has to be empty. -/
def emptyInlineList (reason : String) (rest : List Char) : Except CatalogError Unit := do
  let items ← parseInlineList rest
  if items.isEmpty then .ok () else .error ⟨reason⟩

/-- The keys of a block that hold a list of entries. -/
def BlockState.topLists (s : BlockState) (line : SectionLine) : Except CatalogError BlockState :=
  match "needles:".toList.isPrefixOf? line.text with
  | some rest =>
    if (trim rest).isEmpty then .ok { s with lists := s.lists.openNeedles line.indent }
    else (emptyInlineList "inline needles list must be empty" (trim rest)).map fun _ =>
      { s with needles := [] }
  | none =>
    match "ladder:".toList.isPrefixOf? line.text with
    | some rest =>
      if (trim rest).isEmpty then .ok { s with lists := s.lists.openLadder line.indent }
      else (emptyInlineList "inline ladder list must be empty" (trim rest)).map fun _ =>
        { s with ladder := [] }
    | none => .ok s

def BlockState.top (s : BlockState) (line : SectionLine) : Except CatalogError BlockState :=
  match "- id:".toList.isPrefixOf? line.text with
  | some rest => .ok { s with id := some (trim rest) }
  | none =>
    match "granularity:".toList.isPrefixOf? line.text with
    | some rest => .ok { s with granularity := some (trim rest) }
    | none =>
      match "text_boundary:".toList.isPrefixOf? line.text with
      | some rest => (parseInlineList rest).map fun roles => { s with textBoundary := roles }
      | none =>
        match "max_depth:".toList.isPrefixOf? line.text with
        | some rest =>
          (orCatalogError "document group max_depth is not an integer"
            (parseU32 (trim rest))).map fun depth => { s with maxDepth := some depth }
        | none =>
          match "text_only:".toList.isPrefixOf? line.text with
          | some rest => .ok { s with textOnly := trim rest = "true".toList }
          | none => s.topLists line

def BlockState.step (s : BlockState) (line : SectionLine) : Except CatalogError BlockState :=
  let (place, lists) := s.lists.place line
  match place with
  | .needle flow =>
    (parseCatalogNeedle flow).map fun needle => { s with lists, needles := s.needles ++ [needle] }
  | .ladder flow =>
    (parseCatalogLadderEntry flow).map fun entry => { s with lists, ladder := s.ladder ++ [entry] }
  | .inside => .ok { s with lists }
  | .top => { s with lists }.top line

def parseGroupBlock (block : List SectionLine) : Except CatalogError DocumentGroup := do
  let s ← block.foldlM BlockState.step .start
  let id ← orCatalogError "document group missing id" s.id
  return ⟨id, s.granularity, s.textBoundary, s.maxDepth, s.textOnly, s.needles, s.ladder⟩

end LawNexus.Groups
