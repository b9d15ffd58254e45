import LawNexus.Decode.Morphology
import LawNexus.Ids

/-!
# The structure index of a document

`build_document_structure_index` and `ancestor_path` of `ln-decode`: the containers that the
headings of a block list open, and the walk from a block up its parents.
-/

namespace LawNexus.Decode

open Utf8 Loops

/-! ## Ids -/

def isContextId (value : String) : Bool :=
  !value.isEmpty && value.utf8ByteSize ≤ 64 && value.toList.all isIdChar

/-- A newtype of the `id_type!` macro of the context layer. -/
structure ContextId (kind : String) where
  asStr : String
  accepted : isContextId asStr = true
deriving DecidableEq, Repr

theorem ContextId.asStr_injective {kind : String} :
    Function.Injective (@ContextId.asStr kind) := by
  rintro ⟨a, ha⟩ ⟨b, hb⟩ h
  cases h
  rfl

def ContextId.parse (kind value : String) : Option (ContextId kind) :=
  if h : isContextId value = true then some ⟨value, h⟩ else none

theorem ContextId.parse_eq_some_iff {kind value : String} {id : ContextId kind} :
    ContextId.parse kind value = some id ↔ id.asStr = value := by
  unfold ContextId.parse
  constructor
  · intro h
    split_ifs at h
    exact (Option.some.inj h) ▸ rfl
  · rintro rfl
    exact dif_pos id.accepted

abbrev BlockId := ContextId "block id"
abbrev ContainerId := ContextId "container id"
abbrev FrameRef := ContextId "frame ref"
abbrev MentionRef := ContextId "mention ref"

structure DocumentVersionRef where
  documentVersionRef : String
  sourceRevision : String
  decoderProfile : String
deriving DecidableEq, Repr

/-! ## Blocks -/

inductive ParagraphStyle where
  | title
  | bodyText
  | heading
  | jurTerm
  | providerComment
  | tableCell
  | unknown
deriving DecidableEq, Repr

structure ParsedBlock where
  text : List Char
  style : ParagraphStyle
deriving DecidableEq, Repr

/-- What the index reads of a block besides its text: the lexer's tables, and the level and
number that `extract_hierarchy` finds in it, as the designation has them. -/
structure Decoder where
  lexicon : Lexicon
  designation : ParsedBlock → Option String

/-! ## Nodes and edges -/

inductive ContainerRole where
  | document
  | division
  | section_
  | chapter
  | article
  | clause
  | part
  | item
  | subitem
  | heading
  | amendmentBlock
  | requisitesBlock
deriving DecidableEq, Repr

inductive StructureEdgeRelation where
  | parentOf
  | childOf
  | immediatelyPrecedes
  | immediatelyFollows
  | containedIn
deriving DecidableEq, Repr

inductive StructureEdgeStatus where
  | proposed
  | accepted
  | conflicting
  | rejected
deriving DecidableEq, Repr

structure SourceBlockNode where
  blockId : BlockId
  order : Nat
  blockKind : ParagraphStyle
  localAnchor : TextSpan
deriving DecidableEq, Repr

structure StructuralContainerNode where
  containerId : ContainerId
  role : ContainerRole
  designation : Option String
  headingAnchor : Option TextSpan
  parentId : Option ContainerId
deriving DecidableEq, Repr

structure StructureEdge where
  fromRef : String
  toRef : String
  relation : StructureEdgeRelation
  evidence : TextSpan
  status : StructureEdgeStatus
deriving DecidableEq, Repr

structure DocumentStructureIndex where
  version : DocumentVersionRef
  sourceBlocks : List SourceBlockNode
  containers : List StructuralContainerNode
  edges : List StructureEdge
deriving DecidableEq, Repr

/-! ## Ranks -/

def usizeMax : Nat := 2 ^ 64 - 1

/-- The tokens of the group ladders, in the order of the embedded catalog. -/
def embeddedLadders : List (List String) :=
  [["glava", "paragraph", "statya", "chast", "punkt", "podpunkt"],
    ["razdel", "glava", "statya", "chast", "punkt", "podpunkt"],
    ["punkt", "podpunkt", "prilozhenie"],
    ["punkt", "podpunkt", "prilozhenie"],
    ["punkt", "podpunkt", "primechanie", "prilozhenie"],
    [],
    []]

def roleToken : ContainerRole → Option String
  | .division => some "razdel"
  | .section_ => some "razdel"
  | .chapter => some "glava"
  | .article => some "statya"
  | .part => some "chast"
  | .clause => some "punkt"
  | .subitem => some "podpunkt"
  | .item => some "punkt"
  | _ => none

/-- The index of the role's token in the first ladder that has it. -/
def profileRank (role : ContainerRole) : Nat :=
  match roleToken role with
  | none => usizeMax
  | some token =>
    (((embeddedLadders.flatMap List.zipIdx).find? (·.1 = token)).map (·.2)).getD usizeMax

/-! ## The index -/

inductive IndexBuildError where
  | emptyDocument
  | duplicateId
  | missingDocumentStructure
  | conflictingRoleEvidence
deriving DecidableEq, Repr

/-- A build ends in a panic or in an error of its own. -/
inductive BuildFailure where
  | panicked (p : Panic)
  | failed (e : IndexBuildError)
deriving DecidableEq, Repr

def unwrap {α : Type} : Option α → Except BuildFailure α
  | some a => .ok a
  | none => .error (.panicked .unwrap)

def roleOfMarker : LegalMarkerKind → ContainerRole
  | .razdel => .division
  | .glava => .chapter
  | .statya => .article
  | .chast => .part
  | .punkt => .clause
  | .podpunkt => .subitem
  | _ => .heading

/-- The role of a heading and the span of its marker, nothing for a block of text. -/
def blockRole (lexicon : Lexicon) (i : Nat) (b : ParsedBlock) :
    Except BuildFailure (Option (ContainerRole × Option TextSpan)) :=
  if b.style = .title ∧ i = 0 then .ok (some (.requisitesBlock, none))
  else if b.style = .heading then do
    let m ← (findLegalMarkers lexicon b.text).mapError .panicked
    if m.length > 1 ∧ m.any fun x => x.kind = .razdel ∨ x.kind = .glava ∨ x.kind = .statya then
      .error (.failed .conflictingRoleEvidence)
    else .ok (m.head?.map fun x => (roleOfMarker x.kind, some x.textSpan))
  else .ok none

/-- The open containers, the top first, with the index of the block that opened each. -/
abbrev OpenStack := List (Nat × ContainerId)

structure IndexState where
  ids : List BlockId
  sourceBlocks : List SourceBlockNode
  containers : List StructuralContainerNode
  edges : List StructureEdge
  stack : OpenStack

/-- The loop that closes the containers of the new rank and of the ranks below it. -/
def closeOpen (containers : List StructuralContainerNode) (rank : Nat) :
    OpenStack → Except BuildFailure OpenStack
  | [] => .ok []
  | top :: stack =>
    match containers.find? (·.containerId = top.2) with
    | none => .error (.failed .missingDocumentStructure)
    | some opened =>
      if rank ≤ profileRank opened.role then closeOpen containers rank stack
      else .ok (top :: stack)

def blockName (i : Nat) : String := "block-" ++ Nat.repr i

def containerName (i : Nat) : String := "container-" ++ Nat.repr i

def rootName : String := "container-document"

/-- The edges between a block and the one before it. -/
def adjacencyEdges (i : Nat) (anchor : TextSpan) : List StructureEdge :=
  if i = 0 then []
  else
    [⟨blockName (i - 1), blockName i, .immediatelyPrecedes, anchor, .accepted⟩,
      ⟨blockName i, blockName (i - 1), .immediatelyFollows, anchor, .accepted⟩]

def IndexState.parent (state : IndexState) (root : ContainerId) : ContainerId :=
  (state.stack.head?.map (·.2)).getD root

/-- The container of a heading, below the open ones of higher ranks. -/
def openContainer (decoder : Decoder) (root : ContainerId) (state : IndexState) (i : Nat)
    (b : ParsedBlock) (anchor : TextSpan) (role : ContainerRole) (heading : Option TextSpan) :
    Except BuildFailure IndexState := do
  let stack ← closeOpen state.containers (profileRank role) state.stack
  let cid ← unwrap (ContextId.parse "container id" (containerName i))
  let parent := { state with stack }.parent root
  .ok { state with
    containers := state.containers ++ [⟨cid, role, decoder.designation b, heading, some parent⟩]
    edges := state.edges ++ [⟨parent.asStr, cid.asStr, .parentOf, anchor, .accepted⟩]
    stack := (i, cid) :: stack }

def openHeading (decoder : Decoder) (root : ContainerId) (state : IndexState) (i : Nat)
    (b : ParsedBlock) (anchor : TextSpan) :
    Option (ContainerRole × Option TextSpan) → Except BuildFailure IndexState
  | none => .ok state
  | some (role, heading) => openContainer decoder root state i b anchor role heading

/-- One turn of the loop over the blocks. -/
def indexBlock (decoder : Decoder) (root : ContainerId) (state : IndexState)
    (block : ParsedBlock × Nat) : Except BuildFailure IndexState := do
  let (b, i) := block
  let bid ← unwrap (ContextId.parse "block id" (blockName i))
  if bid ∈ state.ids then .error (.failed .duplicateId)
  else if h : 0 < byteLen b.text then
    let anchor : TextSpan := ⟨0, byteLen b.text, h⟩
    let role ← blockRole decoder.lexicon i b
    let state := { state with
      ids := state.ids ++ [bid]
      sourceBlocks := state.sourceBlocks ++ [⟨bid, i, b.style, anchor⟩]
      edges := state.edges ++ adjacencyEdges i anchor }
    let state ← openHeading decoder root state i b anchor role
    .ok { state with edges := state.edges ++
      [⟨bid.asStr, (state.parent root).asStr, .containedIn, anchor, .accepted⟩] }
  else .error (.failed .missingDocumentStructure)

def buildDocumentStructureIndex (decoder : Decoder) (version : DocumentVersionRef)
    (blocks : List ParsedBlock) : Except BuildFailure DocumentStructureIndex := do
  if blocks = [] then .error (.failed .emptyDocument)
  else
    let root ← unwrap (ContextId.parse "container id" rootName)
    let start : IndexState := ⟨[], [], [⟨root, .document, none, none, none⟩], [], []⟩
    let state ← blocks.zipIdx.foldlM (indexBlock decoder root) start
    .ok ⟨version, state.sourceBlocks, state.containers, state.edges⟩

/-! ## Paths -/

inductive ContextStatus where
  | resolved
  | partialContext
  | conflicting
  | unavailable
  | cycle
  | limit
deriving DecidableEq, Repr

/-- The loop up the parent ids, for a number of turns: nothing where they do not suffice. -/
def ancestorWalk (containers : List StructuralContainerNode) :
    Nat → Option String → Option (Except ContextStatus (List StructuralContainerNode))
  | _, none => some (.ok [])
  | 0, some _ => none
  | turns + 1, some id =>
    match containers.find? (·.containerId.asStr = id) with
    | none => some (.error .partialContext)
    | some c => (ancestorWalk containers turns (c.parentId.map (·.asStr))).map (·.map (c :: ·))

/-- `ancestor_path` within a number of turns of its loop. -/
def DocumentStructureIndex.ancestorPathIn (index : DocumentStructureIndex) (turns : Nat)
    (block : BlockId) : Option (Except ContextStatus (List StructuralContainerNode)) :=
  match index.sourceBlocks.find? (·.blockId = block) with
  | none => some (.error .unavailable)
  | some node =>
    let current := index.edges.find? fun e =>
      e.fromRef = node.blockId.asStr && e.relation = .containedIn
    (ancestorWalk index.containers turns (current.map (·.toRef))).map fun walked =>
      walked.bind fun out => if out = [] then .error .unavailable else .ok out

def DocumentStructureIndex.adjacentBlocks (index : DocumentStructureIndex) (block : BlockId)
    (radius : Nat) : List SourceBlockNode :=
  match index.sourceBlocks.find? (·.blockId = block) with
  | none => []
  | some n => index.sourceBlocks.filter fun x =>
    ((x.order - n.order) + (n.order - x.order) ≤ radius : Bool) && x.order ≠ n.order

end LawNexus.Decode
