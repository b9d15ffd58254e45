import LawNexus.Forest.Walk
import LawNexus.SourcePackage.Records

/-!
# Verification of the records

`verify_records` of `source_package`, pass by pass.
-/

namespace LawNexus.SourcePackage

open Forest

def fail {α : Type} (kind : ErrorKind) (detail : String) : Except SourcePackageError α :=
  .error (.new kind detail)

/-! ## Sections and ids -/

/-- The elements and the texts. `seenText` says that a text came before. -/
def sections (seenText : Bool) : List Record →
    Except SourcePackageError (List ElementRecord × List TextRecord)
  | [] => .ok ([], [])
  | .element element :: rest =>
    if seenText then fail .sectionOrderMismatch "element record after a text record"
    else if element.kind ≠ "element" ∨ element.schema ≠ ELEMENT_SCHEMA then
      fail .schemaMismatch "element identity/constants mismatch"
    else if element.clarkTag.isEmpty then fail .schemaMismatch "empty clark tag"
    else (sections seenText rest).map fun s => (element :: s.1, s.2)
  | .text text :: rest =>
    if text.kind ≠ "text" ∨ text.schema ≠ TEXT_SCHEMA then
      fail .schemaMismatch "text identity/constants mismatch"
    else (sections true rest).map fun s => (s.1, text :: s.2)

def elementId (index : Nat) : String := "e" ++ toString index

def textId (index : Nat) : String := "t" ++ toString index

def checkIds (elements : List ElementRecord) (texts : List TextRecord) :
    Except SourcePackageError Unit :=
  if elements.zipIdx.all (fun (element, index) => element.id = elementId index) &&
      texts.zipIdx.all (fun (text, index) => text.id = textId index) then .ok ()
  else fail .duplicateRecordId "record ids are not the canonical e0.. / t0.. sequence"

/-- The `id_index` map: the ids are distinct where it is read. -/
def idIndex (elements : List ElementRecord) (id : String) : Option Nat :=
  elements.findIdx? (·.id = id)

def textIndex (texts : List TextRecord) (id : String) : Option Nat := texts.findIdx? (·.id = id)

/-! ## Topology -/

section

variable (elements : List ElementRecord)

def parentIndex (index : Nat) : Option Nat :=
  elements[index]?.bind fun element => element.parent.bind (idIndex elements)

/-- The indices that the loop pushes to the children of a parent. -/
def children (parent : Nat) : List Nat :=
  childrenIn (parentIndex elements) (List.range elements.length) parent

def roots : List Nat :=
  (List.range elements.length).filter fun index =>
    elements[index]?.any fun element => element.parent = none

def checkParent (element : ElementRecord) (index : Nat) : Except SourcePackageError Unit :=
  match element.parent with
  | none =>
    if element.depth ≠ 0 ∨ element.childIndex.isSome then
      fail .depthMismatch "root element has non-zero depth or child_index"
    else .ok ()
  | some id =>
    match (idIndex elements id).bind (elements[·]?) with
    | none => fail .parentDangling s!"element e{index} parent is not an element"
    | some parent =>
      if parent.depth + 1 ≠ element.depth then
        fail .depthMismatch s!"element e{index} depth is not parent depth + 1"
      else .ok ()

def checkChildIndex (parent position child : Nat) : Except SourcePackageError Unit :=
  if elements[child]?.bind (·.childIndex) ≠ some position then
    fail .childIndexMismatch s!"element e{child} child_index is not {position} under e{parent}"
  else .ok ()

/-- The loop of the pre-order check: it pops each element once at most. -/
def preorder (root : Nat) : List Nat :=
  (popped (children elements) elements.length [root]).getD []

def checkTopology : Except SourcePackageError Nat := do
  elements.zipIdx.forM fun (element, index) => checkParent elements element index
  match roots elements with
  | [root] =>
    (List.range elements.length).forM fun parent =>
      (children elements parent).zipIdx.forM fun (child, position) =>
        checkChildIndex elements parent position child
    if preorder elements root ≠ List.range elements.length then
      fail .elementOrderMismatch "element records are not in canonical pre-order"
    else .ok root
  | roots => fail .rootCount s!"{roots.length} root elements"

def expectedSpace (element : ElementRecord) : Bool :=
  element.xmlSpaceDeclared.getD
    (((element.parent.bind (idIndex elements)).bind (elements[·]?)).any (·.xmlSpaceEffective))

def checkSpace (element : ElementRecord) (index : Nat) : Except SourcePackageError Unit :=
  if element.xmlSpaceEffective ≠ expectedSpace elements element then
    fail .schemaMismatch s!"element e{index} xml:space inheritance mismatch"
  else .ok ()

/-! ## Texts -/

/-- `slots` holds the owners and slots of the texts before. -/
def checkTexts (slots : List (String × TextSlot)) (position : Nat) :
    List TextRecord → Except SourcePackageError Unit
  | [] => .ok ()
  | text :: rest =>
    if (idIndex elements text.owner).isNone then
      fail .textOwnerDangling s!"text t{position} owner is not an element"
    else if (text.owner, text.slot) ∈ slots then
      let slot := text.slot.asStr
      fail .textSlotDuplicate s!"duplicate text slot at record t{position} ({slot})"
    else if text.chars ≠ text.value.length ∨ text.bytes ≠ Utf8.byteLen text.value then
      fail .textLengthMismatch s!"text {text.id} chars/bytes do not match value"
    else checkTexts ((text.owner, text.slot) :: slots) (position + 1) rest

/-- The slot that a step of the walk stands for, where its element refers to a text. -/
def slotAt : Step Nat → Option (Nat × TextSlot)
  | .node index =>
    if elements[index]?.any (·.textRef.isSome) then some (index, .text) else none
  | .tail index =>
    if elements[index]?.any (·.tailRef.isSome) then some (index, .tail) else none

def collectTextOrder (root : Nat) : List (Nat × TextSlot) :=
  ((popped (stepNext (children elements)) (2 * elements.length) [.node root]).getD []).filterMap
    (slotAt elements)

def usizeMax : Nat := 2 ^ 64 - 1

def checkTextOrder (texts : List TextRecord) (root : Nat) : Except SourcePackageError Unit :=
  let actual := texts.map fun text => ((idIndex elements text.owner).getD usizeMax, text.slot)
  if collectTextOrder elements root ≠ actual then
    fail .textOrderMismatch "text records are not in canonical text/tail document order"
  else .ok ()

def checkRef (texts : List TextRecord) (element : ElementRecord) (index : Nat) (slot : TextSlot)
    (reference : Option String) : Except SourcePackageError Unit :=
  match reference with
  | none => .ok ()
  | some id =>
    let name := slot.asStr
    match (textIndex texts id).bind (texts[·]?) with
    | none => fail .textRefDangling s!"element e{index} {name} ref is dangling"
    | some text =>
      if text.owner ≠ element.id ∨ text.slot ≠ slot then
        fail .textRefMismatch s!"element e{index} {name} ref points at the wrong owner/slot"
      else .ok ()

def checkRefs (texts : List TextRecord) : Except SourcePackageError Unit :=
  elements.zipIdx.forM fun (element, index) => do
    checkRef texts element index .text element.textRef
    checkRef texts element index .tail element.tailRef

end

/-! ## The passes together -/

def verifyRecords (package : Package) (limits : Limits) : Except SourcePackageError Unit := do
  let actual := recomputeCounts package.records
  enforceLimits limits actual package.records
  compareCounts package.footer.counts actual
  let (elements, texts) ← sections false package.records
  checkIds elements texts
  if elements.isEmpty then fail .noRoot "no element records"
  else
    let root ← checkTopology elements
    elements.zipIdx.forM fun (element, index) => checkSpace elements element index
    checkTexts elements [] 0 texts
    checkTextOrder elements texts root
    checkRefs elements texts

end LawNexus.SourcePackage
