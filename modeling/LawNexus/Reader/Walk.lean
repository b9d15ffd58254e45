import LawNexus.Forest.Walk
import LawNexus.Reader.Index

/-!
# The walk over the elements

`reader_projection`, `reader_reading_order` and `reader_verifier` each walk over the elements by
the same code. What differs between them are the errors and the events.
-/

namespace LawNexus.Reader

open Forest SourcePackage Loops

namespace ReaderRecordIndex

variable (index : ReaderRecordIndex)

/-- The sort key of `kids` and of `roots`. -/
def order (element : ElementRecord) : Nat := (index.sourcePos element.id).getD (2 ^ 64 - 1)

def children (id : String) : List ElementRecord :=
  sortBy index.order (index.elements.filter (·.parent = some id))

def roots : List ElementRecord := sortBy index.order (index.elements.filter (·.parent = none))

/-- The steps in the order in which the stack gives them back: each element is pushed once at most,
and so is its tail. -/
def walk : List (Step ElementRecord) :=
  (popped (stepNext fun element => index.children element.id) (2 * index.elements.length)
    (index.roots.map .node)).getD []

end ReaderRecordIndex

/-- What a program says where the index does not have what it looks for. -/
structure WalkErrors (ε : Type) where
  noRole : String → ε
  missing : String → ε
  noOwner : String → ε
  contract : ContractError → ε

section

variable {ε ω : Type} (errors : WalkErrors ε) (index : ReaderRecordIndex)

def WalkErrors.stop {α : Type} (errors : WalkErrors ε) (r : Except (Stop ContractError) α) :
    Except (Stop ε) α := r.mapError (Stop.map errors.contract)

def roleOf (id : String) : Except ε ReaderRole :=
  match index.roleOf id with
  | some role => .ok role
  | none => .error (errors.noRole id)

def parentOf (id : String) : Option String := (index.element id).bind (·.parent)

/-! ## Containers -/

def structuralViewKind : ReaderRole → Option ReaderViewKind
  | .paragraph => some .paragraph
  | .table => some .table
  | .row => some .row
  | .cell => some .cell
  | .note => some .note
  | _ => none

def viewKindRank : ReaderViewKind → Nat
  | .paragraph => 0
  | .residual => 1
  | .table => 2
  | .row => 3
  | .cell => 4
  | .note => 5

def parentRoles : ReaderViewKind → List ReaderRole
  | .paragraph | .residual | .table | .note => [.cell, .note]
  | .row => [.table]
  | .cell => [.row]

/-- One turn of `nearest_container`, at the element whose parent is looked at. -/
def containerTurn (allowed : List ReaderRole) (current : String) :
    Except ε (Turn String (Option ElementRef)) :=
  match parentOf index current with
  | none => .ok (.done none)
  | some parent => do
    let role ← roleOf errors index parent
    .ok (if allowed.contains role then .done (some parent) else .next parent)

def nearestContainer (elementRef : ElementRef) (allowed : List ReaderRole) :
    Except (Stop ε) (Option ElementRef) :=
  climb (containerTurn errors index allowed) index.turns elementRef

/-! ## Semantics -/

def ancestorTurn (role : ReaderRole) (current : String) : Except ε (Turn String Bool) := do
  let found ← roleOf errors index current
  if found = role then .ok (.done true)
  else
    match parentOf index current with
    | some parent => .ok (.next parent)
    | none => .ok (.done false)

def ancestorHasRole (element : String) (role : ReaderRole) : Except (Stop ε) Bool :=
  climb (ancestorTurn errors index role) index.turns element

/-- What the elements at and above one say about the text in it. -/
def contextSemantic : Option String → Except (Stop ε) (Option ReaderSemantic)
  | none => .ok none
  | some context => do
    if ← ancestorHasRole errors index context .field then .ok (some .fieldCode)
    else if ← ancestorHasRole errors index context .revisionInsertion then
      .ok (some .revisionInsertion)
    else if ← ancestorHasRole errors index context .revisionDeletion then
      .ok (some .revisionDeletion)
    else .ok none

/-- A tail belongs to the content of the parent. -/
def contextOf (element : ElementRecord) : TextSlot → Option String
  | .text => some element.id
  | .tail => element.parent

def textSemantic (owner : String) (slot : TextSlot) (value : List Char) :
    Except (Stop ε) ReaderSemantic :=
  match index.element owner with
  | none => .error (.failed (errors.noOwner owner))
  | some element => do
    let semantic ← contextSemantic errors index (contextOf element slot)
    .ok (semantic.getD (if (Texts.trim (.ofList value)).isEmpty then .whitespace else .body))

/-! ## Events -/

def unknownOrForeignBoundary (elementId : String) : Except ε Bool :=
  match index.element elementId with
  | none => .error (errors.missing elementId)
  | some element =>
    match element.parent with
    | none => .ok true
    | some parentId =>
      match index.element parentId with
      | none => .error (errors.missing parentId)
      | some parent => do
        let role ← roleOf errors index parentId
        .ok (!(role = .unknown || role = .foreign) ||
          clarkNamespace parent.clarkTag ≠ clarkNamespace element.clarkTag)

def textEvents (fragment : FragmentRef → TextSlot → ElementRef → ReaderViewKey → ω)
    (element : ElementRecord) (slot : TextSlot) (reference : Option FragmentRef) :
    Except (Stop ε) (List ω) :=
  match reference with
  | none => .ok []
  | some id => do
    let view ← errors.stop (slotView index element.id slot)
    .ok [fragment id slot element.id view]

def controlEvents (control : ElementRef → ReaderDerivedKind → ReaderViewKey → ω)
    (element : ElementRecord) (role : ReaderRole) : Except (Stop ε) (List ω) :=
  if role = .control ∧ element.textRef = none then
    match controlDerivedKind element.clarkTag element.attrs with
    | some kind => do
      let view ← errors.stop (viewKey index element.id)
      .ok [control element.id kind view]
    | none => .ok []
  else .ok []

/-- A reference stands for a whole subtree of an unknown or foreign namespace. -/
def isBoundary (element : ElementRecord) (role : ReaderRole) : Except ε Bool :=
  if role = .unknown ∨ role = .foreign then unknownOrForeignBoundary errors index element.id
  else .ok (role = .noteReference || role = .field)

def referenceEvents (reference : ElementRef → ReaderReferenceType → ReaderViewKey → ω)
    (element : ElementRecord) (role : ReaderRole) : Except (Stop ε) (List ω) := do
  if ← (isBoundary errors index element role).mapError .failed then
    match referenceTypeOf element.clarkTag with
    | some type => do
      let view ← errors.stop (viewKey index element.id)
      .ok [reference element.id type view]
    | none => .ok []
  else .ok []

/-- The events of one step. A program without references passes none. -/
def stepEvents (fragment : FragmentRef → TextSlot → ElementRef → ReaderViewKey → ω)
    (control : ElementRef → ReaderDerivedKind → ReaderViewKey → ω)
    (references : ElementRecord → ReaderRole → Except (Stop ε) (List ω)) :
    Step ElementRecord → Except (Stop ε) (List ω)
  | .node element => do
    let role ← (roleOf errors index element.id).mapError .failed
    let texts ← textEvents errors index fragment element .text element.textRef
    let controls ← controlEvents errors index control element role
    let references ← references element role
    .ok (texts ++ controls ++ references)
  | .tail element => textEvents errors index fragment element .tail element.tailRef

def walkEvents (fragment : FragmentRef → TextSlot → ElementRef → ReaderViewKey → ω)
    (control : ElementRef → ReaderDerivedKind → ReaderViewKey → ω)
    (references : ElementRecord → ReaderRole → Except (Stop ε) (List ω)) :
    Except (Stop ε) (List ω) :=
  (index.walk.mapM (stepEvents errors index fragment control references)).map List.flatten

end

end LawNexus.Reader
