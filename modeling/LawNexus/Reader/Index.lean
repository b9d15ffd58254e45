import LawNexus.Loops
import LawNexus.Reader.Contract

/-!
# The index over the records

`ReaderRecordIndex` of `reader_contract`, and which view a text belongs to.
-/

namespace LawNexus.Reader

open Forest SourcePackage

/-- The elements and the texts of a list of records. The ids tell them apart, and every parent and
every owner is an element: the maps of the source are read off the two lists. -/
structure ReaderRecordIndex where
  elements : List ElementRecord
  texts : List TextRecord
  nodup_elements : (elements.map (·.id)).Nodup
  nodup_texts : (texts.map (·.id)).Nodup
  parent_mem : ∀ e ∈ elements, ∀ parent ∈ e.parent, parent ∈ elements.map (·.id)
  owner_mem : ∀ x ∈ texts, x.owner ∈ elements.map (·.id)

/-! ## Building the index -/

/-- The loop over the records, with the records of each section that came before. -/
def collect (elements : List ElementRecord) (texts : List TextRecord) :
    List Record → Except ContractError (List ElementRecord × List TextRecord)
  | [] => .ok (elements, texts)
  | .element element :: rest =>
    if elements.any (·.id = element.id) then
      malformedIndex s!"duplicate element id {element.id}"
    else collect (elements ++ [element]) texts rest
  | .text text :: rest =>
    if texts.any (·.id = text.id) then malformedIndex s!"duplicate text id {text.id}"
    else collect elements (texts ++ [text]) rest

def requireParent (elements : List ElementRecord) (element : ElementRecord) :
    Except ContractError Unit :=
  match element.parent with
  | some parent =>
    if elements.any (·.id = parent) then .ok ()
    else malformedIndex s!"element {element.id} parent {parent} is missing"
  | none => .ok ()

def requireOwner (elements : List ElementRecord) (text : TextRecord) : Except ContractError Unit :=
  if elements.any (·.id = text.owner) then .ok ()
  else malformedIndex s!"text {text.id} owner {text.owner} is missing"

theorem collect_ok_iff {E : List ElementRecord} {X : List TextRecord} {records : List Record}
    {s : List ElementRecord × List TextRecord} (hE : (E.map (·.id)).Nodup)
    (hX : (X.map (·.id)).Nodup) : collect E X records = .ok s ↔
      s = (E ++ records.filterMap Record.element?, X ++ records.filterMap Record.text?) ∧
        (s.1.map (·.id)).Nodup ∧ (s.2.map (·.id)).Nodup := by
  induction records generalizing E X with
  | nil =>
    simp only [collect, List.filterMap_nil, List.append_nil, Except.ok.injEq]
    constructor
    · rintro rfl
      exact ⟨rfl, hE, hX⟩
    · rintro ⟨rfl, -⟩
      rfl
  | cons record records ih =>
    cases record with
    | element e =>
      rw [collect, List.filterMap_cons_some (rfl : Record.element? (.element e) = some e),
        List.filterMap_cons_none (rfl : Record.text? (.element e) = none)]
      split_ifs with hmem
      · refine iff_of_false (by simp [malformedIndex]) ?_
        rintro ⟨rfl, hnodup, -⟩
        rw [List.map_append, List.map_cons, List.nodup_append] at hnodup
        obtain ⟨e', he', heq⟩ := List.any_eq_true.mp hmem
        exact hnodup.2.2 _ (List.mem_map_of_mem he') _ List.mem_cons_self (by simpa using heq)
      · have hfresh : ∀ a ∈ E, ¬ a.id = e.id := by simpa using hmem
        rw [ih (by simpa [List.nodup_append] using ⟨hE, hfresh⟩) hX, List.append_assoc]
        rfl
    | text x =>
      rw [collect, List.filterMap_cons_none (rfl : Record.element? (.text x) = none),
        List.filterMap_cons_some (rfl : Record.text? (.text x) = some x)]
      split_ifs with hmem
      · refine iff_of_false (by simp [malformedIndex]) ?_
        rintro ⟨rfl, -, hnodup⟩
        rw [List.map_append, List.map_cons, List.nodup_append] at hnodup
        obtain ⟨x', hx', heq⟩ := List.any_eq_true.mp hmem
        exact hnodup.2.2 _ (List.mem_map_of_mem hx') _ List.mem_cons_self (by simpa using heq)
      · have hfresh : ∀ a ∈ X, ¬ a.id = x.id := by simpa using hmem
        rw [ih hE (by simpa [List.nodup_append] using ⟨hX, hfresh⟩), List.append_assoc]
        rfl

theorem requireParent_ok_iff {E : List ElementRecord} {e : ElementRecord} :
    requireParent E e = .ok () ↔ ∀ parent ∈ e.parent, parent ∈ E.map (·.id) := by
  unfold requireParent malformedIndex
  cases e.parent with
  | none => simp
  | some parent =>
    dsimp only
    split_ifs with h <;> simpa using h

theorem requireOwner_ok_iff {E : List ElementRecord} {x : TextRecord} :
    requireOwner E x = .ok () ↔ x.owner ∈ E.map (·.id) := by
  unfold requireOwner malformedIndex
  split_ifs with h <;> simpa using h

namespace ReaderRecordIndex

def new (records : List Record) : Except ContractError ReaderRecordIndex :=
  match hcollect : collect [] [] records with
  | .error error => .error error
  | .ok (elements, texts) =>
    match hparents : elements.forM (requireParent elements) with
    | .error error => .error error
    | .ok () =>
      match howners : texts.forM (requireOwner elements) with
      | .error error => .error error
      | .ok () =>
        have hnodup := ((collect_ok_iff (by simp) (by simp)).mp hcollect).2
        .ok {
          elements, texts
          nodup_elements := hnodup.1
          nodup_texts := hnodup.2
          parent_mem := fun e he =>
            requireParent_ok_iff.mp (Loops.forM_ok_iff.mp hparents e he)
          owner_mem := fun x hx => requireOwner_ok_iff.mp (Loops.forM_ok_iff.mp howners x hx) }

variable (index : ReaderRecordIndex)

/-! ## Lookups -/

def element (id : String) : Option ElementRecord := index.elements.find? (·.id = id)

def text (id : String) : Option TextRecord := index.texts.find? (·.id = id)

def roleOf (id : String) : Option ReaderRole :=
  (index.element id).map fun element => roleOfTag element.clarkTag

/-- The pre-order index of an element. -/
def sourcePos (id : String) : Option Nat := index.elements.findIdx? (·.id = id)

def requireRole (id : String) : Except ContractError ReaderRole :=
  match index.roleOf id with
  | some role => .ok role
  | none => malformedIndex s!"unknown element reference {id}"

def parentId (id : String) : Except ContractError (Option String) :=
  match index.element id with
  | some element => .ok element.parent
  | none => malformedIndex s!"unknown element reference {id}"

/-- Enough turns for a loop over the parents, where it ends at all. -/
def turns : Nat := index.elements.length + 1

end ReaderRecordIndex

/-! ## The view of an element -/

section

variable (index : ReaderRecordIndex)

/-- The nearest paragraph at or above an element. -/
def paragraphTurn (current : String) : Except ContractError (Turn String (Option String)) := do
  let role ← index.requireRole current
  if role = .paragraph then .ok (.done (some current))
  else
    match ← index.parentId current with
    | some parent => .ok (.next parent)
    | none => .ok (.done none)

def anchorTurn (current : String) : Except ContractError (Turn String ElementRef) := do
  match ← index.parentId current with
  | none => .ok (.done current)
  | some parent =>
    let role ← index.requireRole parent
    if role = .table ∨ role = .row ∨ role = .cell ∨ role = .note then .ok (.done current)
    else .ok (.next parent)

def residualAnchor (elementRef : ElementRef) : Except (Stop ContractError) ElementRef :=
  climb (anchorTurn index) index.turns elementRef

def viewKey (elementRef : ElementRef) : Except (Stop ContractError) ReaderViewKey := do
  match ← climb (paragraphTurn index) index.turns elementRef with
  | some paragraph => .ok ⟨.paragraph, paragraph⟩
  | none => (residualAnchor index elementRef).map (⟨.residual, ·⟩)

/-- The paragraph that a child stands in directly. -/
def parentParagraph (childRef : ElementRef) : Except ContractError (Option ElementRef) := do
  match ← index.parentId childRef with
  | none => .ok none
  | some parent =>
    let role ← index.requireRole parent
    .ok (if role = .paragraph then some parent else none)

def tailViewKey (childRef : ElementRef) : Except (Stop ContractError) ReaderViewKey := do
  match ← (parentParagraph index childRef).mapError .failed with
  | some paragraph => .ok ⟨.paragraph, paragraph⟩
  | none => (residualAnchor index childRef).map (⟨.residual, ·⟩)

/-! ## The partition of the texts -/

structure PrimaryOwnership where
  fragment : FragmentRef
  slot : TextSlot
  view : ReaderViewKey
deriving DecidableEq, Repr

/-- The view of a text in this slot of an element. -/
def slotView (owner : ElementRef) : TextSlot → Except (Stop ContractError) ReaderViewKey
  | .text => viewKey index owner
  | .tail => tailViewKey index owner

def partitionPrimaryViews : Except (Stop ContractError) (List PrimaryOwnership) :=
  index.texts.mapM fun text =>
    (slotView index text.owner text.slot).map (⟨text.id, text.slot, ·⟩)

end

end LawNexus.Reader
