import LawNexus.SourcePackage.Verify

/-!
# Source trees as records

What a package is meant to hold: a tree of elements, written as its elements in pre-order and its
texts in document order.
-/

namespace LawNexus.SourcePackage

open Forest Forest.Siblings

structure SourceNode where
  tag : String
  attrs : BTreeMap
  declarations : BTreeMap
  xmlSpace : Option Bool
  text : Option (List Char)
  tail : Option (List Char)
deriving DecidableEq, Repr

/-- A root has no tail, and no tag is empty. -/
structure SourceTree where
  root : SourceNode
  below : Siblings SourceNode
  tail_root : root.tail = none
  tag_ne : ∀ node ∈ root :: below.nodes, node.tag.isEmpty = false

/-! ## Records -/

def elementRecord (index : Nat) (parent childIndex : Option Nat) (depth : Nat) (inherited : Bool)
    (node : SourceNode) (textRef tailRef : Option String) : ElementRecord where
  kind := "element"
  schema := ELEMENT_SCHEMA
  id := elementId index
  parent := parent.map elementId
  childIndex
  depth
  clarkTag := node.tag
  attrs := node.attrs
  namespaceDeclarations := node.declarations
  xmlSpaceDeclared := node.xmlSpace
  xmlSpaceEffective := node.xmlSpace.getD inherited
  textRef
  tailRef

def textRecord (text owner : Nat) (slot : TextSlot) (value : List Char) : TextRecord where
  kind := "text"
  schema := TEXT_SCHEMA
  id := textId text
  owner := elementId owner
  slot
  value
  chars := value.length
  bytes := Utf8.byteLen value

/-- The reference to the text with this number, where there is a text. -/
def refAt (text : Nat) (value : Option (List Char)) : Option String := value.map fun _ => textId text

/-- No record or one. -/
def textsOf (text owner : Nat) (slot : TextSlot) (value : Option (List Char)) : List TextRecord :=
  value.toList.map (textRecord text owner slot)

/-- How many texts a slot holds. -/
def textSize (value : Option (List Char)) : Nat := value.toList.length

def textCount : Siblings SourceNode → Nat
  | .nil => 0
  | .cons node below after =>
    textSize node.text + textCount below + textSize node.tail + textCount after

/-- The elements of the trees below one parent. The first of them has this index and this
position among the children, and `text` texts come before it. -/
def elementsAt (parent depth : Nat) (inherited : Bool) (position index text : Nat) :
    Siblings SourceNode → List ElementRecord
  | .nil => []
  | .cons node below after =>
    let behind := text + textSize node.text + textCount below
    elementRecord index (some parent) (some position) depth inherited node
        (refAt text node.text) (refAt behind node.tail) ::
      (elementsAt index (depth + 1) (node.xmlSpace.getD inherited) 0 (index + 1)
          (text + textSize node.text) below ++
        elementsAt parent depth inherited (position + 1) (index + 1 + below.size)
          (behind + textSize node.tail) after)

/-- The texts of the trees: the own text, then each child and its tail. -/
def textsAt (index text : Nat) : Siblings SourceNode → List TextRecord
  | .nil => []
  | .cons node below after =>
    let behind := text + textSize node.text + textCount below
    textsOf text index .text node.text ++
      (textsAt (index + 1) (text + textSize node.text) below ++
        (textsOf behind index .tail node.tail ++
          textsAt (index + 1 + below.size) (behind + textSize node.tail) after))

namespace SourceTree

def elements (tree : SourceTree) : List ElementRecord :=
  elementRecord 0 none none 0 false tree.root (refAt 0 tree.root.text) none ::
    elementsAt 0 1 (tree.root.xmlSpace.getD false) 0 1 (textSize tree.root.text) tree.below

def texts (tree : SourceTree) : List TextRecord :=
  textsOf 0 0 .text tree.root.text ++ textsAt 1 (textSize tree.root.text) tree.below

def records (tree : SourceTree) : List Record :=
  tree.elements.map .element ++ tree.texts.map .text

end SourceTree

/-! ## The numbers of the elements -/

/-- The trees with the indices that their elements have in pre-order. -/
def numbered (index : Nat) : Siblings SourceNode → Siblings Nat
  | .nil => .nil
  | .cons _ below after =>
    .cons index (numbered (index + 1) below) (numbered (index + 1 + below.size) after)

@[simp] theorem size_numbered (index : Nat) (F : Siblings SourceNode) :
    (numbered index F).size = F.size := by
  induction F generalizing index with
  | nil => rfl
  | cons node below after ih ih' => simp only [numbered, size, ih, ih']

theorem nodes_numbered (index : Nat) (F : Siblings SourceNode) :
    (numbered index F).nodes = List.range' index F.size := by
  induction F generalizing index with
  | nil => rfl
  | cons node below after ih ih' =>
    rw [numbered, nodes, ih, ih', size, List.range'_succ, List.range'_append_1]

@[simp] theorem length_elementsAt (parent depth : Nat) (inherited : Bool)
    (position index text : Nat) (F : Siblings SourceNode) :
    (elementsAt parent depth inherited position index text F).length = F.size := by
  induction F generalizing parent depth inherited position index text with
  | nil => rfl
  | cons node below after ih ih' =>
    simp only [elementsAt, List.length_cons, List.length_append, ih, ih', size]

@[simp] theorem length_textsOf (text owner : Nat) (slot : TextSlot) (value : Option (List Char)) :
    (textsOf text owner slot value).length = textSize value := by
  simp [textsOf, textSize]

@[simp] theorem length_textsAt (index text : Nat) (F : Siblings SourceNode) :
    (textsAt index text F).length = textCount F := by
  induction F generalizing index text with
  | nil => rfl
  | cons node below after ih ih' =>
    simp only [textsAt, List.length_append, length_textsOf, ih, ih', textCount]
    omega

end LawNexus.SourcePackage
