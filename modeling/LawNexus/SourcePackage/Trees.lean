import LawNexus.SourcePackage.Recover

/-!
# Verified packages are source trees
-/

namespace LawNexus.SourcePackage

open Forest Forest.Siblings

variable {E : List ElementRecord} {X : List TextRecord} {F : Siblings SourceNode}

/-! ## The records of a tree pass the checks on each of them -/

theorem map_id_elementsAt (parent depth : Nat) (inherited : Bool) (position index text : Nat)
    (F : Siblings SourceNode) :
    (elementsAt parent depth inherited position index text F).map (·.id) =
      (List.range' index F.size).map elementId := by
  induction F generalizing parent depth inherited position index text with
  | nil => rfl
  | cons node below after ih ih' =>
    rw [elementsAt, List.map_cons, List.map_append, ih, ih', size, List.range'_succ,
      ← List.range'_append_1, List.map_cons, List.map_append]
    rfl

theorem map_id_textsOf (text owner : Nat) (slot : TextSlot) (value : Option (List Char)) :
    (textsOf text owner slot value).map (·.id) =
      (List.range' text (textSize value)).map textId := by
  cases value <;> rfl

theorem map_id_textsAt (index text : Nat) (F : Siblings SourceNode) :
    (textsAt index text F).map (·.id) = (List.range' text (textCount F)).map textId := by
  induction F generalizing index text with
  | nil => rfl
  | cons node below after ih ih' =>
    simp only [textsAt, textCount, List.map_append, map_id_textsOf, ih, ih', ← List.range'_append_1,
      Nat.add_assoc]

theorem constant_elementsAt {parent depth position index text : Nat} {inherited : Bool}
    (htag : ∀ node ∈ F.nodes, node.tag.isEmpty = false) :
    ∀ e ∈ elementsAt parent depth inherited position index text F, e.Constant := by
  induction F generalizing parent depth inherited position index text with
  | nil => exact nofun
  | cons node below after ih ih' =>
    rw [nodes, List.forall_mem_cons, List.forall_mem_append] at htag
    obtain ⟨hnode, hbelow, hafter⟩ := htag
    rw [elementsAt, List.forall_mem_cons, List.forall_mem_append]
    exact ⟨⟨rfl, rfl, hnode⟩, ih hbelow, ih' hafter⟩

theorem mem_textsOf {text owner : Nat} {slot : TextSlot} {value : Option (List Char)}
    {x : TextRecord} : x ∈ textsOf text owner slot value ↔
      ∃ v, value = some v ∧ x = textRecord text owner slot v := by
  cases value <;> simp [textsOf]

/-- Each text is one of an element of the trees. -/
theorem mem_textsAt {index text : Nat} {x : TextRecord} (h : x ∈ textsAt index text F) :
    ∃ t slot v, ∃ i ∈ (numbered index F).nodes, x = textRecord t i slot v := by
  induction F generalizing index text with
  | nil => exact nomatch h
  | cons node below after ih ih' =>
    simp only [textsAt, List.mem_append, mem_textsOf] at h
    simp only [numbered, nodes, List.mem_cons, List.mem_append]
    rcases h with ⟨v, -, rfl⟩ | h | ⟨v, -, rfl⟩ | h
    · exact ⟨_, _, v, index, Or.inl rfl, rfl⟩
    · obtain ⟨t, slot, v, i, hi, rfl⟩ := ih h
      exact ⟨t, slot, v, i, Or.inr (Or.inl hi), rfl⟩
    · exact ⟨_, _, v, index, Or.inl rfl, rfl⟩
    · obtain ⟨t, slot, v, i, hi, rfl⟩ := ih' h
      exact ⟨t, slot, v, i, Or.inr (Or.inr hi), rfl⟩

/-! ## Trees laid out below a parent -/

/-- The records of the trees stand at their places. -/
structure Laid (E : List ElementRecord) (X : List TextRecord) (p : Nat) (ep : ElementRecord)
    (position index text : Nat) (F : Siblings SourceNode) : Prop where
  parent : E[p]? = some ep
  elements : elementsAt p (ep.depth + 1) ep.xmlSpaceEffective position index text F <+: E.drop index
  texts : textsAt index text F <+: X.drop text

theorem append_isPrefix_drop {α : Type} {l a b : List α} {i : Nat} :
    a ++ b <+: l.drop i ↔ a <+: l.drop i ∧ b <+: l.drop (i + a.length) := by
  constructor
  · rintro ⟨rest, h⟩
    refine ⟨⟨b ++ rest, by rw [← h, List.append_assoc]⟩, rest, ?_⟩
    rw [← List.drop_drop, ← h, List.append_assoc, List.drop_left]
  · rintro ⟨⟨rest, ha⟩, hb⟩
    rw [← List.drop_drop, ← ha, List.drop_left] at hb
    rw [← ha]
    exact (List.prefix_append_right_inj a).mpr hb

theorem cons_isPrefix_drop {α : Type} {l b : List α} {a : α} {i : Nat} :
    a :: b <+: l.drop i ↔ l[i]? = some a ∧ b <+: l.drop (i + 1) := by
  rw [← List.singleton_append, append_isPrefix_drop, List.length_singleton, ← List.head?_drop]
  refine and_congr_left' ?_
  cases l.drop i <;> simp [List.cons_prefix_cons, eq_comm]

section

variable {p position index text : Nat} {ep : ElementRecord}

/-- The trees begin with an element, its text, what is below it and its tail. -/
theorem Laid.cons {node : SourceNode} {below after : Siblings SourceNode}
    (h : Laid E X p ep position index text (.cons node below after)) :
    ∃ e behind, behind = text + textSize node.text + textCount below ∧
      e = elementRecord index (some p) (some position) (ep.depth + 1) ep.xmlSpaceEffective node
        (refAt text node.text) (refAt behind node.tail) ∧
      textsOf text index .text node.text <+: X.drop text ∧
      Laid E X index e 0 (index + 1) (text + textSize node.text) below ∧
      textsOf behind index .tail node.tail <+: X.drop behind ∧
      Laid E X p ep (position + 1) (index + 1 + below.size) (behind + textSize node.tail) after := by
  obtain ⟨hp, helements, htexts⟩ := h
  rw [elementsAt, cons_isPrefix_drop, append_isPrefix_drop, length_elementsAt] at helements
  obtain ⟨he, hbelow, hafter⟩ := helements
  rw [textsAt, append_isPrefix_drop, append_isPrefix_drop, append_isPrefix_drop, length_textsOf,
    length_textsAt, length_textsOf] at htexts
  obtain ⟨htext, htbelow, htail, htafter⟩ := htexts
  exact ⟨_, _, rfl, rfl, htext, ⟨he, hbelow, htbelow⟩, htail, hp, hafter, htafter⟩

/-! ## What follows from the layout -/

theorem Laid.parented (h : Laid E X p ep position index text F) (hids : CanonicalIds E X) :
    (numbered index F).Parented (parentIndex E) (some p) := by
  induction F generalizing p ep position index text with
  | nil => trivial
  | cons node below after ih ih' =>
    obtain ⟨e, behind, -, rfl, -, hbelow, -, hafter⟩ := h.cons
    refine ⟨?_, ih hbelow, ih' hafter⟩
    rw [parentIndex, hbelow.parent, Option.bind_some, elementRecord, Option.map_some,
      Option.bind_some, hids.idIndex_eq_some]
    exact ⟨rfl, (List.getElem?_eq_some_iff.mp h.parent).1⟩

theorem Laid.ranked (h : Laid E X p ep position index text F) :
    (numbered index F).Ranked (fun c => E[c]?.bind ElementRecord.childIndex) position := by
  induction F generalizing p ep position index text with
  | nil => trivial
  | cons node below after ih ih' =>
    obtain ⟨e, behind, -, rfl, -, hbelow, -, hafter⟩ := h.cons
    refine ⟨?_, ih hbelow, ih' hafter⟩
    dsimp only
    rw [hbelow.parent]
    rfl

theorem refersTo_refAt (hids : CanonicalIds E X) {i t : Nat} {s : TextSlot}
    {value : Option (List Char)} {e : ElementRecord} (he : e.id = elementId i)
    (htext : textsOf t i s value <+: X.drop t) : RefersTo X e s (refAt t value) := by
  cases value with
  | none => exact nofun
  | some v =>
    rintro _ ⟨⟩
    obtain ⟨hx, -⟩ := cons_isPrefix_drop.mp htext
    refine ⟨t, textRecord t i s v, ?_, hx, he.symm, rfl⟩
    exact hids.textIndex_eq_some.mpr ⟨rfl, (List.getElem?_eq_some_iff.mp hx).1⟩

/-- What is checked of one element. -/
structure Fits (E : List ElementRecord) (X : List TextRecord) (e : ElementRecord) : Prop where
  placed : Placed E e
  space : e.xmlSpaceEffective = expectedSpace E e
  refs : RefersTo X e .text e.textRef ∧ RefersTo X e .tail e.tailRef

theorem Laid.fits (h : Laid E X p ep position index text F) (hids : CanonicalIds E X) :
    ∀ i ∈ (numbered index F).nodes, ∃ e, E[i]? = some e ∧ e.parent ≠ none ∧ Fits E X e := by
  induction F generalizing p ep position index text with
  | nil => simp [numbered, nodes]
  | cons node below after ih ih' =>
    obtain ⟨e, behind, -, rfl, htext, hbelow, htail, hafter⟩ := h.cons
    rw [numbered, nodes, List.forall_mem_cons, List.forall_mem_append]
    have hp : idIndex E (elementId p) = some p :=
      hids.idIndex_eq_some.mpr ⟨rfl, (List.getElem?_eq_some_iff.mp h.parent).1⟩
    refine ⟨⟨_, hbelow.parent, Option.some_ne_none _, ?_, ?_, ?_, ?_⟩, ih hbelow, ih' hafter⟩
    · exact Or.inr ⟨elementId p, p, ep, rfl, hp, h.parent, rfl⟩
    · simp [expectedSpace, elementRecord, hp, h.parent]
    · exact refersTo_refAt hids rfl htext
    · exact refersTo_refAt hids rfl htail

theorem map_slotOf_textsOf (hids : CanonicalIds E X) {i : Nat} (hi : i < E.length) (t : Nat)
    (s : TextSlot) (value : Option (List Char)) :
    (textsOf t i s value).map (slotOf E) = slotsFor i s (refAt t value) := by
  have hindex : idIndex E (elementId i) = some i := hids.idIndex_eq_some.mpr ⟨rfl, hi⟩
  cases value with
  | none => rfl
  | some v => simp [textsOf, slotOf, textRecord, hindex, slotsFor, refAt]

/-- The texts stand in the order in which the walk comes to their slots. -/
theorem Laid.order (h : Laid E X p ep position index text F) (hids : CanonicalIds E X) :
    (textsAt index text F).map (slotOf E) =
      (numbered index F).steps.filterMap (slotAt E) := by
  induction F generalizing p ep position index text with
  | nil => rfl
  | cons node below after ih ih' =>
    obtain ⟨e, behind, rfl, rfl, -, hbelow, -, hafter⟩ := h.cons
    have he := hbelow.parent
    have hi := (List.getElem?_eq_some_iff.mp he).1
    rw [numbered, steps, filterMap_slotAt_node he, List.filterMap_append, filterMap_slotAt_tail he,
      textsAt, List.map_append, List.map_append, List.map_append, map_slotOf_textsOf hids hi,
      ih hbelow, map_slotOf_textsOf hids hi, ih' hafter]
    rfl

end

/-! ## The whole tree -/

theorem key_of_map_range {α : Type} {l : List α} {key : α → String} {name : Nat → String} {n : Nat}
    (h : l.map key = (List.range n).map name) {i : Nat} {a : α} (ha : l[i]? = some a) :
    key a = name i := by
  have hat := congrArg (·[i]?) h
  simp only [List.getElem?_map, ha, Option.map_some] at hat
  obtain ⟨j, hj, hname⟩ := Option.map_eq_some_iff.mp hat.symm
  obtain ⟨hlt, rfl⟩ := List.getElem?_eq_some_iff.mp hj
  rw [← hname, List.getElem_range]

namespace SourceTree

variable (tree : SourceTree)

/-- The element of the root. -/
def rootRecord : ElementRecord :=
  elementRecord 0 none none 0 false tree.root (refAt 0 tree.root.text) none

theorem length_elements : tree.elements.length = tree.below.size + 1 := by
  rw [elements, List.length_cons, length_elementsAt]

theorem canonicalIds : CanonicalIds tree.elements tree.texts := by
  have helements : tree.elements.map (·.id) = (List.range (tree.below.size + 1)).map elementId := by
    rw [elements, List.map_cons, map_id_elementsAt, List.range_eq_range', List.range'_succ]
    rfl
  have htexts : tree.texts.map (·.id) =
      (List.range (textSize tree.root.text + textCount tree.below)).map textId := by
    rw [texts, List.map_append, map_id_textsOf, map_id_textsAt, ← List.map_append,
      List.range_eq_range', ← List.range'_append_1, Nat.zero_add]
  exact ⟨key_of_map_range helements, key_of_map_range htexts⟩

theorem laid : Laid tree.elements tree.texts 0 tree.rootRecord 0 1 (textSize tree.root.text)
    tree.below := by
  refine ⟨rfl, List.prefix_rfl, ?_⟩
  have hlength : textSize tree.root.text = (textsOf 0 0 .text tree.root.text).length := by
    rw [length_textsOf]
  rw [texts, hlength, List.drop_left, ← hlength]

theorem parented : (cons 0 (numbered 1 tree.below) .nil).Parented (parentIndex tree.elements) none :=
  ⟨rfl, tree.laid.parented tree.canonicalIds, trivial⟩

theorem nodes_numbers : (cons 0 (numbered 1 tree.below) .nil).nodes =
    List.range tree.elements.length := by
  rw [nodes, nodes, List.append_nil, nodes_numbered, length_elements, List.range_eq_range',
    List.range'_succ]

theorem unfolds : (cons 0 (numbered 1 tree.below) .nil).Unfolds (children tree.elements) := by
  have hunfolds := tree.parented.unfolds (by rw [nodes_numbers]; exact List.nodup_range) nofun
  rwa [nodes_numbers] at hunfolds

theorem size_numbers : (cons 0 (numbered 1 tree.below) .nil).size = tree.elements.length := by
  rw [← length_nodes, nodes_numbers, List.length_range]

theorem fits : ∀ e ∈ tree.elements, Fits tree.elements tree.texts e := by
  intro e he
  obtain ⟨i, hi⟩ := List.mem_iff_getElem?.mp he
  have hmem : i ∈ (cons 0 (numbered 1 tree.below) .nil).nodes := by
    rw [nodes_numbers, List.mem_range]
    exact (List.getElem?_eq_some_iff.mp hi).1
  rw [nodes, nodes, List.append_nil, List.mem_cons] at hmem
  rcases hmem with rfl | hmem
  · obtain rfl := Option.some.inj hi
    refine ⟨Or.inl ⟨rfl, rfl, rfl⟩, rfl, refersTo_refAt tree.canonicalIds rfl ?_, fun _ h => ?_⟩
    · exact List.prefix_append ..
    · cases h
  · obtain ⟨e', he', -, hfits⟩ := tree.laid.fits tree.canonicalIds i hmem
    obtain rfl := Option.some.inj (hi.symm.trans he')
    exact hfits

theorem slots_eq : tree.texts.map (slotOf tree.elements) =
    (.node 0 :: (numbered 1 tree.below).steps).filterMap (slotAt tree.elements) := by
  have hroot : tree.elements[0]? = some tree.rootRecord := rfl
  have hlt : 0 < tree.elements.length := by simp [length_elements]
  rw [texts, List.map_append, map_slotOf_textsOf tree.canonicalIds hlt,
    tree.laid.order tree.canonicalIds, filterMap_slotAt_node hroot]
  rfl

theorem nodup_slots : (tree.texts.map fun x => (x.owner, x.slot)).Nodup := by
  have hsteps : (cons 0 (numbered 1 tree.below) .nil).steps.Nodup :=
    nodup_steps (by rw [nodes_numbers]; exact List.nodup_range)
  have hsub : List.Sublist (.node 0 :: (numbered 1 tree.below).steps)
      (cons 0 (numbered 1 tree.below) .nil).steps := (List.sublist_append_left ..).cons_cons _
  have hslots := (hsteps.sublist hsub).filterMap (f := slotAt tree.elements)
    fun _ _ _ hs ht => (eq_of_slotAt hs).trans (eq_of_slotAt ht).symm
  rw [← slots_eq] at hslots
  refine List.Nodup.of_map
    (fun slot => ((idIndex tree.elements slot.1).getD usizeMax, slot.2)) ?_
  rwa [List.map_map]

theorem order : collectTextOrder tree.elements 0 = tree.texts.map (slotOf tree.elements) := by
  have hpopped := popped_steps tree.unfolds (Nat.le_of_eq (congrArg (2 * ·) tree.size_numbers))
  rw [collectTextOrder, show [Step.node 0] = (cons 0 (numbered 1 tree.below) .nil).roots.map .node
    from rfl, hpopped, Option.getD_some, topSteps, nodes, nodes_toSteps, topSteps, nodes,
    List.append_nil, slots_eq]

theorem mem_texts {x : TextRecord} (hx : x ∈ tree.texts) :
    ∃ t slot v, ∃ i < tree.elements.length, x = textRecord t i slot v := by
  have hlength := tree.length_elements
  rcases List.mem_append.mp hx with hx | hx
  · obtain ⟨v, -, rfl⟩ := mem_textsOf.mp hx
    exact ⟨_, _, v, 0, by omega, rfl⟩
  · obtain ⟨t, slot, v, i, hi, rfl⟩ := mem_textsAt hx
    rw [nodes_numbered, List.mem_range'_1] at hi
    exact ⟨t, slot, v, i, by omega, rfl⟩

theorem roots_eq : roots tree.elements = [0] := by
  rw [roots, ← nodes_numbers, nodes, nodes, List.append_nil, List.filter_cons_of_pos rfl,
    List.filter_eq_nil_iff.mpr]
  intro i hi
  obtain ⟨e, he, hparent, -⟩ := tree.laid.fits tree.canonicalIds i hi
  simpa [he] using hparent

theorem position {p : Nat} (hp : p < tree.elements.length) {c i : Nat}
    (hc : (children tree.elements p)[i]? = some c) :
    tree.elements[c]?.bind ElementRecord.childIndex = some i := by
  have hmem : p ∈ (cons 0 (numbered 1 tree.below) .nil).nodes := by
    rw [nodes_numbers]
    exact List.mem_range.mpr hp
  rw [nodes, nodes, List.append_nil, List.mem_cons] at hmem
  rcases hmem with rfl | hmem
  · rw [← tree.unfolds.1] at hc
    simpa using tree.laid.ranked.rank_roots hc
  · exact tree.laid.ranked.rank_next tree.unfolds.2.1 hmem hc

theorem checked : Checked tree.elements tree.texts 0 where
  constant_element := by
    obtain ⟨hroot, hbelow⟩ := List.forall_mem_cons.mp tree.tag_ne
    rw [elements, List.forall_mem_cons]
    exact ⟨⟨rfl, rfl, hroot⟩, constant_elementsAt hbelow⟩
  constant_text x hx := by
    obtain ⟨t, slot, v, i, -, rfl⟩ := tree.mem_texts hx
    exact ⟨rfl, rfl⟩
  ids := tree.canonicalIds
  placed e he := (tree.fits e he).placed
  roots_eq := tree.roots_eq
  position p hp c i hc := tree.position hp hc
  preorder_eq := by
    have hpopped := popped_forest tree.unfolds tree.size_numbers.le
    rw [preorder, show [0] = (cons 0 (numbered 1 tree.below) .nil).roots from rfl, hpopped,
      Option.getD_some, nodes_numbers]
  space e he := (tree.fits e he).space
  lengths x hx := by
    obtain ⟨t, slot, v, i, hi, rfl⟩ := tree.mem_texts hx
    have hindex : idIndex tree.elements (elementId i) = some i :=
      tree.canonicalIds.idIndex_eq_some.mpr ⟨rfl, hi⟩
    exact ⟨Option.isSome_iff_exists.mpr ⟨i, hindex⟩, rfl, rfl⟩
  nodup_slots := tree.nodup_slots
  order := tree.order
  refs e he := (tree.fits e he).refs

end SourceTree

/-- `verify_records` accepts the records of the source trees, and no others. -/
theorem verifyRecords_iff_tree {package : Package} {limits : Limits}
    (hlimits : enforceLimits limits (recomputeCounts package.records) package.records = .ok ())
    (hcounts : compareCounts package.footer.counts (recomputeCounts package.records) = .ok ()) :
    verifyRecords package limits = .ok () ↔ ∃ tree : SourceTree, package.records = tree.records := by
  rw [verifyRecords_ok_iff hlimits hcounts]
  constructor
  · rintro ⟨E, X, root, hrecords, hne, hchecked⟩
    obtain ⟨tree, rfl, rfl⟩ := hchecked.exists_tree hne
    exact ⟨tree, hrecords⟩
  · rintro ⟨tree, hrecords⟩
    exact ⟨tree.elements, tree.texts, 0, hrecords, List.cons_ne_nil _ _, tree.checked⟩

namespace Sample

/-! ### A paragraph with a line break -/

def node (tag : String) (text tail : Option (List Char)) : SourceNode :=
  ⟨tag, .empty, .empty, none, text, tail⟩

/-- `<p>Article <br/>1</p>` -/
def paragraph : SourceTree where
  root := node "p" (some "Article ".toList) none
  below := .cons (node "br" none (some ['1'])) .nil .nil
  tail_root := rfl
  tag_ne := by
    simp only [nodes, List.append_nil, List.forall_mem_cons]
    exact ⟨rfl, rfl, nofun⟩

def limits : Limits where
  maxInputBytes := 1000
  maxPackageBytes := 10000
  maxLineBytes := 1227
  maxDepth := 8
  maxNodes := 8
  maxTextFragments := 8
  maxTextBytes := 100
  maxRecords := 16
  maxAttrsPerElement := 4

def manifest (source : SourceRef) : Manifest where
  kind := "source_package_manifest"
  schema := MANIFEST_SCHEMA
  version := SCHEMA_VERSION
  model := MODEL
  profile := PROFILE
  capability := CAPABILITY
  capturePolicy := CAPTURE_POLICY
  source := source
  limits := limits
  policies := .expected
  nonAuthoritative := true

def footer (source : SourceRef) (records : List Record) : Footer where
  kind := "source_package_footer"
  schema := FOOTER_SCHEMA
  version := SCHEMA_VERSION
  captureStatus := .complete
  completionBasis := COMPLETION_BASIS
  sourceSha256 := source.sha256
  counts := recomputeCounts records
  recordsSealHash := none
  manifestHash := none
  nonAuthoritative := true

def package (source : SourceRef) (tree : SourceTree) : Package :=
  ⟨manifest source, tree.records, footer source tree.records⟩

def paragraphSource : SourceRef :=
  ⟨"25fb3778ad8eec116cf0926eae23b0c107daf8f5a78620ac43746a6220d48e90", 21⟩

theorem verifyRecords_paragraph :
    verifyRecords (package paragraphSource paragraph) limits = .ok () :=
  (@verifyRecords_iff_tree (package paragraphSource paragraph) limits rfl rfl).mpr ⟨paragraph, rfl⟩

end Sample

end LawNexus.SourcePackage
