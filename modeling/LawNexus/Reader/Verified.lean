import LawNexus.Reader.Total
import LawNexus.SourcePackage.Recover
import LawNexus.SourcePackage.RoundTrip

/-!
# The index of a verified package

The walk over the elements of a verified package is the walk of its verification, and its links are
the texts in their order.
-/

namespace LawNexus.Reader

open Forest Forest.Siblings SourcePackage Loops ReaderRecordIndex

variable {index : ReaderRecordIndex} {E : List ElementRecord} {X : List TextRecord}

/-! ## The order of the elements -/

theorem order_getElem {i : Nat} (hi : i < index.elements.length) :
    index.order index.elements[i] = i := by
  have hpos : index.sourcePos index.elements[i].id = some i := by
    rw [sourcePos, List.findIdx?_eq_some_iff_getElem]
    refine ⟨hi, by simp, fun j hj => ?_⟩
    have hj' := hj.trans hi
    have hne : index.elements[j].id ≠ index.elements[i].id := by
      intro heq
      have hsame := List.inj_on_of_nodup_map index.nodup_elements (List.getElem_mem hj')
        (List.getElem_mem hi) heq
      exact hj.ne (nodup_elements_self.getElem_inj_iff.mp hsame)
    simpa using hne
  rw [order, hpos, Option.getD_some]

/-- The elements are in the order of their positions, so the sorts of the walk change nothing. -/
theorem pairwise_order : index.elements.Pairwise fun a b => index.order a ≤ index.order b := by
  rw [List.pairwise_iff_getElem]
  intro i j hi hj hij
  rw [order_getElem hi, order_getElem hj]
  exact hij.le

theorem children_eq (id : String) :
    index.children id = index.elements.filter (·.parent = some id) :=
  sortBy_eq_self (pairwise_order.filter _)

theorem roots_eq : index.roots = index.elements.filter (·.parent = none) :=
  sortBy_eq_self (pairwise_order.filter _)

/-! ## The walk of the verification -/

/-- The element with a number; the first one where there is none. -/
def numberedElement (elements : List ElementRecord) (first : ElementRecord) (i : Nat) :
    ElementRecord := elements.getD i first

variable {first : ElementRecord}

theorem numberedElement_eq {i : Nat} {e : ElementRecord} (h : E[i]? = some e) :
    numberedElement E first i = e := by
  rw [numberedElement, List.getD_eq_getElem?_getD, h, Option.getD_some]

theorem map_numberedElement (first : ElementRecord) :
    (List.range E.length).map (numberedElement E first) = E := by
  apply List.ext_getElem?
  intro i
  rw [List.getElem?_map]
  by_cases hi : i < E.length
  · rw [List.getElem?_range hi, List.getElem?_eq_getElem hi, Option.map_some,
      numberedElement_eq (List.getElem?_eq_getElem hi)]
  · rw [List.getElem?_eq_none (by simpa using hi), List.getElem?_eq_none (by simpa using hi),
      Option.map_none]

theorem filter_eq_map (first : ElementRecord) (q : ElementRecord → Bool) : E.filter q =
    ((List.range E.length).filter fun i => q (numberedElement E first i)).map
      (numberedElement E first) := by
  conv_lhs => rw [← map_numberedElement (E := E) first]
  rw [List.filter_map]
  rfl

/-! ## Checked records -/

/-- The keys of a list with numbered keys. -/
theorem map_key_eq {α : Type} {key : α → String} {name : Nat → String} {l : List α}
    (hkey : ∀ {i a}, l[i]? = some a → key a = name i) :
    l.map key = (List.range l.length).map name := by
  apply List.ext_getElem?
  intro i
  rw [List.getElem?_map, List.getElem?_map]
  by_cases hi : i < l.length
  · have ha := List.getElem?_eq_getElem hi
    rw [List.getElem?_range hi, ha, Option.map_some, Option.map_some, hkey ha]
  · rw [List.getElem?_eq_none (by simpa using hi), List.getElem?_eq_none (by simpa using hi),
      Option.map_none, Option.map_none]

theorem mem_ids {id : String} : id ∈ E.map (·.id) ↔ (idIndex E id).isSome := by
  rw [idIndex, List.findIdx?_isSome, List.any_eq_true, List.mem_map]
  simp

theorem roots_eq_map (first : ElementRecord) (hE : index.elements = E) :
    index.roots = (SourcePackage.roots E).map (numberedElement E first) := by
  rw [Reader.roots_eq, hE, filter_eq_map first, SourcePackage.roots]
  congr 1
  refine List.filter_congr fun i hi => ?_
  have he := List.getElem?_eq_getElem (List.mem_range.mp hi)
  rw [numberedElement_eq he, he, Option.any_some]

section

variable {root : Nat} (h : Checked E X root)
include h

/-- Records that pass the checks have an index. -/
theorem exists_index : ∃ index, new (E.map .element ++ X.map .text) = .ok index := by
  refine @exists_new _ E X (by simp [List.filterMap_map, Function.comp_def, Record.element?])
    (by simp [List.filterMap_map, Function.comp_def, Record.text?]) ?_ ?_ ?_ ?_
  · rw [map_key_eq h.ids.element]
    exact List.nodup_range.map fun _ _ => elementId_inj.mp
  · rw [map_key_eq h.ids.text]
    exact List.nodup_range.map fun _ _ => textId_inj.mp
  · intro e he parent hparent
    rw [mem_ids]
    rcases h.placed e he with ⟨hnone, -⟩ | ⟨id, p, ep, hid, hindex, -⟩
    · cases hnone.symm.trans hparent
    · obtain rfl := Option.some.inj (hid.symm.trans hparent)
      rw [hindex, Option.isSome_some]
  · intro x hx
    exact mem_ids.mpr (h.lengths x hx).1

theorem children_eq_map (hE : index.elements = E) {a : Nat} (ha : a < E.length) :
    index.children (numberedElement E first a).id =
      (SourcePackage.children E a).map (numberedElement E first) := by
  rw [Reader.children_eq, hE, filter_eq_map first, SourcePackage.children,
    childrenIn]
  congr 1
  refine List.filter_congr fun i hi => ?_
  have he := List.getElem?_eq_getElem (List.mem_range.mp hi)
  have hae := List.getElem?_eq_getElem ha
  rw [numberedElement_eq he, numberedElement_eq hae, decide_eq_decide, parentIndex, he,
    Option.bind_some, h.ids.element hae, Option.bind_eq_some_iff]
  constructor
  · intro hparent
    exact ⟨_, hparent, h.ids.idIndex_eq_some.mpr ⟨rfl, ha⟩⟩
  · rintro ⟨id, hparent, hindex⟩
    rw [hparent, (h.ids.idIndex_eq_some.mp hindex).1]

/-- The walk over the elements is the walk of the verification, and it comes to every element. -/
theorem exists_walk_eq (hne : E ≠ []) (hE : index.elements = E) (first : ElementRecord) :
    ∃ F : Siblings Nat, (∀ s ∈ Step.node 0 :: F.steps, s.at < E.length) ∧
      X.map (slotOf E) = (.node 0 :: F.steps).filterMap (slotAt E) ∧
      index.walk = (.node 0 :: F.steps).map (Step.map (numberedElement E first)) ∧
      AllRooted index := by
  obtain ⟨rfl, F, hF, hbelow, hlength⟩ := h.exists_numbers hne
  have hnodes : (cons 0 F .nil).nodes = List.range E.length := by
    rw [nodes, hbelow, nodes, List.append_nil, hlength, List.range_eq_range', List.range'_succ]
  have hunfolds : ((cons 0 F .nil).map (numberedElement E first)).Unfolds
      fun e => index.children e.id :=
    Unfolds.map hF fun a ha => children_eq_map h hE (List.mem_range.mp (hnodes ▸ ha))
  have hroots : index.roots = ((cons 0 F .nil).map (numberedElement E first)).roots := by
    rw [roots_eq_map first hE, h.roots_eq]
    rfl
  refine ⟨F, ?_, h.order_eq hF hlength, ?_, ?_⟩
  · intro s hs
    rw [← List.mem_range, ← hnodes, nodes]
    rcases List.mem_cons.mp hs with rfl | hs
    · exact List.mem_cons_self
    · exact List.mem_cons_of_mem 0 (List.mem_append_left _ (at_mem_nodes hs))
  · obtain ⟨G, hG, hGunfolds, hwalk⟩ := exists_walk index
    rw [hwalk, hGunfolds.eq hunfolds (hG.trans hroots)]
    simp only [Siblings.map, topSteps, nodes, nodes_toSteps, List.append_nil, steps_map,
      List.map_cons, Step.map]
  · intro e he
    refine hunfolds.forall_nodes (p := Rooted index) ?_ (fun e he c hc => rooted_child he hc) e ?_
    · intro e he
      exact rooted_of_mem_roots (hroots ▸ he)
    · rwa [nodes_map, hnodes, map_numberedElement, ← hE]

end

/-! ## The links of checked records -/

/-- Where a link stands in the order of the texts. -/
def slotOfLink (elements : List ElementRecord) (link : Link) : Nat × TextSlot :=
  ((idIndex elements link.2.1).getD usizeMax, link.2.2)

theorem map_linksOf {root : Nat} (h : Checked E X root) {s : Step Nat} (hs : s.at < E.length) :
    (linksOf (s.map (numberedElement E first))).map (slotOfLink E) = (slotAt E s).toList := by
  have he := List.getElem?_eq_getElem hs
  have hid := h.ids.idIndex_eq_some.mpr ⟨h.ids.element he, hs⟩
  generalize E[s.at] = e at he hid
  cases s with
  | node i =>
    replace he : E[i]? = some e := he
    rw [Step.map, linksOf, numberedElement_eq he, slotAt, he, Option.any_some]
    cases e.textRef with
    | none => rfl
    | some id => simp [slotOfLink, hid]; rfl
  | tail i =>
    replace he : E[i]? = some e := he
    rw [Step.map, linksOf, numberedElement_eq he, slotAt, he, Option.any_some]
    cases e.tailRef with
    | none => rfl
    | some id => simp [slotOfLink, hid]; rfl

/-- A reference of a checked record leads to the text of its slot. -/
theorem exists_text {root : Nat} (h : Checked E X root) {e : ElementRecord} {slot : TextSlot}
    {reference : Option String} (href : RefersTo X e slot reference) {link : Link}
    (hlink : link ∈ reference.toList.map fun id => (id, e.id, slot)) :
    ∃ x ∈ X, link = Projection.linkOf x := by
  obtain ⟨id, hid, rfl⟩ := List.mem_map.mp hlink
  obtain ⟨t, x, hindex, hx, howner, hslot⟩ := href id (Option.mem_toList.mp hid)
  refine ⟨x, List.mem_of_getElem? hx, ?_⟩
  rw [Projection.linkOf, h.ids.text hx, howner, hslot, (h.ids.textIndex_eq_some.mp hindex).1]

theorem exists_text_of_mem_linksOf {root : Nat} (h : Checked E X root) {s : Step ElementRecord}
    (hs : s.at ∈ E) {link : Link} (hlink : link ∈ linksOf s) :
    ∃ x ∈ X, link = Projection.linkOf x := by
  obtain ⟨htext, htail⟩ := h.refs _ hs
  cases s with
  | node e => exact exists_text h htext hlink
  | tail e => exact exists_text h htail hlink

/-- The links of checked records are the texts in their order. -/
theorem links_eq {root : Nat} (h : Checked E X root) (hne : E ≠ []) (hE : index.elements = E) :
    links index = X.map Projection.linkOf := by
  obtain ⟨first, -⟩ := List.exists_mem_of_ne_nil E hne
  obtain ⟨F, hat, horder, hwalk, -⟩ := exists_walk_eq h hne hE first
  refine @eq_of_map_eq _ _ (slotOfLink E) _ _ ?_ ?_
  · intro link hlink link' hlink' heq
    obtain ⟨step, hstep, hlink⟩ := List.mem_flatMap.mp hlink
    obtain ⟨x, hx, rfl⟩ := exists_text_of_mem_linksOf h (hE ▸ (mem_walk hstep).1) hlink
    obtain ⟨x', hx', rfl⟩ := List.mem_map.mp hlink'
    obtain ⟨i, hi⟩ := Option.isSome_iff_exists.mp (h.lengths x hx).1
    obtain ⟨i', hi'⟩ := Option.isSome_iff_exists.mp (h.lengths x' hx').1
    simp only [slotOfLink, Projection.linkOf, hi, hi', Option.getD_some, Prod.mk.injEq] at heq
    obtain ⟨rfl, hslot⟩ := heq
    have howner : x.owner = x'.owner := by
      rw [(h.ids.idIndex_eq_some.mp hi).1, (h.ids.idIndex_eq_some.mp hi').1]
    rw [List.inj_on_of_nodup_map h.nodup_slots hx hx' (Prod.ext howner hslot)]
  · rw [List.map_map]
    change _ = X.map (slotOf E)
    rw [horder, links, hwalk, List.flatMap_map, List.map_flatMap, List.filterMap_eq_flatMap_toList]
    exact List.flatMap_congr fun s hs => map_linksOf h (hat s hs)

/-! ## Packages that verify -/

/-- The records of a package that verifies pass the checks. -/
theorem exists_checked {serde : SerdeJson} {sha256 : List UInt8 → List UInt8} {package : Package}
    {limits : Limits} (h : verifyPackage serde sha256 package limits = .ok ()) : ∃ E X root,
      package.records = E.map .element ++ X.map .text ∧ E ≠ [] ∧ Checked E X root := by
  unfold verifyPackage at h
  obtain ⟨⟨⟩, -, h⟩ := bind_eq_ok_iff.mp h
  obtain ⟨⟨⟩, -, h⟩ := bind_eq_ok_iff.mp h
  obtain ⟨⟨⟩, hrecords, -⟩ := bind_eq_ok_iff.mp h
  have hpasses := hrecords
  unfold verifyRecords at hpasses
  obtain ⟨⟨⟩, hlimits, hpasses⟩ := bind_eq_ok_iff.mp hpasses
  obtain ⟨⟨⟩, hcounts, -⟩ := bind_eq_ok_iff.mp hpasses
  exact (verifyRecords_ok_iff hlimits hcounts).mp hrecords

theorem sections_of_new (h : new (E.map .element ++ X.map .text) = .ok index) :
    index.elements = E ∧ index.texts = X := by
  obtain ⟨hE, hX⟩ := new_eq_ok h
  rw [List.filterMap_append, List.filterMap_map, List.filterMap_map] at hE hX
  refine ⟨hE.trans ?_, hX.trans ?_⟩
  · simp [Function.comp_def, Record.element?]
  · simp [Function.comp_def, Record.text?]

namespace Projection

namespace Sample

open SourcePackage.Sample

/-! ### Two paragraphs with each other's text -/

def wordml (name : String) : String :=
  "{http://schemas.openxmlformats.org/wordprocessingml/2006/main}" ++ name

/-- A body of two paragraphs, with the texts that they refer to. -/
def paragraphs (first second : String) : List Record :=
  let e0 := elementRecord 0 none none 0 false (node (wordml "body") none none) none none
  let e1 := elementRecord 1 (some 0) (some 0) 1 false (node (wordml "p") none none) (some first) none
  let e2 := elementRecord 2 (some 0) (some 1) 1 false (node (wordml "p") none none) (some second) none
  [.element e0, .element e1, .element e2, .text (textRecord 0 1 .text ['a']),
    .text (textRecord 1 2 .text ['b'])]

/-- What a projection shows: the texts, and the elements they are shown at. -/
def shown (p : ReaderProjection) : List (Option FragmentRef × ElementRef) :=
  p.segments.map fun s => (s.fragmentRef, s.elementRef)

theorem computed : (buildProjection (paragraphs "t1" "t0")).map shown =
      .ok [(some "t1", "e1"), (some "t0", "e2")] ∧
    (buildProjection (paragraphs "t0" "t1")).map shown =
      .ok [(some "t0", "e1"), (some "t1", "e2")] ∧
    (new (paragraphs "t0" "t1")).map links = .ok [("t0", "e1", .text), ("t1", "e2", .text)] := by
  decide

/-- `<p><br/></p>`, with an empty text in front of the break. -/
def blank : SourceTree where
  root := node "p" (some []) none
  below := .cons (node "br" none none) .nil .nil
  tail_root := rfl
  tag_ne := by
    simp only [nodes, List.append_nil, List.forall_mem_cons]
    exact ⟨rfl, rfl, fun _ h => by cases h⟩

theorem verifyRecords_blank :
    verifyRecords (package paragraphSource blank) limits = .ok () :=
  (@verifyRecords_iff_tree (package paragraphSource blank) limits rfl rfl).mpr ⟨blank, rfl⟩

end Sample

end Projection

end LawNexus.Reader
