import LawNexus.SourcePackage.Linear
import LawNexus.SourcePackage.Passes

/-!
# The tree behind checked records
-/

namespace LawNexus.SourcePackage

open Forest Forest.Siblings

variable {E : List ElementRecord} {X : List TextRecord} {root : Nat}

/-- The value of the text that a reference names. -/
def valueOf (texts : List TextRecord) (reference : Option String) : Option (List Char) :=
  ((reference.bind (textIndex texts)).bind (texts[·]?)).map (·.value)

def nodeOf (elements : List ElementRecord) (texts : List TextRecord) (index : Nat) : SourceNode :=
  match elements[index]? with
  | none => ⟨"", .empty, .empty, none, none, none⟩
  | some e => ⟨e.clarkTag, e.attrs, e.namespaceDeclarations, e.xmlSpaceDeclared,
      valueOf texts e.textRef, valueOf texts e.tailRef⟩

theorem nodeOf_eq {i : Nat} {e : ElementRecord} (he : E[i]? = some e) :
    nodeOf E X i = ⟨e.clarkTag, e.attrs, e.namespaceDeclarations, e.xmlSpaceDeclared,
      valueOf X e.textRef, valueOf X e.tailRef⟩ := by
  rw [nodeOf, he]

/-- The owner and the slot of a text. -/
def slotOf (elements : List ElementRecord) (x : TextRecord) : Nat × TextSlot :=
  ((idIndex elements x.owner).getD usizeMax, x.slot)

/-! ## One text -/

/-- What a slot adds to the order of the texts. -/
def slotsFor (index : Nat) (slot : TextSlot) (reference : Option String) : List (Nat × TextSlot) :=
  if reference.isSome then [(index, slot)] else []

theorem filterMap_slotAt_node {i : Nat} {e : ElementRecord} (he : E[i]? = some e)
    (l : List (Step Nat)) : (.node i :: l).filterMap (slotAt E) =
      slotsFor i .text e.textRef ++ l.filterMap (slotAt E) := by
  rw [List.filterMap_cons, slotAt, he, Option.any_some, slotsFor]
  split_ifs <;> rfl

theorem filterMap_slotAt_tail {i : Nat} {e : ElementRecord} (he : E[i]? = some e)
    (l : List (Step Nat)) : (.tail i :: l).filterMap (slotAt E) =
      slotsFor i .tail e.tailRef ++ l.filterMap (slotAt E) := by
  rw [List.filterMap_cons, slotAt, he, Option.any_some, slotsFor]
  split_ifs <;> rfl

/-- The step that comes to a slot. -/
def stepTo : Nat × TextSlot → Step Nat
  | (index, .text) => .node index
  | (index, .tail) => .tail index

theorem eq_of_slotAt {s : Step Nat} {slot : Nat × TextSlot} (h : slotAt E s = some slot) :
    s = stepTo slot := by
  cases s with
  | node j =>
    rw [slotAt] at h
    split_ifs at h
    obtain rfl := Option.some.inj h
    rfl
  | tail j =>
    rw [slotAt] at h
    split_ifs at h
    obtain rfl := Option.some.inj h
    rfl

namespace Checked

theorem owner_eq (h : Checked E X root) {x : TextRecord} (hx : x ∈ X) {i : Nat} {s : TextSlot}
    (hslot : slotOf E x = (i, s)) : x.owner = elementId i ∧ x.slot = s := by
  obtain ⟨howner, hs⟩ := Prod.mk.inj hslot
  obtain ⟨j, hj⟩ := Option.isSome_iff_exists.mp (h.lengths x hx).1
  rw [hj, Option.getD_some] at howner
  exact ⟨howner ▸ (h.ids.idIndex_eq_some.mp hj).1, hs⟩

theorem textRecord_eq (h : Checked E X root) {t i : Nat} {x : TextRecord} (hx : X[t]? = some x)
    (howner : x.owner = elementId i) : textRecord t i x.slot x.value = x := by
  have hmem := List.mem_of_getElem? hx
  obtain ⟨hkind, hschema⟩ := h.constant_text x hmem
  obtain ⟨-, hchars, hbytes⟩ := h.lengths x hmem
  have hid := h.ids.text hx
  cases x
  simp_all [textRecord]

/-- The text at the turn of a slot is the one that its element refers to, and the slot without a
reference has no text. -/
theorem slot (h : Checked E X root) {i t : Nat} {e : ElementRecord} {s : TextSlot}
    {r : Option String} {rest : List (Nat × TextSlot)} (he : E[i]? = some e)
    (hr : RefersTo X e s r) (hdrop : (X.map (slotOf E)).drop t = slotsFor i s r ++ rest) :
    r = refAt t (valueOf X r) ∧
      X.drop t = textsOf t i s (valueOf X r) ++ X.drop (t + textSize (valueOf X r)) ∧
      (X.map (slotOf E)).drop (t + textSize (valueOf X r)) = rest := by
  cases r with
  | none => exact ⟨rfl, rfl, hdrop⟩
  | some id =>
    obtain ⟨t', x, hindex, hx, howner, hslot⟩ := hr id rfl
    obtain ⟨rfl, ht'⟩ := h.ids.textIndex_eq_some.mp hindex
    rw [h.ids.element he] at howner
    rw [slotsFor, if_pos (Option.isSome_some), ← List.map_drop] at hdrop
    obtain ⟨y, ys, hys, hy, hrest⟩ := List.map_eq_cons_iff.mp hdrop
    have hyt : X[t]? = some y := by rw [← List.head?_drop, hys, List.head?_cons]
    have hysd : X.drop (t + 1) = ys := by rw [← List.drop_drop, hys, List.drop_one, List.tail_cons]
    obtain ⟨hyowner, hyslot⟩ := h.owner_eq (List.mem_of_getElem? hyt) hy
    -- One text only has this owner and this slot.
    obtain rfl : t' = t := by
      refine (List.getElem?_inj (by simpa using ht') h.nodup_slots).mp ?_
      rw [List.getElem?_map, List.getElem?_map, hx, hyt, Option.map_some, Option.map_some, howner,
        hslot, hyowner, hyslot]
    obtain rfl : x = y := Option.some.inj (hx.symm.trans hyt)
    have hvalue : valueOf X (some (textId t')) = some x.value := by
      rw [valueOf, Option.bind_some, hindex, Option.bind_some, hx, Option.map_some]
    have htext : textsOf t' i s (some x.value) = [x] := by
      rw [← hslot, ← h.textRecord_eq hx howner]
      rfl
    rw [hvalue]
    refine ⟨rfl, ?_, ?_⟩
    · rw [htext, hys, ← hysd]
      rfl
    · rw [← List.map_drop]
      change (X.drop (t' + 1)).map (slotOf E) = rest
      rw [hysd]
      exact hrest

/-! ## One element -/

theorem element_eq (h : Checked E X root) {i p k : Nat} {e ep : ElementRecord}
    (he : E[i]? = some e) (hp : parentIndex E i = some p) (hep : E[p]? = some ep)
    (hchild : e.childIndex = some k) :
    e = elementRecord i (some p) (some k) (ep.depth + 1) ep.xmlSpaceEffective (nodeOf E X i)
      e.textRef e.tailRef := by
  have hmem := List.mem_of_getElem? he
  obtain ⟨hkind, hschema, -⟩ := h.constant_element e hmem
  have hid := h.ids.element he
  rw [parentIndex, he, Option.bind_some] at hp
  obtain ⟨id, hparent, hindex⟩ := Option.bind_eq_some_iff.mp hp
  have hspace := h.space e hmem
  rw [expectedSpace, hparent, Option.bind_some, hindex, Option.bind_some, hep,
    Option.any_some] at hspace
  have hdepth : e.depth = ep.depth + 1 := by
    rcases h.placed e hmem with ⟨hnone, -⟩ | ⟨id', p', ep', hparent', hindex', hep', hdepth⟩
    · exact nomatch hparent.symm.trans hnone
    · cases hparent.symm.trans hparent'
      cases hindex.symm.trans hindex'
      cases hep.symm.trans hep'
      exact hdepth.symm
  rw [(h.ids.idIndex_eq_some.mp hindex).1] at hparent
  rw [nodeOf_eq he]
  cases e
  simp_all [elementRecord]

theorem mem_children {p c : Nat} : c ∈ children E p ↔ c < E.length ∧ parentIndex E c = some p := by
  simp [children, childrenIn]

/-! ## The elements below one parent -/

/-- By induction on the forest: what is left of the elements and of the texts starts with what the
forest stands for. -/
theorem below (h : Checked E X root) {F : Siblings Nat} (hF : F.Unfolds (children E))
    {p index t : Nat} {ep : ElementRecord} {done : List Nat} {rest : List (Nat × TextSlot)}
    (hep : E[p]? = some ep) (hchildren : children E p = done ++ F.roots)
    (hnodes : F.nodes = List.range' index F.size)
    (hsteps : (X.map (slotOf E)).drop t = F.steps.filterMap (slotAt E) ++ rest) :
    E.drop index = elementsAt p (ep.depth + 1) ep.xmlSpaceEffective done.length index t
        (F.map (nodeOf E X)) ++ E.drop (index + F.size) ∧
      X.drop t = textsAt index t (F.map (nodeOf E X)) ++
        X.drop (t + textCount (F.map (nodeOf E X))) ∧
      (X.map (slotOf E)).drop (t + textCount (F.map (nodeOf E X))) = rest := by
  induction F generalizing p index t ep done rest with
  | nil => exact ⟨rfl, rfl, hsteps⟩
  | cons a below after ih ih' =>
    obtain ⟨hbelow, hFbelow, hFafter⟩ := hF
    rw [nodes, size, List.range'_succ] at hnodes
    obtain ⟨rfl, hnodes⟩ := List.cons.inj hnodes
    rw [← List.range'_append_1] at hnodes
    obtain ⟨hnb, hna⟩ := List.append_inj hnodes (by simp)
    have hac : a ∈ children E p := by rw [hchildren, Siblings.roots]; simp
    obtain ⟨hlt, hap⟩ := mem_children.mp hac
    have hplt : p < E.length := (List.getElem?_eq_some_iff.mp hep).1
    have he := List.getElem?_eq_getElem hlt
    generalize E[a] = e at he
    have hchild := h.position p hplt a done.length (by rw [hchildren, Siblings.roots]; simp)
    rw [he, Option.bind_some] at hchild
    obtain ⟨htextRef, htailRef⟩ := h.refs e (List.mem_of_getElem? he)
    -- The own text, what is below, the tail, what is after.
    rw [steps, filterMap_slotAt_node he, List.filterMap_append, filterMap_slotAt_tail he] at hsteps
    simp only [List.append_assoc] at hsteps
    obtain ⟨htext, hXtext, hsteps⟩ := h.slot he htextRef hsteps
    obtain ⟨hEbelow, hXbelow, hsteps⟩ := ih hFbelow he (by rw [hbelow, List.nil_append]) hnb hsteps
    obtain ⟨htail, hXtail, hsteps⟩ := h.slot he htailRef hsteps
    obtain ⟨hEafter, hXafter, hsteps⟩ := @ih' hFafter p _ _ ep (done ++ [a]) rest hep
      (by rw [hchildren, Siblings.roots, List.append_assoc]; rfl) hna hsteps
    have hself := h.element_eq he hap hep hchild
    have hdrop : E.drop a = e :: E.drop (a + 1) := by
      obtain ⟨hlt, rfl⟩ := List.getElem?_eq_some_iff.mp he
      exact List.drop_eq_getElem_cons hlt
    have hnode := nodeOf_eq (X := X) he
    have heff : e.xmlSpaceEffective =
        e.xmlSpaceDeclared.getD ep.xmlSpaceEffective := by rw [hself, hnode]; rfl
    have hdepth : e.depth = ep.depth + 1 := by rw [hself]; rfl
    rw [htext, htail, hnode] at hself
    rw [hdepth, heff] at hEbelow
    rw [List.length_append, List.length_singleton] at hEafter
    have hsize : a + (below.size + after.size + 1) = a + 1 + below.size + after.size := by omega
    simp only [Siblings.map, elementsAt, textsAt, textCount, size, hnode, size_map,
      List.cons_append, List.append_assoc, ← Nat.add_assoc t, hsize]
    refine ⟨?_, ?_, hsteps⟩
    · rw [hdrop, ← hself, ← hEafter, hEbelow]
      rfl
    · rw [hXtext, hXbelow, hXtail, hXafter]

/-! ## The whole tree -/

/-- The walk of the pre-order check has visited a tree with the numbers of the elements. -/
theorem exists_numbers (h : Checked E X root) (hne : E ≠ []) : root = 0 ∧ ∃ F : Siblings Nat,
    (cons 0 F .nil).Unfolds (children E) ∧ F.nodes = List.range' 1 F.size ∧
      E.length = F.size + 1 := by
  have hlength : E.length ≠ 0 := fun hzero => hne (List.length_eq_zero_iff.mp hzero)
  have hpreorder := h.preorder_eq
  unfold preorder at hpreorder
  cases hpopped : popped (children E) E.length [root] with
  | none =>
    rw [hpopped, Option.getD_none, eq_comm, List.range_eq_nil] at hpreorder
    exact absurd hpreorder hlength
  | some out =>
    rw [hpopped, Option.getD_some] at hpreorder
    obtain ⟨G, hroots, hunfolds, rfl⟩ := exists_forest hpopped
    cases G with
    | nil => exact nomatch hroots
    | cons a F after =>
      obtain ⟨rfl, hafter⟩ := List.cons.inj hroots
      cases after with
      | cons b below after => exact nomatch hafter
      | nil =>
        have hsize : E.length = F.size + 1 := by
          rw [← List.length_range (n := E.length), ← hpreorder, length_nodes, size, size]
        rw [hsize, List.range_eq_range', List.range'_succ, nodes, nodes, List.append_nil] at hpreorder
        obtain ⟨rfl, hnodes⟩ := List.cons.inj hpreorder
        exact ⟨rfl, F, hunfolds, hnodes, hsize⟩

theorem order_eq (h : Checked E X 0) {F : Siblings Nat}
    (hF : (cons 0 F .nil).Unfolds (children E)) (hlength : E.length = F.size + 1) :
    X.map (slotOf E) = (.node 0 :: F.steps).filterMap (slotAt E) := by
  have hturns : 2 * (cons 0 F .nil).size ≤ 2 * E.length := by
    rw [hlength, size, size]
  have hpopped := popped_steps hF hturns
  have horder := h.order
  unfold collectTextOrder at horder
  rw [show [Step.node 0] = (cons 0 F .nil).roots.map .node from rfl, hpopped,
    Option.getD_some] at horder
  rw [topSteps, nodes, nodes_toSteps, topSteps, nodes, List.append_nil] at horder
  exact horder.symm

/-- No text stands in the tail of the root, so the root refers to none. -/
theorem tailRef_root (h : Checked E X 0) {F : Siblings Nat} (hnodes : F.nodes = List.range' 1 F.size)
    (horder : X.map (slotOf E) = (.node 0 :: F.steps).filterMap (slotAt E)) {e : ElementRecord}
    (he : E[0]? = some e) : e.tailRef = none := by
  by_contra hsome
  obtain ⟨id, hid⟩ := Option.ne_none_iff_exists'.mp hsome
  obtain ⟨t, x, -, hx, howner, hslot⟩ := (h.refs e (List.mem_of_getElem? he)).2 id hid
  rw [h.ids.element he] at howner
  have hzero : idIndex E x.owner = some 0 :=
    h.ids.idIndex_eq_some.mpr ⟨howner, (List.getElem?_eq_some_iff.mp he).1⟩
  have hmem : slotOf E x ∈ X.map (slotOf E) := List.mem_map_of_mem (List.mem_of_getElem? hx)
  rw [slotOf, hzero, Option.getD_some, hslot, horder, List.mem_filterMap] at hmem
  obtain ⟨step, hstep, hat⟩ := hmem
  obtain rfl := eq_of_slotAt hat
  have hmem := at_mem_nodes ((List.mem_cons.mp hstep).resolve_left nofun)
  rw [hnodes, List.mem_range'_1] at hmem
  exact absurd hmem.1 (Nat.not_succ_le_zero 0)

/-- The first element is the one without a parent. -/
theorem root_eq (h : Checked E X 0) {e : ElementRecord} (he : E[0]? = some e)
    (htail : e.tailRef = none) : e = elementRecord 0 none none 0 false
      ⟨e.clarkTag, e.attrs, e.namespaceDeclarations, e.xmlSpaceDeclared, valueOf X e.textRef, none⟩
      e.textRef none := by
  have hmem := List.mem_of_getElem? he
  obtain ⟨hkind, hschema, -⟩ := h.constant_element e hmem
  have hid := h.ids.element he
  have hparent : e.parent = none := by
    have hroot : 0 ∈ roots E := by rw [h.roots_eq]; exact List.mem_singleton_self 0
    simpa [roots, he] using (List.mem_filter.mp hroot).2
  have hspace := h.space e hmem
  rw [expectedSpace, hparent, Option.bind_none, Option.bind_none, Option.any_none] at hspace
  obtain ⟨hdepth, hchild⟩ : e.depth = 0 ∧ e.childIndex = none := by
    rcases h.placed e hmem with ⟨-, hplaced⟩ | ⟨id, -, -, hid, -⟩
    · exact hplaced
    · exact nomatch hparent.symm.trans hid
  clear h he hmem
  cases e
  simp_all [elementRecord]

theorem exists_tree (h : Checked E X root) (hne : E ≠ []) :
    ∃ tree : SourceTree, E = tree.elements ∧ X = tree.texts := by
  obtain ⟨rfl, F, hF, hnodes, hlength⟩ := h.exists_numbers hne
  have horder := h.order_eq hF hlength
  have he := List.getElem?_eq_getElem (show 0 < E.length by omega)
  generalize E[0] = e at he
  have hmem := List.mem_of_getElem? he
  have htail := h.tailRef_root hnodes horder he
  rw [filterMap_slotAt_node he] at horder
  obtain ⟨htext, hXtext, hsteps⟩ := @slot E X 0 h 0 0 e .text e.textRef _ he
    (h.refs e hmem).1 horder
  rw [Nat.zero_add] at hXtext hsteps
  obtain ⟨hE, hX, hrest⟩ := @below E X 0 h F hF.2.1 0 1 _ e [] [] he hF.1.symm hnodes
    (by rw [hsteps, List.append_nil])
  have htag : ∀ e ∈ E, e.clarkTag.isEmpty = false := fun e he => (h.constant_element e he).2.2
  have hself := h.root_eq he htail
  rw [htext] at hself
  refine ⟨⟨⟨e.clarkTag, e.attrs, e.namespaceDeclarations, e.xmlSpaceDeclared, valueOf X e.textRef,
    none⟩, F.map (nodeOf E X), rfl, ?_⟩, ?_, ?_⟩
  · rw [List.forall_mem_cons, nodes_map, List.forall_mem_map, hnodes]
    refine ⟨htag e hmem, fun i hi => ?_⟩
    have hi : i < E.length := by
      have := List.mem_range'_1.mp hi
      omega
    rw [nodeOf_eq (List.getElem?_eq_getElem hi)]
    exact htag _ (List.getElem_mem hi)
  · have hdrop : E = e :: E.drop 1 := by
      obtain ⟨hlt, rfl⟩ := List.getElem?_eq_some_iff.mp he
      exact List.drop_eq_getElem_cons hlt
    have hdepth : e.depth = 0 := by rw [hself]; rfl
    have hspace : e.xmlSpaceEffective = e.xmlSpaceDeclared.getD false := by rw [hself]; rfl
    rw [List.drop_eq_nil_of_le (i := 1 + F.size) (by omega), List.append_nil, hdepth, hspace] at hE
    calc E = e :: E.drop 1 := hdrop
      _ = _ := by rw [hE]; exact congrArg (· :: _) hself
  · rw [← List.map_drop, List.map_eq_nil_iff] at hrest
    rw [hrest, List.append_nil] at hX
    exact hXtext.trans (congrArg (_ ++ ·) hX)

end Checked

end LawNexus.SourcePackage
