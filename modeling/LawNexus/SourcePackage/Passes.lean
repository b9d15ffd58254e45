import LawNexus.Loops
import LawNexus.SourcePackage.Verify
import LawNexus.Texts

/-!
# What each pass checks
-/

namespace LawNexus.SourcePackage

open Forest Loops

/-! ## Ids -/

theorem elementId_inj {i j : Nat} : elementId i = elementId j ↔ i = j := Texts.append_repr_inj

theorem textId_inj {i j : Nat} : textId i = textId j ↔ i = j := Texts.append_repr_inj

variable {elements : List ElementRecord} {texts : List TextRecord}

/-- The ids are `e0`, `e1` and so on, and `t0`, `t1` and so on. -/
structure CanonicalIds (elements : List ElementRecord) (texts : List TextRecord) : Prop where
  element : ∀ {i e}, elements[i]? = some e → e.id = elementId i
  text : ∀ {i x}, texts[i]? = some x → x.id = textId i

theorem checkIds_ok_iff : checkIds elements texts = .ok () ↔ CanonicalIds elements texts := by
  unfold checkIds fail
  constructor
  · intro h
    split_ifs at h with hids
    simp only [Bool.and_eq_true, List.all_eq_true, decide_eq_true_eq] at hids
    refine ⟨fun {i e} he => hids.1 (e, i) ?_, fun {i x} hx => hids.2 (x, i) ?_⟩
    · exact List.mem_zipIdx_iff_getElem?.mpr he
    · exact List.mem_zipIdx_iff_getElem?.mpr hx
  · intro h
    rw [if_pos]
    simp only [Bool.and_eq_true, List.all_eq_true, decide_eq_true_eq]
    refine ⟨fun ei hei => h.element ?_, fun xi hxi => h.text ?_⟩
    · exact List.mem_zipIdx_iff_getElem?.mp hei
    · exact List.mem_zipIdx_iff_getElem?.mp hxi

/-- In a list with numbered keys the first entry of a key stands at its number. -/
theorem findIdx?_key {α : Type} {key : α → String} {name : Nat → String} {l : List α}
    (hname : ∀ {i j}, name i = name j ↔ i = j) (hkey : ∀ {i a}, l[i]? = some a → key a = name i)
    {id : String} {i : Nat} :
    l.findIdx? (key · = id) = some i ↔ id = name i ∧ i < l.length := by
  rw [List.findIdx?_eq_some_iff_getElem]
  constructor
  · rintro ⟨hlt, hid, -⟩
    have hi := hkey (List.getElem?_eq_getElem hlt)
    rw [decide_eq_true_eq] at hid
    exact ⟨hid ▸ hi, hlt⟩
  · rintro ⟨rfl, hlt⟩
    refine ⟨hlt, by simpa using hkey (List.getElem?_eq_getElem hlt), fun j hj => ?_⟩
    have hjl := hj.trans hlt
    rw [hkey (List.getElem?_eq_getElem hjl), decide_eq_true_eq, hname]
    exact hj.ne

theorem CanonicalIds.idIndex_eq_some (h : CanonicalIds elements texts) {id : String} {i : Nat} :
    idIndex elements id = some i ↔ id = elementId i ∧ i < elements.length :=
  findIdx?_key elementId_inj h.element

theorem CanonicalIds.textIndex_eq_some (h : CanonicalIds elements texts) {id : String} {i : Nat} :
    textIndex texts id = some i ↔ id = textId i ∧ i < texts.length :=
  findIdx?_key textId_inj h.text

/-! ## Sections -/

def ElementRecord.Constant (element : ElementRecord) : Prop :=
  element.kind = "element" ∧ element.schema = ELEMENT_SCHEMA ∧ element.clarkTag.isEmpty = false

def TextRecord.Constant (text : TextRecord) : Prop := text.kind = "text" ∧ text.schema = TEXT_SCHEMA

theorem sections_element {seenText : Bool} {e : ElementRecord} {rest : List Record} :
    sections seenText (.element e :: rest) = .ok (elements, texts) ↔
      seenText = false ∧ e.Constant ∧
        ∃ es, elements = e :: es ∧ sections seenText rest = .ok (es, texts) := by
  unfold ElementRecord.Constant
  rw [sections]
  split_ifs with hseen hkind htag
  · exact iff_of_false nofun fun h => by simp [hseen] at h
  · refine iff_of_false nofun fun h => ?_
    exact hkind.elim (· h.2.1.1) (· h.2.1.2.1)
  · exact iff_of_false nofun fun h => by simp [htag] at h
  · rw [map_eq_ok_iff]
    push Not at hkind
    constructor
    · rintro ⟨⟨es, xs⟩, hrest, heq⟩
      obtain ⟨rfl, rfl⟩ := Prod.mk.inj heq
      exact ⟨by simpa using hseen, ⟨hkind.1, hkind.2, by simpa using htag⟩, es, rfl, hrest⟩
    · rintro ⟨-, -, es, rfl, hrest⟩
      exact ⟨(es, texts), hrest, rfl⟩

theorem sections_text {seenText : Bool} {x : TextRecord} {rest : List Record} :
    sections seenText (.text x :: rest) = .ok (elements, texts) ↔
      x.Constant ∧ ∃ xs, texts = x :: xs ∧ sections true rest = .ok (elements, xs) := by
  unfold TextRecord.Constant
  rw [sections]
  split_ifs with hkind
  · refine iff_of_false nofun fun h => ?_
    exact hkind.elim (· h.1.1) (· h.1.2)
  · rw [map_eq_ok_iff]
    push Not at hkind
    constructor
    · rintro ⟨⟨es, xs⟩, hrest, heq⟩
      obtain ⟨rfl, rfl⟩ := Prod.mk.inj heq
      exact ⟨hkind, xs, rfl, hrest⟩
    · rintro ⟨-, xs, rfl, hrest⟩
      exact ⟨(elements, xs), hrest, rfl⟩

/-- The elements stand before the texts, and all carry their constants. -/
theorem sections_eq_ok_iff {seenText : Bool} {records : List Record} :
    sections seenText records = .ok (elements, texts) ↔
      records = elements.map .element ++ texts.map .text ∧ (seenText = true → elements = []) ∧
        (∀ e ∈ elements, e.Constant) ∧ ∀ x ∈ texts, x.Constant := by
  induction records generalizing seenText elements texts with
  | nil => cases elements <;> cases texts <;> simp [sections]
  | cons record rest ih =>
    cases record with
    | element e =>
      rw [sections_element]
      constructor
      · rintro ⟨rfl, he, es, rfl, hrest⟩
        obtain ⟨rfl, -, hes, hxs⟩ := ih.mp hrest
        exact ⟨rfl, nofun, List.forall_mem_cons.mpr ⟨he, hes⟩, hxs⟩
      · rintro ⟨hrecords, hseen, hes, hxs⟩
        cases elements with
        | nil => cases texts <;> simp at hrecords
        | cons e' es =>
          obtain ⟨heq, rfl⟩ := List.cons.inj hrecords
          cases heq
          obtain ⟨he, hes⟩ := List.forall_mem_cons.mp hes
          have hfalse : seenText = false := by
            cases seenText with
            | false => rfl
            | true => exact nomatch hseen rfl
          exact ⟨hfalse, he, es, rfl, ih.mpr ⟨rfl, by simp [hfalse], hes, hxs⟩⟩
    | text x =>
      rw [sections_text]
      constructor
      · rintro ⟨hx, xs, rfl, hrest⟩
        obtain ⟨rfl, hnone, -, hxs⟩ := ih.mp hrest
        obtain rfl := hnone rfl
        exact ⟨rfl, fun _ => rfl, nofun, List.forall_mem_cons.mpr ⟨hx, hxs⟩⟩
      · rintro ⟨hrecords, hseen, hes, hxs⟩
        cases elements with
        | cons e' es => simp at hrecords
        | nil =>
          cases texts with
          | nil => simp at hrecords
          | cons x' xs =>
            obtain ⟨heq, rfl⟩ := List.cons.inj hrecords
            cases heq
            obtain ⟨hx, hxs⟩ := List.forall_mem_cons.mp hxs
            exact ⟨hx, xs, rfl, ih.mpr ⟨rfl, fun _ => rfl, nofun, hxs⟩⟩

/-! ## Topology -/

theorem forall_mem_zipIdx {α : Type} {l : List α} {p : α → Prop} :
    (∀ x ∈ l.zipIdx, p x.1) ↔ ∀ a ∈ l, p a := by
  constructor
  · intro h a ha
    obtain ⟨i, hi⟩ := List.mem_iff_getElem?.mp ha
    exact h (a, i) (List.mem_zipIdx_iff_getElem?.mpr hi)
  · exact fun h x hx => h x.1 (List.mem_of_getElem? (List.mem_zipIdx_iff_getElem?.mp hx))

/-- An element without a parent at depth 0, or one below an element. -/
def Placed (elements : List ElementRecord) (e : ElementRecord) : Prop :=
  (e.parent = none ∧ e.depth = 0 ∧ e.childIndex = none) ∨
    ∃ id p parent, e.parent = some id ∧ idIndex elements id = some p ∧
      elements[p]? = some parent ∧ parent.depth + 1 = e.depth

theorem checkParent_ok_iff {e : ElementRecord} {index : Nat} :
    checkParent elements e index = .ok () ↔ Placed elements e := by
  unfold checkParent fail Placed
  cases e.parent with
  | none =>
    split_ifs with h
    · refine iff_of_false nofun ?_
      rintro (⟨-, hdepth, hchild⟩ | ⟨id, p, parent, hid, -⟩)
      · rw [hchild] at h
        exact h.elim (· hdepth) nofun
      · exact nomatch hid
    · push Not at h
      exact iff_of_true rfl (Or.inl ⟨rfl, h.1, by simpa using h.2⟩)
  | some id =>
    cases hp : (idIndex elements id).bind (elements[·]?) with
    | none =>
      simp only [hp]
      refine iff_of_false nofun ?_
      rintro (⟨h, -⟩ | ⟨id', p, parent, h, hindex, hparent, -⟩)
      · exact nomatch h
      · cases h
        rw [hindex, Option.bind_some, hparent] at hp
        exact nomatch hp
    | some parent =>
      obtain ⟨p, hindex, hparent⟩ := Option.bind_eq_some_iff.mp hp
      simp only [hp]
      split_ifs with hdepth
      · refine iff_of_false nofun ?_
        rintro (⟨h, -⟩ | ⟨id', p', parent', h, hindex', hparent', hdepth'⟩)
        · exact nomatch h
        · cases h
          cases hindex.symm.trans hindex'
          cases hparent.symm.trans hparent'
          exact hdepth hdepth'
      · exact iff_of_true rfl (Or.inr ⟨id, p, parent, rfl, hindex, hparent, not_not.mp hdepth⟩)

theorem checkChildIndex_ok_iff {parent position child : Nat} :
    checkChildIndex elements parent position child = .ok () ↔
      elements[child]?.bind (·.childIndex) = some position := by
  unfold checkChildIndex fail
  split_ifs with h
  · exact iff_of_false nofun h
  · exact iff_of_true rfl (not_not.mp h)

theorem checkTopology_ok_iff {root : Nat} : checkTopology elements = .ok root ↔
    (∀ e ∈ elements, Placed elements e) ∧ roots elements = [root] ∧
      (∀ p < elements.length, ∀ c i, (children elements p)[i]? = some c →
        elements[c]?.bind ElementRecord.childIndex = some i) ∧
      preorder elements root = List.range elements.length := by
  unfold checkTopology fail
  rw [bind_eq_ok_iff]
  have hparents : elements.zipIdx.forM (fun x => checkParent elements x.1 x.2) = .ok () ↔
      ∀ e ∈ elements, Placed elements e := by
    simp only [forM_ok_iff, checkParent_ok_iff, forall_mem_zipIdx]
  have hpositions : (List.range elements.length).forM (fun parent =>
        (children elements parent).zipIdx.forM fun x =>
          checkChildIndex elements parent x.2 x.1) = .ok () ↔
      ∀ p < elements.length, ∀ c i, (children elements p)[i]? = some c →
        elements[c]?.bind ElementRecord.childIndex = some i := by
    simp only [forM_ok_iff, List.mem_range, Prod.forall, List.mem_zipIdx_iff_getElem?,
      checkChildIndex_ok_iff]
  constructor
  · rintro ⟨⟨⟩, hp, hrest⟩
    split at hrest
    · rename_i r hroots
      obtain ⟨⟨⟩, hpos, hrest⟩ := bind_eq_ok_iff.mp hrest
      split_ifs at hrest with horder
      obtain rfl := Except.ok.inj hrest
      exact ⟨hparents.mp hp, hroots, hpositions.mp hpos, not_not.mp horder⟩
    · cases hrest
  · rintro ⟨hp, hroots, hpos, horder⟩
    refine ⟨(), hparents.mpr hp, ?_⟩
    rw [hroots]
    dsimp only
    rw [hpositions.mpr hpos, ok_bind, if_neg (not_not.mpr horder)]

/-! ## Texts -/

theorem checkTexts_ok_iff {slots : List (String × TextSlot)} {position : Nat} :
    checkTexts elements slots position texts = .ok () ↔
      (∀ x ∈ texts, (idIndex elements x.owner).isSome ∧ x.chars = x.value.length ∧
        x.bytes = Utf8.byteLen x.value) ∧
      (texts.map fun x => (x.owner, x.slot)).Nodup ∧
      ∀ x ∈ texts, (x.owner, x.slot) ∉ slots := by
  induction texts generalizing slots position with
  | nil => simp [checkTexts]
  | cons x rest ih =>
    rw [checkTexts, List.forall_mem_cons, List.forall_mem_cons, List.map_cons, List.nodup_cons]
    unfold fail
    split_ifs with howner hslot hlength
    · refine iff_of_false nofun fun h => ?_
      rw [Option.isNone_iff_eq_none.mp howner] at h
      exact nomatch h.1.1.1
    · exact iff_of_false nofun fun h => h.2.2.1 hslot
    · exact iff_of_false nofun fun h => hlength.elim (· h.1.1.2.1) (· h.1.1.2.2)
    · rw [ih]
      push Not at hlength
      have hsome : (idIndex elements x.owner).isSome := by
        cases hx : idIndex elements x.owner with
        | none => exact absurd (by rw [hx]; rfl) howner
        | some i => rfl
      constructor
      · rintro ⟨hall, hnodup, hslots⟩
        refine ⟨⟨⟨hsome, hlength⟩, hall⟩, ⟨?_, hnodup⟩, hslot, fun y hy hmem =>
          hslots y hy (List.mem_cons_of_mem _ hmem)⟩
        intro hmem
        obtain ⟨y, hy, heq⟩ := List.mem_map.mp hmem
        exact hslots y hy (heq ▸ List.mem_cons_self)
      · rintro ⟨⟨-, hall⟩, ⟨hfresh, hnodup⟩, -, hslots⟩
        refine ⟨hall, hnodup, fun y hy hmem => ?_⟩
        rcases List.mem_cons.mp hmem with heq | hmem
        · exact hfresh (heq ▸ List.mem_map_of_mem hy)
        · exact hslots y hy hmem

/-- A reference leads to a text in this slot of the element. -/
def RefersTo (texts : List TextRecord) (e : ElementRecord) (slot : TextSlot)
    (reference : Option String) : Prop :=
  ∀ id ∈ reference, ∃ t x, textIndex texts id = some t ∧ texts[t]? = some x ∧
    x.owner = e.id ∧ x.slot = slot

theorem checkRef_ok_iff {e : ElementRecord} {index : Nat} {slot : TextSlot}
    {reference : Option String} :
    checkRef texts e index slot reference = .ok () ↔ RefersTo texts e slot reference := by
  unfold checkRef fail RefersTo
  cases reference with
  | none => exact iff_of_true rfl nofun
  | some id =>
    cases ht : (textIndex texts id).bind (texts[·]?) with
    | none =>
      simp only [ht]
      refine iff_of_false nofun fun h => ?_
      obtain ⟨t, x, hindex, hx, -⟩ := h id rfl
      rw [hindex, Option.bind_some, hx] at ht
      exact nomatch ht
    | some x =>
      obtain ⟨t, hindex, hx⟩ := Option.bind_eq_some_iff.mp ht
      simp only [ht]
      split_ifs with hwrong
      · refine iff_of_false nofun fun h => ?_
        obtain ⟨t', x', hindex', hx', howner, hslot⟩ := h id rfl
        cases hindex.symm.trans hindex'
        cases hx.symm.trans hx'
        exact hwrong.elim (· howner) (· hslot)
      · push Not at hwrong
        refine iff_of_true rfl ?_
        rintro _ ⟨⟩
        exact ⟨t, x, hindex, hx, hwrong⟩

theorem checkRefs_ok_iff : checkRefs elements texts = .ok () ↔
    ∀ e ∈ elements, RefersTo texts e .text e.textRef ∧ RefersTo texts e .tail e.tailRef := by
  unfold checkRefs
  rw [forM_ok_iff]
  refine Iff.trans ?_ (forall_mem_zipIdx (p := fun e =>
    RefersTo texts e .text e.textRef ∧ RefersTo texts e .tail e.tailRef))
  refine forall₂_congr fun x _ => ?_
  rw [bind_eq_ok_iff]
  constructor
  · rintro ⟨⟨⟩, htext, htail⟩
    exact ⟨checkRef_ok_iff.mp htext, checkRef_ok_iff.mp htail⟩
  · rintro ⟨htext, htail⟩
    exact ⟨(), checkRef_ok_iff.mpr htext, checkRef_ok_iff.mpr htail⟩

theorem checkSpaces_ok_iff :
    elements.zipIdx.forM (fun (e, i) => checkSpace elements e i) = .ok () ↔
      ∀ e ∈ elements, e.xmlSpaceEffective = expectedSpace elements e := by
  have hcheck : ∀ e i, checkSpace elements e i = .ok () ↔
      e.xmlSpaceEffective = expectedSpace elements e := by
    intro e i
    unfold checkSpace fail
    split_ifs with h
    · exact iff_of_false nofun h
    · exact iff_of_true rfl (not_not.mp h)
  simp only [forM_ok_iff, hcheck]
  exact forall_mem_zipIdx (p := fun e => e.xmlSpaceEffective = expectedSpace elements e)

theorem checkTextOrder_ok_iff {root : Nat} : checkTextOrder elements texts root = .ok () ↔
    collectTextOrder elements root =
      texts.map fun x => ((idIndex elements x.owner).getD usizeMax, x.slot) := by
  unfold checkTextOrder fail
  dsimp only
  split_ifs with h
  · exact iff_of_false nofun h
  · exact iff_of_true rfl (not_not.mp h)

/-! ## The passes together -/

/-- What the passes behind the sections check. -/
structure Checked (elements : List ElementRecord) (texts : List TextRecord) (root : Nat) :
    Prop where
  constant_element : ∀ e ∈ elements, e.Constant
  constant_text : ∀ x ∈ texts, x.Constant
  ids : CanonicalIds elements texts
  placed : ∀ e ∈ elements, Placed elements e
  roots_eq : roots elements = [root]
  position : ∀ p < elements.length, ∀ c i, (children elements p)[i]? = some c →
    elements[c]?.bind ElementRecord.childIndex = some i
  preorder_eq : preorder elements root = List.range elements.length
  space : ∀ e ∈ elements, e.xmlSpaceEffective = expectedSpace elements e
  lengths : ∀ x ∈ texts, (idIndex elements x.owner).isSome ∧ x.chars = x.value.length ∧
    x.bytes = Utf8.byteLen x.value
  nodup_slots : (texts.map fun x => (x.owner, x.slot)).Nodup
  order : collectTextOrder elements root =
    texts.map fun x => ((idIndex elements x.owner).getD usizeMax, x.slot)
  refs : ∀ e ∈ elements, RefersTo texts e .text e.textRef ∧ RefersTo texts e .tail e.tailRef

theorem verifyRecords_ok_iff {package : Package} {limits : Limits}
    (hlimits : enforceLimits limits (recomputeCounts package.records) package.records = .ok ())
    (hcounts : compareCounts package.footer.counts (recomputeCounts package.records) = .ok ()) :
    verifyRecords package limits = .ok () ↔ ∃ elements texts root,
      package.records = elements.map .element ++ texts.map .text ∧ elements ≠ [] ∧
        Checked elements texts root := by
  unfold verifyRecords
  simp only [hlimits, hcounts, ok_bind]
  constructor
  · intro h
    obtain ⟨⟨E, X⟩, hsections, h⟩ := bind_eq_ok_iff.mp h
    obtain ⟨hrecords, -, hE, hX⟩ := sections_eq_ok_iff.mp hsections
    obtain ⟨⟨⟩, hids, h⟩ := bind_eq_ok_iff.mp h
    dsimp only at h
    split_ifs at h with hempty
    · exact nomatch h
    obtain ⟨root, htopology, h⟩ := bind_eq_ok_iff.mp h
    obtain ⟨hplaced, hroots, hposition, hpreorder⟩ := checkTopology_ok_iff.mp htopology
    obtain ⟨⟨⟩, hspace, h⟩ := bind_eq_ok_iff.mp h
    obtain ⟨⟨⟩, htexts, h⟩ := bind_eq_ok_iff.mp h
    obtain ⟨hlengths, hslots, -⟩ := checkTexts_ok_iff.mp htexts
    obtain ⟨⟨⟩, horder, hrefs⟩ := bind_eq_ok_iff.mp h
    refine ⟨E, X, root, hrecords, by simpa using hempty, hE, hX, checkIds_ok_iff.mp hids, hplaced,
      hroots, hposition, hpreorder, checkSpaces_ok_iff.mp hspace, hlengths, hslots,
      checkTextOrder_ok_iff.mp horder, checkRefs_ok_iff.mp hrefs⟩
  · rintro ⟨E, X, root, hrecords, hne, h⟩
    have hsections : sections false package.records = .ok (E, X) :=
      sections_eq_ok_iff.mpr ⟨hrecords, nofun, h.constant_element, h.constant_text⟩
    have htopology : checkTopology E = .ok root :=
      checkTopology_ok_iff.mpr ⟨h.placed, h.roots_eq, h.position, h.preorder_eq⟩
    have htexts : checkTexts E [] 0 X = .ok () :=
      checkTexts_ok_iff.mpr ⟨h.lengths, h.nodup_slots, fun _ _ => List.not_mem_nil⟩
    rw [hsections, ok_bind]
    dsimp only
    rw [checkIds_ok_iff.mpr h.ids, ok_bind, if_neg (by simpa using hne), htopology, ok_bind,
      checkSpaces_ok_iff.mpr h.space, ok_bind, htexts, ok_bind, checkTextOrder_ok_iff.mpr h.order,
      ok_bind, checkRefs_ok_iff.mpr h.refs]

end LawNexus.SourcePackage
