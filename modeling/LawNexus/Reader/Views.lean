import LawNexus.Reader.Walk

/-!
# The loops over the parents

What the index knows of its own elements, and where the loops over their parents lead.
-/

namespace LawNexus.Reader

open Forest SourcePackage Loops

variable {index : ReaderRecordIndex} {ε : Type}

/-! ## Lookups -/

namespace ReaderRecordIndex

/-- The ids of a list tell its members apart. -/
theorem find?_eq_some_iff {α : Type} {l : List α} {id : α → String} (h : (l.map id).Nodup)
    {name : String} {a : α} : l.find? (id · = name) = some a ↔ a ∈ l ∧ id a = name := by
  constructor
  · intro hfind
    exact ⟨List.mem_of_find?_eq_some hfind, by simpa using List.find?_some hfind⟩
  · rintro ⟨ha, rfl⟩
    obtain ⟨b, hb⟩ := Option.isSome_iff_exists.mp
      (List.find?_isSome.mpr ⟨a, ha, decide_eq_true rfl⟩ : (l.find? (id · = id a)).isSome)
    rw [hb, List.inj_on_of_nodup_map h (List.mem_of_find?_eq_some hb) ha
      (by simpa using List.find?_some hb)]

theorem element_eq_some_iff {id : String} {e : ElementRecord} :
    index.element id = some e ↔ e ∈ index.elements ∧ e.id = id :=
  find?_eq_some_iff index.nodup_elements

theorem text_eq_some_iff {id : String} {x : TextRecord} :
    index.text id = some x ↔ x ∈ index.texts ∧ x.id = id :=
  find?_eq_some_iff index.nodup_texts

theorem new_eq_ok {records : List Record} (h : new records = .ok index) :
    index.elements = records.filterMap Record.element? ∧
      index.texts = records.filterMap Record.text? := by
  unfold new at h
  split at h
  · cases h
  · rename_i E X hcollect
    split at h
    · cases h
    · split at h
      · cases h
      · obtain ⟨heq, -⟩ := (collect_ok_iff (by simp) (by simp)).mp hcollect
        obtain ⟨rfl, rfl⟩ := Prod.mk.inj heq
        obtain rfl := Except.ok.inj h
        exact ⟨rfl, rfl⟩

/-- The records have an index when the ids tell them apart and lead to elements. -/
theorem exists_new {records : List Record} {E : List ElementRecord} {X : List TextRecord}
    (hE : records.filterMap Record.element? = E) (hX : records.filterMap Record.text? = X)
    (hnodupE : (E.map (·.id)).Nodup) (hnodupX : (X.map (·.id)).Nodup)
    (hparent : ∀ e ∈ E, ∀ parent ∈ e.parent, parent ∈ E.map (·.id))
    (howner : ∀ x ∈ X, x.owner ∈ E.map (·.id)) : ∃ index, new records = .ok index := by
  have hcollect : collect [] [] records = .ok (E, X) := by
    rw [collect_ok_iff (by simp) (by simp), hE, hX]
    exact ⟨rfl, hnodupE, hnodupX⟩
  unfold new
  split
  · rename_i error heq
    cases hcollect.symm.trans heq
  · rename_i E' X' heq
    obtain ⟨rfl, rfl⟩ := Prod.mk.inj (Except.ok.inj (hcollect.symm.trans heq))
    split
    · rename_i error heq
      have hok := forM_ok_iff.mpr fun e he => requireParent_ok_iff.mpr (hparent e he)
      cases hok.symm.trans heq
    · split
      · rename_i error heq
        have hok := forM_ok_iff.mpr fun x hx => requireOwner_ok_iff.mpr (howner x hx)
        cases hok.symm.trans heq
      · exact ⟨_, rfl⟩

end ReaderRecordIndex

open ReaderRecordIndex

section

variable {e : ElementRecord} (he : e ∈ index.elements)
include he

theorem element_of_mem : index.element e.id = some e := element_eq_some_iff.mpr ⟨he, rfl⟩

theorem roleOf_of_mem (errors : WalkErrors ε) :
    roleOf errors index e.id = .ok (roleOfTag e.clarkTag) := by
  rw [roleOf, ReaderRecordIndex.roleOf, element_of_mem he]
  rfl

theorem requireRole_of_mem : index.requireRole e.id = .ok (roleOfTag e.clarkTag) := by
  rw [requireRole, ReaderRecordIndex.roleOf, element_of_mem he]
  rfl

theorem parentId_of_mem : index.parentId e.id = .ok e.parent := by
  rw [parentId, element_of_mem he]

theorem parentOf_of_mem : parentOf index e.id = e.parent := by
  rw [parentOf, element_of_mem he, Option.bind_some]

theorem sourcePos_of_mem : ∃ pos, index.sourcePos e.id = some pos :=
  Option.isSome_iff_exists.mp (by
    rw [sourcePos, List.findIdx?_isSome]
    exact List.any_eq_true.mpr ⟨e, he, decide_eq_true rfl⟩)

theorem exists_parent {parent : String} (h : e.parent = some parent) :
    ∃ p ∈ index.elements, p.id = parent :=
  List.mem_map.mp (index.parent_mem e he parent h)

end

theorem exists_owner {x : TextRecord} (hx : x ∈ index.texts) :
    ∃ e ∈ index.elements, e.id = x.owner :=
  List.mem_map.mp (index.owner_mem x hx)

/-! ## Climbing -/

variable {ρ : Type} {body : String → Except ε (Turn String ρ)}

/-- A turn of a loop over the parents stops, or goes on to the parent. -/
def Climbs (index : ReaderRecordIndex) (body : String → Except ε (Turn String ρ)) : Prop :=
  ∀ e ∈ index.elements, (∃ r, body e.id = .ok (.done r)) ∨
    ∃ parent, e.parent = some parent ∧ body e.id = .ok (.next parent)

theorem Climbs.next (h : Climbs index body) {e : ElementRecord} (he : e ∈ index.elements)
    {t : String} (hnext : body e.id = .ok (.next t)) : e.parent = some t := by
  rcases h e he with ⟨r, hr⟩ | ⟨parent, hparent, hbody⟩
  · cases hr.symm.trans hnext
  · cases hbody.symm.trans hnext
    exact hparent

theorem Climbs.ne_failed (h : Climbs index body) {e : ElementRecord} (he : e ∈ index.elements)
    {turns : Nat} (error : ε) : climb body turns e.id ≠ .error (.failed error) := by
  refine climb_ne_failed (∃ e ∈ index.elements, e.id = ·) ?_ ?_ ⟨e, he, rfl⟩ error
  · rintro s t ⟨e, he, rfl⟩ hnext
    exact exists_parent he (h.next he hnext)
  · rintro s error ⟨e, he, rfl⟩ herror
    rcases h e he with ⟨r, hr⟩ | ⟨parent, -, hbody⟩
    · cases hr.symm.trans herror
    · cases hbody.symm.trans herror

/-- The parents of the element end at an element without one. -/
def Rooted (index : ReaderRecordIndex) (e : ElementRecord) : Prop :=
  Grounded (parentOf index) e.id

theorem Climbs.exists_ok (h : Climbs index body) {e : ElementRecord} (he : e ∈ index.elements)
    (hroot : Rooted index e) : ∃ r, climb body index.turns e.id = .ok r := by
  have hkeys : ∀ s, parentOf index s ≠ none → s ∈ index.elements.map (·.id) := by
    intro s hs
    obtain ⟨p, hp⟩ := Option.ne_none_iff_exists'.mp hs
    obtain ⟨e, he, -⟩ := Option.bind_eq_some_iff.mp hp
    obtain ⟨hmem, rfl⟩ := element_eq_some_iff.mp he
    exact List.mem_map_of_mem hmem
  have hends : climb body index.turns e.id ≠ .error .endless := by
    have hlength : index.turns = (index.elements.map (·.id)).length + 1 := by
      rw [turns, List.length_map]
    rw [hlength]
    refine climb_ne_endless (∃ e ∈ index.elements, e.id = ·) hkeys ?_ ?_ ⟨e, he, rfl⟩ hroot
    · rintro s t ⟨e, he, rfl⟩ ht
      rw [parentOf_of_mem he] at ht
      exact exists_parent he ht
    · rintro s t ⟨e, he, rfl⟩ hnext
      rw [parentOf_of_mem he]
      exact h.next he hnext
  cases hclimb : climb body index.turns e.id with
  | ok r => exact ⟨r, rfl⟩
  | error stop =>
    cases stop with
    | failed error => exact absurd hclimb (h.ne_failed he error)
    | endless => exact absurd hclimb hends

/-! ## The view of an element -/

variable {e : ElementRecord}

theorem paragraphTurn_of_mem (he : e ∈ index.elements) : paragraphTurn index e.id =
    .ok (if roleOfTag e.clarkTag = .paragraph then .done (some e.id)
      else match e.parent with
        | some parent => .next parent
        | none => .done none) := by
  rw [paragraphTurn, requireRole_of_mem he, ok_bind, parentId_of_mem he]
  split_ifs
  · rfl
  · cases e.parent <;> rfl

theorem climbs_paragraphTurn : Climbs index (paragraphTurn index) := by
  intro e he
  rw [paragraphTurn_of_mem he]
  split_ifs
  · exact Or.inl ⟨_, rfl⟩
  · cases e.parent with
    | none => exact Or.inl ⟨_, rfl⟩
    | some parent => exact Or.inr ⟨parent, rfl, rfl⟩

theorem climbs_anchorTurn : Climbs index (anchorTurn index) := by
  intro e he
  rw [anchorTurn, parentId_of_mem he, ok_bind]
  cases hparent : e.parent with
  | none => exact Or.inl ⟨_, rfl⟩
  | some parent =>
    obtain ⟨p, hp, rfl⟩ := exists_parent he hparent
    dsimp only
    rw [requireRole_of_mem hp, ok_bind]
    split_ifs
    · exact Or.inl ⟨_, rfl⟩
    · exact Or.inr ⟨_, rfl, rfl⟩

theorem climbs_containerTurn (errors : WalkErrors ε) (allowed : List ReaderRole) :
    Climbs index (containerTurn errors index allowed) := by
  intro e he
  rw [containerTurn, parentOf_of_mem he]
  cases hparent : e.parent with
  | none => exact Or.inl ⟨_, rfl⟩
  | some parent =>
    obtain ⟨p, hp, rfl⟩ := exists_parent he hparent
    dsimp only
    rw [roleOf_of_mem hp, ok_bind]
    split_ifs
    · exact Or.inl ⟨_, rfl⟩
    · exact Or.inr ⟨_, rfl, rfl⟩

theorem climbs_ancestorTurn (errors : WalkErrors ε) (role : ReaderRole) :
    Climbs index (ancestorTurn errors index role) := by
  intro e he
  rw [ancestorTurn, roleOf_of_mem he, ok_bind, parentOf_of_mem he]
  split_ifs
  · exact Or.inl ⟨_, rfl⟩
  · cases e.parent with
    | none => exact Or.inl ⟨_, rfl⟩
    | some parent => exact Or.inr ⟨_, rfl, rfl⟩

theorem exists_residualAnchor (he : e ∈ index.elements) (hroot : Rooted index e) :
    ∃ anchor, residualAnchor index e.id = .ok anchor :=
  climbs_anchorTurn.exists_ok he hroot

/-- What a view has in common with the element that it is anchored at. -/
def Anchored (index : ReaderRecordIndex) (key : ReaderViewKey) : Prop :=
  key.kind.isPrimary = true ∧ ∃ a ∈ index.elements, a.id = key.elementRef ∧
    (key.kind = .paragraph → roleOfTag a.clarkTag = .paragraph)

theorem residualAnchor_mem (he : e ∈ index.elements) {anchor : ElementRef}
    (h : residualAnchor index e.id = .ok anchor) : ∃ a ∈ index.elements, a.id = anchor := by
  refine climb_ok (∃ e ∈ index.elements, e.id = ·)
    (∃ e ∈ index.elements, e.id = ·) ?_ ?_ ⟨e, he, rfl⟩ h
  · rintro s t ⟨e, he, rfl⟩ hnext
    exact exists_parent he (climbs_anchorTurn.next he hnext)
  · rintro s r ⟨e, he, rfl⟩ hdone
    refine ⟨e, he, ?_⟩
    rw [anchorTurn, parentId_of_mem he, ok_bind] at hdone
    split at hdone
    · cases hdone
      rfl
    · obtain ⟨role, -, hdone⟩ := bind_eq_ok_iff.mp hdone
      split_ifs at hdone
      · cases hdone
        rfl
      · cases hdone

theorem anchored_residual (he : e ∈ index.elements) {key : ReaderViewKey}
    (h : (residualAnchor index e.id).map (⟨.residual, ·⟩) = .ok key) : Anchored index key := by
  obtain ⟨anchor, hanchor, rfl⟩ := map_eq_ok_iff.mp h
  obtain ⟨a, ha, hid⟩ := residualAnchor_mem he hanchor
  exact ⟨rfl, a, ha, hid, by simp⟩

theorem anchored_viewKey (he : e ∈ index.elements) {key : ReaderViewKey}
    (h : viewKey index e.id = .ok key) : Anchored index key := by
  obtain ⟨paragraph, hclimb, hkey⟩ := bind_eq_ok_iff.mp h
  cases paragraph with
  | none => exact anchored_residual he hkey
  | some paragraph =>
    obtain rfl := Except.ok.inj hkey
    have hmem : ∀ p ∈ some paragraph, ∃ a ∈ index.elements, a.id = p ∧
        roleOfTag a.clarkTag = .paragraph := by
      refine climb_ok (∃ e ∈ index.elements, e.id = ·)
        (fun r => ∀ p ∈ r, ∃ a ∈ index.elements, a.id = p ∧ roleOfTag a.clarkTag = .paragraph) ?_ ?_ ⟨e, he, rfl⟩ hclimb
      · rintro s t ⟨e, he, rfl⟩ hnext
        exact exists_parent he (climbs_paragraphTurn.next he hnext)
      · rintro s r ⟨e, he, rfl⟩ hdone
        rw [paragraphTurn_of_mem he, Except.ok.injEq] at hdone
        split_ifs at hdone with hrole
        · cases hdone
          rintro p hp
          obtain rfl := Option.some.inj hp
          exact ⟨e, he, rfl, hrole⟩
        · cases hparent : e.parent with
          | none =>
            rw [hparent] at hdone
            cases hdone
            simp
          | some parent =>
            rw [hparent] at hdone
            cases hdone
    obtain ⟨a, ha, hid, hrole⟩ := hmem paragraph rfl
    exact ⟨rfl, a, ha, hid, fun _ => hrole⟩

theorem parentParagraph_of_mem (he : e ∈ index.elements) : ∃ paragraph,
    parentParagraph index e.id = .ok paragraph ∧ ∀ p ∈ paragraph, ∃ a ∈ index.elements, a.id = p ∧
      roleOfTag a.clarkTag = .paragraph := by
  rw [parentParagraph, parentId_of_mem he, ok_bind]
  cases hparent : e.parent with
  | none => exact ⟨none, rfl, by simp⟩
  | some parent =>
    obtain ⟨p, hp, rfl⟩ := exists_parent he hparent
    dsimp only
    rw [requireRole_of_mem hp, ok_bind]
    refine ⟨_, rfl, ?_⟩
    split_ifs with hrole
    · rintro q hq
      obtain rfl := Option.some.inj hq
      exact ⟨p, hp, rfl, hrole⟩
    · simp

theorem anchored_tailViewKey (he : e ∈ index.elements) {key : ReaderViewKey}
    (h : tailViewKey index e.id = .ok key) : Anchored index key := by
  obtain ⟨paragraph, hparagraph, hmem⟩ := parentParagraph_of_mem he
  rw [tailViewKey, hparagraph, Except.mapError, ok_bind] at h
  cases paragraph with
  | none => exact anchored_residual he h
  | some paragraph =>
    obtain rfl := Except.ok.inj h
    obtain ⟨a, ha, hid, hrole⟩ := hmem paragraph rfl
    exact ⟨rfl, a, ha, hid, fun _ => hrole⟩

theorem anchored_slotView (he : e ∈ index.elements) {slot : TextSlot} {key : ReaderViewKey}
    (h : slotView index e.id slot = .ok key) : Anchored index key := by
  cases slot with
  | text => exact anchored_viewKey he h
  | tail => exact anchored_tailViewKey he h

theorem exists_viewKey (he : e ∈ index.elements) (hroot : Rooted index e) :
    ∃ key, viewKey index e.id = .ok key := by
  obtain ⟨paragraph, hclimb⟩ := climbs_paragraphTurn.exists_ok he hroot
  rw [viewKey, hclimb, ok_bind]
  cases paragraph with
  | some paragraph => exact ⟨_, rfl⟩
  | none =>
    obtain ⟨anchor, hanchor⟩ := exists_residualAnchor he hroot
    exact ⟨_, by rw [hanchor]; rfl⟩

theorem exists_slotView (he : e ∈ index.elements) (hroot : Rooted index e) (slot : TextSlot) :
    ∃ key, slotView index e.id slot = .ok key := by
  cases slot with
  | text => exact exists_viewKey he hroot
  | tail =>
    obtain ⟨paragraph, hparagraph, -⟩ := parentParagraph_of_mem he
    rw [slotView, tailViewKey, hparagraph, Except.mapError, ok_bind]
    cases paragraph with
    | some paragraph => exact ⟨_, rfl⟩
    | none =>
      obtain ⟨anchor, hanchor⟩ := exists_residualAnchor he hroot
      exact ⟨_, by rw [hanchor]; rfl⟩

/-! ## The walk -/

theorem mem_children {id : String} {c : ElementRecord} :
    c ∈ index.children id ↔ c ∈ index.elements ∧ c.parent = some id := by
  simp [children]

theorem mem_roots : e ∈ index.roots ↔ e ∈ index.elements ∧ e.parent = none := by
  simp [ReaderRecordIndex.roots]

theorem rooted_of_mem_roots (he : e ∈ index.roots) : Rooted index e := by
  obtain ⟨he, hparent⟩ := mem_roots.mp he
  exact grounded_top (by rw [parentOf_of_mem he, hparent])

theorem rooted_child (he : Rooted index e) {c : ElementRecord} (hc : c ∈ index.children e.id) :
    Rooted index c := by
  obtain ⟨hc, hparent⟩ := mem_children.mp hc
  exact (grounded_under (by rw [parentOf_of_mem hc, hparent])).mpr he

theorem nodup_elements_self : index.elements.Nodup := index.nodup_elements.of_map _

theorem nodup_children (id : String) : (index.children id).Nodup :=
  (sortBy_perm _ _).nodup_iff.mpr (nodup_elements_self.filter _)

theorem nodup_roots : index.roots.Nodup :=
  (sortBy_perm _ _).nodup_iff.mpr (nodup_elements_self.filter _)

/-- The stack always runs empty: what it gives back is a forest of the elements. -/
theorem exists_walk (index : ReaderRecordIndex) : ∃ F : Siblings ElementRecord,
    F.roots = index.roots ∧ F.Unfolds (fun e => index.children e.id) ∧
      index.walk = F.topSteps.nodes := by
  let next : ElementRecord → List ElementRecord := fun e =>
    if e ∈ index.elements then index.children e.id else []
  have hlinked : Linked next (fun e => e.parent.bind index.element) index.elements := by
    refine ⟨?_, ?_, ?_⟩
    · intro a b hb
      by_cases ha : a ∈ index.elements
      · rw [show next a = index.children a.id from if_pos ha, mem_children] at hb
        rw [hb.2, Option.bind_some, element_of_mem ha]
      · rw [show next a = [] from if_neg ha] at hb
        cases hb
    · intro a
      by_cases ha : a ∈ index.elements
      · rw [show next a = index.children a.id from if_pos ha]
        exact nodup_children a.id
      · rw [show next a = [] from if_neg ha]
        exact List.nodup_nil
    · intro a b hb
      by_cases ha : a ∈ index.elements
      · rw [show next a = index.children a.id from if_pos ha] at hb
        exact (mem_children.mp hb).1
      · rw [show next a = [] from if_neg ha] at hb
        cases hb
  have hsome := popped_isSome hlinked (@nodup_roots index)
    (fun e he => (mem_roots.mp he).1) fun e he => by simp [(mem_roots.mp he).2]
  obtain ⟨out, hout⟩ := Option.isSome_iff_exists.mp hsome
  obtain ⟨F, hroots, hunfolds, hnodes⟩ := exists_forest hout
  have hmem : ∀ e ∈ F.nodes, e ∈ index.elements :=
    hunfolds.forall_nodes (fun e he => (mem_roots.mp (hroots ▸ he)).1) fun a _ => hlinked.subset a
  have hF : F.Unfolds (fun e => index.children e.id) := hunfolds.congr fun a ha => if_pos (hmem a ha)
  refine ⟨F, hroots, hF, ?_⟩
  have hsize : F.size ≤ index.elements.length := by
    rw [← Siblings.length_nodes, hnodes]
    exact length_popped_le hout
  rw [walk, ← hroots, popped_steps hF (Nat.mul_le_mul_left 2 hsize), Option.getD_some]

/-- Every step of the walk is at an element whose parents come to an end. -/
theorem mem_walk {step : Step ElementRecord} (h : step ∈ index.walk) :
    step.at ∈ index.elements ∧ Rooted index step.at := by
  obtain ⟨F, hroots, hunfolds, hwalk⟩ := exists_walk index
  rw [hwalk] at h
  refine hunfolds.forall_nodes (p := fun e => e ∈ index.elements ∧ Rooted index e) ?_ ?_ _
    (Siblings.at_mem_nodes_of_topSteps h)
  · intro e he
    rw [hroots] at he
    exact ⟨(mem_roots.mp he).1, rooted_of_mem_roots he⟩
  · intro e he c hc
    exact ⟨(mem_children.mp hc).1, rooted_child he.2 hc⟩

end LawNexus.Reader
