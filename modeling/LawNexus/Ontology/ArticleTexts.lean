import LawNexus.Ontology.Drift

/-!
# Changed article texts

`changed_article_texts` of `ln-kb-ontology/src/domain.rs`: the drafts for the articles that are
new, gone or changed between two editions. Of the later edition the first item of a key counts;
the earlier one is walked item by item.
-/

namespace LawNexus

/-! ## Items and keys -/

/-- A tuple `(level, number, path, text)`. -/
structure TextItem where
  level : String
  number : String
  path : Option String
  text : String
deriving DecidableEq, Repr

def textKey (level number : String) (path : Option String) : String × String :=
  (level, path.getD number)

def TextItem.key (item : TextItem) : String × String := textKey item.level item.number item.path

def AmendmentEventDraft.key (draft : AmendmentEventDraft) : String × String :=
  textKey draft.level draft.number draft.path

def textFacetDraft (op : AmendmentDraftOp) (provenance : String) (item : TextItem) :
    AmendmentEventDraft where
  op := op
  level := item.level
  number := item.number
  path := item.path
  facet := "text"
  evidenceClass := "hypothesized_from_oracle_diff"
  provenance := provenance

@[simp] theorem textFacetDraft_op (op : AmendmentDraftOp) (provenance : String)
    (item : TextItem) : (textFacetDraft op provenance item).op = op := rfl

@[simp] theorem textFacetDraft_key (op : AmendmentDraftOp) (provenance : String)
    (item : TextItem) : (textFacetDraft op provenance item).key = item.key := rfl

/-! ## The comparison -/

/-- `entry(key).or_insert(text)` of a map. -/
def orInsert (texts : List ((String × String) × String)) (item : TextItem) :
    List ((String × String) × String) :=
  if item.key ∈ texts.map (·.1) then texts else texts ++ [(item.key, item.text)]

def afterFirst (after : List TextItem) : List ((String × String) × String) :=
  after.foldl orInsert []

def textOf (texts : List ((String × String) × String)) (key : String × String) : Option String :=
  (texts.find? fun entry => entry.1 = key).map (·.2)

/-- The body of the loop over the earlier edition. -/
def changedOrRemoved (texts : List ((String × String) × String)) (provenance : String)
    (item : TextItem) : Option AmendmentEventDraft :=
  match textOf texts item.key with
  | some newText =>
    if newText = item.text then none else some (textFacetDraft .attach provenance item)
  | none => some (textFacetDraft .detach provenance item)

def changedArticleTexts (before after : List TextItem) (provenance : String) :
    Except WriteSetError (List AmendmentEventDraft) :=
  if provenance.isEmpty then .error .missingProvenance
  else
    let added := after.filter fun item => item.key ∉ before.map (·.key)
    .ok (before.filterMap (changedOrRemoved (afterFirst after) provenance) ++
      added.map (textFacetDraft .attach provenance))

/-! ## First occurrences -/

def itemsAt (items : List TextItem) (key : String × String) : List TextItem :=
  items.filter fun item => item.key = key

/-- The text of the first item of a key. -/
def firstText (items : List TextItem) (key : String × String) : Option String :=
  (itemsAt items key).head?.map (·.text)

theorem itemsAt_ne_nil {items : List TextItem} {key : String × String} :
    itemsAt items key ≠ [] ↔ key ∈ items.map (·.key) := by
  simp [itemsAt]

theorem textOf_orInsert (texts : List ((String × String) × String)) (item : TextItem)
    (key : String × String) : textOf (orInsert texts item) key =
      (textOf texts key).or (if item.key = key then some item.text else none) := by
  unfold textOf orInsert
  by_cases hmem : item.key ∈ texts.map (·.1)
  · rw [if_pos hmem]
    by_cases hkey : item.key = key
    · obtain ⟨entry, hentry, hfst⟩ := List.mem_map.mp hmem
      have hsome : (texts.find? fun entry => entry.1 = key).isSome :=
        List.find?_isSome.mpr ⟨entry, hentry, decide_eq_true (hfst.trans hkey)⟩
      obtain ⟨found, hfound⟩ := Option.isSome_iff_exists.mp hsome
      rw [hfound, Option.map_some, Option.some_or]
    · rw [if_neg hkey, Option.or_none]
  · rw [if_neg hmem, List.find?_append]
    by_cases hkey : item.key = key
    · have hnone : texts.find? (fun entry => entry.1 = key) = none := by
        rw [List.find?_eq_none]
        intro entry hentry hfst
        exact hmem (List.mem_map.mpr ⟨entry, hentry, (of_decide_eq_true hfst).trans hkey.symm⟩)
      rw [hnone]
      simp [hkey]
    · simp [hkey]

theorem textOf_afterFirst (items : List TextItem) (key : String × String) :
    textOf (afterFirst items) key = firstText items key := by
  unfold firstText itemsAt
  rw [List.head?_filter, afterFirst]
  induction items using List.reverseRecOn with
  | nil => rfl
  | append_singleton items item ih =>
    rw [List.foldl_append, List.foldl_cons, List.foldl_nil, textOf_orInsert, ih,
      List.find?_append, Option.map_or]
    by_cases hkey : item.key = key <;> simp [hkey]

/-! ## The diff of first occurrences -/

/-- The draft that the first occurrences ask for. -/
def Drafted (before after : List TextItem) (key : String × String) : AmendmentDraftOp → Prop
  | .detach => key ∈ before.map (·.key) ∧ key ∉ after.map (·.key)
  | .attach => key ∈ after.map (·.key) ∧
      (key ∈ before.map (·.key) → firstText before key ≠ firstText after key)

def countAt (drafts : List AmendmentEventDraft) (op : AmendmentDraftOp)
    (key : String × String) : Nat :=
  drafts.countP fun draft => draft.op = op ∧ draft.key = key

/-- One draft for each key that the first occurrences ask for, and no other. -/
def DiffOfFirsts (before after : List TextItem) (drafts : List AmendmentEventDraft) : Prop :=
  ∀ key op, (Drafted before after key op → countAt drafts op key = 1) ∧
    (¬ Drafted before after key op → countAt drafts op key = 0)

/-- A key on one side stands there once, and behind the first item of a key on both sides there
are only items with the first text of the later edition. -/
def Undoubled (before after : List TextItem) : Prop :=
  ∀ key, (key ∉ after.map (·.key) → (itemsAt before key).length ≤ 1) ∧
    (key ∉ before.map (·.key) → (itemsAt after key).length ≤ 1) ∧
    (key ∈ after.map (·.key) →
      ∀ item ∈ (itemsAt before key).tail, firstText after key = some item.text)

/-! ## Drafts of one key -/

section

variable {before after : List TextItem} {provenance : String} {key : String × String}

/-- What the walk over the earlier edition does with an item whose key has this text there. -/
def opOf (newText : Option String) (item : TextItem) : Option AmendmentDraftOp :=
  match newText with
  | some newText => if newText = item.text then none else some .attach
  | none => some .detach

theorem changedOrRemoved_eq (item : TextItem) :
    changedOrRemoved (afterFirst after) provenance item =
      (opOf (firstText after item.key) item).map fun op => textFacetDraft op provenance item := by
  rw [changedOrRemoved, textOf_afterFirst]
  cases firstText after item.key with
  | none => rfl
  | some newText =>
    by_cases h : newText = item.text
    · simp [opOf, h]
    · simp [opOf, h]

theorem countAt_walked (op : AmendmentDraftOp) :
    countAt (before.filterMap (changedOrRemoved (afterFirst after) provenance)) op key =
      (itemsAt before key).countP fun item => opOf (firstText after key) item = some op := by
  rw [countAt, List.countP_filterMap, itemsAt, List.countP_filter]
  refine List.countP_congr fun item _ => ?_
  rw [changedOrRemoved_eq]
  by_cases h : item.key = key
  · rw [h]
    cases opOf (firstText after key) item with
    | none => simp
    | some op' => by_cases hop : op' = op <;> simp [h, hop]
  · cases opOf (firstText after item.key) item <;> simp [h]

theorem countAt_added (op : AmendmentDraftOp) : countAt ((after.filter fun item =>
    item.key ∉ before.map (·.key)).map (textFacetDraft .attach provenance)) op key =
      if op = .attach ∧ key ∉ before.map (·.key) then (itemsAt after key).length else 0 := by
  rw [countAt, List.countP_map, List.countP_filter]
  split_ifs with h
  · obtain ⟨rfl, hnew⟩ := h
    rw [itemsAt, ← List.countP_eq_length_filter]
    refine List.countP_congr fun item _ => ?_
    simp only [Function.comp_apply, textFacetDraft_op, textFacetDraft_key, Bool.and_eq_true,
      decide_eq_true_eq, true_and]
    exact ⟨And.left, fun hitem => ⟨hitem, hitem ▸ hnew⟩⟩
  · rw [List.countP_eq_zero]
    intro item _ hitem
    rw [Bool.and_eq_true] at hitem
    obtain ⟨hop, hkey⟩ := of_decide_eq_true hitem.1
    exact h ⟨hop.symm, hkey ▸ of_decide_eq_true hitem.2⟩

theorem firstText_eq_none : firstText after key = none ↔ key ∉ after.map (·.key) := by
  rw [firstText, Option.map_eq_none_iff, List.head?_eq_none_iff, ← itemsAt_ne_nil, not_not]

/-- The drafts of one key and one operation. -/
theorem countAt_drafts (op : AmendmentDraftOp) :
    countAt (before.filterMap (changedOrRemoved (afterFirst after) provenance) ++
      (after.filter fun item => item.key ∉ before.map (·.key)).map
        (textFacetDraft .attach provenance)) op key =
      (itemsAt before key).countP (fun item => opOf (firstText after key) item = some op) +
        if op = .attach ∧ key ∉ before.map (·.key) then (itemsAt after key).length else 0 := by
  rw [countAt, List.countP_append]
  exact congrArg₂ (· + ·) (countAt_walked op) (countAt_added op)

/-! ## One key at a time -/

theorem countP_opOf_none (op : AmendmentDraftOp) (items : List TextItem) :
    items.countP (fun item => opOf none item = some op) =
      if op = .detach then items.length else 0 := by
  cases op with
  | attach => simp [opOf]
  | detach => simp [opOf]

theorem countP_opOf_some (op : AmendmentDraftOp) (text : String) (items : List TextItem) :
    items.countP (fun item => opOf (some text) item = some op) =
      if op = .attach then items.countP (fun item => text ≠ item.text) else 0 := by
  cases op with
  | attach =>
    rw [if_pos rfl]
    refine List.countP_congr fun item _ => ?_
    by_cases h : text = item.text <;> simp [opOf, h]
  | detach =>
    rw [if_neg (by decide), List.countP_eq_zero]
    intro item _
    by_cases h : text = item.text <;> simp [opOf, h]

variable {drafts : List AmendmentEventDraft}
  (hcount : ∀ op, countAt drafts op key =
    (itemsAt before key).countP (fun item => opOf (firstText after key) item = some op) +
      if op = .attach ∧ key ∉ before.map (·.key) then (itemsAt after key).length else 0)

include hcount

/-- A key that is gone. -/
theorem diff_iff_gone (hafter : key ∉ after.map (·.key)) :
    (∀ op, (Drafted before after key op → countAt drafts op key = 1) ∧
      (¬ Drafted before after key op → countAt drafts op key = 0)) ↔
        (itemsAt before key).length ≤ 1 := by
  have htheirs : (itemsAt after key).length = 0 :=
    List.length_eq_zero_iff.mpr (not_not.mp fun h => hafter (itemsAt_ne_nil.mp h))
  have hdetach : countAt drafts .detach key = (itemsAt before key).length := by
    rw [hcount, firstText_eq_none.mpr hafter, countP_opOf_none, if_pos rfl, if_neg (by simp),
      Nat.add_zero]
  have hattach : countAt drafts .attach key = 0 := by
    rw [hcount, firstText_eq_none.mpr hafter, countP_opOf_none, if_neg (by decide), htheirs,
      ite_self]
  have hmine : key ∈ before.map (·.key) ↔ (itemsAt before key).length ≠ 0 := by
    rw [← itemsAt_ne_nil, Ne, Ne, List.length_eq_zero_iff]
  constructor
  · intro h
    have hdiff := h .detach
    rw [hdetach, Drafted, and_iff_left hafter, hmine] at hdiff
    omega
  · intro h op
    cases op with
    | attach => exact ⟨fun hdrafted => absurd hdrafted.1 hafter, fun _ => hattach⟩
    | detach =>
      rw [hdetach, Drafted, and_iff_left hafter, hmine]
      omega

/-- A key that is new. -/
theorem diff_iff_new (hbefore : key ∉ before.map (·.key)) (hafter : key ∈ after.map (·.key)) :
    (∀ op, (Drafted before after key op → countAt drafts op key = 1) ∧
      (¬ Drafted before after key op → countAt drafts op key = 0)) ↔
        (itemsAt after key).length ≤ 1 := by
  have hmine : itemsAt before key = [] := not_not.mp fun h => hbefore (itemsAt_ne_nil.mp h)
  have htheirs : (itemsAt after key).length ≠ 0 :=
    fun h => itemsAt_ne_nil.mpr hafter (List.length_eq_zero_iff.mp h)
  have hdetach : countAt drafts .detach key = 0 := by
    rw [hcount, hmine]
    simp
  have hattach : countAt drafts .attach key = (itemsAt after key).length := by
    rw [hcount, hmine, if_pos ⟨rfl, hbefore⟩, List.countP_nil, Nat.zero_add]
  constructor
  · intro h
    exact hattach ▸ ((h .attach).1 ⟨hafter, fun hmem => absurd hmem hbefore⟩).le
  · intro h op
    cases op with
    | attach =>
      refine ⟨fun _ => ?_, fun hdrafted => absurd ⟨hafter, fun hmem => absurd hmem hbefore⟩ hdrafted⟩
      rw [hattach]
      omega
    | detach => exact ⟨fun hdrafted => absurd hafter hdrafted.2, fun _ => hdetach⟩

/-- A key on both sides: the first item gives the draft, and the later ones must give none. -/
theorem diff_iff_both (hbefore : key ∈ before.map (·.key)) (hafter : key ∈ after.map (·.key)) :
    (∀ op, (Drafted before after key op → countAt drafts op key = 1) ∧
      (¬ Drafted before after key op → countAt drafts op key = 0)) ↔
        ∀ item ∈ (itemsAt before key).tail, firstText after key = some item.text := by
  obtain ⟨text, htext⟩ := Option.ne_none_iff_exists'.mp
    (mt firstText_eq_none.mp (not_not_intro hafter))
  obtain ⟨first, rest, hmine⟩ := List.exists_cons_of_ne_nil (itemsAt_ne_nil.mpr hbefore)
  have hfirst : firstText before key = some first.text := by
    rw [firstText, hmine]
    rfl
  have hdetach : countAt drafts .detach key = 0 := by
    rw [hcount, htext, countP_opOf_some, if_neg (by decide), if_neg (by simp)]
  have hattach : countAt drafts .attach key = rest.countP (fun item => text ≠ item.text) +
      if text ≠ first.text then 1 else 0 := by
    rw [hcount, htext, countP_opOf_some, if_pos rfl, if_neg fun h => h.2 hbefore, hmine,
      List.countP_cons, Nat.add_zero]
    simp only [decide_eq_true_eq]
  have hrest : (∀ item ∈ rest, some text = some item.text) ↔
      rest.countP (fun item => text ≠ item.text) = 0 := by
    simp [List.countP_eq_zero]
  have hdrafted : Drafted before after key .attach ↔ text ≠ first.text := by
    rw [Drafted, and_iff_right hafter, imp_iff_right hbefore, hfirst, htext, ne_eq,
      Option.some.injEq, eq_comm]
  rw [hmine, List.tail_cons, htext, hrest]
  constructor
  · intro h
    have hdiff := h .attach
    rw [hattach, hdrafted] at hdiff
    by_cases hsame : text = first.text
    · simpa [hsame] using hdiff.2 (not_not_intro hsame)
    · simpa [hsame] using hdiff.1 hsame
  · intro h op
    cases op with
    | attach =>
      rw [hattach, hdrafted, h, Nat.zero_add]
      exact ⟨fun hchanged => if_pos hchanged, fun hsame => if_neg hsame⟩
    | detach => exact ⟨fun hgone => absurd hafter hgone.2, fun _ => hdetach⟩

end

/-! ## The theorem -/

/-- Between an edition and itself the first occurrences ask for nothing. -/
theorem DiffOfFirsts.eq_nil {items : List TextItem} {drafts : List AmendmentEventDraft}
    (h : DiffOfFirsts items items drafts) : drafts = [] := by
  refine List.eq_nil_iff_forall_not_mem.mpr fun draft hdraft => ?_
  have hnone : ¬ Drafted items items draft.key draft.op := by
    cases draft.op with
    | attach => exact fun hdrafted => hdrafted.2 hdrafted.1 rfl
    | detach => exact fun hdrafted => hdrafted.2 hdrafted.1
  exact List.countP_eq_zero.mp ((h draft.key draft.op).2 hnone) draft hdraft (by simp)

/-- The drafts are the diff of the first occurrences exactly when no key is doubled in a way that
the walk over the earlier edition sees. -/
theorem changed_article_texts_iff {provenance : String} (hprov : provenance.isEmpty = false)
    (before after : List TextItem) :
    (∃ drafts, changedArticleTexts before after provenance = .ok drafts ∧
      DiffOfFirsts before after drafts ∧ (before = after → drafts = [])) ↔
        Undoubled before after := by
  have hself : ∀ drafts, DiffOfFirsts before after drafts ∧ (before = after → drafts = []) ↔
      DiffOfFirsts before after drafts := fun drafts =>
    and_iff_left_of_imp fun hdiff heq => @DiffOfFirsts.eq_nil after _ (heq ▸ hdiff)
  have hok : ∀ drafts, changedArticleTexts before after provenance = .ok drafts ↔
      before.filterMap (changedOrRemoved (afterFirst after) provenance) ++
        (after.filter fun item => item.key ∉ before.map (·.key)).map
          (textFacetDraft .attach provenance) = drafts := by
    intro drafts
    rw [changedArticleTexts, hprov, if_neg (by decide), Except.ok.injEq]
  simp only [hself]
  simp only [hok, exists_eq_left', DiffOfFirsts, Undoubled]
  refine forall_congr' fun key => ?_
  have hcount := fun op => @countAt_drafts before after provenance key op
  by_cases hafter : key ∈ after.map (·.key)
  · by_cases hbefore : key ∈ before.map (·.key)
    · rw [diff_iff_both hcount hbefore hafter]
      exact ⟨fun h => ⟨fun hgone => absurd hafter hgone, fun hnew => absurd hbefore hnew,
        fun _ => h⟩, fun h => h.2.2 hafter⟩
    · rw [diff_iff_new hcount hbefore hafter]
      have hmine : itemsAt before key = [] := not_not.mp fun h => hbefore (itemsAt_ne_nil.mp h)
      exact ⟨fun h => ⟨fun hgone => absurd hafter hgone, fun _ => h, fun _ => by simp [hmine]⟩,
        fun h => h.2.1 hbefore⟩
  · rw [diff_iff_gone hcount hafter]
    have htheirs : itemsAt after key = [] := not_not.mp fun h => hafter (itemsAt_ne_nil.mp h)
    exact ⟨fun h => ⟨fun _ => h, fun _ => by simp [htheirs], fun hmem => absurd hmem hafter⟩,
      fun h => h.1 hafter⟩

/-! ### An article twice in one edition -/

namespace Sample

def articleText (text : String) : TextItem := ⟨"statya", "1", none, text⟩

end Sample

theorem changed_article_texts_statute :
    (∃ drafts, changedArticleTexts [Sample.articleText "a"] [Sample.articleText "b"] "act" =
      .ok drafts ∧ DiffOfFirsts [Sample.articleText "a"] [Sample.articleText "b"] drafts ∧
        ([Sample.articleText "a"] = [Sample.articleText "b"] → drafts = [])) ↔
    Undoubled [Sample.articleText "a"] [Sample.articleText "b"] :=
  changed_article_texts_iff (by decide) _ _

/-- An edition against itself: the second text of its doubled article is drafted. -/
theorem doubled_article_drafted :
    ¬ ∀ (before after : List TextItem) (provenance : String), provenance.isEmpty = false →
      ∃ drafts, changedArticleTexts before after provenance = .ok drafts ∧
        DiffOfFirsts before after drafts := by
  intro hall
  obtain ⟨drafts, hok, hdiff⟩ := hall [Sample.articleText "a", Sample.articleText "b"]
    [Sample.articleText "a", Sample.articleText "b"] "act" (by decide)
  have hdrafts : drafts = [textFacetDraft .attach "act" (Sample.articleText "b")] :=
    (Except.ok.inj hok).symm
  have hsame := (hdiff ("statya", "1") .attach).2 fun h => h.2 (by decide) rfl
  rw [hdrafts] at hsame
  exact absurd hsame (by decide)

end LawNexus
