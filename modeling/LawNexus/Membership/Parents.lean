import LawNexus.Membership.Reachable

/-!
# Who keeps a parent

An accepted operation, seen from a component that it does not name. Renumber and Move keep
its parent, or put the new name in its place. Split and Merge keep it only when the parent
is not one of the subjects.
-/

namespace LawNexus

/-! ## Renaming -/

theorem parentOf_rewrite {g g' : MembershipGraph} {src dst c : ComponentConceptId}
    (hrw : rewriteComponentId g src dst = .ok g') (hsrc : c ≠ src) (hdst : c ≠ dst) :
    g'.parentOf c = (g.parentOf c).map fun q => if q = src then dst else q := by
  unfold rewriteComponentId at hrw
  split_ifs at hrw with hne hfree
  obtain rfl := Except.ok.inj hrw
  have same_child : ∀ e : MembershipEdge,
      (if e.child = src then dst else e.child) = c ↔ e.child = c := by
    intro e
    split_ifs with h
    · exact iff_of_false hdst.symm (fun hc => hsrc (hc.symm.trans h))
    · rfl
  have hfind : g.edges.find? (fun e => e.child = c) =
      (g.edges.attach.find? (fun e => e.val.child = c)).map (·.val) := by
    conv_lhs => rw [← List.attach_map_subtype_val g.edges, List.find?_map]
    rfl
  simp only [MembershipGraph.parentOf, hfind, List.find?_map, Function.comp_def,
    MembershipEdge.rewrite, same_child, Option.map_map]

/-! ## Splitting and merging -/

theorem attachChild_appends (g : MembershipGraph) (parent target : ComponentConceptId) :
    ∃ new, (attachChild g parent target).2 = ⟨g.edges ++ new⟩ ∧ ∀ e ∈ new, e.child = target := by
  rcases attachChild_cases g parent target with ⟨hatt, heq⟩ | ⟨-, e, heq⟩
  · exact ⟨[⟨parent, target, hatt.1⟩], by rw [heq], by simp⟩
  · exact ⟨[], by simp [heq], by simp⟩

/-- Split and Merge drop every edge that touches a subject, and add edges to targets only. -/
theorem applyKind_drops_subjects {g : MembershipGraph} {r : IndustrialOpRequest}
    (hr : Planned r) (hkind : r.kind = .split ∨ r.kind = .merge) :
    ∃ new, (applyKind g r).2 = ⟨untouched g r.subjects ++ new⟩ ∧
      ∀ e ∈ new, e.child ∈ r.targets := by
  cases hr with
  | renumber src dst kind => simp [kind] at hkind
  | move subject newParent kind => simp [kind] at hkind
  | split subject kind subjects =>
    rw [applyKind_split kind subjects, subjects]
    cases g.parentOf subject with
    | none => exact ⟨[], by simp, by simp⟩
    | some parent =>
      obtain ⟨new, hnew, hall⟩ := attachChildren_appends ⟨untouched g [subject]⟩ parent r.targets
      exact ⟨new, hnew, fun e he => (hall e he).2⟩
  | merge target kind targets =>
    rw [applyKind_merge kind targets, targets]
    cases firstParent g r.subjects with
    | none => exact ⟨[], by simp, by simp⟩
    | some parent =>
      obtain ⟨new, hnew, hall⟩ := attachChild_appends ⟨untouched g r.subjects⟩ parent target
      exact ⟨new, hnew, fun e he => by simp [hall e he]⟩

section

variable {g : MembershipGraph} {r : IndustrialOpRequest} {c q : ComponentConceptId}

theorem parentOf_dropped_subjects (hr : Planned r) (hkind : r.kind = .split ∨ r.kind = .merge)
    (hsub : c ∉ r.subjects) (htar : c ∉ r.targets) (hq : g.parentOf c = some q)
    (hkept : q ∉ r.subjects) : (applyKind g r).2.parentOf c = some q := by
  obtain ⟨new, heq, hnew⟩ := applyKind_drops_subjects (g := g) hr hkind
  have hother : ∀ e ∈ new, e.child ≠ c := fun e he hc => htar (hc ▸ hnew e he)
  rw [heq, MembershipGraph.parentOf_append (g := ⟨untouched g r.subjects⟩) hother]
  refine MembershipGraph.parentOf_filter hq fun e _ hc hp => ?_
  simp only [decide_eq_true_eq]
  rintro id hid (h | h)
  · exact hkept (hp ▸ h ▸ hid)
  · exact hsub (hc ▸ h ▸ hid)

/-- A child of a subject loses its only edge. -/
theorem parentOf_orphaned (hg : Structural g.edges) (hr : Planned r)
    (hkind : r.kind = .split ∨ r.kind = .merge) (htar : c ∉ r.targets)
    (hq : g.parentOf c = some q) (hsubject : q ∈ r.subjects) :
    (applyKind g r).2.parentOf c = none := by
  obtain ⟨new, heq, hnew⟩ := applyKind_drops_subjects (g := g) hr hkind
  rw [heq, MembershipGraph.parentOf_eq_none]
  intro e he hc
  rcases List.mem_append.mp he with he | he
  · obtain ⟨hmem, hun⟩ := mem_untouched.mp he
    have := hg.parentOf_of_mem hmem
    rw [hc, hq] at this
    exact hun q hsubject (Or.inl (Option.some.inj this).symm)
  · exact htar (hc ▸ hnew e he)

/-! ## Moving and renumbering -/

theorem parentOf_moved (hr : Planned r) (hkind : r.kind = .move) (hsub : c ∉ r.subjects)
    (hq : g.parentOf c = some q) : (applyKind g r).2.parentOf c = some q := by
  cases hr with
  | renumber src dst kind => simp [kind] at hkind
  | split subject kind => simp [kind] at hkind
  | merge target kind => simp [kind] at hkind
  | move subject newParent kind subjects targets =>
    have hne : c ≠ subject := by simpa [subjects] using hsub
    rw [applyKind_move kind subjects targets]
    obtain ⟨new, heq, hnew⟩ :=
      attachChild_appends ⟨g.edges.filter (fun e => e.child ≠ subject)⟩ newParent subject
    rw [heq, MembershipGraph.parentOf_append
      (g := ⟨g.edges.filter (fun e => e.child ≠ subject)⟩)]
    · exact MembershipGraph.parentOf_filter hq fun e _ hc _ => by simp [hc, hne]
    · exact fun e he hc => hne (hc.symm.trans (hnew e he))

theorem parentOf_renumbered (hr : Planned r) (hkind : r.kind = .renumber)
    (hok : (applyKind g r).1 = .ok ()) (hsub : c ∉ r.subjects) (htar : c ∉ r.targets)
    (hq : g.parentOf c = some q) :
    ∃ dst, r.targets = [dst] ∧
      (applyKind g r).2.parentOf c = some (if q ∈ r.subjects then dst else q) := by
  cases hr with
  | move subject newParent kind => simp [kind] at hkind
  | split subject kind => simp [kind] at hkind
  | merge target kind => simp [kind] at hkind
  | renumber src dst kind subjects targets =>
    refine ⟨dst, targets, ?_⟩
    rw [applyKind_renumber kind subjects targets, applyRenumber] at *
    cases hrw : rewriteComponentId g src dst with
    | error e => rw [hrw] at hok; exact absurd hok (by simp)
    | ok g' =>
      simp only [subjects, targets, List.mem_singleton] at hsub htar ⊢
      rw [parentOf_rewrite hrw hsub htar, hq]
      rfl

end

/-! ## The theorem -/

/-- After an accepted operation, a component that the request does not name still has its
parent, under the new name when Renumber gave it one. The exception is a child of a subject
of Split or Merge: it is left without a parent. -/
theorem apply_ok_parentOf {g : MembershipGraph} {l : StructuralEventLog} {r : IndustrialOpRequest}
    {p : IndustrialOpPlan} {receipt : IndustrialOpApplyReceipt} {c q : ComponentConceptId}
    (hok : (applyIndustrialOp g l r p).answer = .ok receipt) (hsub : c ∉ r.subjects)
    (htar : c ∉ r.targets) (hq : g.parentOf c = some q) :
    (q ∉ r.subjects ∨ r.kind = .move → (applyIndustrialOp g l r p).graph.parentOf c = some q) ∧
    (q ∈ r.subjects → r.kind = .renumber →
      ∃ dst, r.targets = [dst] ∧ (applyIndustrialOp g l r p).graph.parentOf c = some dst) ∧
    (q ∈ r.subjects → r.kind = .split ∨ r.kind = .merge → Reachable g →
      (applyIndustrialOp g l r p).graph.parentOf c = none) := by
  have href : ¬ Refused g l r p := by
    intro href
    obtain ⟨e, heq⟩ := apply_refused href
    rw [heq] at hok
    exact absurd hok (by simp)
  obtain ⟨hr, hgraph, hanswer, -⟩ := apply_started href
  have hdone : (applyKind g r).1 = .ok () := by
    by_contra hne
    obtain ⟨e, he⟩ := hanswer.mpr hne
    rw [hok] at he
    exact absurd he (by simp)
  rw [hgraph]
  refine ⟨fun hkeep => ?_, fun hq' hkind => ?_, fun hq' hkind hg => ?_⟩
  · cases hkind : r.kind with
    | renumber =>
      obtain ⟨dst, -, hp⟩ := parentOf_renumbered hr hkind hdone hsub htar hq
      rw [hp, if_neg (hkeep.resolve_right (by simp [hkind]))]
    | move => exact parentOf_moved hr hkind hsub hq
    | split =>
      exact parentOf_dropped_subjects hr (Or.inl hkind) hsub htar hq
        (hkeep.resolve_right (by simp [hkind]))
    | merge =>
      exact parentOf_dropped_subjects hr (Or.inr hkind) hsub htar hq
        (hkeep.resolve_right (by simp [hkind]))
  · obtain ⟨dst, htargets, hp⟩ := parentOf_renumbered hr hkind hdone hsub htar hq
    exact ⟨dst, htargets, by rw [hp, if_pos hq']⟩
  · exact parentOf_orphaned hg.structural hr hkind htar hq hq'

/-- The article of a renumbered chapter hangs below the new chapter. -/
theorem apply_ok_parentOf_renumber :
    (applyIndustrialOp Sample.graph .empty (Sample.request .renumber [⟨"cc:chapter-2", rfl⟩])
      (Sample.plan .renumber)).graph.parentOf Sample.article = some ⟨"cc:chapter-2", rfl⟩ := by
  have hok : (applyIndustrialOp Sample.graph .empty
      (Sample.request .renumber [⟨"cc:chapter-2", rfl⟩]) (Sample.plan .renumber)).answer =
        .ok ⟨⟨"op:1", rfl⟩, .renumber, f08NonClaims ++ s3ApplyNonClaims⟩ := by decide
  have hparent : Sample.graph.parentOf Sample.article = some Sample.chapter := by decide
  obtain ⟨dst, htargets, hp⟩ :=
    (apply_ok_parentOf hok (by decide) (by decide) hparent).2.1 (by decide) rfl
  rw [hp, List.singleton_inj.mp htargets]

/-- The article of a chapter that was split is left without a parent. -/
theorem apply_ok_orphans_article :
    ¬ ∀ g l r p receipt c q, Reachable g → (applyIndustrialOp g l r p).answer = .ok receipt →
      c ∉ r.subjects → c ∉ r.targets → g.parentOf c = some q →
      ∃ q', (applyIndustrialOp g l r p).graph.parentOf c = some q' := by
  intro h
  let r := Sample.request .split [⟨"cc:chapter-1", rfl⟩, ⟨"cc:chapter-2", rfl⟩]
  have hg : Reachable Sample.graph := ⟨Sample.graph.edges.map .insert, by decide⟩
  obtain ⟨q', hq'⟩ := h Sample.graph .empty r (Sample.plan .split)
    ⟨⟨"op:1", rfl⟩, .split, f08NonClaims ++ s3ApplyNonClaims⟩ Sample.article Sample.chapter
    hg (by decide) (by decide) (by decide) (by decide)
  have hnone : (applyIndustrialOp Sample.graph .empty r (Sample.plan .split)).graph.parentOf
      Sample.article = none := by decide
  rw [hnone] at hq'
  exact absurd hq' (by simp)

end LawNexus
