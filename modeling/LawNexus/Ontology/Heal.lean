import LawNexus.Ontology.Faithful
import LawNexus.Ontology.Hierarchy

/-!
# Drift and healing

`oracle_diff` counts what an oracle expects and the tree lacks, and `heal_missing` appends an
attach for each expected edge whose child the tree lacks. The result is when the healed log
folds to a tree that lacks nothing.
-/

namespace LawNexus

open Forest Loops

/-! ## The diff -/

structure OracleDiffReport where
  expected : Nat
  actual : Nat
  missing : Nat
  phantom : Nat
  drift : Nat
deriving DecidableEq, Repr

/-- The component of the node, then those below it. The source collects the texts of the ids. -/
def collectSubtreeCcs : StructuralAstNode → List ComponentConceptId := RoseTree.nodes

def actualSet (ast : StructuralAst) : List ComponentConceptId :=
  distinct (ast.roots.flatMap collectSubtreeCcs)

def oracleDiff (ast : StructuralAst) (expected : List ComponentConceptId) : OracleDiffReport :=
  let actualSet := actualSet ast
  let expectedSet := distinct expected
  let missing := (expectedSet.filter fun c => c ∉ actualSet).length
  let phantom := (actualSet.filter fun c => c ∉ expectedSet).length
  ⟨expected.length, actualSet.length, missing, phantom, missing + phantom⟩

theorem mem_actualSet {ast : StructuralAst} {x : ComponentConceptId} :
    x ∈ actualSet ast ↔ x ∈ ast.nodes := by
  rw [actualSet, mem_distinct, StructuralAst.nodes, RoseTree.nodesOf_eq]
  rfl

theorem oracleDiff_missing_eq_zero {ast : StructuralAst} {expected : List ComponentConceptId} :
    (oracleDiff ast expected).missing = 0 ↔ ∀ c ∈ expected, c ∈ ast.nodes := by
  simp [oracleDiff, mem_actualSet]

/-! ## Healing -/

structure HealReport where
  healed : Nat
deriving DecidableEq, Repr

/-- The body of the loop: a child that is present and an edge that no event can hold are
passed over. -/
def healStep (present : List ComponentConceptId) (effectDay : Int) (prov : AmendingActId)
    (s : VersionedMembershipLog × Nat) (edge : ComponentConceptId × ComponentConceptId) :
    VersionedMembershipLog × Nat :=
  if edge.2 ∈ present then s
  else match VersionedMembershipEvent.tryNew .attach edge.1 edge.2 effectDay prov with
    | .error _ => s
    | .ok event =>
      match s.1.append event with
      | .error _ => s
      | .ok log => (log, s.2 + 1)

/-- Beside the answer stands the log it borrowed. -/
def healMissing (log : VersionedMembershipLog) (ast : StructuralAst)
    (expectedEdges : List (ComponentConceptId × ComponentConceptId)) (effectDay : Int)
    (provenance : String) : Except WriteSetError HealReport × VersionedMembershipLog :=
  match CheckedId.parse "amending act id" provenance with
  | .error _ => (.error .missingProvenance, log)
  | .ok prov =>
    let s := expectedEdges.foldl (healStep (actualSet ast) effectDay prov) (log, 0)
    (.ok ⟨s.2⟩, s.1)

/-- The expected edges whose child the tree lacks. -/
def missingEdges (ast : StructuralAst)
    (expectedEdges : List (ComponentConceptId × ComponentConceptId)) :
    List (ComponentConceptId × ComponentConceptId) :=
  expectedEdges.filter fun edge => edge.2 ∉ ast.nodes

section

variable {log log' : VersionedMembershipLog} {ast : StructuralAst} {day : Int}
  {edges : List (ComponentConceptId × ComponentConceptId)}

theorem foldl_healStep (hself : ∀ edge ∈ edges, edge.1 ≠ edge.2) (ast : StructuralAst)
    (day : Int) (prov : AmendingActId) (log : VersionedMembershipLog) (healed : Nat) : ∃ new,
    edges.foldl (healStep (actualSet ast) day prov) (log, healed) =
        (⟨log.events ++ new⟩, healed + new.length) ∧
      AttachesOn day (missingEdges ast edges) new := by
  induction edges generalizing log healed with
  | nil => exact ⟨[], by simp, rfl⟩
  | cons edge rest ih =>
    obtain ⟨hedge, hrest⟩ := List.forall_mem_cons.mp hself
    by_cases hpresent : edge.2 ∈ ast.nodes
    · obtain ⟨new, hfold, hnew⟩ := ih hrest log healed
      refine ⟨new, ?_, ?_⟩
      · rw [List.foldl_cons, healStep, if_pos (mem_actualSet.mpr hpresent), hfold]
      · rwa [missingEdges, List.filter_cons_of_neg (by simpa using hpresent)]
    · obtain ⟨new, hfold, hnew⟩ := ih hrest
        ⟨log.events ++ [⟨.attach, edge.1, edge.2, day, prov, hedge⟩]⟩ (healed + 1)
      refine ⟨⟨.attach, edge.1, edge.2, day, prov, hedge⟩ :: new, ?_, ?_⟩
      · rw [List.foldl_cons, healStep, if_neg fun h => hpresent (mem_actualSet.mp h)]
        simp only [tryNew_ok _ _ _ hedge, VersionedMembershipLog.append, hfold,
          List.append_assoc, List.singleton_append, List.length_cons, Prod.mk.injEq, true_and]
        omega
      · rw [missingEdges, List.filter_cons_of_pos (by simpa using hpresent), AttachesOn,
          List.map_cons, List.map_cons]
        exact congrArg _ hnew

/-- A heal that is accepted appends one attach for each missing edge, and nothing else. -/
theorem heal_ok (hself : ∀ edge ∈ edges, edge.1 ≠ edge.2) {text : String} {report : HealReport}
    (h : healMissing log ast edges day text = (.ok report, log')) :
    ∃ new, log' = ⟨log.events ++ new⟩ ∧ AttachesOn day (missingEdges ast edges) new := by
  unfold healMissing at h
  cases hprov : CheckedId.parse "amending act id" text with
  | error e =>
    simp only [hprov] at h
    exact absurd (Prod.mk.inj h).1 (by simp)
  | ok prov =>
    obtain ⟨new, hfold, hnew⟩ := foldl_healStep hself ast day prov log 0
    simp only [hprov, hfold] at h
    exact ⟨new, (Prod.mk.inj h).2.symm, hnew⟩

/-! ## The links of the healed log -/

instance (events : List VersionedMembershipEvent) (kind : MembershipChangeKind)
    (p c : ComponentConceptId) (day : Int) : Decidable (Records events kind p c day) :=
  inferInstanceAs (Decidable (∃ e ∈ events, _))

/-- The links that are alive before the heal, and for the child of a missing edge the
expected parent, unless the log detaches this pair on the same day. -/
def healedLinks (log : VersionedMembershipLog) (ast : StructuralAst)
    (edges : List (ComponentConceptId × ComponentConceptId)) (day : Int) :
    Links ComponentConceptId := fun c =>
  match (missingEdges ast edges).find? fun edge => edge.2 = c with
  | some edge => if Records log.events .detach edge.1 edge.2 day then none else some edge.1
  | none => replayTo log day c

theorem mem_missingEdges {edge : ComponentConceptId × ComponentConceptId} :
    edge ∈ missingEdges ast edges ↔ edge ∈ edges ∧ edge.2 ∉ ast.nodes := by
  simp [missingEdges]

theorem healedLinks_present {x : ComponentConceptId} (hx : ∀ p, (p, x) ∉ missingEdges ast edges) :
    healedLinks log ast edges day x = replayTo log day x := by
  have hnone : (missingEdges ast edges).find? (fun edge => edge.2 = x) = none := by
    rw [List.find?_eq_none]
    rintro ⟨p, c⟩ hedge heq
    obtain rfl : c = x := by simpa using heq
    exact hx p hedge
  simp only [healedLinks, hnone]

theorem healedLinks_missing (hone : ∀ p q c, (p, c) ∈ edges → (q, c) ∈ edges → p = q)
    {p c : ComponentConceptId} (hmem : (p, c) ∈ missingEdges ast edges) :
    healedLinks log ast edges day c =
      if Records log.events .detach p c day then none else some p := by
  obtain ⟨⟨q, c'⟩, hfind⟩ : ∃ edge,
      (missingEdges ast edges).find? (fun edge => edge.2 = c) = some edge := by
    rw [← Option.isSome_iff_exists, List.find?_isSome]
    exact ⟨(p, c), hmem, by simp⟩
  obtain rfl : c' = c := by simpa using List.find?_some hfind
  obtain rfl := hone q p c' (mem_missingEdges.mp (List.mem_of_find?_eq_some hfind)).1
    (mem_missingEdges.mp hmem).1
  simp only [healedLinks, hfind]

theorem records_applicable {kind : MembershipChangeKind} {p c : ComponentConceptId} {d : Int} :
    Records (applicable log day) kind p c d ↔ Records log.events kind p c d ∧ d ≤ day := by
  simp only [Records, mem_applicable]
  constructor
  · rintro ⟨e, ⟨he, hday⟩, rfl, rfl, rfl, rfl⟩
    exact ⟨⟨e, he, rfl, rfl, rfl, rfl⟩, hday⟩
  · rintro ⟨⟨e, he, rfl, rfl, rfl, rfl⟩, hday⟩
    exact ⟨e, ⟨he, hday⟩, rfl, rfl, rfl, rfl⟩

section

variable {new : List VersionedMembershipEvent} (hnew : AttachesOn day (missingEdges ast edges) new)
  (hone : ∀ p q c, (p, c) ∈ edges → (q, c) ∈ edges → p = q)

include hnew

theorem records_healed {kind : MembershipChangeKind} {p c : ComponentConceptId} {d : Int} :
    Records (applicable ⟨log.events ++ new⟩ day) kind p c d ↔
      Records (applicable log day) kind p c d ∨
        kind = .attach ∧ d = day ∧ (p, c) ∈ missingEdges ast edges := by
  rw [records_applicable, records_append, records_attachesOn hnew, records_applicable]
  constructor
  · rintro ⟨h | h, hd⟩
    · exact Or.inl ⟨h, hd⟩
    · exact Or.inr h
  · rintro (⟨h, hd⟩ | h)
    · exact ⟨Or.inl h, hd⟩
    · exact ⟨Or.inr h, h.2.1.le⟩

include hone

/-- The heal makes a conflict exactly where the log attaches a missing child to another
parent on the same day. -/
theorem conflict_healed_iff (hno : ¬ Conflict (applicable log day)) :
    Conflict (applicable ⟨log.events ++ new⟩ day) ↔
      ∃ p q c, (p, c) ∈ missingEdges ast edges ∧ Records log.events .attach q c day ∧ q ≠ p := by
  have hday : ∀ {q c}, Records (applicable log day) .attach q c day ↔
      Records log.events .attach q c day := by
    intro q c
    rw [records_applicable, and_iff_left (le_refl day)]
  simp only [Conflict, records_healed hnew, true_and]
  constructor
  · rintro ⟨c, p, q, d, hp | ⟨rfl, hp⟩, hq | ⟨hd, hq⟩, hne⟩
    · exact absurd ⟨c, p, q, d, hp, hq, hne⟩ hno
    · subst hd
      exact ⟨q, p, c, hq, hday.mp hp, hne⟩
    · exact ⟨p, q, c, hp, hday.mp hq, hne.symm⟩
    · exact absurd (hone p q c (mem_missingEdges.mp hp).1 (mem_missingEdges.mp hq).1) hne
  · rintro ⟨p, q, c, hp, hq, hne⟩
    exact ⟨c, q, p, day, Or.inl (hday.mpr hq), Or.inr ⟨rfl, hp⟩, hne⟩

omit hone in
/-- A child that is not missing has the pairs that it had. -/
theorem alive_healed_other {q c : ComponentConceptId} (hc : ∀ p, (p, c) ∉ missingEdges ast edges) :
    Alive (applicable ⟨log.events ++ new⟩ day) q c ↔ Alive (applicable log day) q c := by
  have hsame : ∀ {kind q d}, Records (applicable ⟨log.events ++ new⟩ day) kind q c d ↔
      Records (applicable log day) kind q c d := fun {_ q _} =>
    (records_healed hnew).trans (or_iff_left fun h => hc q h.2.2)
  simp only [Alive, hsame]

omit hone in
/-- A missing child has the expected pair, unless this pair is detached on the same day. -/
theorem alive_healed_missing (hno' : ¬ Conflict (applicable ⟨log.events ++ new⟩ day))
    {p q c : ComponentConceptId} (hp : (p, c) ∈ missingEdges ast edges) :
    Alive (applicable ⟨log.events ++ new⟩ day) q c ↔
      q = p ∧ ¬ Records log.events .detach p c day := by
  have hattach : Records (applicable ⟨log.events ++ new⟩ day) .attach p c day :=
    (records_healed hnew).mpr (Or.inr ⟨rfl, rfl, hp⟩)
  have hdetach : Records (applicable ⟨log.events ++ new⟩ day) .detach p c day ↔
      Records log.events .detach p c day := by
    rw [records_healed hnew, records_applicable]
    simp
  -- The day of the heal is the last one that is replayed.
  have hlast : ∀ {kind q d}, Records (applicable ⟨log.events ++ new⟩ day) kind q c d →
      d ≤ day := fun h => (records_applicable.mp h).2
  constructor
  · rintro ⟨d, hq, hlater⟩
    obtain ⟨hafter, hkept⟩ := hlater day (hlast hq)
    obtain rfl := hafter p hattach
    exact ⟨rfl, fun h => hkept (hdetach.mpr h)⟩
  · rintro ⟨rfl, hdet⟩
    refine ⟨day, hattach, fun later hle => ⟨fun q' hq' => ?_, fun hq' => ?_⟩⟩
    · obtain rfl := le_antisymm (hlast hq') hle
      by_contra hne
      exact hno' ⟨c, q', q, later, hq', hattach, hne⟩
    · obtain rfl := le_antisymm (hlast hq') hle
      exact hdet (hdetach.mp hq')

theorem replayTo_healed (hno : ¬ Conflict (applicable log day))
    (hno' : ¬ Conflict (applicable ⟨log.events ++ new⟩ day)) :
    replayTo ⟨log.events ++ new⟩ day = healedLinks log ast edges day := by
  funext c
  apply Option.ext
  intro q
  rw [replayTo_iff hno']
  by_cases hmissing : ∃ p, (p, c) ∈ missingEdges ast edges
  · obtain ⟨p, hp⟩ := hmissing
    rw [alive_healed_missing hnew hno' hp, healedLinks_missing hone hp]
    split_ifs with hdet
    · simp [hdet]
    · simp [hdet, eq_comm]
  · rw [alive_healed_other hnew (not_exists.mp hmissing),
      healedLinks_present (not_exists.mp hmissing), replayTo_iff hno]

end

/-! ## What stays -/

section

variable (hfold : foldMembershipAt log day = .ok ast)

include hfold

/-- The heal does not touch the chain above a node of the tree. -/
theorem depth_healed {x : ComponentConceptId} {n : Nat} (h : Depth (replayTo log day) x n)
    (hx : x ∈ ast.nodes) : Depth (healedLinks log ast edges day) x n := by
  have hlink : ∀ {y}, y ∈ ast.nodes →
      healedLinks log ast edges day y = replayTo log day y := fun hy =>
    healedLinks_present fun p hp => (mem_missingEdges.mp hp).2 hy
  induction h with
  | top hnone => exact .top ((hlink hx).trans hnone)
  | @under x p n hp hdepth ih =>
    have hparent : p ∈ ast.nodes := (mem_nodes_fold hfold).mpr ⟨⟨n, hdepth⟩, Or.inr ⟨x, hp⟩⟩
    exact .under ((hlink hx).trans hp) (ih hparent)

theorem healedLinks_node (edges : List (ComponentConceptId × ComponentConceptId))
    {x : ComponentConceptId} (hx : x ∈ ast.nodes) :
    healedLinks log ast edges day x = replayTo log day x ∧
      Grounded (healedLinks log ast edges day) x := by
  obtain ⟨⟨n, hn⟩, -⟩ := (mem_nodes_fold hfold).mp hx
  exact ⟨healedLinks_present fun p hp => (mem_missingEdges.mp hp).2 hx,
    n, depth_healed hfold hn hx⟩

variable {ast' : StructuralAst} (hfold' : foldMembershipAt log' day = .ok ast')
  (hlinks : replayTo log' day = healedLinks log ast edges day)

include hfold' hlinks

theorem edges_healed {edge : ComponentConceptId × ComponentConceptId} (h : edge ∈ ast.edges) :
    edge ∈ ast'.edges := by
  obtain ⟨p, c⟩ := edge
  obtain ⟨hp, hg⟩ := (mem_edges_fold hfold).mp h
  have hc : c ∈ ast.nodes := (mem_nodes_fold hfold).mpr ⟨hg, Or.inl (by simp [hp])⟩
  obtain ⟨hsame, hground⟩ := healedLinks_node hfold edges hc
  rw [mem_edges_fold hfold', hlinks]
  exact ⟨hsame.trans hp, hground⟩

theorem nodes_healed {x : ComponentConceptId} (h : x ∈ ast.nodes) : x ∈ ast'.nodes := by
  obtain ⟨hg, hlink⟩ := (mem_nodes_fold hfold).mp h
  obtain ⟨hsame, hground⟩ := healedLinks_node hfold edges h
  rw [mem_nodes_fold hfold', hlinks]
  refine ⟨hground, hlink.imp (fun hne => hsame ▸ hne) ?_⟩
  rintro ⟨c, hc⟩
  have hcn : c ∈ ast.nodes :=
    (mem_nodes_fold hfold).mpr ⟨(grounded_under hc).mpr hg, Or.inl (by simp [hc])⟩
  exact ⟨c, (healedLinks_node hfold edges hcn).1.trans hc⟩

end

/-! ## The theorem -/

/-- What the log must not hold for the heal to work. On the day of the heal it attaches no
missing child to another parent. With the expected links in place, the links up from a
missing child come to an end. And a missing child whose expected edge is detached on that
day is at least the parent of something. -/
structure HealSafe (log : VersionedMembershipLog) (ast : StructuralAst)
    (edges : List (ComponentConceptId × ComponentConceptId)) (day : Int) : Prop where
  noRival : ∀ p q c, (p, c) ∈ missingEdges ast edges → Records log.events .attach q c day → q = p
  grounded : ∀ p c, (p, c) ∈ missingEdges ast edges → Grounded (healedLinks log ast edges day) c
  kept : ∀ p c, (p, c) ∈ missingEdges ast edges → Records log.events .detach p c day →
    ∃ x, healedLinks log ast edges day x = some c

/-- When nothing of that day touches a missing child, and no pairs without a root are alive,
it is enough that the tree with the missing edges has no cycle. -/
theorem healSafe_of_quiet (hfold : foldMembershipAt log day = .ok ast)
    (hone : ∀ p q c, (p, c) ∈ edges → (q, c) ∈ edges → p = q)
    (hquiet : ∀ p c, (p, c) ∈ missingEdges ast edges → ∀ kind q, ¬ Records log.events kind q c day)
    (hlive : Acyclic (replayTo log day)) (hfree : CycleFree (ast.edges ++ missingEdges ast edges)) :
    HealSafe log ast edges day := by
  have hunion : ∀ p c, IsParent (healedLinks log ast edges day) p c →
      (p, c) ∈ ast.edges ++ missingEdges ast edges := by
    intro p c hp
    rw [List.mem_append]
    by_cases hmissing : ∃ q, (q, c) ∈ missingEdges ast edges
    · obtain ⟨q, hq⟩ := hmissing
      rw [IsParent, healedLinks_missing hone hq, if_neg (hquiet q c hq _ _)] at hp
      exact Or.inr (Option.some.inj hp ▸ hq)
    · rw [IsParent, healedLinks_present (not_exists.mp hmissing)] at hp
      exact Or.inl ((mem_edges_fold hfold).mpr ⟨hp, grounded_replayTo hlive c⟩)
  have hacyclic : Acyclic (healedLinks log ast edges day) := fun a ha =>
    hfree a (Relation.TransGen.mono hunion _ _ ha)
  refine ⟨fun p q c hp hq => absurd hq (hquiet p c hp _ _), fun p c hp => ?_,
    fun p c hp hdet => absurd hdet (hquiet p c hp _ _)⟩
  have hkeys : ∀ x, healedLinks log ast edges day x ≠ none →
      x ∈ (ast.edges ++ missingEdges ast edges).map (·.2) := by
    intro x hx
    obtain ⟨q, hq⟩ := Option.ne_none_iff_exists'.mp hx
    exact List.mem_map_of_mem (hunion q x hq)
  exact grounded_of_acyclic hkeys hacyclic c

/-- The heal works exactly when it is safe. -/
theorem heal_works_iff (hfold : foldMembershipAt log day = .ok ast)
    (hone : ∀ p q c, (p, c) ∈ edges → (q, c) ∈ edges → p = q)
    (hself : ∀ edge ∈ edges, edge.1 ≠ edge.2) {text : String} {report : HealReport}
    (hheal : healMissing log ast edges day text = (.ok report, log')) :
    (∃ ast', foldMembershipAt log' day = .ok ast' ∧ (∀ edge ∈ edges, edge.2 ∈ ast'.nodes) ∧
      (∀ edge ∈ ast.edges, edge ∈ ast'.edges) ∧
      (oracleDiff ast' (edges.map (·.2))).missing = 0) ↔ HealSafe log ast edges day := by
  obtain ⟨new, rfl, hnew⟩ := heal_ok hself hheal
  obtain ⟨hno, -⟩ := fold_ok_iff.mp hfold
  constructor
  · rintro ⟨ast', hfold', hnodes, -, -⟩
    obtain ⟨hno', -⟩ := fold_ok_iff.mp hfold'
    have hlinks := replayTo_healed hnew hone hno hno'
    have hmissing : ∀ p c, (p, c) ∈ missingEdges ast edges →
        Grounded (healedLinks log ast edges day) c ∧
          (healedLinks log ast edges day c ≠ none ∨
            ∃ x, healedLinks log ast edges day x = some c) := by
      intro p c hp
      rw [← hlinks, ← mem_nodes_fold hfold']
      exact hnodes (p, c) (mem_missingEdges.mp hp).1
    refine ⟨?_, fun p c hp => (hmissing p c hp).1, ?_⟩
    · intro p q c hp hq
      by_contra hne
      exact hno' ((conflict_healed_iff hnew hone hno).mpr ⟨p, q, c, hp, hq, hne⟩)
    · intro p c hp hdet
      refine (hmissing p c hp).2.resolve_left ?_
      rw [healedLinks_missing hone hp, if_pos hdet]
      simp
  · intro hsafe
    have hno' : ¬ Conflict (applicable ⟨log.events ++ new⟩ day) := by
      rw [conflict_healed_iff hnew hone hno]
      rintro ⟨p, q, c, hp, hq, hne⟩
      exact hne (hsafe.noRival p q c hp hq)
    have hfold' := fold_of_no_conflict hno'
    have hlinks := replayTo_healed hnew hone hno hno'
    have hnodes : ∀ edge ∈ edges,
        edge.2 ∈ (buildStructuralAst day (replayTable ⟨log.events ++ new⟩ day)).nodes := by
      rintro ⟨p, c⟩ hedge
      by_cases hc : c ∈ ast.nodes
      · exact nodes_healed hfold hfold' hlinks hc
      · have hp : (p, c) ∈ missingEdges ast edges := mem_missingEdges.mpr ⟨hedge, hc⟩
        rw [mem_nodes_fold hfold', hlinks]
        refine ⟨hsafe.grounded p c hp, ?_⟩
        by_cases hdet : Records log.events .detach p c day
        · exact Or.inr (hsafe.kept p c hp hdet)
        · left
          rw [healedLinks_missing hone hp, if_neg hdet]
          simp
    refine ⟨_, hfold', hnodes, fun edge => edges_healed hfold hfold' hlinks, ?_⟩
    rw [oracleDiff_missing_eq_zero]
    intro c hc
    obtain ⟨edge, hedge, rfl⟩ := List.mem_map.mp hc
    exact hnodes edge hedge

end

/-! ### An article that its chapter lacks -/

namespace Sample

def gap : VersionedMembershipLog := ⟨[attachOn 1 statute chapter statute_ne_chapter]⟩

/-- The article left its chapter on the second day. -/
def left : VersionedMembershipLog :=
  ⟨[attachOn 1 statute chapter statute_ne_chapter, attachOn 1 chapter article chapter_ne_article,
    ⟨.detach, chapter, article, 2, act, chapter_ne_article⟩]⟩

/-- The tree of either log on the second day. -/
def gapAst : StructuralAst := ⟨2, [.node statute [.node chapter []]], foldNonClaims⟩

/-- The event that the heal appends. -/
def healed (log : VersionedMembershipLog) : VersionedMembershipLog :=
  ⟨log.events ++ [attachOn 2 chapter article chapter_ne_article]⟩

def expected : List (ComponentConceptId × ComponentConceptId) := [(chapter, article)]

theorem expected_oneEach (p q c : ComponentConceptId) (hp : (p, c) ∈ expected)
    (hq : (q, c) ∈ expected) : p = q := by
  simp only [expected, List.mem_singleton, Prod.mk.injEq] at hp hq
  exact hp.1.trans hq.1.symm

end Sample

theorem heal_works_gap :
    (∃ ast', foldMembershipAt (Sample.healed Sample.gap) 2 = .ok ast' ∧
      (∀ edge ∈ Sample.expected, edge.2 ∈ ast'.nodes) ∧
      (∀ edge ∈ Sample.gapAst.edges, edge ∈ ast'.edges) ∧
      (oracleDiff ast' (Sample.expected.map (·.2))).missing = 0) ↔
    HealSafe Sample.gap Sample.gapAst Sample.expected 2 :=
  have hheal : healMissing Sample.gap Sample.gapAst Sample.expected 2 "act:1" =
      (.ok ⟨1⟩, Sample.healed Sample.gap) := rfl
  heal_works_iff rfl Sample.expected_oneEach (by decide) hheal

/-- The heal of the article is undone by the detach of the same day. -/
theorem heal_undone :
    ¬ ∀ log day ast edges text report log', foldMembershipAt log day = .ok ast →
      (∀ p q c, (p, c) ∈ edges → (q, c) ∈ edges → p = q) → (∀ edge ∈ edges, edge.1 ≠ edge.2) →
      CycleFree edges → CycleFree (ast.edges ++ missingEdges ast edges) →
      healMissing log ast edges day text = (.ok report, log') →
      ∃ ast', foldMembershipAt log' day = .ok ast' ∧ (∀ edge ∈ edges, edge.2 ∈ ast'.nodes) ∧
        (∀ edge ∈ ast.edges, edge ∈ ast'.edges) ∧
        (oracleDiff ast' (edges.map (·.2))).missing = 0 := by
  intro hall
  let rank : ComponentConceptId → Nat := fun c =>
    if c = Sample.statute then 0 else if c = Sample.chapter then 1 else 2
  obtain ⟨ast', hfold, hnodes, -, -⟩ := hall Sample.left 2 Sample.gapAst Sample.expected "act:1"
    ⟨1⟩ (Sample.healed Sample.left) rfl Sample.expected_oneEach (by decide)
    (cycleFree_of_rank rank (by decide)) (cycleFree_of_rank rank (by decide)) rfl
  obtain rfl : Sample.gapAst = ast' := Except.ok.inj hfold
  exact absurd (hnodes (Sample.chapter, Sample.article) (by decide)) (by decide)

end LawNexus
