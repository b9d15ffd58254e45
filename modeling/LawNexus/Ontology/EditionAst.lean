import LawNexus.Forest.Prune
import LawNexus.Latest
import LawNexus.Membership.Ast
import LawNexus.Ontology.Hierarchy

/-!
# The tree of one edition

`edition_ast_at` of `ln-kb-ontology/src/domain.rs`: the fold of the membership log, cut down to
the components that the presence log has in the edition on that day.
-/

namespace LawNexus

open Forest Loops Latest

abbrev ExpressionId := CheckedId "expression id"

/-! ## Presence events -/

/-- `vocabulary.presence_change_kinds` of `kb-ontology.yaml`. -/
def presenceChangeKinds : List String := ["include", "exclude"]

/-- `vocabulary.presence_fold_ops` of `kb-ontology.yaml`. -/
def presenceFoldOps : List (String × String) := [("include", "add"), ("exclude", "remove")]

def presenceFoldOp (kind : String) : Option String :=
  (presenceFoldOps.find? fun entry => entry.1 = kind).map (·.2)

structure ComponentInExpressionEvent where
  kind : String
  expressionId : ExpressionId
  component : ComponentConceptId
  effectDay : Int
  provenance : String
  known : kind ∈ presenceChangeKinds
  proved : provenance.isEmpty = false
deriving Repr

def ComponentInExpressionEvent.tryNew (kind : String) (expressionId : ExpressionId)
    (component : ComponentConceptId) (effectDay : Int) (provenance : String) :
    Except WriteSetError ComponentInExpressionEvent :=
  if hkind : kind ∈ presenceChangeKinds then
    if expressionId.asStr.isEmpty ∨ component.asStr.isEmpty then .error .missingIdentity
    else if hproved : provenance.isEmpty = false then
      .ok ⟨kind, expressionId, component, effectDay, provenance, hkind, hproved⟩
    else .error .missingProvenance
  else .error .unknownPresenceKind

structure ComponentInExpressionLog where
  events : List ComponentInExpressionEvent

def ComponentInExpressionLog.append (log : ComponentInExpressionLog)
    (event : ComponentInExpressionEvent) : Except WriteSetError ComponentInExpressionLog :=
  .ok ⟨log.events ++ [event]⟩

/-! ## The fold of one expression -/

structure ExpressionPresenceSet where
  expressionId : String
  asOfDay : Int
  components : List ComponentConceptId

/-- The order of the fold: the days in turn, and on one day "exclude" before "include". -/
def ComponentInExpressionEvent.sortKey (e : ComponentInExpressionEvent) :
    Int ×ₗ String ×ₗ ComponentConceptId :=
  toLex (e.effectDay, toLex (e.kind, e.component))

/-- The events of the expression up to a day. -/
def ComponentInExpressionLog.history (log : ComponentInExpressionLog) (expression : ExpressionId)
    (asOfDay : Int) : List ComponentInExpressionEvent :=
  log.events.filter fun e => e.expressionId.asStr = expression.asStr ∧ e.effectDay ≤ asOfDay

/-- The scan of one day: each component and the first kind seen for it. -/
def scanDay (seen : List (ComponentConceptId × String)) :
    List ComponentInExpressionEvent → Except WriteSetError Unit
  | [] => .ok ()
  | ev :: rest =>
    match seen.find? fun entry => entry.1 = ev.component with
    | some (_, prior) => if prior ≠ ev.kind then .error .presenceConflict else scanDay seen rest
    | none => scanDay (seen ++ [(ev.component, ev.kind)]) rest

def presenceStep (present : List ComponentConceptId) (ev : ComponentInExpressionEvent) :
    Except WriteSetError (List ComponentConceptId) :=
  match presenceFoldOp ev.kind with
  | some "add" => .ok (pushNew present ev.component)
  | some "remove" => .ok (present.filter fun c => c ≠ ev.component)
  | _ => .error .unknownPresenceKind

/-- The outer loop: one day after the other, until a day has a conflict. -/
def foldPresenceDays (present : List ComponentConceptId) :
    List (List ComponentInExpressionEvent) → Except WriteSetError (List ComponentConceptId)
  | [] => .ok present
  | slice :: rest => do
    scanDay [] slice
    let present ← slice.foldlM presenceStep present
    foldPresenceDays present rest

def foldExpressionPresence (log : ComponentInExpressionLog) (expression : ExpressionId)
    (asOfDay : Int) : Except WriteSetError ExpressionPresenceSet := do
  let applicable := sortBy (·.sortKey) (log.history expression asOfDay)
  let present ← foldPresenceDays [] (runs (·.effectDay) applicable)
  return ⟨expression.asStr, asOfDay, sortBy (·.asStr) present⟩

/-! ## The tree of the edition -/

/-- `filter_node` is the pruning of a tree by the present components. -/
def StructuralAst.filterToComponents (ast : StructuralAst) (present : List ComponentConceptId) :
    StructuralAst where
  asOfDay := ast.asOfDay
  roots := RoseTree.pruneAll (fun c => present.contains c) ast.roots
  nonClaims := ast.nonClaims

def filterAstToExpression (ast : StructuralAst) (presence : ExpressionPresenceSet) :
    Except WriteSetError StructuralAst :=
  .ok (ast.filterToComponents presence.components)

def editionAstAt (membershipLog : VersionedMembershipLog) (presenceLog : ComponentInExpressionLog)
    (expression : ExpressionId) (asOfDay : Int) : Except WriteSetError StructuralAst := do
  let composition ← (foldMembershipAt membershipLog asOfDay).mapError fun _ => .missingIdentity
  let presence ← foldExpressionPresence presenceLog expression asOfDay
  filterAstToExpression composition presence

/-! ## What the fold returns -/

/-- One component is both included and excluded on one day. -/
def PresenceClash (events : List ComponentInExpressionEvent) : Prop :=
  ∃ a ∈ events, ∃ b ∈ events,
    a.component = b.component ∧ a.effectDay = b.effectDay ∧ a.kind ≠ b.kind

/-- The days and kinds of the events of one component. -/
def kindsOf (events : List ComponentInExpressionEvent) (c : ComponentConceptId) :
    List (Int × String) :=
  (events.filter fun e => e.component = c).map fun e => (e.effectDay, e.kind)

/-- The latest event of the component is an include. -/
def PresentIn (events : List ComponentInExpressionEvent) (c : ComponentConceptId) : Prop :=
  IsLatest (kindsOf events c) "include"

section

variable {events other : List ComponentInExpressionEvent}

theorem presenceClash_congr (h : ∀ e, e ∈ events ↔ e ∈ other) :
    PresenceClash events ↔ PresenceClash other := by
  simp only [PresenceClash, h]

theorem mem_kindsOf {c : ComponentConceptId} {r : Int × String} : r ∈ kindsOf events c ↔
    ∃ e ∈ events, e.component = c ∧ (e.effectDay, e.kind) = r := by
  simp only [kindsOf, List.mem_map, List.mem_filter, decide_eq_true_eq, and_assoc]

theorem presentIn_congr (h : ∀ e, e ∈ events ↔ e ∈ other) {c : ComponentConceptId} :
    PresentIn events c ↔ PresentIn other c := by
  simp only [PresentIn, IsLatest, mem_kindsOf, h]

/-! ### One day -/

/-- Each component has one kind here. -/
def OneKind (events : List ComponentInExpressionEvent) : Prop :=
  ∀ a ∈ events, ∀ b ∈ events, a.component = b.component → a.kind = b.kind

theorem oneKind_cons {ev : ComponentInExpressionEvent} : OneKind (ev :: events) ↔
    (∀ b ∈ events, ev.component = b.component → ev.kind = b.kind) ∧ OneKind events := by
  constructor
  · intro h
    exact ⟨fun b hb => h ev List.mem_cons_self b (List.mem_cons_of_mem _ hb),
      fun a ha b hb => h a (List.mem_cons_of_mem _ ha) b (List.mem_cons_of_mem _ hb)⟩
  · rintro ⟨hhead, hrest⟩ a ha b hb hcomp
    rcases List.mem_cons.mp ha with rfl | ha'
    · rcases List.mem_cons.mp hb with rfl | hb'
      · rfl
      · exact hhead b hb' hcomp
    · rcases List.mem_cons.mp hb with rfl | hb'
      · exact (hhead a ha' hcomp.symm).symm
      · exact hrest a ha' b hb' hcomp

/-- The kind that the scan has seen for a component, where it has seen one. -/
def seenKind (seen : List (ComponentConceptId × String)) (c : ComponentConceptId) :
    Option String :=
  (seen.find? fun entry => entry.1 = c).map (·.2)

theorem seenKind_concat {seen : List (ComponentConceptId × String)} {c : ComponentConceptId}
    {kind : String} (h : seenKind seen c = none) (d : ComponentConceptId) :
    seenKind (seen ++ [(c, kind)]) d = if c = d then some kind else seenKind seen d := by
  unfold seenKind at *
  rw [List.find?_append, List.find?_cons, List.find?_nil]
  by_cases hcd : c = d
  · subst hcd
    rw [Option.map_eq_none_iff.mp h]
    simp
  · simp [hcd]

theorem scanDay_cons (seen : List (ComponentConceptId × String)) (ev : ComponentInExpressionEvent)
    (rest : List ComponentInExpressionEvent) : scanDay seen (ev :: rest) =
      match seenKind seen ev.component with
      | some prior => if prior ≠ ev.kind then .error .presenceConflict else scanDay seen rest
      | none => scanDay (seen ++ [(ev.component, ev.kind)]) rest := by
  rw [scanDay, seenKind]
  cases seen.find? fun entry => entry.1 = ev.component <;> rfl

theorem scanDay_ok_iff {seen : List (ComponentConceptId × String)} : scanDay seen events = .ok () ↔
    OneKind events ∧ ∀ a ∈ events, ∀ kind ∈ seenKind seen a.component, kind = a.kind := by
  induction events generalizing seen with
  | nil => simp [scanDay, OneKind]
  | cons ev rest ih =>
    rw [scanDay_cons, oneKind_cons, List.forall_mem_cons]
    cases hseen : seenKind seen ev.component with
    | some prior =>
      by_cases hprior : prior = ev.kind
      · have hhead : (∀ a ∈ rest, ∀ kind ∈ seenKind seen a.component, kind = a.kind) →
            ∀ b ∈ rest, ev.component = b.component → ev.kind = b.kind := by
          intro hrest b hb hcomp
          exact hprior.symm.trans (hrest b hb prior (hcomp ▸ hseen))
        simp only [hprior, ne_eq, not_true_eq_false, if_false, ih, Option.mem_def,
          Option.some.injEq, forall_eq', true_and]
        exact ⟨fun h => ⟨⟨hhead h.2, h.1⟩, h.2⟩, fun h => ⟨h.1.2, h.2⟩⟩
      · simp [hprior]
    | none =>
      simp only [ih, seenKind_concat hseen, Option.mem_def, reduceCtorEq, false_implies,
        implies_true, true_and]
      constructor
      · rintro ⟨hrest, hkinds⟩
        refine ⟨⟨fun b hb hcomp => hkinds b hb _ (if_pos hcomp), hrest⟩, fun a ha kind hkind => ?_⟩
        refine hkinds a ha kind (if_neg ?_ ▸ hkind)
        rintro heq
        rw [← heq, hseen] at hkind
        cases hkind
      · rintro ⟨⟨hhead, hrest⟩, hkinds⟩
        refine ⟨hrest, fun a ha kind hkind => ?_⟩
        by_cases hcomp : ev.component = a.component
        · rw [if_pos hcomp] at hkind
          exact Option.some.inj hkind ▸ hhead a ha hcomp
        · rw [if_neg hcomp] at hkind
          exact hkinds a ha kind hkind

theorem scanDay_error {seen : List (ComponentConceptId × String)} {e : WriteSetError}
    (h : scanDay seen events = .error e) : e = .presenceConflict := by
  induction events generalizing seen with
  | nil => cases h
  | cons ev rest ih =>
    rw [scanDay_cons] at h
    cases hseen : seenKind seen ev.component with
    | some prior =>
      simp only [hseen] at h
      by_cases hprior : prior = ev.kind
      · exact ih (by simpa [hprior] using h)
      · simpa [hprior] using h.symm
    | none =>
      simp only [hseen] at h
      exact ih h

/-! ### All days -/

/-- The step with the two kinds told apart. -/
def stepPresent (present : List ComponentConceptId) (ev : ComponentInExpressionEvent) :
    List ComponentConceptId :=
  if ev.kind = "include" then pushNew present ev.component
  else present.filter fun c => c ≠ ev.component

theorem presenceStep_ok (present : List ComponentConceptId) (ev : ComponentInExpressionEvent) :
    presenceStep present ev = .ok (stepPresent present ev) := by
  have hknown := ev.known
  simp only [presenceChangeKinds, List.mem_cons, List.not_mem_nil, or_false] at hknown
  rcases hknown with h | h
  · simp [presenceStep, stepPresent, presenceFoldOp, presenceFoldOps, h]
  · simp [presenceStep, stepPresent, presenceFoldOp, presenceFoldOps, h]

theorem foldlM_presenceStep (present : List ComponentConceptId) :
    events.foldlM presenceStep present = .ok (events.foldl stepPresent present) := by
  induction events generalizing present with
  | nil => rfl
  | cons ev rest ih => rw [List.foldlM_cons, presenceStep_ok, ok_bind, ih, List.foldl_cons]

theorem foldPresenceDays_ok {slices : List (List ComponentInExpressionEvent)}
    (h : ∀ slice ∈ slices, OneKind slice) (present : List ComponentConceptId) :
    foldPresenceDays present slices = .ok (slices.flatten.foldl stepPresent present) := by
  induction slices generalizing present with
  | nil => rfl
  | cons slice rest ih =>
    rw [List.forall_mem_cons] at h
    have hscan : scanDay [] slice = .ok () := scanDay_ok_iff.mpr ⟨h.1, by simp [seenKind]⟩
    rw [foldPresenceDays, hscan, ok_bind, foldlM_presenceStep, ok_bind, ih h.2, List.flatten_cons,
      List.foldl_append]

theorem foldPresenceDays_clash {slices : List (List ComponentInExpressionEvent)}
    (h : ¬ ∀ slice ∈ slices, OneKind slice) (present : List ComponentConceptId) :
    foldPresenceDays present slices = .error .presenceConflict := by
  induction slices generalizing present with
  | nil => exact absurd (by simp) h
  | cons slice rest ih =>
    rw [foldPresenceDays]
    cases hscan : scanDay [] slice with
    | error e => rw [error_bind, scanDay_error hscan]
    | ok =>
      rw [ok_bind, foldlM_presenceStep, ok_bind]
      refine ih (fun hrest => h ?_) _
      exact List.forall_mem_cons.mpr ⟨(scanDay_ok_iff.mp hscan).1, hrest⟩

/-- A clash is a clash within one run of the sorted events. -/
theorem oneKind_runs_iff {l : List ComponentInExpressionEvent}
    (hsorted : l.Pairwise fun a b => a.effectDay ≤ b.effectDay) :
    (∀ slice ∈ runs (·.effectDay) l, OneKind slice) ↔ ¬ PresenceClash l := by
  constructor
  · rintro h ⟨a, ha, b, hb, hcomp, hday, hkind⟩
    obtain ⟨run, hrun, ha', hb'⟩ := exists_run (·.effectDay) hsorted ha hb hday
    exact hkind (h run hrun a ha' b hb' hcomp)
  · intro h slice hslice a ha b hb hcomp
    by_contra hkind
    have hmem : ∀ {e}, e ∈ slice → e ∈ l := fun {e} he => by
      rw [← flatten_runs (·.effectDay) l]
      exact List.mem_flatten.mpr ⟨slice, hslice, he⟩
    exact h ⟨a, hmem ha, b, hmem hb, hcomp, key_eq_of_mem_run hslice ha hb, hkind⟩

/-! ### The latest event -/

theorem nodup_foldl_stepPresent {present : List ComponentConceptId} (h : present.Nodup) :
    (events.foldl stepPresent present).Nodup := by
  induction events generalizing present with
  | nil => exact h
  | cons ev rest ih =>
    refine ih ?_
    unfold stepPresent
    split_ifs
    · exact nodup_pushNew h ev.component
    · exact h.filter _

/-- A component is present when its last event in the order of the fold is an include. -/
theorem mem_foldl_stepPresent {c : ComponentConceptId} : c ∈ events.foldl stepPresent [] ↔
    ∃ e, (events.filter fun e => e.component = c).getLast? = some e ∧ e.kind = "include" := by
  induction events using List.reverseRecOn with
  | nil => simp
  | append_singleton events ev ih =>
    rw [List.foldl_append, List.foldl_cons, List.foldl_nil, List.filter_append]
    by_cases hc : ev.component = c
    · subst hc
      by_cases hkind : ev.kind = "include"
      · simp [stepPresent, hkind, mem_pushNew]
      · simp [stepPresent, hkind]
    · have hc' : c ≠ ev.component := Ne.symm hc
      by_cases hkind : ev.kind = "include"
      · simp [stepPresent, hkind, mem_pushNew, ih, hc, hc']
      · simp [stepPresent, hkind, ih, hc, hc']

/-- Without a clash, the last event of a component is its latest. -/
theorem presentIn_iff_last (hsorted : events.Pairwise fun a b => a.effectDay ≤ b.effectDay)
    (hno : ¬ PresenceClash events) {c : ComponentConceptId} : PresentIn events c ↔
      ∃ e, (events.filter fun e => e.component = c).getLast? = some e ∧ e.kind = "include" := by
  have hmine : ∀ e, e ∈ events.filter (fun e => e.component = c) ↔
      e ∈ events ∧ e.component = c := by
    simp
  have hsorted' := hsorted.filter fun e => e.component = c
  rw [PresentIn, kindsOf]
  generalize events.filter (fun e => decide (e.component = c)) = mine at hmine hsorted'
  rcases List.eq_nil_or_concat mine with rfl | ⟨front, last, rfl⟩
  · simp [IsLatest]
  · have hlast := (hmine last).mp (by simp)
    have hmax : ∀ r ∈ (front.concat last).map (fun e => (e.effectDay, e.kind)),
        r.1 ≤ last.effectDay := by
      intro r hr
      obtain ⟨e, he, rfl⟩ := List.mem_map.mp hr
      rw [List.concat_eq_append, List.pairwise_append] at hsorted'
      rw [List.concat_eq_append, List.mem_append, List.mem_singleton] at he
      rcases he with he | rfl
      · exact hsorted'.2.2 e he last (List.mem_singleton_self last)
      · exact le_refl _
    rw [isLatest_iff (v := last.kind) (List.mem_map.mpr ⟨last, by simp, rfl⟩) hmax]
    simp only [List.concat_eq_append, List.getLast?_append, List.getLast?_singleton, Option.some_or,
      Option.some.injEq, exists_eq_left']
    constructor
    · intro hmem
      obtain ⟨e, he, heq⟩ := List.mem_map.mp hmem
      obtain ⟨hday, hkind⟩ := Prod.mk.inj heq
      have hmine' := (hmine e).mp (by rwa [List.concat_eq_append])
      by_contra hother
      exact hno ⟨e, hmine'.1, last, hlast.1, hmine'.2.trans hlast.2.symm, hday,
        fun h => hother (h ▸ hkind)⟩
    · intro hkind
      exact List.mem_map.mpr ⟨last, by simp, by rw [hkind]⟩

end

/-! ### The whole fold -/

section

variable {log log' : ComponentInExpressionLog} {expression : ExpressionId} {day : Int}

/-- The events in the order of the fold. -/
def ordered (log : ComponentInExpressionLog) (expression : ExpressionId) (day : Int) :
    List ComponentInExpressionEvent :=
  sortBy (·.sortKey) (log.history expression day)

theorem mem_ordered {e : ComponentInExpressionEvent} :
    e ∈ ordered log expression day ↔ e ∈ log.history expression day := mem_sortBy

theorem pairwise_ordered :
    (ordered log expression day).Pairwise fun a b => a.effectDay ≤ b.effectDay :=
  (pairwise_sortBy (·.sortKey) (log.history expression day)).imp fun {a b} h =>
    (Prod.Lex.toLex_le_toLex'.mp (h : a.sortKey ≤ b.sortKey)).1

theorem foldExpressionPresence_clash (h : PresenceClash (log.history expression day)) :
    foldExpressionPresence log expression day = .error .presenceConflict := by
  have hclash := (presenceClash_congr fun _ => @mem_ordered log expression day _).mpr h
  have hruns := mt (oneKind_runs_iff pairwise_ordered).mp (not_not_intro hclash)
  rw [foldExpressionPresence]
  exact congrArg (· >>= _) (foldPresenceDays_clash hruns [])

/-- The set of a log without a clash. -/
theorem foldExpressionPresence_ok (h : ¬ PresenceClash (log.history expression day)) :
    foldExpressionPresence log expression day = .ok ⟨expression.asStr, day,
      sortBy (·.asStr) ((ordered log expression day).foldl stepPresent [])⟩ := by
  have hclash := mt (presenceClash_congr fun _ => @mem_ordered log expression day _).mp h
  have hfold := foldPresenceDays_ok ((oneKind_runs_iff pairwise_ordered).mpr hclash) []
  rw [flatten_runs] at hfold
  rw [foldExpressionPresence]
  exact congrArg (· >>= _) hfold

theorem mem_present_iff (h : ¬ PresenceClash (log.history expression day))
    {c : ComponentConceptId} : c ∈ (ordered log expression day).foldl stepPresent [] ↔
      PresentIn (log.history expression day) c := by
  have hclash := mt (presenceClash_congr fun _ => @mem_ordered log expression day _).mp h
  rw [mem_foldl_stepPresent, ← presentIn_iff_last pairwise_ordered hclash]
  exact presentIn_congr fun e => mem_ordered

/-- The fold sees the history of the expression up to the day, and no order in it. -/
theorem foldExpressionPresence_congr
    (h : ∀ e, e ∈ log'.history expression day ↔ e ∈ log.history expression day) :
    foldExpressionPresence log' expression day = foldExpressionPresence log expression day := by
  by_cases hclash : PresenceClash (log.history expression day)
  · rw [foldExpressionPresence_clash hclash,
      foldExpressionPresence_clash ((presenceClash_congr h).mpr hclash)]
  · have hclash' := mt (presenceClash_congr h).mp hclash
    rw [foldExpressionPresence_ok hclash, foldExpressionPresence_ok hclash']
    congr 2
    refine sortBy_eq_of_perm ComponentConceptId.asStr_injective.injOn ?_
    rw [List.perm_ext_iff_of_nodup (nodup_foldl_stepPresent .nil) (nodup_foldl_stepPresent .nil)]
    intro c
    rw [mem_present_iff hclash, mem_present_iff hclash', presentIn_congr h]

end

/-! ## The theorem -/

section

variable {membershipLog : VersionedMembershipLog} {presenceLog : ComponentInExpressionLog}
  {expression : ExpressionId} {day : Int} {ast : StructuralAst}

/-- The component is present in the edition, or something below it in the composition is. -/
def InEdition (composition : StructuralAst) (presenceLog : ComponentInExpressionLog)
    (expression : ExpressionId) (day : Int) (x : ComponentConceptId) : Prop :=
  ∃ y, RoseTree.Below composition.edges x y ∧ PresentIn (presenceLog.history expression day) y

/-- What a successful call has folded. -/
theorem editionAstAt_ok (h : editionAstAt membershipLog presenceLog expression day = .ok ast) :
    ∃ composition, foldMembershipAt membershipLog day = .ok composition ∧
      ¬ PresenceClash (presenceLog.history expression day) ∧
      ast = composition.filterToComponents
        (sortBy (·.asStr) ((ordered presenceLog expression day).foldl stepPresent [])) := by
  unfold editionAstAt at h
  obtain ⟨composition, hfold, h⟩ := bind_eq_ok_iff.mp h
  rw [mapError_eq_ok_iff] at hfold
  by_cases hclash : PresenceClash (presenceLog.history expression day)
  · rw [foldExpressionPresence_clash hclash, error_bind] at h
    cases h
  · rw [foldExpressionPresence_ok hclash, ok_bind] at h
    exact ⟨composition, hfold, hclash, (Except.ok.inj h).symm⟩

theorem kept_iff_inEdition (hclash : ¬ PresenceClash (presenceLog.history expression day))
    {composition : StructuralAst} {x : ComponentConceptId} :
    RoseTree.Kept (fun c => (sortBy (·.asStr)
      ((ordered presenceLog expression day).foldl stepPresent [])).contains c)
      composition.roots x ↔ InEdition composition presenceLog expression day x := by
  refine exists_congr fun y => and_congr_right fun _ => ?_
  rw [List.contains_iff_mem, mem_sortBy, mem_present_iff hclash]

open scoped Classical in
/-- The tree of an edition is the composition without the components that neither are present nor
have something present below them, and only the history of the edition decides which these are. -/
theorem edition_ast_exact
    (h : editionAstAt membershipLog presenceLog expression day = .ok ast) :
    (∃ composition, foldMembershipAt membershipLog day = .ok composition ∧
      ast.nodes = composition.nodes.filter (InEdition composition presenceLog expression day) ∧
      ast.edges = composition.edges.filter
        (fun edge => InEdition composition presenceLog expression day edge.2) ∧
      ast.roots.map RoseTree.label = (composition.roots.map RoseTree.label).filter
        (InEdition composition presenceLog expression day)) ∧
    ∀ other : ComponentInExpressionLog,
      (other.history expression day).Perm (presenceLog.history expression day) →
      editionAstAt membershipLog other expression day = .ok ast := by
  constructor
  · obtain ⟨composition, hfold, hclash, rfl⟩ := editionAstAt_ok h
    have hnd : (RoseTree.nodesOf composition.roots).Nodup := nodup_nodes_fold hfold
    have hkept := fun x => @kept_iff_inEdition presenceLog expression day hclash composition x
    refine ⟨composition, hfold, ?_, ?_, ?_⟩
    · refine (RoseTree.nodesOf_pruneAll_eq_filter hnd).trans ?_
      simp only [hkept]
      rfl
    · refine (RoseTree.edges_pruneAll_eq_filter hnd).trans ?_
      simp only [hkept]
      rfl
    · refine (RoseTree.roots_pruneAll_eq_filter hnd).trans ?_
      simp only [hkept]
  · intro other hperm
    rw [← h, editionAstAt, editionAstAt, foldExpressionPresence_congr fun e => hperm.mem_iff]

end

/-! ### Two editions of one statute -/

namespace Sample

def firstEdition : ExpressionId := ⟨"edition:1", rfl⟩
def secondEdition : ExpressionId := ⟨"edition:2", rfl⟩

def includeArticle : ComponentInExpressionEvent :=
  ⟨"include", firstEdition, article, 1, "act:1", by decide, rfl⟩

def excludeArticle : ComponentInExpressionEvent :=
  ⟨"exclude", secondEdition, article, 2, "act:2", by decide, rfl⟩

def presence : ComponentInExpressionLog := ⟨[excludeArticle, includeArticle]⟩

/-- The second edition has no event that includes the article. -/
example : (editionAstAt chain presence firstEdition 2).toOption.map (·.nodes) =
    some [statute, chapter, article] ∧
      (editionAstAt chain presence secondEdition 2).toOption.map (·.nodes) = some [] := by decide

end Sample

open scoped Classical in
theorem edition_ast_exact_chain : ∃ ast,
    editionAstAt Sample.chain Sample.presence Sample.firstEdition 2 = .ok ast ∧
    (∃ composition, foldMembershipAt Sample.chain 2 = .ok composition ∧
      ast.nodes = composition.nodes.filter
        (InEdition composition Sample.presence Sample.firstEdition 2) ∧
      ast.edges = composition.edges.filter
        (fun edge => InEdition composition Sample.presence Sample.firstEdition 2 edge.2) ∧
      ast.roots.map RoseTree.label = (composition.roots.map RoseTree.label).filter
        (InEdition composition Sample.presence Sample.firstEdition 2)) ∧
    ∀ other : ComponentInExpressionLog, (other.history Sample.firstEdition 2).Perm
        (Sample.presence.history Sample.firstEdition 2) →
      editionAstAt Sample.chain other Sample.firstEdition 2 = .ok ast := by
  have hsome : (editionAstAt Sample.chain Sample.presence Sample.firstEdition 2).toOption.isSome :=
    by decide
  cases h : editionAstAt Sample.chain Sample.presence Sample.firstEdition 2 with
  | error e => simp [h, Except.toOption] at hsome
  | ok ast => exact ⟨ast, rfl, edition_ast_exact h⟩

end LawNexus
