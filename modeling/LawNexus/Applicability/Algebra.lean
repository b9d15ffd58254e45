import LawNexus.Applicability.NormRule
import LawNexus.Loops
import Mathlib.Tactic.ByContra

/-!
# The algebra and the order of its lists

The composition reads every list up to the order; only what a fact set says of an id that it
asserts both ways is decided by the pair that comes first.
-/

namespace LawNexus.Applicability

open Loops

/-! ## The verdict of a reading -/

def wanted (condition : NormRuleCondition) : Bool := condition.kind ≠ "fact_forbidden"

section

variable (read : String → Option Bool) (rule : NormRule)

def Unanswered : Prop := ∃ c ∈ rule.conditions, read c.id = none

def Defeated : Prop := ∃ d ∈ rule.defeaters, read d.id = some true

/-- All conditions are satisfied, or an exception carves the others out. -/
def Met : Prop :=
  (∀ c ∈ rule.conditions, read c.id = some (wanted c)) ∨
    ∃ e ∈ rule.exceptions, read e.id = some true

instance : Decidable (Unanswered read rule) :=
  inferInstanceAs (Decidable (∃ c ∈ rule.conditions, read c.id = none))

instance : Decidable (Defeated read rule) :=
  inferInstanceAs (Decidable (∃ d ∈ rule.defeaters, read d.id = some true))

instance : Decidable (Met read rule) :=
  inferInstanceAs (Decidable ((∀ c ∈ rule.conditions, read c.id = some (wanted c)) ∨
    ∃ e ∈ rule.exceptions, read e.id = some true))

/-- The outcome by what is read of each id, without an order of conditions, exceptions or
defeaters. -/
def verdict : PredicateOutcome :=
  if Unanswered read rule then .abstain .missingOrAmbiguousFacts
  else if Defeated read rule then .unsatisfied
  else if Met read rule then .satisfied
  else .unsatisfied

end

section

variable {read : String → Option Bool} {rule : NormRule}

theorem verdict_unanswered (h : Unanswered read rule) :
    verdict read rule = .abstain .missingOrAmbiguousFacts := if_pos h

theorem verdict_defeated (h : ¬ Unanswered read rule) (hdefeated : Defeated read rule) :
    verdict read rule = .unsatisfied := (if_neg h).trans (if_pos hdefeated)

theorem verdict_met (h : ¬ Unanswered read rule) (hdefeated : ¬ Defeated read rule)
    (hmet : Met read rule) : verdict read rule = .satisfied :=
  (if_neg h).trans ((if_neg hdefeated).trans (if_pos hmet))

theorem verdict_unmet (h : ¬ Unanswered read rule) (hmet : ¬ Met read rule) :
    verdict read rule = .unsatisfied := by
  rw [verdict, if_neg h, if_neg hmet, ite_self]

end

section

variable {facts : CaseFactSet}

theorem evaluateCondition_eq (condition : NormRuleCondition) :
    evaluateCondition facts condition = evaluateFact facts (wanted condition) condition.id := by
  have hclosed : condition.kind = "fact_required" ∨ condition.kind = "fact_forbidden" ∨
      condition.kind = "status_required" := by
    simpa [CLOSED_CONDITION_KINDS] using condition.closed
  rcases hclosed with h | h | h <;> simp [evaluateCondition, wanted, h]

theorem evaluateFact_eq (value : Bool) (id : String) : evaluateFact facts value id =
    match facts.get id with
    | some read => if read = value then .satisfied else .unsatisfied
    | none => .abstain .missingOrAmbiguousFacts := by
  unfold evaluateFact lookupBool
  cases facts.get id <;> rfl

theorem evaluateExplicit_eq (id : String) : evaluateExplicit facts id =
    if facts.get id = some true then .satisfied else .unsatisfied := by
  unfold evaluateExplicit
  cases facts.get id with
  | none => rfl
  | some read => cases read <;> rfl

/-- The loop over the conditions abstains at the first id that is missing. -/
theorem conditionsLoop_spec (outcome : PredicateOutcome) (steps : List PredicateStep)
    (conditions : List NormRuleCondition) :
    if ∃ c ∈ conditions, facts.get c.id = none then
      ∃ steps', conditionsLoop facts outcome steps conditions =
        .error ⟨.abstain .missingOrAmbiguousFacts, steps'⟩
    else ∃ steps', conditionsLoop facts outcome steps conditions =
      .ok (if ∀ c ∈ conditions, facts.get c.id = some (wanted c) then outcome else .unsatisfied,
        steps') := by
  induction conditions generalizing outcome steps with
  | nil => simp [conditionsLoop]
  | cons c rest ih =>
    rw [conditionsLoop, evaluateCondition_eq, evaluateFact_eq]
    cases hread : facts.get c.id with
    | none => simp [hread]
    | some read =>
      dsimp only
      by_cases hwanted : read = wanted c
      · simpa [hread, hwanted] using ih outcome _
      · simpa [hread, hwanted] using ih .unsatisfied _

theorem exceptionsLoop_spec (carved : Bool) (steps : List PredicateStep)
    (exceptions : List Exception) : ∃ steps', exceptionsLoop facts carved steps exceptions =
      .ok (carved || decide (∃ e ∈ exceptions, facts.get e.id = some true), steps') := by
  induction exceptions generalizing carved steps with
  | nil => simp [exceptionsLoop]
  | cons e rest ih =>
    rw [exceptionsLoop, evaluateException, evaluateExplicit_eq]
    by_cases hread : facts.get e.id = some true
    · simpa [hread] using ih true _
    · simpa [hread] using ih carved _

theorem defeatersLoop_spec (steps : List PredicateStep) (defeaters : List Defeater) :
    if ∃ d ∈ defeaters, facts.get d.id = some true then
      ∃ steps', defeatersLoop facts steps defeaters = .error ⟨.unsatisfied, steps'⟩
    else ∃ steps', defeatersLoop facts steps defeaters = .ok steps' := by
  induction defeaters generalizing steps with
  | nil => simp [defeatersLoop]
  | cons d rest ih =>
    rw [defeatersLoop, evaluateDefeater, evaluateExplicit_eq]
    by_cases hread : facts.get d.id = some true
    · simp [hread]
    · simpa [hread] using ih _

end

theorem compose_outcome (rule : NormRule) (facts : CaseFactSet) :
    (composeNormRulePredicates rule facts).outcome = verdict facts.get rule := by
  unfold composeNormRulePredicates composeLoops
  have hconditions := @conditionsLoop_spec facts .satisfied [] rule.conditions
  by_cases hmissing : Unanswered facts.get rule
  · rw [if_pos (show ∃ c ∈ rule.conditions, facts.get c.id = none from hmissing)] at hconditions
    obtain ⟨steps, hloop⟩ := hconditions
    rw [verdict_unanswered hmissing, hloop]
    rfl
  rw [if_neg (show ¬ ∃ c ∈ rule.conditions, facts.get c.id = none from hmissing)] at hconditions
  obtain ⟨steps, hloop⟩ := hconditions
  obtain ⟨steps', hexceptions⟩ := @exceptionsLoop_spec facts false steps rule.exceptions
  have hdefeaters := @defeatersLoop_spec facts steps' rule.defeaters
  rw [hloop, ok_bind]
  dsimp only
  rw [hexceptions, ok_bind]
  dsimp only
  by_cases hdefeated : Defeated facts.get rule
  · rw [if_pos (show ∃ d ∈ rule.defeaters, facts.get d.id = some true from hdefeated)] at hdefeaters
    obtain ⟨steps'', hloop'⟩ := hdefeaters
    rw [verdict_defeated hmissing hdefeated, hloop']
    rfl
  · rw [if_neg (show ¬ ∃ d ∈ rule.defeaters, facts.get d.id = some true from hdefeated)]
      at hdefeaters
    obtain ⟨steps'', hloop'⟩ := hdefeaters
    rw [hloop', ok_bind]
    by_cases hmet : Met facts.get rule
    · rw [verdict_met hmissing hdefeated hmet]
      rcases hmet with hall | hcarved
      · rw [if_pos hall]
        simp
      · simp [hcarved]
    · rw [verdict_unmet hmissing hmet]
      obtain ⟨hall, hcarved⟩ := not_or.mp hmet
      simp [hall, hcarved]

/-! ## What is asserted -/

namespace CaseFactSet

variable (facts : CaseFactSet) (id : String)

def Asserts (value : Bool) : Prop := (id, value) ∈ facts.facts

instance (value : Bool) : Decidable (facts.Asserts id value) :=
  inferInstanceAs (Decidable ((id, value) ∈ facts.facts))

/-- Nothing is asserted of the id. -/
def Missing : Prop := ∀ value, ¬ facts.Asserts id value

/-- Both values are asserted of the id. -/
def Conflicted : Prop := ∀ value, facts.Asserts id value

/-- The third value is for an id of which nothing is asserted, or both values. -/
def known : Option Bool :=
  if facts.Asserts id true then if facts.Asserts id false then none else some true
  else if facts.Asserts id false then some false else none

end CaseFactSet

/-- The order-free formula over the three values. -/
def orderFree (rule : NormRule) (facts : CaseFactSet) : PredicateOutcome := verdict facts.known rule

section

variable {facts facts' : CaseFactSet} {id : String} {value : Bool}

theorem conflicted_or_known (facts : CaseFactSet) (id : String) :
    facts.Missing id ∧ facts.known id = none ∨ facts.Conflicted id ∧ facts.known id = none ∨
      ∃ value, facts.known id = some value ∧ ∀ other, facts.Asserts id other ↔ other = value := by
  unfold CaseFactSet.Missing CaseFactSet.Conflicted CaseFactSet.known
  by_cases htrue : facts.Asserts id true <;> by_cases hfalse : facts.Asserts id false <;>
    simp [htrue, hfalse]

theorem get_eq_none : facts.get id = none ↔ facts.Missing id := by
  simp only [CaseFactSet.get, Option.map_eq_none_iff, List.find?_eq_none, decide_eq_true_eq]
  constructor
  · intro h value hfact
    exact h _ hfact rfl
  · rintro h ⟨id', value⟩ hfact rfl
    exact h value hfact

theorem asserts_of_get (h : facts.get id = some value) : facts.Asserts id value := by
  obtain ⟨fact, hfind, rfl⟩ := Option.map_eq_some_iff.mp h
  have hid : fact.1 = id := by simpa using List.find?_some hfind
  exact hid ▸ List.mem_of_find?_eq_some hfind

/-- The pairs with the picked values in front of the other ones. -/
def picked (pick : String → Bool) (facts : CaseFactSet) : CaseFactSet where
  facts := facts.facts.filter (fun fact => fact.2 = pick fact.1) ++
    facts.facts.filter (fun fact => !decide (fact.2 = pick fact.1))
  accepted fact h := facts.accepted fact <| (List.filter_append_perm _ facts.facts).mem_iff.mp h

theorem perm_picked (pick : String → Bool) (facts : CaseFactSet) :
    (picked pick facts).facts.Perm facts.facts := List.filter_append_perm _ _

theorem asserts_picked (pick : String → Bool) :
    (picked pick facts).Asserts id value ↔ facts.Asserts id value :=
  (perm_picked pick facts).mem_iff

theorem get_picked (pick : String → Bool) (h : facts.Conflicted id) :
    (picked pick facts).get id = some (pick id) := by
  have hfront : (id, pick id) ∈ facts.facts.filter (fun fact => fact.2 = pick fact.1) := by
    simpa [CaseFactSet.Asserts] using h (pick id)
  unfold CaseFactSet.get picked
  dsimp only
  rw [List.find?_append]
  cases hfind : (facts.facts.filter fun fact => fact.2 = pick fact.1).find? (·.1 = id) with
  | none => simpa using List.find?_eq_none.mp hfind _ hfront
  | some fact =>
    have hid : fact.1 = id := by simpa using List.find?_some hfind
    have hvalue := List.of_mem_filter (List.mem_of_find?_eq_some hfind)
    rw [Option.some_or, Option.map_some, of_decide_eq_true hvalue, hid]

/-- Where the values do not conflict, every order of the pairs reads what is known. -/
theorem get_eq_known (h : ¬ facts.Conflicted id) : facts.get id = facts.known id := by
  rcases conflicted_or_known facts id with ⟨hmissing, hknown⟩ | ⟨hboth, -⟩ | ⟨value, hknown, hone⟩
  · rw [hknown, get_eq_none.mpr hmissing]
  · exact absurd hboth h
  · rw [hknown]
    cases hget : facts.get id with
    | none => exact absurd ((hone value).mpr rfl) (get_eq_none.mp hget value)
    | some read => rw [(hone read).mp (asserts_of_get hget)]

theorem known_congr (h : ∀ value, facts'.Asserts id value ↔ facts.Asserts id value) :
    facts'.known id = facts.known id := by
  simp only [CaseFactSet.known, h]

/-- What the pairs read in some order. -/
structure Reads (facts : CaseFactSet) (read : String → Option Bool) : Prop where
  known : ∀ id, ¬ facts.Conflicted id → read id = facts.known id
  conflicted : ∀ id, facts.Conflicted id → read id ≠ none

theorem reads_get (h : facts'.facts.Perm facts.facts) : Reads facts facts'.get := by
  have hasserts : ∀ id value, facts'.Asserts id value ↔ facts.Asserts id value :=
    fun id value => h.mem_iff
  have hconflicted : ∀ id, facts'.Conflicted id ↔ facts.Conflicted id :=
    fun id => forall_congr' (hasserts id)
  refine ⟨fun id hid => ?_, fun id hid hnone => ?_⟩
  · rw [get_eq_known (mt (hconflicted id).mp hid), known_congr (hasserts id)]
  · exact get_eq_none.mp hnone true ((hconflicted id).mpr hid true)

end

/-! ## The theorem -/

section

variable (rule : NormRule) (facts : CaseFactSet)

/-- A rule with its lists in another order. -/
structure Reordered (rule rule' : NormRule) : Prop where
  conditions : rule'.conditions.Perm rule.conditions
  exceptions : rule'.exceptions.Perm rule.exceptions
  defeaters : rule'.defeaters.Perm rule.defeaters

/-- In every order of the four lists, the outcome is the order-free one. -/
def DependsOnAsserted : Prop :=
  ∀ (rule' : NormRule) (facts' : CaseFactSet), Reordered rule rule' →
    facts'.facts.Perm facts.facts →
    (composeNormRulePredicates rule' facts').outcome = orderFree rule facts

/-- No fact that is asserted both ways can decide. A condition with such a fact does, unless another
condition misses its fact; a defeater does where the rule is met and not defeated; an exception
does where it is not met, unless a defeater has the same id. -/
def NoConflictDecides : Prop :=
  (∃ c ∈ rule.conditions, facts.Missing c.id) ∨
    (∀ c ∈ rule.conditions, ¬ facts.Conflicted c.id) ∧
      (Defeated facts.known rule ∨
        (Met facts.known rule ∧ ∀ d ∈ rule.defeaters, ¬ facts.Conflicted d.id) ∨
        (¬ Met facts.known rule ∧ ∀ e ∈ rule.exceptions, facts.Conflicted e.id →
          ∃ d ∈ rule.defeaters, d.id = e.id))

variable {rule facts}

theorem verdict_reordered {rule' : NormRule} (h : Reordered rule rule')
    (read : String → Option Bool) : verdict read rule' = verdict read rule := by
  have hunanswered : Unanswered read rule' ↔ Unanswered read rule := by
    simp only [Unanswered, h.conditions.mem_iff]
  have hdefeated : Defeated read rule' ↔ Defeated read rule := by
    simp only [Defeated, h.defeaters.mem_iff]
  have hmet : Met read rule' ↔ Met read rule := by
    simp only [Met, h.conditions.mem_iff, h.exceptions.mem_iff]
  simp only [verdict, hunanswered, hdefeated, hmet]

/-- The outcome in every order is the outcome for every reading of the facts. -/
theorem dependsOnAsserted_iff : DependsOnAsserted rule facts ↔
    ∀ read, Reads facts read → verdict read rule = verdict facts.known rule := by
  constructor
  · intro h read hread
    have hpicked := h rule (picked (fun id => (read id).getD false) facts)
      ⟨.refl _, .refl _, .refl _⟩ (perm_picked _ _)
    rw [compose_outcome] at hpicked
    refine Eq.trans (congrArg (verdict · rule) (funext fun id => ?_)) hpicked
    by_cases hid : facts.Conflicted id
    · rw [get_picked _ hid]
      cases hvalue : read id with
      | none => exact absurd hvalue (hread.conflicted id hid)
      | some value => rfl
    · rw [hread.known id hid, (reads_get (perm_picked _ facts)).known id hid]
  · intro h rule' facts' hrule hfacts
    rw [compose_outcome, verdict_reordered hrule]
    exact h _ (reads_get hfacts)

theorem reads_picked (pick : String → Bool) : Reads facts (picked pick facts).get :=
  reads_get (perm_picked pick facts)

theorem Reads.eq_none_iff {read : String → Option Bool} (h : Reads facts read) {id : String} :
    read id = none ↔ facts.Missing id := by
  by_cases hid : facts.Conflicted id
  · exact iff_of_false (h.conflicted id hid) fun hmissing => hmissing true (hid true)
  · rw [h.known id hid]
    rcases conflicted_or_known facts id with ⟨hmissing, hknown⟩ | ⟨hboth, -⟩ | ⟨value, hknown, hone⟩
    · exact iff_of_true hknown hmissing
    · exact absurd hboth hid
    · rw [hknown]
      exact iff_of_false nofun fun hmissing => hmissing value ((hone value).mpr rfl)

theorem known_of_conflicted {id : String} (h : facts.Conflicted id) : facts.known id = none := by
  have htrue := h true
  have hfalse := h false
  simp [CaseFactSet.known, htrue, hfalse]

theorem noConflictDecides_of_verdict
    (h : ∀ read, Reads facts read → verdict read rule = verdict facts.known rule) :
    NoConflictDecides rule facts := by
  by_cases hmissing : ∃ c ∈ rule.conditions, facts.Missing c.id
  · exact .inl hmissing
  have hanswered : ∀ pick, ¬ Unanswered (picked pick facts).get rule := by
    rintro pick ⟨c, hc, hnone⟩
    exact hmissing ⟨c, hc, (reads_picked pick).eq_none_iff.mp hnone⟩
  -- A condition that is asserted both ways is read, where it should make the rule abstain.
  have hclean : ∀ c ∈ rule.conditions, ¬ facts.Conflicted c.id := by
    intro c hc hconflicted
    have heq := h _ (reads_picked fun _ => true)
    rw [verdict_unanswered ⟨c, hc, known_of_conflicted hconflicted⟩, verdict,
      if_neg (hanswered _)] at heq
    split_ifs at heq
  have hknown : ¬ Unanswered facts.known rule := by
    rintro ⟨c, hc, hnone⟩
    rw [← (reads_picked fun _ => true).known c.id (hclean c hc)] at hnone
    exact hanswered _ ⟨c, hc, hnone⟩
  refine .inr ⟨hclean, ?_⟩
  by_cases hdefeated : Defeated facts.known rule
  · exact .inl hdefeated
  by_cases hmet : Met facts.known rule
  · -- A defeater that is asserted both ways fires where it is read as true.
    refine .inr (.inl ⟨hmet, fun d hd hconflicted => ?_⟩)
    have heq := h _ (reads_picked fun _ => true)
    rw [verdict_defeated (hanswered _) ⟨d, hd, get_picked _ hconflicted⟩,
      verdict_met hknown hdefeated hmet] at heq
    cases heq
  · -- An exception that is asserted both ways carves out where only its own id is read as true.
    refine .inr (.inr ⟨hmet, fun e he hconflicted => ?_⟩)
    by_contra hother
    have heq := h _ (reads_picked fun id => decide (id = e.id))
    have hdefeated' : ¬ Defeated (picked (fun id => decide (id = e.id)) facts).get rule := by
      rintro ⟨d, hd, htrue⟩
      by_cases hboth : facts.Conflicted d.id
      · rw [get_picked _ hboth, Option.some.injEq, decide_eq_true_eq] at htrue
        exact hother ⟨d, hd, htrue⟩
      · rw [(reads_picked _).known d.id hboth] at htrue
        exact hdefeated ⟨d, hd, htrue⟩
    have hcarved : (picked (fun id => decide (id = e.id)) facts).get e.id = some true := by
      rw [get_picked _ hconflicted, decide_eq_true rfl]
    rw [verdict_met (hanswered _) hdefeated' (.inr ⟨e, he, hcarved⟩),
      verdict_unmet hknown hmet] at heq
    cases heq

theorem verdict_of_noConflictDecides (h : NoConflictDecides rule facts)
    {read : String → Option Bool} (hread : Reads facts read) :
    verdict read rule = verdict facts.known rule := by
  have hsome : ∀ {id : String}, facts.known id = some true → read id = some true := by
    intro id hid
    have hone : ¬ facts.Conflicted id := fun hboth => by
      rw [known_of_conflicted hboth] at hid
      cases hid
    rw [hread.known id hone, hid]
  rcases h with ⟨c, hc, hmissing⟩ | ⟨hclean, h⟩
  · have hnone : facts.known c.id = none := by
      rw [← hread.known c.id fun hboth => hmissing true (hboth true)]
      exact hread.eq_none_iff.mpr hmissing
    rw [verdict_unanswered ⟨c, hc, hread.eq_none_iff.mpr hmissing⟩,
      verdict_unanswered ⟨c, hc, hnone⟩]
  have hconditions : ∀ c ∈ rule.conditions, read c.id = facts.known c.id :=
    fun c hc => hread.known c.id (hclean c hc)
  have hunanswered : Unanswered read rule ↔ Unanswered facts.known rule :=
    exists_congr fun c => and_congr_right fun hc => by rw [hconditions c hc]
  by_cases hknown : Unanswered facts.known rule
  · rw [verdict_unanswered hknown, verdict_unanswered (hunanswered.mpr hknown)]
  have hanswered := mt hunanswered.mp hknown
  by_cases hdefeated : Defeated facts.known rule
  · obtain ⟨d, hd, htrue⟩ := hdefeated
    rw [verdict_defeated hknown ⟨d, hd, htrue⟩, verdict_defeated hanswered ⟨d, hd, hsome htrue⟩]
  rcases h.resolve_left hdefeated with ⟨hmet, hdefeaters⟩ | ⟨hmet, hexceptions⟩
  · have hmet' : Met read rule := by
      rcases hmet with hall | ⟨e, he, htrue⟩
      · exact .inl fun c hc => (hconditions c hc).trans (hall c hc)
      · exact .inr ⟨e, he, hsome htrue⟩
    have hdefeated' : ¬ Defeated read rule := by
      rintro ⟨d, hd, htrue⟩
      rw [hread.known d.id (hdefeaters d hd)] at htrue
      exact hdefeated ⟨d, hd, htrue⟩
    rw [verdict_met hknown hdefeated hmet, verdict_met hanswered hdefeated' hmet']
  · rw [verdict_unmet hknown hmet]
    by_cases hdefeated' : Defeated read rule
    · exact verdict_defeated hanswered hdefeated'
    refine verdict_unmet hanswered ?_
    rintro (hall | ⟨e, he, htrue⟩)
    · exact hmet (.inl fun c hc => (hconditions c hc).symm.trans (hall c hc))
    · by_cases hboth : facts.Conflicted e.id
      · obtain ⟨d, hd, hid⟩ := hexceptions e he hboth
        exact hdefeated' ⟨d, hd, hid ▸ htrue⟩
      · rw [hread.known e.id hboth] at htrue
        exact hmet (.inr ⟨e, he, htrue⟩)

end

/-- The outcome depends on what is asserted alone if and only if no conflict decides. -/
theorem compose_order_free_iff (rule : NormRule) (facts : CaseFactSet) :
    DependsOnAsserted rule facts ↔ NoConflictDecides rule facts := by
  rw [dependsOnAsserted_iff]
  exact ⟨noConflictDecides_of_verdict, fun h _ hread => verdict_of_noConflictDecides h hread⟩

/-! ### A fact that is asserted both ways -/

namespace Sample

def rule : NormRule where
  conditions := [⟨"cond:a", "fact_required", rfl, by simp [CLOSED_CONDITION_KINDS]⟩]
  exceptions := []
  defeaters := []
  nonempty := by simp

def conflicting : CaseFactSet where
  facts := [("cond:a", true), ("cond:a", false)]
  accepted := by
    intro fact hfact
    obtain rfl | rfl : fact = ("cond:a", true) ∨ fact = ("cond:a", false) := by simpa using hfact
    · rfl
    · rfl

end Sample

/-- The pair in front satisfies the rule, where both pairs together leave it open. -/
theorem conflict_decides : ¬ ∀ rule facts, DependsOnAsserted rule facts := by
  intro hall
  have heq := hall Sample.rule Sample.conflicting Sample.rule Sample.conflicting
    ⟨.refl _, .refl _, .refl _⟩ (.refl _)
  exact absurd heq (by decide)

end LawNexus.Applicability
