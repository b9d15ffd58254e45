import LawNexus.Ids

/-!
# Predicates of a norm rule

The closed intermediate representation of `ln-applicability` and the algebra that composes its
predicates over a set of case facts.
-/

namespace LawNexus.Applicability

def MAX_ID_LEN : Nat := 128

inductive NormRuleIrError where
  | emptyConditions
  | unsupportedConditionKind
  | unsupportedExceptionKind
  | unsupportedDefeaterKind
  | invalidId (error : IdError)
deriving DecidableEq, Repr

def CLOSED_CONDITION_KINDS : List String := ["fact_required", "fact_forbidden", "status_required"]

def CLOSED_EXCEPTION_KINDS : List String := ["exception_clause", "carve_out"]

def CLOSED_DEFEATER_KINDS : List String := ["special_norm_defeats", "higher_rank_defeats"]

/-! ## The rule -/

/-- An id and a kind of a closed vocabulary: conditions, exceptions and defeaters differ in what the
id is called and in the vocabulary. -/
structure Clause (idKind : String) (kinds : List String) where
  id : String
  kind : String
  accepted : parseId idKind id MAX_ID_LEN = .ok id
  closed : kind ∈ kinds
deriving DecidableEq, Repr

def Clause.tryNew {idKind : String} {kinds : List String} (unsupported : NormRuleIrError)
    (id kind : String) : Except NormRuleIrError (Clause idKind kinds) :=
  match h : parseId idKind id MAX_ID_LEN with
  | .error error => .error (.invalidId error)
  | .ok id =>
    if hkind : kind ∈ kinds then .ok ⟨id, kind, parseId_ok h ▸ h, hkind⟩ else .error unsupported

abbrev NormRuleCondition := Clause "condition id" CLOSED_CONDITION_KINDS
abbrev Exception := Clause "exception id" CLOSED_EXCEPTION_KINDS
abbrev Defeater := Clause "defeater id" CLOSED_DEFEATER_KINDS

def NormRuleCondition.tryNew : String → String → Except NormRuleIrError NormRuleCondition :=
  Clause.tryNew .unsupportedConditionKind

def Exception.tryNew : String → String → Except NormRuleIrError Exception :=
  Clause.tryNew .unsupportedExceptionKind

def Defeater.tryNew : String → String → Except NormRuleIrError Defeater :=
  Clause.tryNew .unsupportedDefeaterKind

theorem Clause.tryNew_ok {idKind : String} {kinds : List String} {unsupported : NormRuleIrError}
    {id kind : String} {clause : Clause idKind kinds}
    (h : Clause.tryNew unsupported id kind = .ok clause) : clause.id = id ∧ clause.kind = kind := by
  unfold Clause.tryNew at h
  split at h
  · cases h
  next hid =>
  split_ifs at h
  obtain rfl := Except.ok.inj h
  exact ⟨parseId_ok hid, rfl⟩

/-- What the composition reads of a rule. -/
structure NormRule where
  conditions : List NormRuleCondition
  exceptions : List Exception
  defeaters : List Defeater
  nonempty : conditions ≠ []
deriving DecidableEq, Repr

def NormRule.tryNew (conditions : List NormRuleCondition) (exceptions : List Exception)
    (defeaters : List Defeater) : Except NormRuleIrError NormRule :=
  if h : conditions = [] then .error .emptyConditions
  else .ok ⟨conditions, exceptions, defeaters, h⟩

/-! ## The facts -/

/-- The pairs in the order in which they were given: one id may have several. -/
structure CaseFactSet where
  facts : List (String × Bool)
  accepted : ∀ fact ∈ facts, parseId "case fact id" fact.1 MAX_ID_LEN = .ok fact.1
deriving DecidableEq, Repr

namespace CaseFactSet

def empty : CaseFactSet := ⟨[], by simp⟩

def push (facts : CaseFactSet) (id : String) (value : Bool)
    (h : parseId "case fact id" id MAX_ID_LEN = .ok id) : CaseFactSet where
  facts := facts.facts ++ [(id, value)]
  accepted := by
    intro fact hfact
    rcases List.mem_append.mp hfact with hfact | hfact
    · exact facts.accepted fact hfact
    · rwa [List.mem_singleton.mp hfact]

def tryFromPairs (pairs : List (String × Bool)) : Except IdError CaseFactSet :=
  pairs.foldlM (fun facts (id, value) =>
    match h : parseId "case fact id" id MAX_ID_LEN with
    | .error error => .error error
    | .ok id => .ok (facts.push id value (parseId_ok h ▸ h))) empty

def get (facts : CaseFactSet) (id : String) : Option Bool :=
  (facts.facts.find? (·.1 = id)).map (·.2)

end CaseFactSet

/-! ## Outcomes -/

inductive AbstentionKind where
  | missingCtv
  | missingNormativeState
  | unresolvedTransitional
  | missingProvenance
  | missingOrAmbiguousFacts
  | unknownProfileOrPredicateRevision
  | unsupportedPredicateKind
  | protocolUnimplemented
deriving DecidableEq, Repr

inductive PredicateOutcome where
  | satisfied
  | unsatisfied
  | abstain (kind : AbstentionKind)
deriving DecidableEq, Repr

def PredicateOutcome.asStr : PredicateOutcome → String
  | .satisfied => "satisfied"
  | .unsatisfied => "unsatisfied"
  | .abstain _ => "abstain"

structure PredicateStep where
  predicateId : String
  outcome : String
deriving DecidableEq, Repr

structure ComposedPredicateResult where
  outcome : PredicateOutcome
  steps : List PredicateStep
deriving DecidableEq, Repr

/-! ## One predicate -/

section

variable (facts : CaseFactSet)

def lookupBool (id : String) : Except AbstentionKind Bool :=
  match facts.get id with
  | some value => .ok value
  | none => .error .missingOrAmbiguousFacts

/-- A condition on a fact that is to have this value. -/
def evaluateFact (wanted : Bool) (id : String) : PredicateOutcome :=
  match lookupBool facts id with
  | .ok value => if value = wanted then .satisfied else .unsatisfied
  | .error kind => .abstain kind

def evaluateCondition (condition : NormRuleCondition) : PredicateOutcome :=
  if condition.kind = "fact_required" then evaluateFact facts true condition.id
  else if condition.kind = "fact_forbidden" then evaluateFact facts false condition.id
  else if condition.kind = "status_required" then evaluateFact facts true condition.id
  else .abstain .unsupportedPredicateKind

/-- Missing facts do not make an exception or a defeater abstain. -/
def evaluateExplicit (id : String) : PredicateOutcome :=
  match facts.get id with
  | some true => .satisfied
  | some false | none => .unsatisfied

def evaluateException (exception : Exception) : PredicateOutcome :=
  evaluateExplicit facts exception.id

def evaluateDefeater (defeater : Defeater) : PredicateOutcome :=
  evaluateExplicit facts defeater.id

/-! ## The composition -/

/-- The loops return early by an error. -/
abbrev Loop (σ : Type) := Except ComposedPredicateResult σ

def conditionsLoop (outcome : PredicateOutcome) (steps : List PredicateStep) :
    List NormRuleCondition → Loop (PredicateOutcome × List PredicateStep)
  | [] => .ok (outcome, steps)
  | condition :: rest =>
    let result := evaluateCondition facts condition
    let steps := steps ++ [⟨condition.id, s!"algebra:{result.asStr}"⟩]
    match result with
    | .abstain kind => .error ⟨.abstain kind, steps⟩
    | .unsatisfied => conditionsLoop .unsatisfied steps rest
    | .satisfied => conditionsLoop outcome steps rest

/-- Both loops over the exceptions: only the one for an unsatisfied rule reads `carved`. -/
def exceptionsLoop (carved : Bool) (steps : List PredicateStep) :
    List Exception → Loop (Bool × List PredicateStep)
  | [] => .ok (carved, steps)
  | exception :: rest =>
    let result := evaluateException facts exception
    let steps := steps ++ [⟨exception.id, s!"algebra:exception:{result.asStr}"⟩]
    match result with
    | .abstain kind => .error ⟨.abstain kind, steps⟩
    | .satisfied => exceptionsLoop true steps rest
    | .unsatisfied => exceptionsLoop carved steps rest

def defeatersLoop (steps : List PredicateStep) : List Defeater → Loop (List PredicateStep)
  | [] => .ok steps
  | defeater :: rest =>
    let result := evaluateDefeater facts defeater
    let steps := steps ++ [⟨defeater.id, s!"algebra:defeater:{result.asStr}"⟩]
    match result with
    | .abstain kind => .error ⟨.abstain kind, steps⟩
    | .satisfied => .error ⟨.unsatisfied, steps⟩
    | .unsatisfied => defeatersLoop steps rest

def composeLoops (rule : NormRule) : Loop ComposedPredicateResult := do
  let (conditionOutcome, steps) ← conditionsLoop facts .satisfied [] rule.conditions
  let (carved, steps) ← exceptionsLoop facts false steps rule.exceptions
  let conditionOutcome :=
    if conditionOutcome = .unsatisfied ∧ carved then .satisfied else conditionOutcome
  let steps ← defeatersLoop facts steps rule.defeaters
  .ok ⟨conditionOutcome, steps⟩

end

def composeNormRulePredicates (rule : NormRule) (facts : CaseFactSet) : ComposedPredicateResult :=
  match composeLoops facts rule with
  | .ok result => result
  | .error result => result

end LawNexus.Applicability
