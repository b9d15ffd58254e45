import LawNexus.Decode.Series
import LawNexus.Decode.Worklist

/-!
# The memo of the context worklist

What the memo holds after any sequence of runs, and when the answers of a run are those of a
fresh worklist.
-/

namespace LawNexus.Decode

open Loops

variable {env : ContextEnvironment} {budgets : ContextBudgets}

/-! ## One request -/

/-- A leaf reads nothing of a request that its key leaves out. -/
theorem dispatchLeaf_congr {r r' : ContextRequest} (h : r.memoKey = r'.memoKey) :
    dispatchLeaf env r budgets = dispatchLeaf env r' budgets := by
  have hkind : r.kind = r'.kind := congrArg MemoKey.requestKind h
  have horigin : r.originFrameRef = r'.originFrameRef := congrArg MemoKey.originFrameRef h
  have hexplicit : r.explicitKey = r'.explicitKey := congrArg MemoKey.explicitKey h
  have hscope : r.structuralScope = r'.structuralScope := congrArg MemoKey.structuralScope h
  have hevidence : r.thisRefEvidence = r'.thisRefEvidence :=
    Option.map_injective ThisRefGrammarEvidence.fingerprint_injective
      (congrArg MemoKey.authorizationEvidence h)
  have houtcome : leafOutcome env r budgets = leafOutcome env r' budgets := by
    unfold leafOutcome scopedAliasLeaf explicitAnchorLeaf
    rw [hkind, horigin, hexplicit, hscope, hevidence]
  unfold dispatchLeaf
  rw [houtcome, h]

/-- A request of this key that its path lets through. -/
def asks (budgets : ContextBudgets) (k : MemoKey) (r : ContextRequest) : Bool :=
  r.memoKey = k && !r.blocked budgets

theorem asks_iff {k : MemoKey} {r : ContextRequest} :
    asks budgets k r = true ↔ r.memoKey = k ∧ r.blocked budgets = false := by
  simp [asks]

/-- The steps of the budget suffice for a request, or it needs none. -/
def BudgetLeft (budgets : ContextBudgets) (state : RunState) (r : ContextRequest) : Prop :=
  state.memo r.memoKey ≠ none ∨ state.report.stats.stepsUsed < budgets.worklistSteps

theorem serve_memo {state : RunState} {r : ContextRequest} (h : BudgetLeft budgets state r)
    (k : MemoKey) : (state.serve env budgets r).memo k = (state.memo k).or
      (if asks budgets k r then some (dispatchLeaf env r budgets) else none) := by
  unfold RunState.serve
  cases hmemo : state.memo r.memoKey with
  | some cached =>
    by_cases hk : r.memoKey = k
    · subst hk
      simp [RunState.record, RunState.countHit, hmemo]
    · simp [RunState.record, RunState.countHit, asks, hk]
  | none =>
    have hsteps : ¬budgets.worklistSteps ≤ state.report.stats.stepsUsed := by
      rcases h with h | h
      · exact absurd hmemo h
      · omega
    dsimp only
    rw [if_neg hsteps]
    cases hblocked : r.blocked budgets with
    | true => simp [RunState.record, asks, hblocked]
    | false =>
      by_cases hk : r.memoKey = k
      · subst hk
        simp [RunState.record, RunState.dispatch, ResultMap.insert, asks, hblocked, hmemo]
      · simp [RunState.record, RunState.dispatch, ResultMap.insert, asks, hk,
          Function.update_of_ne (Ne.symm hk)]

theorem serve_results {state : RunState} {r : ContextRequest} (h : BudgetLeft budgets state r)
    (k : MemoKey) : (state.serve env budgets r).report.results k =
      if r.memoKey = k then some (((state.serve env budgets r).memo k).getD
        (cycleOrLimitResult k r.linkingLimit)) else state.report.results k := by
  by_cases hk : r.memoKey = k
  · subst hk
    rw [if_pos rfl, serve_memo h]
    unfold RunState.serve
    cases hmemo : state.memo r.memoKey with
    | some cached => simp [RunState.record, ResultMap.insert]
    | none =>
      have hsteps : ¬budgets.worklistSteps ≤ state.report.stats.stepsUsed := by
        rcases h with h | h
        · exact absurd hmemo h
        · omega
      dsimp only
      rw [if_neg hsteps]
      cases hblocked : r.blocked budgets <;>
        simp [RunState.record, ResultMap.insert, asks, hblocked]
  · rw [if_neg hk]
    unfold RunState.serve
    split
    · simp [RunState.record, RunState.countHit, ResultMap.insert,
        Function.update_of_ne (Ne.symm hk)]
    · split_ifs <;> simp [RunState.record, RunState.dispatch, ResultMap.insert,
        Function.update_of_ne (Ne.symm hk)]

/-! ## One run -/

/-- The state after the first requests of a run. -/
def served (env : ContextEnvironment) (budgets : ContextBudgets) (memo : ResultMap)
    (l : List ContextRequest) : RunState :=
  l.foldl (RunState.serve env budgets) (.start memo)

/-- No request of the list meets the end of the step budget. -/
def NeverLimited (env : ContextEnvironment) (budgets : ContextBudgets) (memo : ResultMap)
    (l : List ContextRequest) : Prop :=
  ∀ front r back, l = front ++ r :: back → BudgetLeft budgets (served env budgets memo front) r

theorem NeverLimited.front {memo : ResultMap} {l : List ContextRequest} {r : ContextRequest}
    (h : NeverLimited env budgets memo (l ++ [r])) : NeverLimited env budgets memo l := by
  rintro front r' back rfl
  exact h front r' (back ++ [r]) (by simp)

theorem served_concat (memo : ResultMap) (l : List ContextRequest) (r : ContextRequest) :
    served env budgets memo (l ++ [r]) = (served env budgets memo l).serve env budgets r := by
  rw [served, List.foldl_append]
  rfl

/-- The memo holds what it held, and the leaves of the requests that were let through. -/
theorem served_memo {memo : ResultMap} {l : List ContextRequest}
    (h : NeverLimited env budgets memo l) (k : MemoKey) :
    (served env budgets memo l).memo k =
      (memo k).or ((l.find? (asks budgets k)).map (dispatchLeaf env · budgets)) := by
  induction l using List.reverseRecOn with
  | nil => simp [served, RunState.start]
  | append_singleton l r ih =>
    rw [served_concat, serve_memo (h l r [] rfl), ih h.front, List.find?_append, Option.or_assoc]
    congr 1
    cases l.find? (asks budgets k) with
    | some r' => rfl
    | none => cases hasks : asks budgets k r <;> simp [hasks]

/-- A key has the result of its last request: from the memo, else from the path. -/
theorem served_results {memo : ResultMap} {l : List ContextRequest}
    (h : NeverLimited env budgets memo l) (k : MemoKey) :
    (served env budgets memo l).report.results k =
      (l.filter (·.memoKey = k)).getLast?.map fun r =>
        ((served env budgets memo l).memo k).getD (cycleOrLimitResult k r.linkingLimit) := by
  induction l using List.reverseRecOn with
  | nil => rfl
  | append_singleton l r ih =>
    have hleft := h l r [] rfl
    rw [served_concat, serve_results hleft, List.filter_append]
    by_cases hk : r.memoKey = k
    · simp [hk]
    · have hasks : asks budgets k r = false := by simp [asks, hk]
      rw [if_neg hk, ih h.front, serve_memo hleft, hasks, if_neg Bool.false_ne_true, Option.or_none,
        List.filter_singleton, decide_eq_false hk, cond_false, List.append_nil]

/-- A memo is filled only by a step of the budget. -/
theorem serve_memo_pos {state : RunState} {r : ContextRequest}
    (h : ∀ k, state.memo k ≠ none → 0 < budgets.worklistSteps) :
    ∀ k, (state.serve env budgets r).memo k ≠ none → 0 < budgets.worklistSteps := by
  intro k hk
  unfold RunState.serve at hk
  split at hk
  · exact h k hk
  · split_ifs at hk with hsteps hblocked
    · exact h k hk
    · exact h k hk
    · omega

theorem served_memo_pos {memo : ResultMap} {l : List ContextRequest}
    (h : ∀ k, memo k ≠ none → 0 < budgets.worklistSteps) :
    ∀ k, (served env budgets memo l).memo k ≠ none → 0 < budgets.worklistSteps := by
  induction l using List.reverseRecOn with
  | nil => exact h
  | append_singleton l r ih =>
    rw [served_concat]
    exact serve_memo_pos ih

/-! ## A sequence of runs -/

abbrev Run := ContextEnvironment × List ContextRequest

def runAll (budgets : ContextBudgets) (history : List Run) : ContextWorklist :=
  history.foldl (fun w run => (w.run run.1 run.2).2) (.new budgets)

/-- The memo that a run behind these runs starts with. -/
def memoBefore (budgets : ContextBudgets) (history : List Run) (env : ContextEnvironment) :
    ResultMap :=
  (runAll budgets history).enter env

/-- The step budget of a run behind these runs is not exhausted. -/
def WithinBudget (budgets : ContextBudgets) (history : List Run) (run : Run) : Prop :=
  NeverLimited run.1 budgets (memoBefore budgets history run.1) (sortRequests run.2)

def AllWithinBudget (budgets : ContextBudgets) (runs : List Run) : Prop :=
  ∀ history run later, runs = history ++ run :: later → WithinBudget budgets history run

/-- The environments in which the keys were first let through to their leaves, since the last
change of the requisites. -/
structure Asked where
  requisitesIdentity : Option String
  environment : MemoKey → Option ContextEnvironment

def Asked.enter (asked : Asked) (env : ContextEnvironment) : MemoKey → Option ContextEnvironment :=
  if asked.requisitesIdentity ≠ env.requisitesIdentity then fun _ => none else asked.environment

def Asked.run (budgets : ContextBudgets) (asked : Asked) (run : Run) : Asked :=
  { requisitesIdentity := run.1.requisitesIdentity
    environment := fun k => (asked.enter run.1 k).or
      (if run.2.any (asks budgets k) then some run.1 else none) }

def askedIn (budgets : ContextBudgets) (history : List Run) : Asked :=
  history.foldl (Asked.run budgets) ⟨none, fun _ => none⟩

def askedBefore (budgets : ContextBudgets) (history : List Run) (env : ContextEnvironment) :
    MemoKey → Option ContextEnvironment :=
  (askedIn budgets history).enter env

/-- An entry of the memo is the answer of the environment that the key was asked in. -/
def AnswersOf (budgets : ContextBudgets) (memo : ResultMap)
    (asked : MemoKey → Option ContextEnvironment) : Prop :=
  ∀ r : ContextRequest, memo r.memoKey = (asked r.memoKey).map (dispatchLeaf · r budgets)

theorem runAll_concat (history : List Run) (run : Run) :
    runAll budgets (history ++ [run]) = ((runAll budgets history).run run.1 run.2).2 := by
  rw [runAll, List.foldl_append]
  rfl

theorem askedIn_concat (history : List Run) (run : Run) :
    askedIn budgets (history ++ [run]) = (askedIn budgets history).run budgets run := by
  rw [askedIn, List.foldl_append]
  rfl

@[simp] theorem runAll_budgets (history : List Run) : (runAll budgets history).budgets = budgets := by
  induction history using List.reverseRecOn with
  | nil => rfl
  | append_singleton history run ih => rw [runAll_concat, ContextWorklist.run, ih]

theorem runAll_identity (history : List Run) : (runAll budgets history).requisitesIdentity =
    (askedIn budgets history).requisitesIdentity := by
  induction history using List.reverseRecOn with
  | nil => rfl
  | append_singleton history run ih =>
    rw [runAll_concat, askedIn_concat]
    rfl

theorem find?_sortRequests {k : MemoKey} {requests : List ContextRequest} {r : ContextRequest}
    (hr : r.memoKey = k) :
    ((sortRequests requests).find? (asks budgets k)).map (dispatchLeaf env · budgets) =
      if requests.any (asks budgets k) then some (dispatchLeaf env r budgets) else none := by
  cases hfind : (sortRequests requests).find? (asks budgets k) with
  | some r' =>
    have hasks := List.find?_some hfind
    have hmem : r' ∈ requests := mem_sortBy.mp (List.mem_of_find?_eq_some hfind)
    rw [if_pos (List.any_eq_true.mpr ⟨r', hmem, hasks⟩), Option.map_some,
      dispatchLeaf_congr ((asks_iff.mp hasks).1.trans hr.symm)]
  | none =>
    have hnone : requests.any (asks budgets k) = false := by
      rw [List.any_eq_false]
      intro r' hr'
      exact List.find?_eq_none.mp hfind r' (mem_sortBy.mpr hr')
    rw [hnone]
    rfl

/-- The memo before a run, from the environments of the runs before it. -/
theorem answersOf_before {history : List Run} (h : AllWithinBudget budgets history)
    (env : ContextEnvironment) :
    AnswersOf budgets (memoBefore budgets history env) (askedBefore budgets history env) := by
  induction history using List.reverseRecOn generalizing env with
  | nil =>
    intro r
    unfold memoBefore askedBefore ContextWorklist.enter Asked.enter
    split_ifs <;> rfl
  | append_singleton history run ih =>
    have hfront : AllWithinBudget budgets history := by
      rintro front run' later rfl
      exact h front run' (later ++ [run]) (by simp)
    have hrun : WithinBudget budgets history run := h history run [] rfl
    intro r
    unfold memoBefore askedBefore ContextWorklist.enter Asked.enter
    rw [runAll_identity]
    split_ifs with hchanged
    · rfl
    · rw [runAll_concat, askedIn_concat]
      have hbefore := ih hfront run.1 r
      unfold ContextWorklist.run Asked.run
      rw [runAll_budgets]
      dsimp only
      have hmemo := served_memo hrun r.memoKey
      rw [find?_sortRequests rfl, hbefore] at hmemo
      rw [served, memoBefore] at hmemo
      rw [hmemo]
      unfold askedBefore
      cases (askedIn budgets history).enter run.1 r.memoKey <;>
        cases run.2.any (asks budgets r.memoKey) <;> rfl

theorem memoBefore_pos {history : List Run} :
    ∀ k, memoBefore budgets history env k ≠ none → 0 < budgets.worklistSteps := by
  intro k hk
  induction history using List.reverseRecOn generalizing env k with
  | nil =>
    unfold memoBefore ContextWorklist.enter at hk
    split_ifs at hk <;> exact absurd rfl hk
  | append_singleton history run ih =>
    unfold memoBefore ContextWorklist.enter at hk
    split_ifs at hk with hchanged
    · exact absurd rfl hk
    · rw [runAll_concat, ContextWorklist.run, runAll_budgets] at hk
      exact served_memo_pos ih k hk

/-! ## When the answers are fresh -/

/-- A key that has an answer in a run, whatever path a request of it comes with. -/
def Answered (budgets : ContextBudgets) (history : List Run) (run : Run) (k : MemoKey) : Prop :=
  askedBefore budgets history run.1 k ≠ none ∨ ∃ r ∈ run.2, asks budgets k r = true

/-- The requests of a run keep to what the memo can answer for all of them. -/
structure Steady (budgets : ContextBudgets) (history : List Run) (run : Run) : Prop where
  /-- The leaf of a request answers as in the environment that its key was asked in before. -/
  unchanged : ∀ r ∈ run.2, r.cyclic = false → ∀ env,
    askedBefore budgets history run.1 r.memoKey = some env →
      dispatchLeaf env r budgets = dispatchLeaf run.1 r budgets
  /-- Where a key has an answer, no path of a request of it is too long. -/
  short : ∀ r ∈ run.2, r.cyclic = false → Answered budgets history run r.memoKey →
    r.blocked budgets = false
  /-- Where a key has none, its requests agree on the linking limit. -/
  alike : ∀ r ∈ run.2, ∀ r' ∈ run.2, r.memoKey = r'.memoKey →
    ¬Answered budgets history run r.memoKey → r.linkingLimit = r'.linkingLimit

/-- The results of a run behind a sequence of runs. -/
def resultsOf (budgets : ContextBudgets) (history : List Run) (run : Run) : ResultMap :=
  ((runAll budgets history).run run.1 run.2).1.results

theorem resultsOf_eq (history : List Run) (run : Run) : resultsOf budgets history run =
    (served run.1 budgets (memoBefore budgets history run.1)
      (sortRequests run.2)).report.results := by
  unfold resultsOf ContextWorklist.run
  rw [runAll_budgets]
  rfl

/-- The answer that the environments before a run, or the run itself, give to a request. -/
def answer (budgets : ContextBudgets) (history : List Run) (run : Run) (r : ContextRequest) :
    Option ContextResult :=
  ((askedBefore budgets history run.1 r.memoKey).or
    (if run.2.any (asks budgets r.memoKey) then some run.1 else none)).map
      (dispatchLeaf · r budgets)

theorem answer_eq_none {history : List Run} {run : Run} {r : ContextRequest} :
    answer budgets history run r = none ↔ ¬Answered budgets history run r.memoKey := by
  unfold answer Answered
  cases askedBefore budgets history run.1 r.memoKey <;> simp

section

variable {history : List Run} {run : Run} (hhistory : AllWithinBudget budgets history)
  (hrun : WithinBudget budgets history run)
include hhistory hrun

/-- The answer of the run to a request, if its key has one. -/
theorem memo_after (r : ContextRequest) :
    (served run.1 budgets (memoBefore budgets history run.1) (sortRequests run.2)).memo
        r.memoKey = answer budgets history run r := by
  rw [served_memo hrun, find?_sortRequests rfl, answersOf_before hhistory, answer]
  cases askedBefore budgets history run.1 r.memoKey <;>
    cases run.2.any (asks budgets r.memoKey) <;> rfl

theorem resultsOf_request (hsteady : Steady budgets history run) {r : ContextRequest}
    (hr : r ∈ run.2) : resultsOf budgets history run r.memoKey =
      some ((answer budgets history run r).getD
        (cycleOrLimitResult r.memoKey r.linkingLimit)) := by
  rw [resultsOf_eq, served_results hrun, memo_after hhistory hrun]
  have hmem : r ∈ (sortRequests run.2).filter (·.memoKey = r.memoKey) :=
    List.mem_filter.mpr ⟨mem_sortBy.mpr hr, decide_eq_true rfl⟩
  obtain ⟨last, hlast⟩ : ∃ last, ((sortRequests run.2).filter
      (·.memoKey = r.memoKey)).getLast? = some last :=
    ⟨_, List.getLast?_eq_some_getLast (List.ne_nil_of_mem hmem)⟩
  obtain ⟨hlastMem, hkey⟩ := List.mem_filter.mp (List.mem_of_getLast? hlast)
  rw [hlast, Option.map_some]
  cases hanswer : answer budgets history run r with
  | some result => rfl
  | none =>
    have hnone := answer_eq_none.mp hanswer
    rw [hsteady.alike r hr last (mem_sortBy.mp hlastMem) (of_decide_eq_true hkey).symm hnone]

omit hhistory in
theorem resultsOf_none {k : MemoKey} (hk : ∀ r ∈ run.2, r.memoKey ≠ k) :
    resultsOf budgets history run k = none := by
  have hnil : (sortRequests run.2).filter (·.memoKey = k) = [] := by
    rw [List.filter_eq_nil_iff]
    intro r hr hkey
    exact hk r (mem_sortBy.mp hr) (of_decide_eq_true hkey)
  rw [resultsOf_eq, served_results hrun, hnil, List.getLast?_nil, Option.map_none]

omit hhistory in
/-- The step budget has a step where a run within it has a request. -/
theorem worklistSteps_pos {r : ContextRequest} (hr : r ∈ run.2) : 0 < budgets.worklistSteps := by
  obtain ⟨front, back, hsplit⟩ := List.append_of_mem (mem_sortBy.mpr hr : r ∈ sortRequests run.2)
  rcases hrun front r back hsplit with hmemo | hsteps
  · exact served_memo_pos memoBefore_pos _ hmemo
  · omega

end

theorem withinBudget_single {history : List Run} {r : ContextRequest}
    (hpos : 0 < budgets.worklistSteps) : WithinBudget budgets history (env, [r]) := by
  rintro front r' back hsplit
  cases front with
  | nil => exact Or.inr hpos
  | cons r'' front =>
    have hlength := congrArg List.length hsplit
    simp [sortRequests, sortBy] at hlength

/-- A fresh worklist answers one request from its leaf, or with the limit of its path. -/
theorem fresh_result {r : ContextRequest} (hpos : 0 < budgets.worklistSteps) :
    resultsOf budgets [] (env, [r]) r.memoKey =
      some (if r.blocked budgets then cycleOrLimitResult r.memoKey r.linkingLimit
        else dispatchLeaf env r budgets) := by
  have hhistory : AllWithinBudget budgets [] := by
    rintro front run later h
    simp at h
  have hrun : WithinBudget budgets [] (env, [r]) := withinBudget_single hpos
  have hnone : ∀ k, askedBefore budgets [] env k = none := by
    intro k
    unfold askedBefore Asked.enter
    split_ifs <;> rfl
  have hsteady : Steady budgets [] (env, [r]) := by
    refine ⟨fun r' _ _ env' h => ?_, fun r' hr' _ h => ?_, fun r' hr' r'' hr'' _ _ => ?_⟩
    · rw [hnone] at h
      cases h
    · rcases h with h | ⟨r'', hr'', hasks⟩
      · exact absurd (hnone _) h
      · rw [List.mem_singleton.mp hr', ← List.mem_singleton.mp hr'']
        exact (asks_iff.mp hasks).2
    · rw [List.mem_singleton.mp hr', List.mem_singleton.mp hr'']
  rw [resultsOf_request hhistory hrun hsteady List.mem_cons_self, answer, hnone]
  cases hblocked : r.blocked budgets <;> simp [asks, hblocked]

/-- The order of the requests does not matter, and every request off a cycle has the result of a
fresh worklist. -/
def AnswersFresh (budgets : ContextBudgets) (history : List Run) (run : Run) : Prop :=
  (∀ requests, requests.Perm run.2 → WithinBudget budgets history (run.1, requests) →
    resultsOf budgets history (run.1, requests) = resultsOf budgets history run) ∧
  ∀ r ∈ run.2, r.cyclic = false → resultsOf budgets history run r.memoKey =
    ((ContextWorklist.new budgets).run run.1 [r]).1.results r.memoKey

namespace Sample

def builtParagraphs : BuiltIndex :=
  ⟨paragraphIndex, cyrillic, docVersion, twoParagraphs, build_paragraphIndex⟩

def emptyOverlay : DocumentAnalysisOverlay := ⟨docVersion, [], [], [], []⟩

def orgClaim : RequisitesClaim :=
  ⟨"a", "v", .org, "X", .documentHead, "p", .observed, rfl, rfl⟩

def typeClaim : RequisitesClaim :=
  ⟨"b", "v", .type, "Y", .documentHead, "p", .observed, rfl, rfl⟩

/-- A value that reads like the rest of one claim and the start of another. -/
def gluedClaim : RequisitesClaim :=
  ⟨"a", "v", .org, "X:DocumentHead/Observed/p|b:type:Y", .documentHead, "p", .observed,
    rfl, rfl⟩

def sidecarOf (claims : List RequisitesClaim) : Option CurrentDocumentRequisites :=
  (CurrentDocumentRequisites.tryNew "v" claims).toOption

def withSidecar (claims : List RequisitesClaim) : ContextEnvironment :=
  ⟨builtParagraphs, emptyOverlay, sidecarOf claims⟩

def selfReference : ContextRequest :=
  ⟨.currentDocumentRequisites, "", ⟨"block-1-frame-0", isContextId_tail⟩, [], none, none, [], 0,
    "authorized-fields", some (.new [.type])⟩

def defaultBudgets : ContextBudgets := ⟨4, 4, 8, 64⟩

def once (env : ContextEnvironment) : List Run := [(env, [selfReference])]

theorem stale_authorization : (resultsOf defaultBudgets (once (withSidecar [orgClaim, typeClaim]))
    (withSidecar [gluedClaim], [selfReference]) selfReference.memoKey).map (·.status) =
      some .resolved := by decide

theorem fresh_refusal : ((ContextWorklist.new defaultBudgets).run (withSidecar [gluedClaim])
    [selfReference]).1.results selfReference.memoKey =
      resultsOf defaultBudgets [] (withSidecar [gluedClaim], [selfReference])
        selfReference.memoKey := rfl

theorem fresh_refusal_status : (resultsOf defaultBudgets []
    (withSidecar [gluedClaim], [selfReference]) selfReference.memoKey).map (·.status) =
      some .partialContext := by decide

theorem allWithinBudget_once (env : ContextEnvironment) :
    AllWithinBudget defaultBudgets [(env, [selfReference])] := by
  rintro front run later hsplit
  cases front with
  | nil =>
    cases hsplit
    exact withinBudget_single (by decide)
  | cons run' front => simp at hsplit

def withoutSidecar : ContextEnvironment := ⟨builtParagraphs, emptyOverlay, none⟩

end Sample

end LawNexus.Decode
