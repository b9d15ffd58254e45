import LawNexus.Publish.Exclusive

/-!
# Sticky operations

An operation that was answered with a unit stays with it, where every answer is remembered.
-/

namespace LawNexus.Publish

open Calls Publisher

variable {ℓ : Type} {port : PublicationLedgerPort ℓ} {s : Publisher ℓ} {request : PublishRequest}
  {call : Call}

abbrev PublishTurn (ℓ : Type) := Turn (Publisher ℓ) Call PublicationResult

/-- The record of an operation tells the whole request. -/
def Remembers (s : Publisher ℓ) (request : PublishRequest) (unit : H1UnitId) : Prop :=
  ∃ r, s.operation request.operationId = some r ∧ r.scopeId = request.scopeId ∧ Matches request r ∧
    r.h1UnitId = unit ∧ request.completeness.isComplete = true

/-- A complete publish of an unknown operation that no unit of its scope matches. -/
def Unmatched (s : Publisher ℓ) : Call → Prop
  | .publish request => request.completeness.isComplete = true →
    s.operation request.operationId = none → ∀ r ∈ s.scope request.scopeId, ¬ Matches request r
  | _ => True

/-! ## One publish -/

theorem publish_of_incomplete (h : ¬ request.completeness.isComplete = true) :
    publish port s request = (finish request .incomplete none false none, s) := if_neg h

theorem publish_of_operation {r : PublicationRecord} (hcomplete : request.completeness.isComplete = true)
    (h : s.operation request.operationId = some r) :
    publish port s request = (handleExistingOperation request r, s) := by
  rw [publish, if_pos hcomplete, h]

/-- A publish that was answered with a unit is remembered. -/
theorem remembers_publish (hunmatched : Unmatched s (.publish request)) {unit : H1UnitId}
    (houtcome : (publish port s request).1.outcome = .published ∨
      (publish port s request).1.outcome = .duplicate)
    (hunit : (publish port s request).1.h1UnitId = some unit) :
    Remembers (publish port s request).2 request unit := by
  cases hpublish : publish port s request
  have hcases := publishes port s request
  rw [hpublish] at hcases houtcome hunit
  cases hcases with
  | refused hrefusal => exact absurd houtcome (not_or.mpr hrefusal.2)
  | operation hcomplete hoperation hscope hmatches =>
    exact ⟨_, hoperation, hscope, hmatches, Option.some.inj hunit, hcomplete⟩
  | scope hcomplete hoperation hscope hmatches =>
    exact absurd hmatches (hunmatched hcomplete hoperation _ hscope)
  | minted hcomplete hoperation hscope =>
    have hr := operation_mint port s request request.operationId
    rw [if_pos rfl] at hr
    exact ⟨_, hr, rfl, ⟨rfl, rfl, rfl, rfl⟩, Option.some.inj hunit, hcomplete⟩

theorem eq_of_matches {request' : PublishRequest} {r : PublicationRecord}
    (hoperation : request'.operationId = request.operationId)
    (hcomplete : request.completeness.isComplete = true)
    (hcomplete' : request'.completeness.isComplete = true) (hscope : r.scopeId = request.scopeId)
    (hscope' : r.scopeId = request'.scopeId) (h : Matches request r) (h' : Matches request' r) :
    request' = request := by
  have hevidence := of_decide_eq_true hcomplete
  have hevidence' := of_decide_eq_true hcomplete'
  cases request
  cases request'
  simp only [PublishRequest.mk.injEq]
  exact ⟨hoperation, h'.writer.symm.trans h.writer, hscope'.symm.trans hscope,
    h'.cutoff.symm.trans h.cutoff, h'.rules.symm.trans h.rules, h'.digest.symm.trans h.digest,
    hevidence'.trans hevidence.symm⟩

/-- The same request again is a duplicate, any other one for the operation is refused. -/
theorem publish_of_remembers {unit : H1UnitId} (h : Remembers s request unit)
    {request' : PublishRequest} (hoperation : request'.operationId = request.operationId) :
    (request' = request → (publish port s request').1.outcome = .duplicate ∧
      (publish port s request').1.h1UnitId = some unit) ∧
    (request' ≠ request → (publish port s request').1.outcome = .conflict ∨
      (publish port s request').1.outcome = .competingWriterRejected ∨
      (publish port s request').1.outcome = .incomplete ∧
        request'.completeness.isComplete = false) := by
  obtain ⟨r, hr, hscope, hmatches, rfl, hcomplete⟩ := h
  constructor
  · rintro rfl
    rw [publish_of_operation hcomplete hr, handleExistingOperation_of_matches hscope hmatches]
    exact ⟨rfl, rfl⟩
  · intro hne
    by_cases hcomplete' : request'.completeness.isComplete = true
    · rw [publish_of_operation hcomplete' (hoperation ▸ hr)]
      have hother : ¬ (r.scopeId = request'.scopeId ∧ Matches request' r) := by
        rintro ⟨hscope', hmatches'⟩
        exact hne (eq_of_matches hoperation hcomplete hcomplete' hscope hscope' hmatches hmatches')
      rcases (handleExistingOperation_of_not hother).2 with h | h
      · exact .inl h
      · exact .inr (.inl h)
    · rw [publish_of_incomplete hcomplete']
      exact .inr (.inr ⟨rfl, Bool.eq_false_iff.mpr hcomplete'⟩)

/-! ## Runs -/

/-- A publish that was answered with a unit. -/
def Granted (t : PublishTurn ℓ) (request : PublishRequest) (unit : H1UnitId) : Prop :=
  t.call = .publish request ∧ (t.answer.outcome = .published ∨ t.answer.outcome = .duplicate) ∧
    t.answer.h1UnitId = some unit

/-- What a turn that grants a unit means for a later one. -/
def Binds (t t' : PublishTurn ℓ) : Prop :=
  ∀ request unit, Granted t request unit →
    (∀ request', t'.call = .publish request' → request'.operationId = request.operationId →
      (request' = request → t'.answer.outcome = .duplicate ∧ t'.answer.h1UnitId = some unit) ∧
      (request' ≠ request → t'.answer.outcome = .conflict ∨
        t'.answer.outcome = .competingWriterRejected ∨
        t'.answer.outcome = .incomplete ∧ request'.completeness.isComplete = false)) ∧
    ∀ writer, t'.call = .cancel request.operationId writer → t'.answer.outcome ≠ .cancelled

/-- An answer with authority is for the unit of its operation. -/
theorem operation_of_authoritative (hunmatched : Unmatched s call)
    (hanswer : (step port s call).1.authoritative = true) :
    ∃ r, (step port s call).2.operation (step port s call).1.operationId = some r ∧
      (step port s call).1.h1UnitId = some r.h1UnitId := by
  cases call with
  | publish request =>
    change (publish port s request).1.authoritative = true at hanswer
    change ∃ r, (publish port s request).2.operation (publish port s request).1.operationId =
      some r ∧ (publish port s request).1.h1UnitId = some r.h1UnitId
    cases hpublish : publish port s request
    have hcases := publishes port s request
    rw [hpublish] at hcases hanswer
    cases hcases with
    | refused hrefusal => cases hrefusal.1.symm.trans hanswer
    | operation _ hoperation => exact ⟨_, hoperation, rfl⟩
    | scope hcomplete hoperation hscope hmatches =>
      exact absurd hmatches (hunmatched hcomplete hoperation _ hscope)
    | minted =>
      have hr := operation_mint port s request request.operationId
      rw [if_pos rfl] at hr
      exact ⟨_, hr, rfl⟩
  | cancel operationId writerId =>
    change (cancel s operationId writerId).authoritative = true at hanswer
    change ∃ r, s.operation (cancel s operationId writerId).operationId = some r ∧
      (cancel s operationId writerId).h1UnitId = some r.h1UnitId
    cases hoperation : s.operation operationId with
    | none =>
      rw [cancel, hoperation] at hanswer
      cases hanswer
    | some r =>
      rw [cancel, hoperation]
      exact ⟨r, hoperation, rfl⟩
  | fail request => cases hanswer

/-- A run where no publish is answered for a unit of another operation: every grant binds the later
turns, and an operation has authority over one unit. -/
theorem sticky (port : PublicationLedgerPort ℓ) (ledger : ℓ) (calls : List Call)
    (hunmatched : ∀ t ∈ turns (step port) (new ledger) calls, Unmatched t.before t.call) :
    (turns (step port) (new ledger) calls).Pairwise Binds ∧
    ∀ t ∈ turns (step port) (new ledger) calls, ∀ t' ∈ turns (step port) (new ledger) calls,
      t.answer.authoritative = true → t'.answer.authoritative = true →
        t.answer.operationId = t'.answer.operationId → t.answer.h1UnitId = t'.answer.h1UnitId := by
  constructor
  · refine pairwise (q := fun t s => ∀ request unit, Granted t request unit →
      Remembers s request unit) ?_ ?_ ?_
    · rintro t ht request unit ⟨hcall, houtcome, hunit⟩
      have hfresh := hunmatched t ht
      rw [hcall] at hfresh
      have hturn := eq_turn ht
      rw [hcall] at hturn
      rw [hturn] at houtcome hunit ⊢
      exact remembers_publish hfresh houtcome hunit
    · intro t t' ht' hq request unit h
      obtain ⟨r, hr, hrest⟩ := hq request unit h
      exact ⟨r, (keeps_turn ht').2 _ r hr, hrest⟩
    · intro t t' ht' hq request unit h
      have hremembers := hq request unit h
      have hturn := eq_turn ht'
      constructor
      · intro request' hcall hoperation
        rw [hcall] at hturn
        rw [hturn]
        exact publish_of_remembers hremembers hoperation
      · intro writer hcall houtcome
        obtain ⟨r, hr, -⟩ := hremembers
        rw [hcall] at hturn
        rw [hturn] at houtcome
        change (cancel t'.before request.operationId writer).outcome = .cancelled at houtcome
        rw [cancel, hr] at houtcome
        cases houtcome
  · -- Both answers are for the record that their operation has at the end.
    have hrecord : ∀ t ∈ turns (step port) (new ledger) calls, t.answer.authoritative = true →
        ∃ r, (after (step port) (new ledger) calls).operation t.answer.operationId = some r ∧
          t.answer.h1UnitId = some r.h1UnitId := by
      intro t ht hanswer
      have hkept := (related_turn keeps_refl Keeps.trans (fun t ht => keeps_turn ht) ht).2
      have hfresh := hunmatched t ht
      have hturn := eq_turn ht
      have hafter : t.after = (step port t.before t.call).2 := congrArg Turn.after hturn
      have hanswer' : t.answer = (step port t.before t.call).1 := congrArg Turn.answer hturn
      rw [hanswer'] at hanswer ⊢
      obtain ⟨r, hr, hunit⟩ := operation_of_authoritative hfresh hanswer
      rw [← hafter] at hr
      exact ⟨r, hkept.2 _ r hr, hunit⟩
    intro t ht t' ht' hanswer hanswer' hoperation
    obtain ⟨r, hr, hunit⟩ := hrecord t ht hanswer
    obtain ⟨r', hr', hunit'⟩ := hrecord t' ht' hanswer'
    rw [hoperation, hr'] at hr
    rw [hunit, hunit', Option.some.inj hr]

namespace Sample

/-! ### A duplicate that is not remembered -/

def second : PublishRequest := requestFor ⟨"op:second", rfl⟩ first.scopeId

def moved : PublishRequest := requestFor second.operationId ⟨"scope:2", rfl⟩

/-- The second operation is answered with the unit of the first one, can be cancelled, and gets
another unit after that. -/
theorem forgotten :
    (turns (step deaf) (new ()) [.publish first, .publish second, .cancel second.operationId writer,
      .publish moved]).map (fun t => (t.answer.outcome, t.answer.h1UnitId)) =
      [(.published, some (h1Unit 1)), (.duplicate, some (h1Unit 1)), (.cancelled, none),
        (.published, some (h1Unit 2))] := by decide

/-- A publish that is repeated binds the second answer. -/
theorem remembered :
    (turns (step deaf) (new ()) [.publish first, .publish first]).Pairwise Binds := by
  refine (sticky deaf () _ fun t ht => ?_).1
  rcases List.mem_cons.mp ht with rfl | ht
  · intro _ _ r hr
    cases hr
  · obtain rfl := List.mem_singleton.mp ht
    intro _ hnone
    cases hnone

end Sample

end LawNexus.Publish
