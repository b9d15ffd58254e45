import LawNexus.Publish.Authority

/-!
# Exclusive publication authority

Whatever the ledger does, a scope has one unit and one writer.
-/

namespace LawNexus.Publish

open Calls Publisher

variable {ℓ : Type} {port : PublicationLedgerPort ℓ} {s s' : Publisher ℓ} {request : PublishRequest}
  {call : Call}

/-! ## The three maps -/

/-- The maps tell of the same units. -/
structure Consistent (s : Publisher ℓ) : Prop where
  operation : ∀ {id r}, s.operation id = some r →
    r.operationId = id ∧ s.scope r.scopeId = some r ∧ r.publicationAuthority = some .sealed
  scope : ∀ {id r}, s.scope id = some r →
    r.scopeId = id ∧ s.operation r.operationId = some r ∧ s.writerForScope id = some r.writerId
  writer : ∀ {id w}, s.writerForScope id = some w → (s.scope id).isSome

theorem consistent_new (ledger : ℓ) : Consistent (new ledger) where
  operation h := by cases h
  scope h := by cases h
  writer h := by cases h

section

variable (port s request)

theorem operation_mint (id : OperationId) : (mint port s request).2.operation id =
    if id = request.operationId then some (recordOf request (h1Unit (s.nextUnitSeq + 1)))
    else s.operation id := s.byOperation.get_insert _ _ _

theorem scope_mint (id : ScopeId) : (mint port s request).2.scope id =
    if id = request.scopeId then some (recordOf request (h1Unit (s.nextUnitSeq + 1)))
    else s.scope id := s.byScope.get_insert _ _ _

theorem writerForScope_mint (id : ScopeId) : (mint port s request).2.writerForScope id =
    if id = request.scopeId then some request.writerId else s.writerForScope id :=
  s.writers.get_insert _ _ _

end

theorem Consistent.mint (h : Consistent s) (hoperation : s.operation request.operationId = none)
    (hscope : s.scope request.scopeId = none) : Consistent (mint port s request).2 where
  operation := by
    intro id r hr
    rw [operation_mint] at hr
    rw [scope_mint]
    split_ifs at hr with hid
    · obtain rfl := Option.some.inj hr
      exact ⟨hid.symm, if_pos rfl, rfl⟩
    · obtain ⟨hrid, hrscope, hauthority⟩ := h.operation hr
      refine ⟨hrid, ?_, hauthority⟩
      rw [if_neg, hrscope]
      intro heq
      rw [heq, hscope] at hrscope
      cases hrscope
  scope := by
    intro id r hr
    rw [scope_mint] at hr
    rw [operation_mint, writerForScope_mint]
    split_ifs at hr with hid
    · obtain rfl := Option.some.inj hr
      exact ⟨hid.symm, if_pos rfl, if_pos hid⟩
    · obtain ⟨hrid, hroperation, hwriter⟩ := h.scope hr
      refine ⟨hrid, ?_, by rw [if_neg hid, hwriter]⟩
      rw [if_neg, hroperation]
      intro heq
      rw [heq, hoperation] at hroperation
      cases hroperation
  writer := by
    intro id w hw
    rw [writerForScope_mint] at hw
    rw [scope_mint]
    split_ifs at hw ⊢ with hid
    · rfl
    · exact h.writer hw

theorem Consistent.step (h : Consistent s) : Consistent (step port s call).2 := by
  cases call with
  | publish request =>
    change Consistent (publish port s request).2
    cases hpublish : publish port s request
    rename_i answer s'
    have hcases := publishes port s request
    rw [hpublish] at hcases
    cases hcases with
    | refused => exact h
    | operation => exact h
    | scope => exact h
    | minted _ hoperation hscope => exact h.mint hoperation hscope
  | cancel operationId writerId => exact h
  | fail request => exact h

/-! ## Unit numbers -/

/-- The units are numbered up to the counter, and no number is given twice. -/
structure Counted (s : Publisher ℓ) : Prop where
  number : ∀ {id r}, s.scope id = some r →
    ∃ n, r.h1UnitId = h1Unit n ∧ n.toNat ≤ s.nextUnitSeq.toNat
  unit : ∀ {id id' r r'}, s.scope id = some r → s.scope id' = some r' →
    r.h1UnitId = r'.h1UnitId → id = id'

theorem counted_new (ledger : ℓ) : Counted (new ledger) where
  number h := by cases h
  unit h := by cases h

theorem Counted.mint (h : Counted s) (hseq : s.nextUnitSeq.toNat + 1 < 2 ^ 64) :
    Counted (mint port s request).2 := by
  have hnext : (s.nextUnitSeq + 1).toNat = s.nextUnitSeq.toNat + 1 := by
    rw [UInt64.toNat_add, UInt64.toNat_one, Nat.mod_eq_of_lt hseq]
  -- A unit of the state before has another number than the new one.
  have hfresh : ∀ {id r}, s.scope id = some r → r.h1UnitId ≠ h1Unit (s.nextUnitSeq + 1) := by
    intro id r hr heq
    obtain ⟨n, hn, hle⟩ := h.number hr
    rw [hn, h1Unit_inj] at heq
    rw [heq, hnext] at hle
    omega
  constructor
  · intro id r hr
    rw [scope_mint] at hr
    change ∃ n, _ ∧ _ ≤ (s.nextUnitSeq + 1).toNat
    split_ifs at hr
    · obtain rfl := Option.some.inj hr
      exact ⟨_, rfl, le_rfl⟩
    · obtain ⟨n, hn, hle⟩ := h.number hr
      exact ⟨n, hn, by omega⟩
  · intro id id' r r' hr hr' heq
    rw [scope_mint] at hr hr'
    split_ifs at hr hr' with hid hid' hid'
    · rw [hid, hid']
    · obtain rfl := Option.some.inj hr
      exact absurd heq.symm (hfresh hr')
    · obtain rfl := Option.some.inj hr'
      exact absurd heq (hfresh hr)
    · exact h.unit hr hr' heq

/-! ## One call -/

/-- A scope that has a unit keeps it, with its writer. -/
def Keeps (s s' : Publisher ℓ) : Prop :=
  (∀ id r, s.scope id = some r → s'.scope id = some r) ∧
    ∀ id r, s.operation id = some r → s'.operation id = some r

theorem keeps_refl (s : Publisher ℓ) : Keeps s s := ⟨fun _ _ h => h, fun _ _ h => h⟩

theorem Keeps.trans {s s' s'' : Publisher ℓ} (h : Keeps s s') (h' : Keeps s' s'') : Keeps s s'' :=
  ⟨fun id r hr => h'.1 id r (h.1 id r hr), fun id r hr => h'.2 id r (h.2 id r hr)⟩

theorem keeps_mint (hoperation : s.operation request.operationId = none)
    (hscope : s.scope request.scopeId = none) : Keeps s (mint port s request).2 := by
  constructor
  · intro id r hr
    rw [scope_mint, if_neg, hr]
    rintro rfl
    cases hscope.symm.trans hr
  · intro id r hr
    rw [operation_mint, if_neg, hr]
    rintro rfl
    cases hoperation.symm.trans hr

theorem keeps_step (port : PublicationLedgerPort ℓ) (s : Publisher ℓ) (call : Call) :
    Keeps s (step port s call).2 := by
  cases call with
  | publish request =>
    change Keeps s (publish port s request).2
    cases hpublish : publish port s request
    have hcases := publishes port s request
    rw [hpublish] at hcases
    cases hcases with
    | refused => exact keeps_refl s
    | operation => exact keeps_refl s
    | scope => exact keeps_refl s
    | minted _ hoperation hscope => exact keeps_mint hoperation hscope
  | cancel operationId writerId => exact keeps_refl s
  | fail request => exact keeps_refl s

/-- The answer names the writer and the unit of the scope it reports. -/
def Names (s : Publisher ℓ) (answer : PublicationResult) : Prop :=
  s.writerForScope answer.scopeId = some answer.writerId ∧
    ∃ unit, answer.h1UnitId = some unit ∧ s.unitForScope answer.scopeId = some unit

theorem names_of_scope (h : Consistent s) (answer : PublicationResult) {r : PublicationRecord}
    (hr : s.scope answer.scopeId = some r) (hwriter : answer.writerId = r.writerId)
    (hunit : answer.h1UnitId = some r.h1UnitId) : Names s answer :=
  ⟨by rw [(h.scope hr).2.2, hwriter], _, hunit, by rw [unitForScope, hr, Option.map_some]⟩

/-- What an answer names, it names from then on. -/
theorem Names.keep {answer : PublicationResult} (h : Names s answer) (hs : Consistent s)
    (hs' : Consistent s') (hkeeps : Keeps s s') : Names s' answer := by
  obtain ⟨hwriter, unit, hanswer, hunit⟩ := h
  obtain ⟨r, hr, rfl⟩ := Option.map_eq_some_iff.mp hunit
  rw [(hs.scope hr).2.2] at hwriter
  exact names_of_scope hs' answer (hkeeps.1 _ _ hr) (Option.some.inj hwriter).symm hanswer

/-- A publish with authority answers for the writer and the unit of its scope. -/
theorem names_publish (h : Consistent s) (hanswer : (publish port s request).1.authoritative = true) :
    Names (publish port s request).2 (publish port s request).1 := by
  cases hpublish : publish port s request
  have hcases := publishes port s request
  rw [hpublish] at hcases hanswer
  cases hcases with
  | refused hrefusal => cases hrefusal.1.symm.trans hanswer
  | operation _ hoperation hscope hmatches =>
    obtain ⟨-, hr, -⟩ := h.operation hoperation
    rw [hscope] at hr
    exact names_of_scope h (repeated request _) hr hmatches.writer.symm rfl
  | scope _ hoperation hscope hmatches =>
    exact names_of_scope h (repeated request _) hscope hmatches.writer.symm rfl
  | minted _ hoperation hscope =>
    have hr := scope_mint port s request request.scopeId
    rw [if_pos rfl] at hr
    exact names_of_scope (h.mint hoperation hscope) (mint port s request).1 hr rfl rfl

/-! ## Runs -/

/-- A cancel of a published operation by its writer, or a publish that finds a unit number left. -/
def Careful (s : Publisher ℓ) : Call → Prop
  | .publish _ => s.nextUnitSeq.toNat + 1 < 2 ^ 64
  | .cancel operationId writerId => ∀ r ∈ s.operation operationId, r.writerId = writerId
  | .fail _ => True

theorem Counted.step (h : Counted s) (hcareful : Careful s call) :
    Counted (step port s call).2 := by
  cases call with
  | publish request =>
    change Counted (publish port s request).2
    cases hpublish : publish port s request
    have hcases := publishes port s request
    rw [hpublish] at hcases
    cases hcases with
    | refused => exact h
    | operation => exact h
    | scope => exact h
    | minted => exact h.mint hcareful
  | cancel operationId writerId => exact h
  | fail request => exact h

/-- A careful call that answers with authority answers for the writer and the unit of its scope. -/
theorem names_step (h : Consistent s) (hcareful : Careful s call)
    (hanswer : (step port s call).1.authoritative = true) :
    Names (step port s call).2 (step port s call).1 := by
  cases call with
  | publish request => exact names_publish h hanswer
  | cancel operationId writerId =>
    change (cancel s operationId writerId).authoritative = true at hanswer
    change Names s (cancel s operationId writerId)
    cases hoperation : s.operation operationId with
    | none =>
      rw [cancel, hoperation] at hanswer
      cases hanswer
    | some r =>
      rw [cancel, hoperation]
      exact names_of_scope h _ (h.operation hoperation).2.1 (hcareful r hoperation).symm rfl
  | fail request => cases hanswer

/-- A call that answers with no authority changes nothing. -/
theorem step_of_refused
    (hanswer : (step port s call).1.outcome ≠ .published ∧ (step port s call).1.outcome ≠ .duplicate) :
    (step port s call).2 = s := by
  cases call with
  | publish request =>
    change (publish port s request).2 = s
    replace hanswer : (publish port s request).1.outcome ≠ .published := hanswer.1
    cases hpublish : publish port s request
    have hcases := publishes port s request
    rw [hpublish] at hcases hanswer
    cases hcases with
    | refused => rfl
    | operation => rfl
    | scope => rfl
    | minted => exact absurd rfl hanswer
  | cancel operationId writerId => rfl
  | fail request => rfl

theorem consistent_after (ledger : ℓ) (calls : List Call) :
    Consistent (after (step port) (new ledger) calls) ∧
      ∀ t ∈ turns (step port) (new ledger) calls, Consistent t.before ∧ Consistent t.after :=
  invariant (consistent_new ledger) fun t ht h => by
    rw [eq_turn ht]
    exact h.step

theorem keeps_turn {calls : List Call} {t : Turn (Publisher ℓ) Call PublicationResult}
    (ht : t ∈ turns (step port) s calls) : Keeps t.before t.after := by
  rw [eq_turn ht]
  exact keeps_step port t.before t.call

theorem keeps_after (calls : List Call) : Keeps s (after (step port) s calls) :=
  related keeps_refl Keeps.trans fun _ ht => keeps_turn ht

/-- A run over careful calls, in two parts: units and writers stay, scopes share no unit, and each
answer with authority names the writer and the unit that its scope has at the end. -/
theorem exclusive (port : PublicationLedgerPort ℓ) (ledger : ℓ) (calls more : List Call)
    (hcareful : ∀ t ∈ turns (step port) (new ledger) (calls ++ more), Careful t.before t.call) :
    let s := after (step port) (new ledger) calls
    let s' := after (step port) (new ledger) (calls ++ more)
    (∀ scope unit, s.unitForScope scope = some unit → s'.unitForScope scope = some unit) ∧
    (∀ scope writer, s.writerForScope scope = some writer → s'.writerForScope scope = some writer) ∧
    (∀ scope scope' unit, s.unitForScope scope = some unit → s.unitForScope scope' = some unit →
      scope = scope') ∧
    (∀ t ∈ turns (step port) (new ledger) (calls ++ more),
      t.answer.outcome ≠ .published → t.answer.outcome ≠ .duplicate → t.after = t.before) ∧
    ∀ t ∈ turns (step port) (new ledger) (calls ++ more),
      t.answer.authoritative = true → Names s' t.answer := by
  intro s s'
  have hend : s' = after (step port) s more := after_append
  have hkeeps : Keeps s s' := hend ▸ keeps_after more
  have hconsistent := @consistent_after ℓ port ledger calls
  have hcounted : Counted s := by
    refine (invariant (counted_new ledger) fun t ht h => ?_).1
    have hmem : t ∈ turns (step port) (new ledger) (calls ++ more) := by
      rw [turns_append]
      exact List.mem_append_left _ ht
    rw [eq_turn ht]
    exact h.step (hcareful t hmem)
  refine ⟨?_, ?_, ?_, ?_, ?_⟩
  · intro scope unit h
    obtain ⟨r, hr, rfl⟩ := Option.map_eq_some_iff.mp h
    exact Option.map_eq_some_iff.mpr ⟨r, hkeeps.1 scope r hr, rfl⟩
  · intro scope writer h
    obtain ⟨r, hr⟩ := Option.isSome_iff_exists.mp (hconsistent.1.writer h)
    have hr' := hkeeps.1 scope r hr
    rw [((@consistent_after ℓ port ledger (calls ++ more)).1.scope hr').2.2,
      ← (hconsistent.1.scope hr).2.2, h]
  · intro scope scope' unit h h'
    obtain ⟨r, hr, rfl⟩ := Option.map_eq_some_iff.mp h
    obtain ⟨r', hr', heq⟩ := Option.map_eq_some_iff.mp h'
    exact hcounted.unit hr hr' heq.symm
  · intro t ht hpublished hduplicate
    rw [eq_turn ht] at hpublished hduplicate ⊢
    exact step_of_refused ⟨hpublished, hduplicate⟩
  · intro t ht hanswer
    obtain ⟨hlast, hturns⟩ := @consistent_after ℓ port ledger (calls ++ more)
    have hsafe := hcareful t ht
    have hkept := (related_turn keeps_refl Keeps.trans (fun t ht => keeps_turn ht) ht).2
    refine Names.keep ?_ (hturns t ht).2 hlast hkept
    have hbefore := (hturns t ht).1
    rw [eq_turn ht] at hanswer ⊢
    exact names_step hbefore hsafe hanswer

namespace Sample

/-! ### A cancel by another writer -/

def deaf : PublicationLedgerPort Unit := ⟨fun ledger _ => ledger⟩

def writer : WriterId := ⟨"writer:a", rfl⟩

def requestFor (operationId : OperationId) (scopeId : ScopeId) : PublishRequest :=
  ⟨operationId, writer, scopeId, ⟨"cutoff:1", rfl⟩, ⟨"rules:1", rfl⟩, ⟨"digest:1", rfl⟩, .complete⟩

def first : PublishRequest := requestFor ⟨"op:first", rfl⟩ ⟨"scope:1", rfl⟩

/-- Another writer is told that it has authority over the unit. -/
theorem cancelled_by_other :
    let s := after (step deaf) (new ()) [.publish first]
    let answer := (step deaf s (.cancel first.operationId ⟨"writer:b", rfl⟩)).1
    answer.authoritative = true ∧ answer.scopeId = first.scopeId ∧
      answer.writerId = ⟨"writer:b", rfl⟩ ∧ s.writerForScope first.scopeId = some writer := by
  decide

/-- The unit of the scope, and its writer, are the first ones. -/
theorem published : ∃ unit, (after (step deaf) (new ()) ([.publish first] ++ [.fail first])).unitForScope
    first.scopeId = some unit := by
  refine ⟨h1Unit 1, (exclusive deaf () [.publish first] [.fail first] fun t ht => ?_).1 _ _ rfl⟩
  rcases List.mem_cons.mp ht with rfl | ht
  · exact (by decide : (0 : UInt64).toNat + 1 < 2 ^ 64)
  · obtain rfl := List.mem_singleton.mp ht
    trivial

end Sample

end LawNexus.Publish
