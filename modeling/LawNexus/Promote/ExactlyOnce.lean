import LawNexus.Promote.Commit

/-!
# Exactly-once promotion

Whatever the store does, an operation is committed once and stays bound to its input.
-/

namespace LawNexus.Promote

open Calls Promoter

variable {σ : Type} {port : PromotionStorePort σ} {s s' : Promoter σ} {call : Call}
  {opId : PromotionOpId} {acceptedSetId : AcceptedSetId} {inputDigest : InputDigest}

/-! ## The two maps -/

/-- What the maps and the counter have in common. -/
structure Consistent (s : Promoter σ) : Prop where
  counted : s.nextSeq.toNat = s.committed.len
  apart : ∀ {id r}, s.committed.get id = some r → s.attempts.get id = none
  attempt : ∀ {id r}, s.attempts.get id = some r → r.opId = id ∧ r.state ≠ .committed
  commit : ∀ {id r}, s.committed.get id = some r → r.opId = id ∧ r.state = .committed
  number : ∀ {id r}, s.committed.get id = some r →
    ∃ n, r.commitId = some (commitAt n) ∧ n.toNat ≤ s.nextSeq.toNat
  distinct : ∀ {id id' r r'}, s.committed.get id = some r → s.committed.get id' = some r' →
    r.commitId = r'.commitId → id = id'

theorem consistent_new (store : σ) : Consistent (new store) where
  counted := rfl
  apart h := by cases h
  attempt h := by cases h
  commit h := by cases h
  number h := by cases h
  distinct h := by cases h

theorem lookup_eq (s : Promoter σ) (opId : PromotionOpId) :
    s.lookup opId = (s.committed.get opId).or (s.attempts.get opId) := rfl

theorem lookup_of_committed {r : PromotionRecord} (h : s.committed.get opId = some r) :
    s.lookup opId = some r := by rw [lookup_eq, h, Option.some_or]

theorem lookup_of_none (h : s.committed.get opId = none) : s.lookup opId = s.attempts.get opId := by
  rw [lookup_eq, h, Option.none_or]

/-! ## What a call does -/

/-- What a call does: it answers and changes nothing, it opens, cancels or commits an attempt, or it
never returns. -/
inductive Does (port : PromotionStorePort σ) (s : Promoter σ) :
    Call → Option PromotionResult × Promoter σ → Prop
  | answered {call : Call} {answer : PromotionResult} (houtcome : answer.outcome ≠ .committed)
    (hid : answer.opId = call.opId)
    (hknown : call = .cancel call.opId ∨ (s.lookup call.opId).isSome)
    (hcommit : ∀ c, answer.commitId = some c → ∃ r, s.committed.get call.opId = some r ∧
      r.commitId = some c) : Does port s call (some answer, s)
  | opened {opId : PromotionOpId} {acceptedSetId : AcceptedSetId} {inputDigest : InputDigest}
    (store : σ) (hcommitted : s.committed.get opId = none)
    (hattempt : s.attempts.get opId = none) :
    Does port s (.begin opId acceptedSetId inputDigest) (some (bare .incomplete opId),
      { s with
        store
        attempts := s.attempts.insert opId
          ⟨opId, acceptedSetId, inputDigest, .inProgress, none, none, none⟩ })
  | cancelled {opId : PromotionOpId} (store : σ) {r : PromotionRecord}
    (hcommitted : s.committed.get opId = none) (hattempt : s.attempts.get opId = some r) :
    Does port s (.cancel opId) (some (bare .cancelled opId),
      { s with
        store
        attempts := (s.attempts.remove opId).insert opId
          ⟨opId, r.acceptedSetId, r.inputDigest, .cancelled, none, none, none⟩ })
  | minted {opId : PromotionOpId} {acceptedSetId : AcceptedSetId} {inputDigest : InputDigest}
    (store : σ) (hcommitted : s.committed.get opId = none)
    (hattempt : ∀ r ∈ s.attempts.get opId,
      r.acceptedSetId = acceptedSetId ∧ r.inputDigest = inputDigest)
    (hroom : s.committed.len + 1 < 2 ^ 64) :
    Does port s (.commit opId acceptedSetId inputDigest)
      (some ⟨.committed, opId, some (commitAt (s.nextSeq + 1)), some inputDigest, none⟩,
        { store
          committed := s.committed.insert opId
            (committedRecord (s.nextSeq + 1) opId acceptedSetId inputDigest)
          attempts := s.attempts.remove opId
          nextSeq := s.nextSeq + 1 })
  | aborted {call : Call} : Does port s call (none, s)

theorem handleExisting_spec {r : PromotionRecord} (hid : r.opId = call.opId)
    (hlookup : s.lookup call.opId = some r)
    (hcommit : s.committed.get call.opId = some r ∨ r.state ≠ .committed) :
    Does port s call (some (handleExisting r acceptedSetId inputDigest), s) := by
  have hknown : (s.lookup call.opId).isSome := by rw [hlookup, Option.isSome_some]
  unfold handleExisting
  split_ifs with hmismatch hstate
  · exact .answered nofun hid (.inr hknown) fun c hc => by cases hc
  · exact .answered nofun hid (.inr hknown) fun c hc =>
      ⟨r, hcommit.resolve_right (not_not.mpr hstate), hc⟩
  · exact .answered nofun hid (.inr hknown) fun c hc => by cases hc

theorem does_mint (hcommitted : s.committed.get opId = none)
    (hattempt : ∀ r ∈ s.attempts.get opId,
      r.acceptedSetId = acceptedSetId ∧ r.inputDigest = inputDigest) :
    Does port s (.commit opId acceptedSetId inputDigest)
      (mint port s opId acceptedSetId inputDigest) := by
  unfold mint
  split_ifs with hroom
  · exact .minted _ hcommitted hattempt hroom
  · exact .aborted

theorem does_begin (h : Consistent s) : Does port s (.begin opId acceptedSetId inputDigest)
    (step port s (.begin opId acceptedSetId inputDigest)) := by
  rw [step, begin]
  cases hlookup : s.lookup opId with
  | some r =>
    cases hcommitted : s.committed.get opId with
    | some r' =>
      obtain rfl := Option.some.inj ((lookup_of_committed hcommitted).symm.trans hlookup)
      exact handleExisting_spec (h.commit hcommitted).1 hlookup (.inl hcommitted)
    | none =>
      obtain ⟨hid, hstate⟩ := h.attempt ((lookup_of_none hcommitted).symm.trans hlookup)
      exact handleExisting_spec hid hlookup (.inr hstate)
  | none =>
    rw [lookup_eq, Option.or_eq_none_iff] at hlookup
    exact .opened _ hlookup.1 hlookup.2

theorem does_cancel (h : Consistent s) : Does port s (.cancel opId) (step port s (.cancel opId)) := by
  rw [step, cancel]
  cases hcommitted : s.committed.get opId with
  | some r => exact .answered nofun rfl (.inl rfl) fun c hc => ⟨r, hcommitted, hc⟩
  | none =>
    cases hattempt : s.attempts.get opId with
    | none => exact .answered nofun rfl (.inl rfl) fun c hc => by cases hc
    | some r =>
      obtain ⟨rfl, -⟩ := h.attempt hattempt
      exact .cancelled _ hcommitted hattempt

theorem does_commit (h : Consistent s) : Does port s (.commit opId acceptedSetId inputDigest)
    (step port s (.commit opId acceptedSetId inputDigest)) := by
  rw [step, commit]
  cases hcommitted : s.committed.get opId with
  | some r =>
    obtain ⟨hid, hstate⟩ := h.commit hcommitted
    have hlookup := lookup_of_committed hcommitted
    rw [hlookup]
    dsimp only
    rw [hstate]
    exact handleExisting_spec hid hlookup (.inl hcommitted)
  | none =>
    have hlookup := lookup_of_none hcommitted
    cases hattempt : s.attempts.get opId with
    | none =>
      rw [hlookup, hattempt]
      refine does_mint hcommitted fun r hr => ?_
      cases hattempt.symm.trans hr
    | some r =>
      have hstate := (h.attempt hattempt).2
      rw [hattempt] at hlookup
      rw [hlookup]
      dsimp only
      split
      · rename_i heq
        exact absurd heq hstate
      all_goals
        split_ifs with hmismatch
        · refine .answered nofun rfl (.inr ?_) fun c hc => by cases hc
          exact Option.isSome_iff_exists.mpr ⟨r, hlookup⟩
        · push Not at hmismatch
          refine does_mint hcommitted fun r' hr' => ?_
          obtain rfl := Option.some.inj (hattempt.symm.trans hr')
          exact hmismatch

theorem does_step (h : Consistent s) (call : Call) : Does port s call (step port s call) := by
  cases call with
  | begin opId acceptedSetId inputDigest => exact does_begin h
  | cancel opId => exact does_cancel h
  | commit opId acceptedSetId inputDigest => exact does_commit h

/-! ## What a call keeps -/

variable {answer : Option PromotionResult}

theorem next_toNat (h : Consistent s) (hroom : s.committed.len + 1 < 2 ^ 64) :
    (s.nextSeq + 1).toNat = s.nextSeq.toNat + 1 := by
  rw [UInt64.toNat_add, UInt64.toNat_one, Nat.mod_eq_of_lt (by rwa [h.counted])]

/-- No commit of the state before has the next number. -/
theorem Consistent.fresh (h : Consistent s) (hroom : s.committed.len + 1 < 2 ^ 64)
    {r : PromotionRecord} (hr : s.committed.get opId = some r) :
    r.commitId ≠ some (commitAt (s.nextSeq + 1)) := by
  intro heq
  obtain ⟨n, hn, hle⟩ := h.number hr
  rw [hn, Option.some.injEq, commitAt_inj] at heq
  rw [heq, next_toNat h hroom] at hle
  omega

theorem consistent_attempt (h : Consistent s) (store : σ) {record : PromotionRecord}
    {attempts : IdMap "promotion operation id" PromotionRecord}
    (hattempts : ∀ id r, attempts.get id = some r → s.attempts.get id = some r)
    (hcommitted : s.committed.get opId = none) (hid : record.opId = opId)
    (hstate : record.state ≠ .committed) :
    Consistent { s with store, attempts := attempts.insert opId record } where
  counted := h.counted
  apart := by
    intro id r hr
    change (attempts.insert opId record).get id = none
    rw [IdMap.get_insert, if_neg]
    · by_contra hne
      obtain ⟨r', hr'⟩ := Option.ne_none_iff_exists'.mp hne
      cases (h.apart hr).symm.trans (hattempts id r' hr')
    · rintro rfl
      cases hcommitted.symm.trans hr
  attempt := by
    intro id r hr
    replace hr : (attempts.insert opId record).get id = some r := hr
    rw [IdMap.get_insert] at hr
    split_ifs at hr with heq
    · obtain rfl := Option.some.inj hr
      exact ⟨hid.trans heq.symm, hstate⟩
    · exact h.attempt (hattempts id r hr)
  commit := h.commit
  number := h.number
  distinct := h.distinct

theorem Does.consistent (h : Consistent s) (hdoes : Does port s call (answer, s')) :
    Consistent s' := by
  cases hdoes with
  | answered => exact h
  | opened store hcommitted _ =>
    exact consistent_attempt h store (fun _ _ hr => hr) hcommitted rfl nofun
  | @cancelled opId store r hcommitted _ =>
    refine consistent_attempt h store (fun id r hr => ?_) hcommitted rfl nofun
    rw [IdMap.get_remove] at hr
    split_ifs at hr
    exact hr
  | @minted opId acceptedSetId inputDigest store hcommitted _ hroom =>
    have hget : ∀ id, (s.committed.insert opId
        (committedRecord (s.nextSeq + 1) opId acceptedSetId inputDigest)).get id =
          if id = opId then some (committedRecord (s.nextSeq + 1) opId acceptedSetId inputDigest)
          else s.committed.get id := fun id => s.committed.get_insert opId id _
    refine ⟨?_, ?_, ?_, ?_, ?_, ?_⟩
    · change (s.nextSeq + 1).toNat = (s.committed.insert _ _).len
      rw [next_toNat h hroom, IdMap.len_insert hcommitted, h.counted]
    · intro id r hr
      change (s.attempts.remove opId).get id = none
      rw [IdMap.get_remove]
      split_ifs with heq
      · rfl
      · rw [hget, if_neg heq] at hr
        exact h.apart hr
    · intro id r hr
      replace hr : (s.attempts.remove opId).get id = some r := hr
      rw [IdMap.get_remove] at hr
      split_ifs at hr
      exact h.attempt hr
    · intro id r hr
      rw [hget] at hr
      split_ifs at hr with heq
      · obtain rfl := Option.some.inj hr
        exact ⟨heq.symm, rfl⟩
      · exact h.commit hr
    · intro id r hr
      rw [hget] at hr
      change ∃ n : UInt64, _ ∧ n.toNat ≤ (s.nextSeq + 1).toNat
      rw [next_toNat h hroom]
      split_ifs at hr with heq
      · obtain rfl := Option.some.inj hr
        exact ⟨_, rfl, (next_toNat h hroom).le⟩
      · obtain ⟨n, hn, hle⟩ := h.number hr
        exact ⟨n, hn, by omega⟩
    · intro id id' r r' hr hr' heq
      rw [hget] at hr hr'
      split_ifs at hr hr' with hid hid' hid'
      · rw [hid, hid']
      · obtain rfl := Option.some.inj hr
        exact absurd heq.symm (h.fresh hroom hr')
      · obtain rfl := Option.some.inj hr'
        exact absurd heq (h.fresh hroom hr)
      · exact h.distinct hr hr' heq
  | aborted => exact h

/-- Commits stay, and operations stay bound to their input. -/
def Keeps (s s' : Promoter σ) : Prop :=
  (∀ id r, s.committed.get id = some r → s'.committed.get id = some r) ∧
    ∀ id r, s.lookup id = some r → ∃ r', s'.lookup id = some r' ∧
      r'.acceptedSetId = r.acceptedSetId ∧ r'.inputDigest = r.inputDigest

theorem keeps_refl (s : Promoter σ) : Keeps s s := ⟨fun _ _ h => h, fun _ r h => ⟨r, h, rfl, rfl⟩⟩

theorem Keeps.trans {s s' s'' : Promoter σ} (h : Keeps s s') (h' : Keeps s' s'') : Keeps s s'' := by
  refine ⟨fun id r hr => h'.1 id r (h.1 id r hr), fun id r hr => ?_⟩
  obtain ⟨r', hr', hset, hdigest⟩ := h.2 id r hr
  obtain ⟨r'', hr'', hset', hdigest'⟩ := h'.2 id r' hr'
  exact ⟨r'', hr'', hset'.trans hset, hdigest'.trans hdigest⟩

theorem Does.keeps (hdoes : Does port s call (answer, s')) : Keeps s s' := by
  cases hdoes with
  | answered => exact keeps_refl s
  | @opened opId acceptedSetId inputDigest store hcommitted hattempt =>
    refine ⟨fun _ _ h => h, fun id r hr => ⟨r, ?_, rfl, rfl⟩⟩
    rw [lookup_eq] at hr ⊢
    change (s.committed.get id).or ((s.attempts.insert opId _).get id) = some r
    rw [IdMap.get_insert, if_neg, hr]
    rintro rfl
    rw [hcommitted, hattempt] at hr
    cases hr
  | @cancelled opId store r hcommitted hattempt =>
    refine ⟨fun _ _ h => h, fun id r' hr' => ?_⟩
    rw [lookup_eq] at hr'
    change ∃ r'', (s.committed.get id).or (((s.attempts.remove opId).insert opId _).get id) =
      some r'' ∧ _
    rw [IdMap.get_insert, IdMap.get_remove]
    split_ifs with hid
    · rw [hid, hcommitted, hattempt] at hr'
      cases hr'
      rw [hid, hcommitted]
      exact ⟨_, rfl, rfl, rfl⟩
    · exact ⟨r', hr', rfl, rfl⟩
  | @minted opId acceptedSetId inputDigest store hcommitted hattempt =>
    constructor
    · intro id r hr
      refine (s.committed.get_insert opId id _).trans ?_
      rw [if_neg, hr]
      rintro rfl
      cases hcommitted.symm.trans hr
    · intro id r hr
      rw [lookup_eq] at hr
      change ∃ r', ((s.committed.insert opId _).get id).or ((s.attempts.remove opId).get id) =
        some r' ∧ _
      rw [IdMap.get_insert, IdMap.get_remove]
      split_ifs with hid
      · rw [hid, hcommitted, Option.none_or] at hr
        obtain ⟨hset, hdigest⟩ := hattempt r hr
        exact ⟨_, rfl, hset.symm, hdigest.symm⟩
      · exact ⟨r, hr, rfl, rfl⟩
  | aborted => exact keeps_refl s

/-! ## What an answer says -/

/-- The record of an operation is the one of this commit. -/
def Records (s : Promoter σ) (call : Call) (answer : PromotionResult) : Prop :=
  ∃ r, s.committed.get call.opId = some r ∧
    call = .commit call.opId r.acceptedSetId r.inputDigest ∧
    r.commitId = answer.commitId ∧ r.commitDigest = answer.commitDigest

theorem Does.records {answer : PromotionResult} (hdoes : Does port s call (some answer, s'))
    (houtcome : answer.outcome = .committed) : Records s' call answer := by
  cases hdoes with
  | answered hother => exact absurd houtcome hother
  | opened => cases houtcome
  | cancelled => cases houtcome
  | @minted opId acceptedSetId inputDigest store =>
    refine ⟨committedRecord (s.nextSeq + 1) opId acceptedSetId inputDigest, ?_, rfl, rfl, rfl⟩
    exact (s.committed.get_insert opId opId _).trans (if_pos rfl)

/-- The commit that an answer names is the one of its operation. -/
theorem Does.exists_commit {answer : PromotionResult} (hdoes : Does port s call (some answer, s'))
    {c : CommitId} (hc : answer.commitId = some c) :
    ∃ r, s'.committed.get answer.opId = some r ∧ r.commitId = some c := by
  cases hdoes with
  | answered _ hid _ hcommit =>
    rw [hid]
    exact hcommit c hc
  | opened => cases hc
  | cancelled => cases hc
  | @minted opId acceptedSetId inputDigest store =>
    refine ⟨committedRecord (s.nextSeq + 1) opId acceptedSetId inputDigest, ?_, hc⟩
    exact (s.committed.get_insert opId opId _).trans (if_pos rfl)

def isCommitted (answer : Option PromotionResult) : Bool := answer.any (·.outcome = .committed)

theorem isCommitted_iff {answer : Option PromotionResult} :
    isCommitted answer = true ↔ ∃ a, answer = some a ∧ a.outcome = .committed := by
  cases answer with
  | none => simp [isCommitted]
  | some a => simp [isCommitted]

theorem Does.committedCount (hdoes : Does port s call (answer, s')) :
    s'.committedCount = s.committedCount + if isCommitted answer then 1 else 0 := by
  cases hdoes with
  | answered hother => rw [if_neg (by simpa [isCommitted] using hother), Nat.add_zero]
  | opened => rfl
  | cancelled => rfl
  | minted store hcommitted => exact IdMap.len_insert hcommitted _
  | aborted => rfl

theorem Does.unchanged {answer : PromotionResult} (hdoes : Does port s call (some answer, s'))
    (houtcome : answer.outcome = .rejectedMismatch ∨ answer.outcome = .alreadyCommitted) :
    s' = s := by
  cases hdoes with
  | answered => rfl
  | opened => rcases houtcome with h | h <;> cases h
  | cancelled => rcases houtcome with h | h <;> cases h
  | minted => rcases houtcome with h | h <;> cases h

/-- A call that opens an operation binds it to its input. -/
theorem Does.bound (hdoes : Does port s call (answer, s')) (hnew : s.lookup opId = none)
    (hcall : call = .begin opId acceptedSetId inputDigest ∨
      call = .commit opId acceptedSetId inputDigest) (hanswer : answer ≠ none) :
    ∃ r, s'.lookup opId = some r ∧ r.acceptedSetId = acceptedSetId ∧ r.inputDigest = inputDigest := by
  have hop : call.opId = opId := by rcases hcall with rfl | rfl <;> rfl
  cases hdoes with
  | answered _ _ hknown =>
    rcases hknown with hcancel | hknown
    · rcases hcall with rfl | rfl <;> cases hcancel
    · rw [hop, hnew] at hknown
      cases hknown
  | opened store hcommitted =>
    rcases hcall with h | h <;> cases h
    refine ⟨⟨opId, acceptedSetId, inputDigest, .inProgress, none, none, none⟩, ?_, rfl, rfl⟩
    change (s.committed.get opId).or ((s.attempts.insert opId _).get opId) = _
    rw [hcommitted, Option.none_or, IdMap.get_insert, if_pos rfl]
  | cancelled => rcases hcall with h | h <;> cases h
  | minted store hcommitted =>
    rcases hcall with h | h <;> cases h
    refine ⟨committedRecord (s.nextSeq + 1) opId acceptedSetId inputDigest, ?_, rfl, rfl⟩
    change ((s.committed.insert opId _).get opId).or ((s.attempts.remove opId).get opId) = _
    rw [IdMap.get_insert, if_pos rfl, Option.some_or]
  | aborted => exact absurd rfl hanswer

/-! ## A committed operation -/

/-- The answer for a committed operation. -/
def already (opId : PromotionOpId) (r : PromotionRecord) : PromotionResult :=
  ⟨.alreadyCommitted, opId, r.commitId, r.commitDigest, none⟩

theorem handleExisting_of_committed {r : PromotionRecord} (hid : r.opId = opId)
    (hstate : r.state = .committed) : handleExisting r acceptedSetId inputDigest =
      if r.acceptedSetId = acceptedSetId ∧ r.inputDigest = inputDigest then already opId r
      else bare .rejectedMismatch opId := by
  unfold handleExisting
  by_cases h : r.acceptedSetId = acceptedSetId ∧ r.inputDigest = inputDigest
  · rw [if_pos h, if_neg (by simp [h]), if_pos hstate, hid]
    rfl
  · rw [if_neg h, if_pos, hid]
    rwa [not_and_or] at h

section

variable (h : Consistent s) {r : PromotionRecord} (hr : s.committed.get opId = some r)
include h hr

theorem begin_of_committed : (step port s (.begin opId acceptedSetId inputDigest)).1 =
    some (if r.acceptedSetId = acceptedSetId ∧ r.inputDigest = inputDigest then already opId r
      else bare .rejectedMismatch opId) := by
  obtain ⟨hid, hstate⟩ := h.commit hr
  rw [step, begin, lookup_of_committed hr, ← handleExisting_of_committed hid hstate]

theorem commit_of_committed : (step port s (.commit opId acceptedSetId inputDigest)).1 =
    some (if r.acceptedSetId = acceptedSetId ∧ r.inputDigest = inputDigest then already opId r
      else bare .rejectedMismatch opId) := by
  obtain ⟨hid, hstate⟩ := h.commit hr
  rw [step, commit, lookup_of_committed hr]
  dsimp only
  rw [hstate, ← handleExisting_of_committed hid hstate]

omit h in
theorem cancel_of_committed : (step port s (.cancel opId)).1 = some (already opId r) := by
  rw [step, cancel, hr]
  rfl

end

/-! ## Runs -/

abbrev PromoteTurn (σ : Type) := Turn (Promoter σ) Call (Option PromotionResult)

/-- What a commit means for the later turns: its operation is never committed again, a request with
its input and a cancel are answered with its commit, and one with another input is rejected. -/
structure Settles (t t' : PromoteTurn σ) : Prop where
  once : isCommitted t.answer → t'.call.opId = t.call.opId → ¬ isCommitted t'.answer
  repeated : ∀ a, t.answer = some a → a.outcome = .committed → ∀ acceptedSetId inputDigest,
    t'.call = .begin t.call.opId acceptedSetId inputDigest ∨
      t'.call = .commit t.call.opId acceptedSetId inputDigest →
    t'.answer = some (if t.call = .commit t.call.opId acceptedSetId inputDigest then
      ⟨.alreadyCommitted, t.call.opId, a.commitId, a.commitDigest, none⟩
      else bare .rejectedMismatch t.call.opId)
  cancelled : ∀ a, t.answer = some a → a.outcome = .committed → t'.call = .cancel t.call.opId →
    t'.answer = some ⟨.alreadyCommitted, t.call.opId, a.commitId, a.commitDigest, none⟩

theorem Records.answer_eq {a : PromotionResult} (hconsistent : Consistent s)
    (h : Records s call a) {call' : Call}
    (hcall : call' = .begin call.opId acceptedSetId inputDigest ∨
      call' = .commit call.opId acceptedSetId inputDigest) :
    (step port s call').1 = some (if call = .commit call.opId acceptedSetId inputDigest then
      ⟨.alreadyCommitted, call.opId, a.commitId, a.commitDigest, none⟩
      else bare .rejectedMismatch call.opId) := by
  obtain ⟨r, hr, hcommit, hid, hdigest⟩ := h
  have hsame : call = .commit call.opId acceptedSetId inputDigest ↔
      r.acceptedSetId = acceptedSetId ∧ r.inputDigest = inputDigest := by
    constructor
    · intro heq
      rw [hcommit] at heq
      simpa [Call.opId] using heq
    · rintro ⟨rfl, rfl⟩
      exact hcommit
  rw [← hid, ← hdigest]
  simp only [hsame]
  rcases hcall with rfl | rfl
  · exact begin_of_committed hconsistent hr
  · exact commit_of_committed hconsistent hr

theorem settles_of_records {t t' : PromoteTurn σ} (hconsistent : Consistent t'.before)
    (hturn : t' = turn (step port) t'.before t'.call)
    (h : ∀ a, t.answer = some a → a.outcome = .committed → Records t'.before t.call a) :
    Settles t t' := by
  have hrepeated : ∀ a, t.answer = some a → a.outcome = .committed → ∀ acceptedSetId inputDigest,
      t'.call = .begin t.call.opId acceptedSetId inputDigest ∨
        t'.call = .commit t.call.opId acceptedSetId inputDigest →
      t'.answer = some (if t.call = .commit t.call.opId acceptedSetId inputDigest then
        ⟨.alreadyCommitted, t.call.opId, a.commitId, a.commitDigest, none⟩
        else bare .rejectedMismatch t.call.opId) := by
    intro a ha hcommitted acceptedSetId inputDigest hcall
    rw [hturn]
    exact (h a ha hcommitted).answer_eq hconsistent hcall
  have hcancelled : ∀ a, t.answer = some a → a.outcome = .committed →
      t'.call = .cancel t.call.opId →
      t'.answer = some ⟨.alreadyCommitted, t.call.opId, a.commitId, a.commitDigest, none⟩ := by
    intro a ha hcommitted hcall
    obtain ⟨r, hr, -, hid, hdigest⟩ := h a ha hcommitted
    rw [hcall] at hturn
    rw [hturn, ← hid, ← hdigest]
    exact cancel_of_committed hr
  refine ⟨fun hanswer hop => ?_, hrepeated, hcancelled⟩
  obtain ⟨a, ha, hcommitted⟩ := isCommitted_iff.mp hanswer
  have hother : ∀ acceptedSetId inputDigest,
      isCommitted (some (if t.call = .commit t.call.opId acceptedSetId inputDigest then
        ⟨.alreadyCommitted, t.call.opId, a.commitId, a.commitDigest, none⟩
        else bare .rejectedMismatch t.call.opId)) = false := by
    intro acceptedSetId inputDigest
    split_ifs <;> rfl
  cases hcall : t'.call with
  | begin opId acceptedSetId inputDigest =>
    rw [hcall] at hop
    obtain rfl : opId = t.call.opId := hop
    rw [hrepeated a ha hcommitted acceptedSetId inputDigest (.inl hcall), hother]
    exact Bool.false_ne_true
  | cancel opId =>
    rw [hcall] at hop
    obtain rfl : opId = t.call.opId := hop
    rw [hcancelled a ha hcommitted hcall]
    exact Bool.false_ne_true
  | commit opId acceptedSetId inputDigest =>
    rw [hcall] at hop
    obtain rfl : opId = t.call.opId := hop
    rw [hrepeated a ha hcommitted acceptedSetId inputDigest (.inr hcall), hother]
    exact Bool.false_ne_true

theorem consistent_after (store : σ) (calls : List Call) :
    Consistent (after (step port) (new store) calls) ∧
      ∀ t ∈ turns (step port) (new store) calls, Consistent t.before ∧ Consistent t.after :=
  invariant (consistent_new store) fun t ht h => by
    rw [eq_turn ht]
    exact (does_step h t.call).consistent h

section

variable (port) (store : σ) (calls : List Call) {t : PromoteTurn σ}
  (ht : t ∈ turns (step port) (new store) calls)
include ht

/-- Every turn of a run does what a call does. -/
theorem does_turn : Does port t.before t.call (t.answer, t.after) := by
  have hdoes := @does_step σ port _ ((consistent_after store calls).2 t ht).1 t.call
  rw [eq_turn ht]
  exact hdoes

/-- What a turn commits is kept to the end of the run. -/
theorem keeps_to_end : Keeps t.after (after (step port) (new store) calls) :=
  (related_turn keeps_refl Keeps.trans (fun _ ht => (does_turn port store calls ht).keeps) ht).2

end

theorem committedCount_after (port : PromotionStorePort σ) (store : σ) (calls : List Call) :
    (after (step port) (new store) calls).committedCount =
      (turns (step port) (new store) calls).countP fun t => isCommitted t.answer := by
  have hcount := count (f := committedCount) fun t ht => (does_turn port store calls ht).committedCount
  rwa [show (new store).committedCount = 0 from rfl, Nat.zero_add] at hcount

/-- A run in two parts: what a commit means for the later turns; that operations share no commit;
that an operation stays bound to the input it was first seen with; that a rejected call changes
nothing; and what the number of commits is. -/
theorem exactly_once (port : PromotionStorePort σ) (store : σ) (calls more : List Call) :
    let s := after (step port) (new store) calls
    let s' := after (step port) (new store) (calls ++ more)
    let run := turns (step port) (new store) (calls ++ more)
    run.Pairwise Settles ∧
    (∀ t ∈ run, ∀ t' ∈ run, ∀ a a' c, t.answer = some a → t'.answer = some a' →
      a.commitId = some c → a'.commitId = some c → a.opId = a'.opId) ∧
    (∀ opId r, s.lookup opId = some r → ∃ r', s'.lookup opId = some r' ∧
      r'.acceptedSetId = r.acceptedSetId ∧ r'.inputDigest = r.inputDigest) ∧
    (∀ t ∈ run, ∀ opId acceptedSetId inputDigest, t.before.lookup opId = none →
      t.call = .begin opId acceptedSetId inputDigest ∨
        t.call = .commit opId acceptedSetId inputDigest → t.answer ≠ none →
      ∃ r, t.after.lookup opId = some r ∧ r.acceptedSetId = acceptedSetId ∧
        r.inputDigest = inputDigest) ∧
    (∀ t ∈ run, ∀ a, t.answer = some a →
      a.outcome = .rejectedMismatch ∨ a.outcome = .alreadyCommitted → t.after = t.before) ∧
    s.committedCount = (turns (step port) (new store) calls).countP fun t =>
      isCommitted t.answer := by
  intro s s' run
  refine ⟨?_, ?_, ?_, ?_, ?_, committedCount_after port store calls⟩
  · refine pairwise (q := fun t s => ∀ a, t.answer = some a → a.outcome = .committed →
      Records s t.call a) ?_ ?_ ?_
    · intro t ht a ha hcommitted
      have hdoes := does_turn port store _ ht
      rw [ha] at hdoes
      exact hdoes.records hcommitted
    · intro t t' ht' hq a ha hcommitted
      obtain ⟨r, hr, hrest⟩ := hq a ha hcommitted
      exact ⟨r, (does_turn port store _ ht').keeps.1 _ r hr, hrest⟩
    · intro t t' ht' hq
      exact settles_of_records ((consistent_after store _).2 t' ht').1 (eq_turn ht') hq
  · have hnamed : ∀ t ∈ run, ∀ a c, t.answer = some a → a.commitId = some c →
        ∃ r, s'.committed.get a.opId = some r ∧ r.commitId = some c := by
      intro t ht a c ha hc
      have hdoes := does_turn port store _ ht
      rw [ha] at hdoes
      obtain ⟨r, hr, hid⟩ := hdoes.exists_commit hc
      exact ⟨r, (keeps_to_end port store _ ht).1 _ r hr, hid⟩
    intro t ht t' ht' a a' c ha ha' hc hc'
    obtain ⟨r, hr, hid⟩ := hnamed t ht a c ha hc
    obtain ⟨r', hr', hid'⟩ := hnamed t' ht' a' c ha' hc'
    exact (consistent_after store _).1.distinct hr hr' (hid.trans hid'.symm)
  · have hmore : ∀ t ∈ turns (step port) s more, Keeps t.before t.after := by
      intro t ht
      refine (does_turn port store (calls ++ more) ?_).keeps
      rw [turns_append]
      exact List.mem_append_right _ ht
    have hend : s' = after (step port) s more := after_append
    rw [hend]
    exact (related keeps_refl Keeps.trans hmore).2
  · intro t ht opId acceptedSetId inputDigest hnew hcall hanswer
    exact (does_turn port store _ ht).bound hnew hcall hanswer
  · intro t ht a ha houtcome
    have hdoes := does_turn port store _ ht
    rw [ha] at hdoes
    exact hdoes.unchanged houtcome

end LawNexus.Promote
