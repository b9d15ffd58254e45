import LawNexus.Loops
import LawNexus.Replay.AtMostOnce
import LawNexus.Replay.Ledger

/-!
# What a ledger file keeps

While every record is either written whole behind a newline or not at all, the file opens again
as what it held and what was acknowledged.
-/

namespace LawNexus.Replay

open Loops

/-! ## One record -/

theorem quote_notMem {kind : String} (id : CheckedId kind) : '"' ∉ id.asStr.toList :=
  fun h => absurd (id.isIdChar_of_mem h) (by decide)

theorem newline_notMem {kind : String} (id : CheckedId kind) : '\n' ∉ id.asStr.toList :=
  fun h => absurd (id.isIdChar_of_mem h) (by decide)

theorem quotedField_append {field text : List Char} (h : '"' ∉ text) (rest : List Char) :
    quotedField field (field ++ '"' :: text ++ '"' :: rest) = some (text, rest) := by
  unfold quotedField
  have hquote : ['"'].isPrefixOf? ('"' :: text ++ '"' :: rest) = some (text ++ '"' :: rest) :=
    Chars.isPrefixOf?_eq_some.mpr rfl
  rw [List.append_assoc, Chars.isPrefixOf?_eq_some.mpr rfl, Option.bind_eq_bind, Option.bind_some,
    hquote, Option.bind_some, Chars.cutAt_eq_some.mpr ⟨rfl, h⟩]

section

variable (operationId : OperationId) (effectId : EffectId) (digest : CheckpointDigest)

theorem parseRecordLine_recordLine : parseRecordLine (recordLine operationId effectId digest) =
    .ok (operationId.asStr.toList, effectId.asStr.toList, digest.asStr.toList) := by
  unfold parseRecordLine recordLine
  simp only [quotedField_append (quote_notMem _), Option.bind_eq_bind, Option.bind_some, if_true,
    Option.elim_some]

theorem newline_notMem_recordLine : '\n' ∉ recordLine operationId effectId digest := by
  have hstarts : '\n' ∉ RECORD_PREFIX := by decide
  have heffect : '\n' ∉ EFFECT_FIELD := by decide
  have hdigest : '\n' ∉ DIGEST_FIELD := by decide
  simp [recordLine, hstarts, heffect, hdigest, newline_notMem]

theorem getLast?_recordLine : (recordLine operationId effectId digest).getLast? = some '\x7d' := by
  simp [recordLine, List.getLast?_append, List.getLast?_cons]

theorem chopLine_recordLine : chopLine (recordLine operationId effectId digest ++ ['\n']) =
    recordLine operationId effectId digest := by
  rw [chopLine, List.getLast?_concat, if_pos rfl, List.dropLast_concat, Chars.dropCr,
    getLast?_recordLine, if_neg (by decide)]

end

/-- The bytes that a successful apply writes. -/
def recordBytes (operationId : OperationId) (effectId : EffectId) (digest : CheckpointDigest) :
    List UInt8 := Utf8.bytes (recordLine operationId effectId digest) ++ [10]

theorem hydrateLine_recordBytes (number : Nat) {applied : Applied} {operationId : OperationId}
    {effectId : EffectId} (digest : CheckpointDigest)
    (hnew : applied.get (ledgerKey operationId effectId) = none) :
    hydrateLine number applied (recordBytes operationId effectId digest) =
      .ok (applied.insert (ledgerKey operationId effectId) digest) := by
  have hbytes : recordBytes operationId effectId digest =
      Utf8.bytes (recordLine operationId effectId digest ++ ['\n']) := by
    rw [recordBytes, Utf8.bytes_append]
    rfl
  have hread : (Utf8.decode (recordBytes operationId effectId digest)).map chopLine =
      some (recordLine operationId effectId digest) := by
    rw [hbytes, Utf8.decode_bytes, Option.map_some, chopLine_recordLine]
  have hne : (recordLine operationId effectId digest).isEmpty = false := by
    simp [recordLine]
  unfold hydrateLine
  rw [hread, Option.elim_some, ok_bind, hne]
  simp [parseRecordLine_recordLine, Except.mapError, CheckedId.parse_asStr, hnew]
  rfl

/-! ## The lines of a file -/

/-- Whatever is appended starts a line of its own. -/
def Terminated (file : List UInt8) : Prop := ∀ b ∈ file.getLast?, b = 10
deriving Decidable

theorem rawLines_eq_nil_iff {file : List UInt8} : rawLines file = [] ↔ file = [] := by
  cases file with
  | nil => simp [rawLines]
  | cons b rest =>
    unfold rawLines
    split_ifs
    · simp
    · split <;> simp

theorem rawLines_append {file : List UInt8} (h : Terminated file) (more : List UInt8) :
    rawLines (file ++ more) = rawLines file ++ rawLines more := by
  induction file with
  | nil => rfl
  | cons b rest ih =>
    rw [List.cons_append, rawLines, rawLines]
    rcases eq_or_ne rest [] with rfl | hne
    · have hb : b = 10 := h b rfl
      simp [hb, rawLines]
    · have hrest : Terminated rest := by
        intro c hc
        refine h c ?_
        rw [List.getLast?_cons, Option.mem_def.mp hc, Option.getD_some]
        rfl
      rw [ih hrest]
      split_ifs
      · rfl
      · cases hlines : rawLines rest with
        | nil => exact absurd (rawLines_eq_nil_iff.mp hlines) hne
        | cons line lines => rfl

theorem rawLines_line {line : List UInt8} (h : (10 : UInt8) ∉ line) :
    rawLines (line ++ [10]) = [line ++ [10]] := by
  induction line with
  | nil => rfl
  | cons b line ih =>
    rw [List.mem_cons, not_or] at h
    rw [List.cons_append, rawLines, if_neg (Ne.symm h.1), ih h.2]

theorem hydrate_append (number : Nat) (applied : Applied) (lines more : List (List UInt8)) :
    hydrate number applied (lines ++ more) =
      hydrate number applied lines >>= fun applied => hydrate (number + lines.length) applied more := by
  induction lines generalizing number applied with
  | nil => rfl
  | cons raw lines ih =>
    rw [List.cons_append, hydrate, hydrate]
    cases hydrateLine number applied raw with
    | error e => rfl
    | ok applied =>
      rw [ok_bind, ok_bind, ih]
      simp [Nat.add_comm, Nat.add_left_comm]

/-- A record behind a newline is one more effect of the file. -/
theorem open_append {file : List UInt8} {applied : Applied} {operationId : OperationId}
    {effectId : EffectId} (digest : CheckpointDigest)
    (hopen : JsonlEffectLedger.open file = .ok ⟨file, applied⟩) (hend : Terminated file)
    (hnew : applied.get (ledgerKey operationId effectId) = none) :
    JsonlEffectLedger.open (file ++ recordBytes operationId effectId digest) =
      .ok ⟨file ++ recordBytes operationId effectId digest,
        applied.insert (ledgerKey operationId effectId) digest⟩ := by
  have hline : rawLines (recordBytes operationId effectId digest) =
      [recordBytes operationId effectId digest] :=
    rawLines_line (Utf8.newline_notMem_bytes (newline_notMem_recordLine _ _ _))
  obtain ⟨read, hread, heq⟩ := bind_eq_ok_iff.mp hopen
  obtain rfl : read = applied := congrArg JsonlEffectLedger.applied (Except.ok.inj heq)
  unfold JsonlEffectLedger.open
  rw [rawLines_append hend, hydrate_append, hread, ok_bind, hline, hydrate,
    hydrateLine_recordBytes _ _ hnew, ok_bind, hydrate]
  rfl

/-! ## Runs -/

/-- What a call may do to the file: nothing, or add a whole record behind a newline. -/
def Keeps (ledger : JsonlEffectLedger) : LedgerCall → Prop
  | .reopen => True
  | .tryApply call =>
    (ledger.applied.get (ledgerKey call.operationId call.effectId)).isSome ∨
      call.persisted = .failed 0 ∨ call.persisted = .ok ∧ Terminated ledger.file

/-- The steps of the run, each from the state that the steps before it left. -/
def KeptRun (run : LedgerRun) : List LedgerCall → Prop
  | [] => True
  | call :: calls =>
    Keeps run.ledger call ∧ ∀ run', run.step call = .ok run' → KeptRun run' calls

/-- The file opens as the ledger in memory: what was held at first, and what was acknowledged. -/
structure Held (first : Applied) (run : LedgerRun) : Prop where
  reopened : JsonlEffectLedger.open run.ledger.file = .ok run.ledger
  applied : run.ledger.applied = first ++ run.acknowledged

theorem held_step {first : Applied} {run : LedgerRun} {call : LedgerCall} (h : Held first run)
    (hkeeps : Keeps run.ledger call) : ∃ run', run.step call = .ok run' ∧ Held first run' := by
  obtain ⟨⟨file, applied⟩, acknowledged⟩ := run
  cases call with
  | reopen => exact ⟨_, by rw [LedgerRun.step, h.reopened]; rfl, h⟩
  | tryApply call =>
    cases hget : applied.get (ledgerKey call.operationId call.effectId) with
    | some prior =>
      refine ⟨⟨⟨file, applied⟩, acknowledged⟩, ?_, h⟩
      simp [LedgerRun.step, JsonlEffectLedger.tryApplyChecked, hget]
    | none =>
      rcases hkeeps with hsome | hzero | ⟨hok, hend⟩
      · simp [hget] at hsome
      · refine ⟨⟨⟨file, applied⟩, acknowledged⟩, ?_, h⟩
        simp [LedgerRun.step, JsonlEffectLedger.tryApplyChecked, hget, hzero]
      · refine ⟨⟨⟨_, _⟩, acknowledged ++
          [(ledgerKey call.operationId call.effectId, call.digest)]⟩, ?_,
          open_append call.digest h.reopened hend hget, ?_⟩
        · simp [LedgerRun.step, JsonlEffectLedger.tryApplyChecked, hget, hok, recordBytes]
        · have happlied : applied = first ++ acknowledged := h.applied
          change applied.insert _ _ = _
          rw [Applied.insert, hget, if_neg (by simp), happlied, List.append_assoc]

theorem held_run {first : Applied} {run : LedgerRun} {calls : List LedgerCall}
    (h : Held first run) (hkept : KeptRun run calls) :
    ∃ run', run.run calls = .ok run' ∧ Held first run' := by
  induction calls generalizing run with
  | nil => exact ⟨run, rfl, h⟩
  | cons call calls ih =>
    obtain ⟨run', hstep, hheld⟩ := held_step h hkept.1
    obtain ⟨last, hrun, hlast⟩ := ih hheld (hkept.2 run' hstep)
    refine ⟨last, ?_, hlast⟩
    rw [LedgerRun.run, List.foldlM_cons, hstep, ok_bind]
    exact hrun

/-- The calls go through, and the file they leave opens as what the first file held and what was
acknowledged since. -/
def Survives (ledger : JsonlEffectLedger) (calls : List LedgerCall) : Prop :=
  ∃ run, LedgerRun.run ⟨ledger, []⟩ calls = .ok run ∧
    JsonlEffectLedger.open run.ledger.file =
      .ok ⟨run.ledger.file, ledger.applied ++ run.acknowledged⟩

theorem file_of_open {file : List UInt8} {ledger : JsonlEffectLedger}
    (h : JsonlEffectLedger.open file = .ok ledger) : ledger.file = file := by
  obtain ⟨applied, -, heq⟩ := bind_eq_ok_iff.mp h
  obtain rfl := Except.ok.inj heq
  rfl

/-- A ledger that opened survives every run of calls that leave no torn record. -/
theorem survives_of_kept (file : List UInt8) (ledger : JsonlEffectLedger)
    (calls : List LedgerCall) (hopen : JsonlEffectLedger.open file = .ok ledger)
    (hkept : KeptRun ⟨ledger, []⟩ calls) : Survives ledger calls := by
  have hfirst : Held ledger.applied ⟨ledger, []⟩ := by
    refine ⟨?_, (List.append_nil _).symm⟩
    rw [file_of_open hopen]
    exact hopen
  obtain ⟨run, hrun, hheld⟩ := held_run hfirst hkept
  refine ⟨run, hrun, ?_⟩
  rw [← hheld.applied]
  exact hheld.reopened

/-! ### A ledger without a final newline -/

namespace Sample

def effectOne : EffectId := ⟨"ef:1", rfl⟩
def effectTwo : EffectId := ⟨"ef:2", rfl⟩
def operation : OperationId := ⟨"op:1", rfl⟩
def checkpoint : CheckpointDigest := ⟨"digest:1", rfl⟩

/-- One record, and no newline behind it. -/
def openFile : List UInt8 := Utf8.bytes (recordLine operation effectOne checkpoint)

def applyTwo : LedgerCall := .tryApply ⟨operation, effectTwo, checkpoint, .ok⟩

def openLedger : JsonlEffectLedger :=
  ⟨openFile, [(ledgerKey operation effectOne, checkpoint)]⟩

theorem openFile_opens : JsonlEffectLedger.open openFile = .ok openLedger := by decide

/-- The second record is glued to the first one: its apply is acknowledged, and the file does not
open again. -/
theorem openFile_glued :
    ¬ ∀ (file : List UInt8) (ledger : JsonlEffectLedger) (calls : List LedgerCall),
      JsonlEffectLedger.open file = .ok ledger → Survives ledger calls := by
  intro h
  obtain ⟨run, hrun, hopen⟩ := h openFile openLedger [applyTwo] openFile_opens
  have hfile : (LedgerRun.run ⟨openLedger, []⟩ [applyTwo]).map
      (fun run => JsonlEffectLedger.open run.ledger.file) =
        .ok (.error (.corruptRecord 1 "not canonical record")) := by decide +kernel
  rw [hrun] at hfile
  have hclosed : JsonlEffectLedger.open run.ledger.file = .error _ := Except.ok.inj hfile
  rw [hopen] at hclosed
  exact nomatch hclosed

/-- Behind a whole file, also after a write that left nothing. -/
theorem survives_whole : Survives
    ⟨openFile ++ [10], [(ledgerKey operation effectOne, checkpoint)]⟩
    [.tryApply ⟨operation, effectTwo, checkpoint, .failed 0⟩, applyTwo, .reopen] :=
  survives_of_kept (openFile ++ [10]) _ _ (by decide +kernel)
    ⟨Or.inr (Or.inl rfl), fun run' hrun' => by
      obtain rfl : _ = run' := Except.ok.inj hrun'
      exact ⟨Or.inr (Or.inr ⟨rfl, by decide +kernel⟩), fun _ _ => ⟨trivial, fun _ _ => trivial⟩⟩⟩

end Sample

end LawNexus.Replay
