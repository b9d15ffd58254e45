import LawNexus.Chars
import LawNexus.Replay.Coordinator
import LawNexus.Utf8

/-!
# The JSONL effect ledger

`JsonlEffectLedger` of `ln-replay`: the file is a sequence of bytes, and what a failed write or
sync leaves of a record comes with the call.
-/

namespace LawNexus.Replay

inductive EffectLedgerError where
  | io
  | corruptRecord (line : Nat) (reason : String)
deriving DecidableEq, Repr

/-! ## Records -/

def RECORD_PREFIX : List Char := "\x7b\"operation_id\":".toList
def EFFECT_FIELD : List Char := ",\"effect_id\":".toList
def DIGEST_FIELD : List Char := ",\"digest\":".toList

def recordLine (operationId : OperationId) (effectId : EffectId) (digest : CheckpointDigest) :
    List Char :=
  RECORD_PREFIX ++ '"' :: operationId.asStr.toList ++ '"' ::
    (EFFECT_FIELD ++ '"' :: effectId.asStr.toList ++ '"' ::
      (DIGEST_FIELD ++ '"' :: digest.asStr.toList ++ '"' :: ['\x7d']))

/-- The text in quotes behind a field name, and what follows it. -/
def quotedField (field line : List Char) : Option (List Char × List Char) := do
  let rest ← field.isPrefixOf? line
  let rest ← ['"'].isPrefixOf? rest
  Chars.cutAt '"' rest

def parseRecordLine (line : List Char) : Except String (List Char × List Char × List Char) :=
  let record : Option (List Char × List Char × List Char) := do
    let (operationId, rest) ← quotedField RECORD_PREFIX line
    let (effectId, rest) ← quotedField EFFECT_FIELD rest
    let (digest, rest) ← quotedField DIGEST_FIELD rest
    if rest = ['\x7d'] then some (operationId, effectId, digest) else none
  record.elim (.error "not canonical record") .ok

/-! ## Reading the file -/

/-- The lines of the file, each with the newline it ends with. -/
def rawLines : List UInt8 → List (List UInt8)
  | [] => []
  | b :: rest =>
    if b = 10 then [b] :: rawLines rest
    else match rawLines rest with
      | [] => [[b]]
      | line :: lines => (b :: line) :: lines

/-- `BufRead::lines`: a carriage return goes only where a newline follows it. -/
def chopLine (line : List Char) : List Char :=
  if line.getLast? = some '\n' then Chars.dropCr line.dropLast else line

/-- One line of the file, by its number. -/
def hydrateLine (number : Nat) (applied : Applied) (raw : List UInt8) :
    Except EffectLedgerError Applied := do
  let line ← ((Utf8.decode raw).map chopLine).elim (.error .io) .ok
  if line.isEmpty then return applied
  let corrupt := EffectLedgerError.corruptRecord number
  let (operationId, effectId, digest) ← (parseRecordLine line).mapError corrupt
  let operationId : OperationId ← (CheckedId.parse _ (.ofList operationId)).mapError
    fun _ => corrupt "invalid operation id"
  let effectId : EffectId ← (CheckedId.parse _ (.ofList effectId)).mapError
    fun _ => corrupt "invalid effect id"
  let digest : CheckpointDigest ← (CheckedId.parse _ (.ofList digest)).mapError
    fun _ => corrupt "invalid digest"
  let key := ledgerKey operationId effectId
  if (applied.get key).isSome then throw (corrupt "duplicate applied identity")
  return applied.insert key digest

def hydrate (number : Nat) (applied : Applied) : List (List UInt8) →
    Except EffectLedgerError Applied
  | [] => .ok applied
  | raw :: rest => do
    let applied ← hydrateLine number applied raw
    hydrate (number + 1) applied rest

/-! ## The ledger -/

structure JsonlEffectLedger where
  file : List UInt8
  applied : Applied
deriving DecidableEq, Repr

/-- An absent file is an empty one. -/
def JsonlEffectLedger.open (file : List UInt8) : Except EffectLedgerError JsonlEffectLedger := do
  let applied ← hydrate 1 [] (rawLines file)
  return ⟨file, applied⟩

/-- A failed write leaves the first `left` bytes of the record, a failed sync leaves all. -/
inductive Persisted where
  | ok
  | failed (left : Nat)
deriving DecidableEq, Repr

def JsonlEffectLedger.tryApplyChecked (ledger : JsonlEffectLedger) (operationId : OperationId)
    (effectId : EffectId) (digest : CheckpointDigest) (persisted : Persisted) :
    Except EffectLedgerError Bool × JsonlEffectLedger :=
  let key := ledgerKey operationId effectId
  if (ledger.applied.get key).isSome then (.ok false, ledger)
  else
    let bytes := Utf8.bytes (recordLine operationId effectId digest) ++ [10]
    match persisted with
    | .failed left => (.error .io, { ledger with file := ledger.file ++ bytes.take left })
    | .ok => (.ok true, ⟨ledger.file ++ bytes, ledger.applied.insert key digest⟩)

/-! ## Runs -/

structure ApplyCall where
  operationId : OperationId
  effectId : EffectId
  digest : CheckpointDigest
  persisted : Persisted
deriving DecidableEq, Repr

/-- What is done with a ledger: an effect is applied to it, or its file is opened again. -/
inductive LedgerCall where
  | tryApply (call : ApplyCall)
  | reopen
deriving DecidableEq, Repr

/-- A ledger, and the effects whose apply returned `Ok(true)`. -/
structure LedgerRun where
  ledger : JsonlEffectLedger
  acknowledged : List (String × CheckpointDigest)
deriving DecidableEq, Repr

def LedgerRun.step (run : LedgerRun) : LedgerCall → Except EffectLedgerError LedgerRun
  | .tryApply call =>
    let step := run.ledger.tryApplyChecked call.operationId call.effectId call.digest
      call.persisted
    match step.1 with
    | .ok true =>
      .ok ⟨step.2, run.acknowledged ++ [(ledgerKey call.operationId call.effectId, call.digest)]⟩
    | _ => .ok { run with ledger := step.2 }
  | .reopen => do
    let ledger ← JsonlEffectLedger.open run.ledger.file
    return { run with ledger }

/-- The run of the calls, up to the first reopening that fails. -/
def LedgerRun.run (run : LedgerRun) (calls : List LedgerCall) : Except EffectLedgerError LedgerRun :=
  calls.foldlM LedgerRun.step run

end LawNexus.Replay
