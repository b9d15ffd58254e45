import LawNexus.Replay.Survival

/-!
# The lines that are records

`parse_record_line` cuts a line at its quotes, and the reading of the file checks the three texts
as ids. Together they accept what `record_line` writes and nothing else.
-/

namespace LawNexus.Replay

/-! ## Cutting the line -/

/-- The layout of a record line, with any three texts in it. -/
def recordText (operationId effectId digest : List Char) : List Char :=
  RECORD_PREFIX ++ '"' :: operationId ++ '"' ::
    (EFFECT_FIELD ++ '"' :: effectId ++ '"' :: (DIGEST_FIELD ++ '"' :: digest ++ '"' :: ['\x7d']))

theorem recordLine_eq (operationId : OperationId) (effectId : EffectId)
    (digest : CheckpointDigest) : recordLine operationId effectId digest =
      recordText operationId.asStr.toList effectId.asStr.toList digest.asStr.toList := rfl

theorem quotedField_eq_some {field line text rest : List Char} :
    quotedField field line = some (text, rest) ↔
      line = field ++ '"' :: text ++ '"' :: rest ∧ '"' ∉ text := by
  constructor
  · intro h
    unfold quotedField at h
    obtain ⟨behind, hbehind, h⟩ := Option.bind_eq_some_iff.mp h
    obtain ⟨inner, hinner, h⟩ := Option.bind_eq_some_iff.mp h
    obtain ⟨rfl, hquote⟩ := Chars.cutAt_eq_some.mp h
    rw [Chars.isPrefixOf?_eq_some.mp hbehind, Chars.isPrefixOf?_eq_some.mp hinner]
    exact ⟨by simp, hquote⟩
  · rintro ⟨rfl, hquote⟩
    exact quotedField_append hquote rest

theorem elim_ok_iff {α ε : Type} {e : ε} {o : Option α} {a : α} :
    o.elim (Except.error e) Except.ok = .ok a ↔ o = some a := by
  cases o <;> simp

theorem parseRecordLine_ok_iff {line operationId effectId digest : List Char} :
    parseRecordLine line = .ok (operationId, effectId, digest) ↔
      line = recordText operationId effectId digest ∧
        '"' ∉ operationId ∧ '"' ∉ effectId ∧ '"' ∉ digest := by
  unfold parseRecordLine
  dsimp only
  rw [elim_ok_iff]
  constructor
  · intro h
    obtain ⟨⟨first, rest⟩, hfirst, h⟩ := Option.bind_eq_some_iff.mp h
    obtain ⟨⟨second, rest'⟩, hsecond, h⟩ := Option.bind_eq_some_iff.mp h
    obtain ⟨⟨third, rest''⟩, hthird, h⟩ := Option.bind_eq_some_iff.mp h
    obtain ⟨hend, h⟩ := Option.ite_none_right_eq_some.mp h
    cases h
    obtain ⟨rfl, hquote⟩ := quotedField_eq_some.mp hfirst
    obtain ⟨rfl, hquote'⟩ := quotedField_eq_some.mp hsecond
    obtain ⟨rfl, hquote''⟩ := quotedField_eq_some.mp hthird
    dsimp only at hend
    rw [hend]
    exact ⟨rfl, hquote, hquote', hquote''⟩
  · rintro ⟨rfl, hquote, hquote', hquote''⟩
    unfold recordText
    simp only [quotedField_append hquote, quotedField_append hquote', quotedField_append hquote'',
      Option.bind_eq_bind, Option.bind_some, if_true]

/-! ## The ids -/

theorem parse_ofList_ok_iff {kind : String} {text : List Char} {id : CheckedId kind} :
    CheckedId.parse kind (.ofList text) = .ok id ↔ text = id.asStr.toList := by
  constructor
  · intro h
    rw [← CheckedId.asStr_of_parse h, String.toList_ofList]
  · rintro rfl
    rw [String.ofList_toList, CheckedId.parse_asStr]

/-- What one line of the file does to the identities that are applied. -/
inductive Hydrates (applied : Applied) : List Char → Applied → Prop
  | blank : Hydrates applied [] applied
  | record (operationId : OperationId) (effectId : EffectId) (digest : CheckpointDigest)
      (fresh : applied.get (ledgerKey operationId effectId) = none) :
      Hydrates applied (recordLine operationId effectId digest)
        (applied.insert (ledgerKey operationId effectId) digest)

theorem hydrateLine_ok_iff {number : Nat} {applied applied' : Applied} {raw : List UInt8} :
    hydrateLine number applied raw = .ok applied' ↔
      ∃ line, (Utf8.decode raw).map chopLine = some line ∧ Hydrates applied line applied' := by
  unfold hydrateLine
  cases hline : (Utf8.decode raw).map chopLine with
  | none => simp
  | some line =>
    rw [Option.elim_some, Loops.ok_bind]
    simp only [Option.some.injEq, exists_eq_left']
    cases line with
    | nil =>
      constructor
      · intro h
        obtain rfl := Except.ok.inj h
        exact .blank
      · rintro (_ | ⟨operationId, effectId, digest, fresh⟩)
        · rfl
    | cons c rest =>
      have hfilled : (c :: rest).isEmpty = false := rfl
      rw [hfilled, if_neg Bool.false_ne_true]
      constructor
      · intro h
        obtain ⟨⟨first, second, third⟩, hparse, hids⟩ := Loops.bind_eq_ok_iff.mp h
        obtain ⟨operationId, hoperation, hids⟩ := Loops.bind_eq_ok_iff.mp hids
        obtain ⟨effectId, heffect, hids⟩ := Loops.bind_eq_ok_iff.mp hids
        obtain ⟨digest, hdigest, hinsert⟩ := Loops.bind_eq_ok_iff.mp hids
        obtain ⟨hrecord, -⟩ := parseRecordLine_ok_iff.mp (Loops.mapError_eq_ok_iff.mp hparse)
        obtain rfl := parse_ofList_ok_iff.mp (Loops.mapError_eq_ok_iff.mp hoperation)
        obtain rfl := parse_ofList_ok_iff.mp (Loops.mapError_eq_ok_iff.mp heffect)
        obtain rfl := parse_ofList_ok_iff.mp (Loops.mapError_eq_ok_iff.mp hdigest)
        rw [hrecord, ← recordLine_eq]
        by_cases hnew : (applied.get (ledgerKey operationId effectId)).isSome = true
        · rw [if_pos hnew] at hinsert
          exact nomatch hinsert
        · rw [if_neg hnew] at hinsert
          obtain rfl := Except.ok.inj hinsert
          exact .record operationId effectId digest (Option.not_isSome_iff_eq_none.mp hnew)
      · generalize hrecord : c :: rest = line
        rintro (_ | ⟨operationId, effectId, digest, hnew⟩)
        · exact nomatch hrecord
        · rw [parseRecordLine_recordLine]
          simp [Except.mapError, CheckedId.parse_asStr, hnew]
          rfl

/-! ## What is accepted -/

/-- A line is cut when it has the layout of a record and its texts have no quote. A line of the
file is taken when it is empty, or when it is the line of three ids that were not applied yet. -/
theorem record_lines_accepted :
    (∀ line operationId effectId digest : List Char,
      parseRecordLine line = .ok (operationId, effectId, digest) ↔
        line = recordText operationId effectId digest ∧
          '"' ∉ operationId ∧ '"' ∉ effectId ∧ '"' ∉ digest) ∧
    ∀ (number : Nat) (applied applied' : Applied) (raw : List UInt8),
      hydrateLine number applied raw = .ok applied' ↔
        ∃ line, (Utf8.decode raw).map chopLine = some line ∧ Hydrates applied line applied' :=
  ⟨fun _ _ _ _ => parseRecordLine_ok_iff, fun _ _ _ _ => hydrateLine_ok_iff⟩

/-- Three empty texts are cut out of a line, and none of them is an id. -/
theorem empty_texts_cut : ¬ ∀ line operationId effectId digest : List Char,
    parseRecordLine line = .ok (operationId, effectId, digest) ↔
      ∃ (operation : OperationId) (effect : EffectId) (checkpoint : CheckpointDigest),
        operationId = operation.asStr.toList ∧ effectId = effect.asStr.toList ∧
          digest = checkpoint.asStr.toList ∧ line = recordLine operation effect checkpoint := by
  intro h
  have hcut : parseRecordLine (recordText [] [] []) = .ok ([], [], []) :=
    parseRecordLine_ok_iff.mpr ⟨rfl, List.not_mem_nil, List.not_mem_nil, List.not_mem_nil⟩
  obtain ⟨operation, -, -, hoperation, -⟩ := (h _ _ _ _).mp hcut
  have hempty : operation.asStr.isEmpty = true := by
    rw [String.isEmpty_iff, ← String.toList_eq_nil_iff, ← hoperation]
  rw [operation.not_isEmpty] at hempty
  exact nomatch hempty

end LawNexus.Replay
