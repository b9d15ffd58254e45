import LawNexus.CleanedWire.Document
import LawNexus.CleanedWire.Frame

/-!
# The reader answers

Every step of the reader refuses or gives something, whatever the text is.
-/

namespace LawNexus.CleanedWire

open Chars JsonText Loops Reader
open SourcePackage (TextSlot isHex64)

/-! ## Fields -/

/-- Each field is a JSON value. -/
def JsonFields.Valued (fields : JsonFields) : Prop :=
  ∀ key, ∀ raw ∈ fields.get key, IsValue MAX_JSON_DEPTH raw

theorem valued_of_isLine {trailing : Bool} {raw : List Char} {members : List Member}
    (h : IsLine trailing raw members) : JsonFields.Valued ⟨members.map Member.entry⟩ := by
  intro key value hvalue
  obtain ⟨entry, hentry, rfl⟩ := Option.map_eq_some_iff.mp hvalue
  obtain ⟨member, hmember, rfl⟩ := List.mem_map.mp (List.mem_of_find?_eq_some hentry)
  exact h.1.values member hmember

theorem answers_parse (raw : List Char) : (∃ error, JsonFields.parse raw = .error (.refused error)) ∨
    ∃ fields, fields.Valued ∧ JsonFields.parse raw = .ok fields := by
  rcases reads_parse raw with ⟨error, h⟩ | ⟨trailing, members, hline, h⟩
  · exact Or.inl ⟨error, h⟩
  · exact Or.inr ⟨_, valued_of_isLine hline, h⟩

theorem answers_parseFields (raw : List Char) : Answers JsonFields.Valued (parseFields raw) := by
  unfold parseFields
  rcases answers_parse raw with ⟨error, h⟩ | ⟨fields, hvalued, h⟩
  · rw [h]
    exact Or.inl ⟨_, rfl⟩
  · rw [h]
    exact answers_ok hvalued

section

variable {fields : JsonFields} {key : String}

theorem answers_orInvalid {α : Type} {value : Option α} (detail : String) :
    Answers (fun a => value = some a) (orInvalid value key detail) := answers_orRefuse _ _

theorem answers_recordString (fields : JsonFields) (key : String) :
    Answers (fun value => stringField fields key = some value) (recordString fields key) :=
  answers_orInvalid _

theorem answers_optRecordString (fields : JsonFields) (key : String) :
    Answers (fun _ => True) (optRecordString fields key) := by
  unfold optRecordString
  refine (answers_orInvalid _).bind fun raw _ => answers_ite (fun _ => answers_ok trivial) fun _ => ?_
  exact (answers_orInvalid _).bind fun text _ => answers_ok trivial

theorem parseU64_lt {text : List Char} {n : Nat} (h : parseU64 text = some n) : n < 2 ^ 64 := by
  unfold parseU64 at h
  obtain ⟨⟨-, -, hlt⟩, heq⟩ := Option.ite_none_right_eq_some.mp h
  exact Option.some.inj heq ▸ hlt

theorem u64Field_lt {n : Nat} (h : u64Field fields key = some n) : n < 2 ^ 64 := by
  obtain ⟨raw, -, hn⟩ := Option.bind_eq_some_iff.mp h
  exact parseU64_lt hn

theorem answers_recordU64 (fields : JsonFields) (key : String) :
    Answers (fun n => u64Field fields key = some n ∧ n < 2 ^ 64) (recordU64 fields key) :=
  (answers_orInvalid _).mono fun _ hn => ⟨hn, u64Field_lt hn⟩

theorem answers_recordBool (fields : JsonFields) (key : String) :
    Answers (fun flag => boolField fields key = some flag) (recordBool fields key) :=
  answers_orInvalid _

theorem answers_stringArrayField (h : fields.Valued) :
    Answers (fun _ => True) (stringArrayField fields key) := by
  obtain ⟨items, hitems⟩ := stringArrayField_ok (h key)
  rw [hitems]
  exact answers_ok trivial

theorem answers_recordStringArray (h : fields.Valued) (key : String) :
    Answers (fun _ => True) (recordStringArray fields key) := by
  unfold recordStringArray
  exact (answers_stringArrayField h).bind fun items _ => (answers_orInvalid _).mono fun _ _ => trivial

theorem answers_recordToken {α : Type} (fromWire : String → Option α) (fields : JsonFields)
    (key : String) : Answers (fun _ => True) (recordToken fromWire fields key) := by
  unfold recordToken
  exact (answers_recordString fields key).bind fun token _ =>
    (answers_orInvalid _).mono fun _ _ => trivial

theorem answers_recordObject (fields : JsonFields) (key : String) :
    Answers JsonFields.Valued (recordObject fields key) := by
  unfold recordObject
  exact (answers_orInvalid _).bind fun raw _ => answers_parseFields _

theorem answers_hexField (fields : JsonFields) (key : String) :
    Answers (fun value => isHex64 value = true) (hexField fields key) := by
  unfold hexField
  refine (answers_orRefuse _ _).bind fun value _ => ?_
  refine answers_ite (fun _ => answers_refuse _ _) fun hhex => answers_ok ?_
  simpa using hhex

theorem answers_optHexField (fields : JsonFields) (key : String) :
    Answers (fun value => ∀ hash ∈ value, isHex64 hash = true) (optHexField fields key) := by
  unfold optHexField
  refine (answers_orRefuse _ _).bind fun raw _ => ?_
  refine answers_ite (fun _ => answers_ok (by simp)) fun _ => ?_
  refine (answers_orRefuse _ _).bind fun value _ => ?_
  refine answers_ite (fun _ => answers_refuse _ _) fun hhex => answers_ok ?_
  simpa using hhex

theorem answers_countsField (fields : JsonFields) (key : String) :
    Answers (fun n => n < 2 ^ 64) (countsField fields key) :=
  (answers_orRefuse _ _).mono fun _ hn => u64Field_lt hn

/-! ## The contract of a line -/

theorem answers_lineKind (fields : JsonFields) : Answers (fun _ => True) (lineKind fields) :=
  (answers_orRefuse _ _).mono fun _ _ => trivial

theorem answers_expectSchema (fields : JsonFields) (expected : String) :
    Answers (fun _ => True) (expectSchema fields expected) := by
  unfold expectSchema
  exact (answers_orRefuse _ _).bind fun schema _ =>
    answers_ite (fun _ => answers_refuse _ _) fun _ => answers_ok trivial

/-- The version is the one of the contract. -/
theorem answers_expectVersion (fields : JsonFields) :
    Answers (fun _ => u64Field fields "version" = some CONTRACT_VERSION) (expectVersion fields) := by
  unfold expectVersion
  refine (answers_orRefuse _ _).bind fun raw hraw => ?_
  refine answers_ite (fun _ => answers_refuse _ _) fun hversion => answers_ok ?_
  rw [u64Field, hraw, Option.bind_some, not_not.mp hversion, parseU64_toDigits (by decide)]

theorem answers_expectStringValue (fields : JsonFields) (key expected : String) :
    Answers (fun _ => True) (expectStringValue fields key expected) :=
  answers_ite (fun _ => answers_ok trivial) fun _ => answers_refuse _ _

theorem answers_expectTrueValue (fields : JsonFields) (key : String) :
    Answers (fun _ => True) (expectTrueValue fields key) :=
  answers_ite (fun _ => answers_ok trivial) fun _ => answers_refuse _ _

theorem answers_contractObject (manifest : JsonFields) (key : String) :
    Answers JsonFields.Valued (contractObject manifest key) := by
  unfold contractObject
  cases manifest.get key with
  | none => exact answers_refuse _ _
  | some raw =>
    dsimp only
    rcases answers_parse (trim raw) with ⟨error, h⟩ | ⟨fields, hvalued, h⟩
    · rw [h]
      exact answers_refuse _ _
    · rw [h]
      exact answers_ok hvalued

theorem answers_check {α : Type} {P : α → Prop} {c : Prop} [Decidable c] {detail : String}
    {r : Reading α} (h : Answers P r) :
    Answers P (if c then do contractError detail; r else r) :=
  answers_ite (fun _ => Or.inl ⟨_, rfl⟩) fun _ => h

theorem answers_checks {α : Type} {f : α → Reading Unit} {l : List α}
    (h : ∀ a ∈ l, Answers (fun _ => True) (f a)) : Answers (fun _ => True) (l.forM f) :=
  (@answers_forM α (fun _ => True) f l h).mono fun _ _ => trivial

theorem answers_expectManifestContract (manifest : JsonFields) :
    Answers (fun _ => True) (expectManifestContract manifest) := by
  unfold expectManifestContract
  refine (answers_expectStringValue _ _ _).bind fun _ _ => ?_
  refine (answers_expectStringValue _ _ _).bind fun _ _ => ?_
  refine (answers_expectStringValue _ _ _).bind fun _ _ => ?_
  refine (answers_expectTrueValue _ _).bind fun _ _ => ?_
  refine (answers_contractObject _ _).bind fun generator _ => answers_check (answers_check ?_)
  refine (answers_contractObject _ _).bind fun limits _ => answers_checks fun key _ => ?_
  exact answers_ite (fun _ => answers_refuse _ _) fun _ => answers_ok trivial

theorem answers_enforceDeclaredReadLimits (manifest : JsonFields) (lines : List (List Char))
    (lastIndex : Nat) : Answers (fun _ => True) (enforceDeclaredReadLimits manifest lines lastIndex) := by
  unfold enforceDeclaredReadLimits
  refine (answers_contractObject _ _).bind fun limits _ => ?_
  refine (answers_orRefuse _ _).bind fun maxLineBytes _ => ?_
  refine (answers_orRefuse _ _).bind fun maxRecords _ => ?_
  refine (answers_checks fun line _ => ?_).bind fun _ _ => ?_
  · exact answers_ite (fun _ => answers_refuse _ _) fun _ => answers_ok trivial
  · exact answers_ite (fun _ => answers_refuse _ _) fun _ => answers_ok trivial

theorem answers_expectPoliciesContract (policies : JsonFields) :
    Answers (fun _ => True) (expectPoliciesContract policies) := by
  unfold expectPoliciesContract
  iterate 8 refine (answers_expectStringValue _ _ _).bind fun _ _ => ?_
  exact answers_expectTrueValue _ _

/-! ## The completion -/

/-- What is read of a completion can be read again, and is valid. -/
def ReadsCompletion (parts : String × String × List String) : Prop :=
  ∃ completion, validateCompletion completion = .ok () ∧
    completionFromParts parts.1 parts.2.1 parts.2.2 = .ok completion

theorem readsCompletion_incomplete {basis : String} {reasons : List String}
    (hreasons : ∀ reason ∈ reasons, (reasonFromToken reason).isSome) (hbasis : basis ∈ reasons) :
    ReadsCompletion ("incomplete", basis, reasons) := by
  obtain ⟨parsed, hparsed⟩ : ∃ parsed, reasons.mapM (fun reason =>
      orInvalid (reasonFromToken reason) "incomplete_reasons" reason) = .ok parsed := by
    rw [exists_mapM_ok_iff]
    intro reason hreason
    obtain ⟨a, ha⟩ := Option.isSome_iff_exists.mp (hreasons reason hreason)
    exact ⟨a, by rw [ha]; rfl⟩
  obtain ⟨a, hmem, ha⟩ := (forall₂_partner (mapM_eq_ok_iff.mp hparsed)).1 basis hbasis
  have hbasis : reasonFromToken basis = some a := orError_eq_ok_iff.mp ha
  refine ⟨.incomplete a parsed, validateCompletion_incomplete.mpr hmem, ?_⟩
  unfold completionFromParts
  dsimp only
  rw [if_neg (by simp), if_pos rfl, hbasis, orInvalid, orRefuse, orError_some, ok_bind, hparsed,
    ok_bind]

theorem answers_parseCompletion (h : fields.Valued) :
    Answers ReadsCompletion (parseCompletion fields) := by
  unfold parseCompletion
  refine (answers_orRefuse _ _).bind fun completion _ => ?_
  refine (answers_orRefuse _ _).bind fun basis _ => ?_
  refine (answers_stringArrayField h).bind fun items _ => ?_
  refine (answers_orRefuse _ _).bind fun reasons _ => ?_
  refine answers_ite (fun hcomplete => ?_) fun _ => answers_ite (fun hincomplete => ?_) fun _ =>
    answers_refuse _ _
  · refine answers_ite (fun _ => answers_refuse _ _) fun _ => answers_ok ⟨.complete, rfl, ?_⟩
    exact if_pos hcomplete
  · refine answers_ite (fun _ => answers_refuse _ _) fun _ => ?_
    refine answers_ite (fun _ => answers_refuse _ _) fun _ => ?_
    have hall : ∀ reason ∈ reasons, Answers (fun _ => (reasonFromToken reason).isSome)
        (if (reasonFromToken reason).isNone then
          refuse .completionMarkerInvalid s!"unknown incomplete_reason {reason}"
        else (.ok () : Reading Unit)) := fun reason _ =>
      answers_ite (fun _ => answers_refuse _ _) fun hknown =>
        answers_ok (Option.isSome_iff_ne_none.mpr (by simpa using hknown))
    refine (answers_forM hall).bind fun _ hknown => ?_
    refine answers_ite (fun _ => answers_refuse _ _) fun hbasis => answers_ok ?_
    rw [hincomplete]
    exact readsCompletion_incomplete hknown (not_not.mp hbasis)

/-! ## The inspection -/

theorem answers_parseCounts (fields : JsonFields) : Answers (fun _ => True) (parseCounts fields) := by
  unfold parseCounts
  refine (answers_orRefuse _ _).bind fun raw _ => (answers_parseFields _).bind fun counts _ => ?_
  iterate 4 refine (answers_countsField _ _).bind fun _ _ => ?_
  exact answers_ok trivial

theorem answers_inspectRecord (line : WireLine) : Answers (fun _ => True) (inspectRecord line) := by
  unfold inspectRecord
  cases recordSchema line.1 with
  | none => exact answers_refuse _ _
  | some schema => exact answers_expectSchema _ _

theorem answers_inspectManifest (manifest : JsonFields) (lines : List (List Char))
    (lastIndex : Nat) : Answers (fun _ => u64Field manifest "version" = some CONTRACT_VERSION)
      (inspectManifest manifest lines lastIndex) := by
  unfold inspectManifest
  refine (answers_expectSchema _ _).bind fun _ _ => ?_
  refine (answers_expectVersion _).bind fun _ hversion => ?_
  refine (answers_expectManifestContract _).bind fun _ _ => ?_
  refine (answers_enforceDeclaredReadLimits _ _ _).bind fun _ _ => ?_
  refine (answers_orRefuse _ _).bind fun _ _ => (answers_parseFields _).bind fun source _ => ?_
  refine (answers_hexField _ _).bind fun _ _ => (answers_orRefuse _ _).bind fun _ _ => ?_
  refine (answers_orRefuse _ _).bind fun _ _ => (answers_parseFields _).bind fun parent _ => ?_
  refine (answers_optHexField _ _).bind fun _ _ => (answers_optHexField _ _).bind fun _ _ => ?_
  exact answers_ok hversion

theorem answers_inspectPolicies (policies : JsonFields) :
    Answers (fun _ => True) (inspectPolicies policies) := by
  unfold inspectPolicies
  refine (answers_expectSchema _ _).bind fun _ _ => (answers_expectVersion _).bind fun _ _ => ?_
  exact answers_expectPoliciesContract _

theorem answers_inspectFooter {footer : JsonFields} (h : footer.Valued) (records : List WireLine) :
    Answers (fun _ => True) (inspectFooter footer records) := by
  unfold inspectFooter
  refine (answers_expectSchema _ _).bind fun _ _ => (answers_expectVersion _).bind fun _ _ => ?_
  refine (answers_expectTrueValue _ _).bind fun _ _ => ?_
  refine (answers_parseCompletion h).bind fun _ _ => ?_
  refine (answers_hexField _ _).bind fun _ _ => (answers_hexField _ _).bind fun _ _ => ?_
  exact (answers_parseCounts _).bind fun _ _ => answers_ok trivial

end

/-! ## Lines -/

theorem answers_documentLines (text : List Char) :
    Answers (fun lines => documentLines text = .ok lines ∧ AreLines lines ∧ text = written lines)
      (documentLines text) := by
  have hanswers : Answers (fun _ => True) (documentLines text) := by
    unfold documentLines
    refine answers_ite (fun _ => answers_refuse _ _) fun _ => ?_
    refine answers_ite (fun _ => answers_refuse _ _) fun hend => ?_
    obtain rfl | ⟨body, last, rfl⟩ := List.eq_nil_or_concat' text
    · simp at hend
    · rw [List.getLast?_concat, not_not, Option.some_inj] at hend
      rw [hend, bodyOf_concat, ok_bind]
      refine answers_ite (fun _ => answers_refuse _ _) fun _ => ?_
      exact answers_ite (fun _ => answers_refuse _ _) fun _ => answers_ok trivial
  rcases hanswers with h | ⟨lines, -, h⟩
  · exact Or.inl h
  · exact Or.inr ⟨lines, ⟨h, areLines_of_documentLines h⟩, h⟩

theorem answers_inspectLine (line : List Char) :
    Answers (fun parsed => parsed.2.Valued ∧ readLine line = .ok parsed) (inspectLine line) := by
  unfold inspectLine
  have hread : Answers (fun parsed => parsed.2.Valued ∧ readLine line = .ok parsed)
      (readLine line) := by
    have hanswers : Answers (fun parsed => parsed.2.Valued) (readLine line) := by
      unfold readLine
      refine (answers_parseFields line).bind fun fields hvalued => ?_
      exact (answers_lineKind fields).bind fun kind _ => answers_ok hvalued
    rcases hanswers with h | ⟨parsed, hvalued, h⟩
    · exact Or.inl h
    · exact Or.inr ⟨parsed, ⟨hvalued, h⟩, h⟩
  refine hread.bind ?_
  rintro ⟨kind, fields⟩ hparsed
  exact answers_ite (fun _ => answers_refuse _ _) fun _ => answers_ok hparsed

/-- A document that is taken, with the fields of its lines. -/
structure Frame where
  manifestLine : List Char
  policiesLine : List Char
  recordLines : List (List Char)
  footerLine : List Char
  manifest : JsonFields
  policies : JsonFields
  body : List WireLine
  footer : JsonFields

namespace Frame

variable (frame : Frame)

def lines : List (List Char) :=
  framed frame.manifestLine frame.policiesLine frame.recordLines frame.footerLine

def parsed : List WireLine :=
  framed (KIND_MANIFEST, frame.manifest) (KIND_POLICIES, frame.policies) frame.body
    (KIND_FOOTER, frame.footer)

/-- The text is this document. -/
structure Frames (text : List Char) : Prop where
  documentLines : documentLines text = .ok frame.lines
  areLines : AreLines frame.lines
  text_eq : text = written frame.lines
  readLines : frame.lines.mapM readLine = .ok frame.parsed
  version : u64Field frame.manifest "version" = some CONTRACT_VERSION
  valued : ∀ line ∈ frame.parsed, line.2.Valued

end Frame

theorem exists_framed_of_map {α β : Type} {f : α → β} {items : List α} {a b c : β} {body : List β}
    (h : items.map f = framed a b body c) : ∃ first second middle last,
      items = framed first second middle last ∧ f first = a ∧ f second = b ∧
        middle.map f = body ∧ f last = c := by
  obtain ⟨first, rest, rfl, hfirst, hrest⟩ := List.map_eq_cons_iff.mp h
  obtain ⟨second, more, rfl, hsecond, hmore⟩ := List.map_eq_cons_iff.mp hrest
  obtain ⟨middle, ends, rfl, hmiddle, hends⟩ := List.map_eq_append_iff.mp hmore
  obtain ⟨last, rfl, hlast⟩ := List.map_eq_singleton_iff.mp hends
  exact ⟨first, second, middle, last, rfl, hfirst, hsecond, hmiddle, hlast⟩

theorem exists_framed_of_forall₂ {α β : Type} {R : α → β → Prop} {items : List α} {a b c : β}
    {body : List β} (h : List.Forall₂ R items (framed a b body c)) :
    ∃ first second middle last, items = framed first second middle last := by
  obtain ⟨first, rest, -, hrest, rfl⟩ := List.forall₂_cons_right_iff.mp h
  obtain ⟨second, more, -, hmore, rfl⟩ := List.forall₂_cons_right_iff.mp hrest
  obtain rfl | ⟨middle, last, rfl⟩ := List.eq_nil_or_concat' more
  · have hlength := hmore.length_eq
    simp at hlength
  · exact ⟨first, second, middle, last, rfl⟩

/-- The inspection refuses a text, or it is a document. -/
theorem answers_inspectCleanedWire (text : List Char) :
    Answers (fun _ => ∃ frame : Frame, frame.Frames text) (inspectCleanedWire text) := by
  unfold inspectCleanedWire
  refine (answers_documentLines text).bind fun lines hlines => ?_
  obtain ⟨hdocument, hare, rfl⟩ := hlines
  have hinspect : ∀ line ∈ lines, Answers (fun parsed : WireLine => parsed.2.Valued)
      (inspectLine line) := fun line _ => (answers_inspectLine line).mono fun _ h => h.1
  refine (answers_mapM hinspect).bind fun parsed hparsed => ?_
  have hread : List.Forall₂ (fun line parsed => readLine line = .ok parsed) lines parsed :=
    hparsed.imp fun line _ h => ((answers_inspectLine line).of_ok h.2).2
  have hvalued : ∀ line ∈ parsed, line.2.Valued := by
    intro line hline
    obtain ⟨raw, -, h⟩ := (forall₂_partner hparsed).2 line hline
    exact h.1
  have hne : parsed.map (·.1) ≠ [] := by
    intro hnil
    rw [List.map_eq_nil_iff] at hnil
    subst hnil
    exact hare.nonempty (List.forall₂_nil_right_iff.mp hread)
  refine (answers_checkPositions hne).bind fun _ hframed => ?_
  obtain ⟨kinds, hkinds, -⟩ := hframed
  obtain ⟨⟨_, manifest⟩, ⟨_, policies⟩, body, ⟨_, footer⟩, rfl, rfl, rfl, rfl, rfl⟩ :=
    exists_framed_of_map hkinds
  obtain ⟨manifestLine, policiesLine, recordLines, footerLine, rfl⟩ := exists_framed_of_forall₂ hread
  have hlast : (framed (KIND_MANIFEST, manifest) (KIND_POLICIES, policies) body
      (KIND_FOOTER, footer)).length - 1 = body.length + 2 := by
    rw [length_framed]
    rfl
  simp only [hlast, indexed_framed_zero, indexed_framed_one, indexed_framed_last, ranged_framed,
    ok_bind]
  refine (answers_inspectManifest _ _ _).bind fun _ hversion => ?_
  refine (answers_inspectPolicies _).bind fun _ _ => ?_
  refine (answers_checks fun line _ => answers_inspectRecord line).bind fun _ _ => ?_
  refine (answers_inspectFooter (hvalued (KIND_FOOTER, footer) (by simp [framed])) _).mono fun _ _ => ?_
  exact ⟨⟨manifestLine, policiesLine, recordLines, footerLine, manifest, policies, body, footer⟩,
    hdocument, hare, rfl, mapM_eq_ok_iff.mpr hread, hversion, hvalued⟩

end LawNexus.CleanedWire
