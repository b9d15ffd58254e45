import LawNexus.CleanedWire.Accepted

/-!
# What the seals fix

Two documents with one root hash hold one projection, or two inputs of the hash collide.
-/

namespace LawNexus.CleanedWire

open Chars JsonText Loops Reader
open SourcePackage (isHex64 hexLower hexDigit)

/-! ## Hashes -/

theorem toNat_hexDigit {n : Nat} (h : n < 16) :
    (hexDigit n).toNat = if n < 10 then 48 + n else 87 + n := by
  interval_cases n <;> rfl

theorem hexDigit_inj {m n : Nat} (hm : m < 16) (hn : n < 16) (h : hexDigit m = hexDigit n) :
    m = n := by
  have hnat := congrArg Char.toNat h
  rw [toNat_hexDigit hm, toNat_hexDigit hn] at hnat
  split_ifs at hnat <;> omega

theorem hexLower_injective : Function.Injective hexLower := by
  intro bytes bytes' h
  have hchars := congrArg String.toList h
  simp only [hexLower, String.toList_ofList] at hchars
  clear h
  induction bytes generalizing bytes' with
  | nil =>
    cases bytes' with
    | nil => rfl
    | cons byte' bytes' => simp at hchars
  | cons byte bytes ih =>
    cases bytes' with
    | nil => simp at hchars
    | cons byte' bytes' =>
      simp only [List.flatMap_cons, List.cons_append, List.nil_append, List.cons.injEq] at hchars
      obtain ⟨hhigh, hlow, hrest⟩ := hchars
      have hbyte := byte.toNat_lt
      have hbyte' := byte'.toNat_lt
      have hdiv := hexDigit_inj (by omega) (by omega) hhigh
      have hmod := hexDigit_inj (by omega) (by omega) hlow
      have heq : byte = byte' := UInt8.toNat_inj.mp (by omega)
      rw [heq, ih hrest]

theorem newline_notMem_of_isHex64 {hash : String} (h : isHex64 hash = true) :
    '\n' ∉ hash.toList := by
  intro hmem
  have hbyte : (10 : UInt8) ∈ Utf8.bytes hash.toList :=
    List.mem_flatMap.mpr ⟨'\n', hmem, by decide⟩
  unfold isHex64 at h
  simp only [Bool.and_eq_true, List.all_eq_true] at h
  simpa using h.2 _ hbyte

theorem bytes_injective : Function.Injective Utf8.bytes := by
  intro text text' h
  apply Option.some.inj
  rw [← Utf8.decode_bytes text, h, Utf8.decode_bytes]

section

variable (sha256 : Sha256)

/-- Two texts with one digest. -/
def Collide (input input' : List Char) : Prop :=
  Utf8.bytes input ≠ Utf8.bytes input' ∧ sha256 (Utf8.bytes input) = sha256 (Utf8.bytes input')

theorem eq_or_collide {input input' : List Char}
    (h : hexLower (sha256 (Utf8.bytes input)).1 = hexLower (sha256 (Utf8.bytes input')).1) :
    input = input' ∨ Collide sha256 input input' := by
  by_cases hbytes : Utf8.bytes input = Utf8.bytes input'
  · exact Or.inl (bytes_injective hbytes)
  · exact Or.inr ⟨hbytes, Subtype.ext (hexLower_injective h)⟩

end

/-! ## Lines -/

/-- A line says itself where it ends: blanks may stand in front of it, and anything behind it. -/
theorem fieldsLoop_append {trailing : Bool} {line : List Char} {members : List Member}
    (h : IsLine trailing line members) : ∃ body after, Blank after ∧
      (∀ pad, Blank pad → ∀ rest, skipWs (pad ++ (line ++ rest)) = '\x7b' :: (body ++ rest)) ∧
      ∀ rest limit, (body ++ rest).length < limit →
        fieldsLoop (.ofText limit) limit [] (body ++ rest) =
          .ok (members.map Member.entry, after ++ rest) := by
  obtain ⟨hmembers, before, body, after, hbefore, hafter, ⟨ending, hending, hbody⟩, rfl⟩ := h
  refine ⟨body, after, hafter, fun pad hpad rest => ?_, fun rest limit hlimit => ?_⟩
  · rw [List.append_assoc, ← List.append_assoc pad, List.cons_append,
      skipWs_cons (hpad.append hbefore) rfl]
  · have hcloses : ClosesLine trailing members (body ++ rest) (after ++ rest) :=
      ⟨ending, hending, by simp [hbody]⟩
    have hlength : members.length < limit := by
      have hcount := length_le_members members
      simp only [hbody, List.length_append, List.length_cons] at hlimit
      omega
    have hkeys : Continues (IsValue MAX_JSON_DEPTH)
        (([] : List (List Char × List Char)).map (·.1)) members := hmembers
    exact fieldsLoop_line hkeys hcloses hlimit hlength

theorem exists_isLine {line : List Char} {fields : JsonFields}
    (h : JsonFields.parse line = .ok fields) : ∃ trailing members, IsLine trailing line members ∧
      JsonFields.parse line = .ok ⟨members.map Member.entry⟩ := by
  rcases reads_parse line with ⟨error, herror⟩ | hline
  · rw [h] at herror
    cases herror
  · exact hline

/-- A blank text has no lines. -/
theorem flatten_eq_nil_of_blank {lines : List (List Char)} {pad pad' : List Char}
    (hlines : ∀ line ∈ lines, ∃ fields, JsonFields.parse line = .ok fields) (hpad : Blank pad)
    (hpad' : Blank pad') (h : pad' = pad ++ lines.flatten) : lines = [] := by
  cases lines with
  | nil => rfl
  | cons line lines =>
    obtain ⟨fields, hfields⟩ := hlines line List.mem_cons_self
    obtain ⟨trailing, members, hline, -⟩ := exists_isLine hfields
    obtain ⟨body, after, -, hskip, -⟩ := fieldsLoop_append hline
    have hbrace := hskip pad hpad lines.flatten
    rw [← List.flatten_cons, ← h, ← List.append_nil pad', skipWs_blank hpad'] at hbrace
    cases hbrace

/-- The lines run together say what each of them holds. -/
theorem map_parse_of_flatten {lines lines' : List (List Char)}
    (hlines : ∀ line ∈ lines, ∃ fields, JsonFields.parse line = .ok fields)
    (hlines' : ∀ line ∈ lines', ∃ fields, JsonFields.parse line = .ok fields)
    {pad pad' : List Char} (hpad : Blank pad) (hpad' : Blank pad')
    (h : pad ++ lines.flatten = pad' ++ lines'.flatten) :
    lines.map JsonFields.parse = lines'.map JsonFields.parse := by
  induction lines generalizing lines' pad pad' with
  | nil =>
    rw [List.flatten_nil, List.append_nil] at h
    rw [flatten_eq_nil_of_blank hlines' hpad' hpad h]
  | cons line lines ih =>
    cases lines' with
    | nil =>
      rw [List.flatten_nil, List.append_nil] at h
      exact absurd (flatten_eq_nil_of_blank hlines hpad hpad' h.symm) (List.cons_ne_nil _ _)
    | cons line' lines' =>
      obtain ⟨⟨fields, hfields⟩, hlines⟩ := List.forall_mem_cons.mp hlines
      obtain ⟨⟨fields', hfields'⟩, hlines'⟩ := List.forall_mem_cons.mp hlines'
      obtain ⟨_, members, hline, hparse⟩ := exists_isLine hfields
      obtain ⟨_, members', hline', hparse'⟩ := exists_isLine hfields'
      obtain ⟨body, after, hafter, hskip, hloop⟩ := fieldsLoop_append hline
      obtain ⟨body', after', hafter', hskip', hloop'⟩ := fieldsLoop_append hline'
      rw [List.flatten_cons, List.flatten_cons] at h
      have hbodies := hskip pad hpad lines.flatten
      rw [h, hskip' pad' hpad' lines'.flatten, List.cons.injEq] at hbodies
      have hends := hloop lines.flatten _ (Nat.lt_succ_self _)
      rw [← hbodies.2, hloop' lines'.flatten _ (Nat.lt_succ_self _), Except.ok.injEq,
        Prod.mk.injEq] at hends
      rw [List.map_cons, List.map_cons, hparse, hparse', hends.1,
        ih hlines hlines' hafter hafter' hends.2.symm]

theorem exists_parse_of_readLine {line : List Char} {parsed : WireLine}
    (h : readLine line = .ok parsed) : ∃ fields, JsonFields.parse line = .ok fields := by
  unfold readLine parseFields at h
  obtain ⟨fields, hfields, -⟩ := bind_eq_ok_iff.mp h
  cases hparse : JsonFields.parse line with
  | ok fields => exact ⟨fields, rfl⟩
  | error halt =>
    rw [hparse] at hfields
    cases hfields

theorem mapM_readLine_eq (lines : List (List Char)) :
    lines.mapM readLine = (lines.map JsonFields.parse).mapM fun parsed =>
      parsed.mapError .ofScan >>= fun fields => lineKind fields >>= fun kind =>
        .ok (kind, fields) := by
  rw [List.mapM_map]
  rfl

theorem readLines_of_flatten {lines lines' : List (List Char)} {parsed parsed' : List WireLine}
    (h : lines.mapM readLine = .ok parsed) (h' : lines'.mapM readLine = .ok parsed')
    (hflatten : lines.flatten = lines'.flatten) : parsed = parsed' := by
  have hlines : ∀ line ∈ lines, ∃ fields, JsonFields.parse line = .ok fields := by
    intro line hline
    obtain ⟨_, -, hok⟩ := (forall₂_partner (mapM_eq_ok_iff.mp h)).1 line hline
    exact exists_parse_of_readLine hok
  have hlines' : ∀ line ∈ lines', ∃ fields, JsonFields.parse line = .ok fields := by
    intro line hline
    obtain ⟨_, -, hok⟩ := (forall₂_partner (mapM_eq_ok_iff.mp h')).1 line hline
    exact exists_parse_of_readLine hok
  have hmap := map_parse_of_flatten hlines hlines' blank_nil blank_nil hflatten
  rw [mapM_readLine_eq, hmap, ← mapM_readLine_eq, h'] at h
  exact (Except.ok.inj h).symm

/-! ## The footer -/

theorem footerBody_inj {completion completion' : WireCompletion} {counts counts' : CleanedCounts}
    (hvalid : validateCompletion completion = .ok ())
    (hvalid' : validateCompletion completion' = .ok ()) (hfits : counts.Fits)
    (hfits' : counts'.Fits) (h : footerBody completion counts = footerBody completion' counts') :
    completion = completion' ∧ counts = counts' := by
  have hread : parseFields (footerBody completion counts) =
      .ok (fieldsOf (footerJson completion counts none none).entries) :=
    parseFields_render (readable_footer ..)
  have hread' : parseFields (footerBody completion' counts') =
      .ok (fieldsOf (footerJson completion' counts' none none).entries) :=
    parseFields_render (readable_footer ..)
  rw [h, hread', Except.ok.injEq] at hread
  have hholds := holdsFooter completion counts none none
  have hholds' := holdsFooter completion' counts' none none
  rw [← hread] at hholds
  constructor
  · have htokens := parseCompletion_completion hvalid hholds.marker hholds.basis hholds.reasons
    rw [parseCompletion_completion hvalid' hholds'.marker hholds'.basis hholds'.reasons,
      Except.ok.injEq, Prod.mk.injEq, Prod.mk.injEq] at htokens
    have hcompletion := completionFromParts_completion completion
    rw [← htokens.1, ← htokens.2.1, ← htokens.2.2, completionFromParts_completion,
      Except.ok.injEq] at hcompletion
    exact hcompletion.symm
  · have hcounts := parseCleanedCounts_footer hholds.counts hfits
    rw [parseCleanedCounts_footer hholds'.counts hfits', Except.ok.injEq] at hcounts
    exact hcounts.symm

/-! ## The document -/

/-- What the records are hashed over. -/
def Frame.recordsInput (frame : Frame) : List Char :=
  frame.policiesLine ++ frame.recordLines.flatten

/-- What the root is hashed over. -/
def Frame.rootInput (frame : Frame) (read : CleanedProjection) : List Char :=
  manifestInput frame.manifestLine read.recordsSealHash (footerBody read.completion read.counts)

section

variable (sha256 : Sha256) {frame frame' : Frame} {read read' : CleanedProjection}

/-- One manifest, one list of records and one footer are read as one projection. -/
theorem Frame.Reads.eq (h : frame.Reads sha256 read) (h' : frame'.Reads sha256 read')
    (hmanifest : frame.manifest = frame'.manifest) (hbody : frame.body = frame'.body)
    (hpin : read.pin = read'.pin) : read = read' := by
  have hpins := h.pins
  have hrecords := h.records
  rw [hmanifest, h'.pins, Except.ok.injEq, Prod.mk.injEq] at hpins
  rw [hbody, h'.records, Except.ok.injEq, Records.mk.injEq] at hrecords
  have hversion := h.contractVersion.trans h'.contractVersion.symm
  have hhash := h.contentHash.trans h'.contentHash.symm
  obtain ⟨_, _, _, ⟨_, _, _, _⟩, _, _, _, _, _⟩ := read
  obtain ⟨_, _, _, ⟨_, _, _, _⟩, _, _, _, _, _⟩ := read'
  simp_all [CleanedProjection.pin]

theorem Frame.Frames.newline {frame : Frame} {text : List Char} (h : frame.Frames text) :
    '\n' ∉ frame.manifestLine :=
  h.areLines.newline _ (by simp [Frame.lines, framed])

theorem mapM_framed {manifestLine policiesLine footerLine : List Char}
    {recordLines : List (List Char)} {manifest policies footer : WireLine} {body : List WireLine}
    (h : (framed manifestLine policiesLine recordLines footerLine).mapM readLine =
      .ok (framed manifest policies body footer)) :
    readLine manifestLine = .ok manifest ∧
      (policiesLine :: recordLines).mapM readLine = .ok (policies :: body) := by
  obtain ⟨hmanifest, hrest⟩ := List.forall₂_cons.mp (mapM_eq_ok_iff.mp h)
  obtain ⟨hpolicies, hmore⟩ := List.forall₂_cons.mp hrest
  have hlength := hmore.length_eq
  rw [List.length_append, List.length_append, List.length_singleton, List.length_singleton] at hlength
  have hrecords := List.forall₂_take body.length hmore
  rw [List.take_left, List.take_left' (by omega)] at hrecords
  exact ⟨hmanifest, mapM_eq_ok_iff.mpr (.cons hpolicies hrecords)⟩

/-- The manifest line, and the policies and the records run together, say what is read. -/
theorem Frame.Frames.parsed_eq {text text' : List Char} (h : frame.Frames text)
    (h' : frame'.Frames text') (hmanifest : frame.manifestLine = frame'.manifestLine)
    (hrecords : frame.recordsInput = frame'.recordsInput) :
    frame.manifest = frame'.manifest ∧ frame.body = frame'.body := by
  obtain ⟨hline, hbody⟩ := mapM_framed h.readLines
  obtain ⟨hline', hbody'⟩ := mapM_framed h'.readLines
  rw [hmanifest, hline', Except.ok.injEq, Prod.mk.injEq] at hline
  have hparsed := readLines_of_flatten hbody hbody' hrecords
  rw [List.cons.injEq] at hparsed
  exact ⟨hline.2.symm, hparsed.2⟩

/-- Two texts that are read with one root hash hold one projection, or two of the inputs that their
seals were recomputed over collide. -/
theorem seals_determine (text text' : List Char) :
    Answers (fun read => Answers (fun read' => read.manifestHash = read'.manifestHash →
        read = read' ∨ ∃ frame frame' : Frame, frame.Frames text ∧ frame'.Frames text' ∧
          (Collide sha256 (frame.rootInput read) (frame'.rootInput read') ∨
            Collide sha256 frame.recordsInput frame'.recordsInput))
      (readCleanedWire sha256 text')) (readCleanedWire sha256 text) := by
  refine (answers_readCleanedWire sha256 text).mono fun read hread => ?_
  refine (answers_readCleanedWire sha256 text').mono fun read' hread' hroot => ?_
  obtain ⟨frame, hframe, hreads⟩ := hread
  obtain ⟨frame', hframe', hreads'⟩ := hread'
  obtain ⟨hseal, hhash⟩ := (checkSeals_framed sha256 ..).mp hreads.seals
  obtain ⟨hseal', hhash'⟩ := (checkSeals_framed sha256 ..).mp hreads'.seals
  rcases eq_or_collide sha256 ((hhash.trans hroot).trans hhash'.symm) with hinput | hcollide
  swap
  · exact Or.inr ⟨frame, frame', hframe, hframe', Or.inl hcollide⟩
  have hpin := (answers_readFooter hframe.footerValued).of_ok hreads.footer
  have hpin' := (answers_readFooter hframe'.footerValued).of_ok hreads'.footer
  obtain ⟨hmanifest, hrest⟩ := (Texts.append_cons_inj hframe.newline hframe'.newline).mp hinput
  obtain ⟨hsealText, hfooter⟩ := (Texts.append_cons_inj
    (newline_notMem_of_isHex64 hpin.recordsSealHash)
    (newline_notMem_of_isHex64 hpin'.recordsSealHash)).mp hrest
  have hsealEq : read.recordsSealHash = read'.recordsSealHash := String.toList_inj.mp hsealText
  obtain ⟨hcompletion, hcounts⟩ : read.completion = read'.completion ∧ read.counts = read'.counts :=
    footerBody_inj hpin.completion hpin'.completion hpin.counts hpin'.counts hfooter
  rcases eq_or_collide sha256 ((hseal.trans hsealEq).trans hseal'.symm) with hrecords | hcollide
  · obtain ⟨hfields, hbody⟩ := hframe.parsed_eq hframe' hmanifest hrecords
    refine Or.inl (hreads.eq sha256 hreads' hfields hbody ?_)
    unfold CleanedProjection.pin
    rw [hcompletion, hcounts, hsealEq, hroot]
  · exact Or.inr ⟨frame, frame', hframe, hframe', Or.inr hcollide⟩

end

end LawNexus.CleanedWire
