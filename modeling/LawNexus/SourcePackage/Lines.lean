import LawNexus.SourcePackage.Wire

/-!
# The lines of a package

What the reader makes of one line, and what the writer has checked of all of them.
-/

namespace LawNexus.SourcePackage

open Loops

/-! ## What is assumed of `serde_json` -/

/-- A printed value is one line, and is read as this value. -/
structure SerdeJson.PrintsBack (serde : SerdeJson) (value : Json) : Prop where
  ne_nil : ∀ {line}, serde.toString value = .ok line → line ≠ []
  newline : ∀ {line}, serde.toString value = .ok line → '\n' ∉ line
  carriage_return : ∀ {line}, serde.toString value = .ok line → '\r' ∉ line
  tokens : ∀ {line}, serde.toString value = .ok line → serde.tokens line = value.tokens
  fromStr : ∀ {line}, serde.toString value = .ok line → serde.fromStr line = .ok value

/-- `serde_json` reads back what it printed of a package. -/
structure SerdeJson.ReadsBack (serde : SerdeJson) (package : Package) : Prop where
  manifest_line : serde.PrintsBack package.manifest.serialize
  record_line : ∀ record ∈ package.records, serde.PrintsBack record.serialize
  footer_line : serde.PrintsBack package.footer.serialize
  manifest : serde.manifest package.manifest.serialize = .ok package.manifest
  element : ∀ {record}, .element record ∈ package.records →
    serde.element record.serialize = .ok record
  text : ∀ {record}, .text record ∈ package.records → serde.text record.serialize = .ok record
  footer : serde.footer package.footer.serialize = .ok package.footer

variable {serde : SerdeJson} {sha256 : List UInt8 → List UInt8}

theorem canonicalJson_ok_iff {value : Json} {line : List Char} :
    canonicalJson serde value = .ok line ↔ serde.toString value = .ok line := by
  unfold canonicalJson fail
  cases serde.toString value <;> simp

/-! ## One line -/

theorem finishLine_bytes {line : List Char} (hne : line ≠ []) (hcr : '\r' ∉ line) (n : Nat) :
    finishLine (Utf8.bytes line) n = .ok line := by
  have hbytes : (13 : UInt8) ∉ Utf8.bytes line := Utf8.ascii_notMem_bytes rfl (by decide) hcr
  have hlength : Utf8.bytes line ≠ [] := by
    rw [← List.length_pos_iff, Utf8.length_bytes]
    exact Utf8.byteLen_pos hne
  rw [finishLine, if_neg hbytes, if_neg (by simpa using hlength), Utf8.decode_bytes]

theorem strictValue_printed {value : Json} (h : serde.PrintsBack value) (hdistinct : value.Distinct)
    {line : List Char} (hline : serde.toString value = .ok line) (n : Nat) :
    strictValue serde line n = .ok value := by
  have hscan := strictScan_tokens hdistinct [] []
  rw [List.append_nil] at hscan
  rw [strictValue, h.tokens hline, hscan, strictScan, h.fromStr hline]

theorem saturatingAdd_assoc (a b c : Nat) :
    saturatingAdd (saturatingAdd a b) c = saturatingAdd a (b + c) := by
  unfold saturatingAdd
  omega

theorem saturatingAdd_saturatingAdd (a b c : Nat) :
    saturatingAdd a (saturatingAdd b c) = saturatingAdd a (b + c) := by
  unfold saturatingAdd
  omega

theorem saturatingAdd_mono {a b c : Nat} (h : b ≤ c) : saturatingAdd a b ≤ saturatingAdd a c := by
  unfold saturatingAdd
  omega

theorem checkTake_ok_iff {lineCap totalCap outLen total take total' : Nat} :
    checkTake lineCap totalCap outLen total take = .ok total' ↔
      outLen + take ≤ lineCap ∧ saturatingAdd total take ≤ totalCap ∧
        total' = saturatingAdd total take := by
  unfold checkTake fail
  split_ifs with hline htotal
  · exact iff_of_false nofun fun h => by omega
  · exact iff_of_false nofun fun h => by omega
  · rw [Except.ok.injEq, eq_comm]
    exact ⟨fun h => ⟨by omega, by omega, h⟩, fun h => h.2.2⟩

theorem idxOf?_append_cons {α : Type} [DecidableEq α] {a : α} {l : List α} (h : a ∉ l)
    (rest : List α) : (l ++ a :: rest).idxOf? a = some l.length := by
  induction l with
  | nil => simp [List.idxOf?_cons]
  | cons b l ih =>
    rw [List.mem_cons, not_or] at h
    rw [List.cons_append, List.idxOf?_cons, ih h.2]
    simp [Ne.symm h.1]

/-- Where the first buffer of a reader ends before the first newline, or behind it. -/
theorem split_first {buf line rest : List UInt8} {reader : Reader} (hline : (10 : UInt8) ∉ line)
    (h : (buf :: reader).flatten = line ++ 10 :: rest) :
    (∃ l, buf.idxOf? 10 = none ∧ line = buf ++ l ∧ reader.flatten = l ++ 10 :: rest) ∨
      ∃ b, buf.idxOf? 10 = some line.length ∧ buf = line ++ 10 :: b ∧
        rest = b ++ reader.flatten := by
  rw [List.flatten_cons] at h
  obtain ⟨l, hl, hreader⟩ | ⟨b, hb, hrest⟩ := List.append_eq_append_iff.mp h
  · refine Or.inl ⟨l, ?_, hl, hreader⟩
    rw [List.idxOf?_eq_none_iff]
    exact fun hmem => hline (hl ▸ List.mem_append_left l hmem)
  · cases b with
    | nil =>
      rw [List.append_nil] at hb
      refine Or.inl ⟨[], ?_, by rw [hb, List.append_nil], hrest.symm⟩
      rwa [List.idxOf?_eq_none_iff, hb]
    | cons c b =>
      obtain ⟨rfl, htail⟩ := List.cons.inj hrest
      exact Or.inr ⟨b, by rw [hb, idxOf?_append_cons hline], hb, htail⟩

/-- A reader that holds a line gives it where it fits the caps, in whatever pieces it comes. -/
theorem readLineBounded_of_fits {lineCap totalCap total : Nat} {reader : Reader}
    {line rest out : List UInt8} (hline : (10 : UInt8) ∉ line)
    (hreader : reader.flatten = line ++ 10 :: rest)
    (hcap : out.length + (line.length + 1) ≤ lineCap)
    (htotal : saturatingAdd total (line.length + 1) ≤ totalCap) :
    ∃ reader' : Reader, reader'.flatten = rest ∧
      readLineBounded lineCap totalCap reader out total =
        .ok (.line (out ++ line ++ [10]) (saturatingAdd total (line.length + 1)) reader') := by
  induction reader generalizing line out total with
  | nil => simp at hreader
  | cons buf reader ih =>
    cases buf with
    | nil => exact ih hline hreader hcap htotal
    | cons byte more =>
      rw [readLineBounded]
      generalize byte :: more = buf at hreader ⊢
      obtain ⟨l, hidx, rfl, hrest⟩ | ⟨b, hidx, rfl, rfl⟩ := split_first hline hreader
      · rw [List.length_append] at hcap htotal
        have htake := saturatingAdd_mono (a := total) (show buf.length ≤ buf.length + l.length + 1
          by omega)
        have hcheck : checkTake lineCap totalCap out.length total buf.length =
            .ok (saturatingAdd total buf.length) :=
          checkTake_ok_iff.mpr ⟨by omega, htake.trans htotal, rfl⟩
        obtain ⟨reader', hflat, hread⟩ := @ih (saturatingAdd total buf.length) l (out ++ buf)
          (fun hmem => hline (List.mem_append_right _ hmem)) hrest
          (by rw [List.length_append]; omega)
          (by rw [saturatingAdd_assoc, ← Nat.add_assoc]; exact htotal)
        refine ⟨reader', hflat, ?_⟩
        rw [hidx]
        dsimp only
        rw [hcheck, ok_bind, hread, saturatingAdd_assoc, List.length_append]
        simp only [List.append_assoc, Nat.add_assoc]
      · have hcheck : checkTake lineCap totalCap out.length total (line.length + 1) =
            .ok (saturatingAdd total (line.length + 1)) := checkTake_ok_iff.mpr ⟨hcap, htotal, rfl⟩
        refine ⟨b :: reader, rfl, ?_⟩
        rw [hidx]
        dsimp only
        rw [hcheck, ok_bind, List.append_cons, List.take_left' (by simp), List.drop_left' (by simp),
          List.append_assoc]

theorem fits_of_readLineBounded {lineCap totalCap total : Nat} {reader : Reader}
    {line rest out : List UInt8} (hline : (10 : UInt8) ∉ line)
    (hreader : reader.flatten = line ++ 10 :: rest) {r : LineRead}
    (h : readLineBounded lineCap totalCap reader out total = .ok r) :
    out.length + (line.length + 1) ≤ lineCap ∧
      saturatingAdd total (line.length + 1) ≤ totalCap := by
  induction reader generalizing line out total with
  | nil => simp at hreader
  | cons buf reader ih =>
    cases buf with
    | nil => exact ih hline hreader h
    | cons byte more =>
      rw [readLineBounded] at h
      generalize byte :: more = buf at hreader h
      obtain ⟨l, hidx, rfl, hrest⟩ | ⟨b, hidx, rfl, rfl⟩ := split_first hline hreader
      · rw [hidx] at h
        obtain ⟨total₁, hcheck, h⟩ := bind_eq_ok_iff.mp h
        obtain ⟨-, -, rfl⟩ := checkTake_ok_iff.mp hcheck
        obtain ⟨hcap, htotal⟩ := ih (fun hmem => hline (List.mem_append_right _ hmem)) hrest h
        rw [saturatingAdd_assoc] at htotal
        rw [List.length_append] at hcap ⊢
        exact ⟨by omega, by rwa [Nat.add_assoc]⟩
      · rw [hidx] at h
        obtain ⟨total₁, hcheck, -⟩ := bind_eq_ok_iff.mp h
        obtain ⟨hcap, htotal, -⟩ := checkTake_ok_iff.mp hcheck
        exact ⟨hcap, htotal⟩

/-! ## What the writer has checked -/

def Package.values (package : Package) : List Json :=
  package.manifest.serialize :: package.records.map Record.serialize ++ [package.footer.serialize]

/-- The lines that the values are printed as. -/
def Printed (serde : SerdeJson) : List Json → List (List Char) → Prop :=
  List.Forall₂ fun value line => serde.toString value = .ok line

/-- The bytes of the lines, each with its newline. -/
def wireBytes (lines : List (List Char)) : List UInt8 :=
  lines.flatMap fun line => Utf8.bytes line ++ [10]

theorem length_wireBytes_append (lines more : List (List Char)) :
    (wireBytes (lines ++ more)).length = (wireBytes lines).length + (wireBytes more).length := by
  rw [wireBytes, List.flatMap_append, List.length_append]
  rfl

theorem length_wireBytes_cons (line : List Char) (lines : List (List Char)) :
    (wireBytes (line :: lines)).length = (wireBytes [line]).length + (wireBytes lines).length :=
  length_wireBytes_append [line] lines

theorem length_wireBytes_singleton (line : List Char) :
    (wireBytes [line]).length = Utf8.byteLen line + 1 := by
  simp [wireBytes]

theorem checkSerialized_total {limits : Limits} {state state' : Nat × Nat} {value : Json}
    {line : List Char} (hline : serde.toString value = .ok line)
    (h : checkSerialized serde limits state value = .ok state') :
    state'.1 = saturatingAdd state.1 (wireBytes [line]).length ∧
      state'.1 ≤ limits.maxPackageBytes := by
  obtain ⟨total, index⟩ := state
  rw [checkSerialized, canonicalJson_ok_iff.mpr hline, ok_bind, checkLine] at h
  unfold fail at h
  dsimp only at h
  split_ifs at h with hlong htotal
  obtain rfl := Except.ok.inj h
  rw [saturatingAdd_saturatingAdd] at htotal ⊢
  rw [length_wireBytes_singleton]
  exact ⟨rfl, not_lt.mp htotal⟩

theorem saturatingAdd_le (a b : Nat) : saturatingAdd a b ≤ u64Max := Nat.min_le_right _ _

theorem saturatingAdd_zero {a : Nat} (h : a ≤ u64Max) : saturatingAdd a 0 = a := Nat.min_eq_left h

theorem foldlM_checkSerialized {limits : Limits} {state state' : Nat × Nat}
    {records : List Record} {lines : List (List Char)} (hstate : state.1 ≤ u64Max)
    (hlines : Printed serde (records.map Record.serialize) lines)
    (h : records.foldlM (fun state record => checkSerialized serde limits state record.serialize)
      state = .ok state') : state'.1 = saturatingAdd state.1 (wireBytes lines).length := by
  induction records generalizing state lines with
  | nil =>
    cases hlines
    obtain rfl := Except.ok.inj h
    exact (saturatingAdd_zero hstate).symm
  | cons record records ih =>
    obtain ⟨line, lines, hline, hrest, rfl⟩ := List.forall₂_cons_left_iff.mp hlines
    rw [List.foldlM_cons] at h
    obtain ⟨mid, hmid, h⟩ := bind_eq_ok_iff.mp h
    obtain ⟨htotal, -⟩ := checkSerialized_total hline hmid
    rw [ih (htotal ▸ saturatingAdd_le _ _) hrest h, htotal, saturatingAdd_assoc,
      ← length_wireBytes_cons]

theorem forall₂_append_left {α β : Type} {R : α → β → Prop} {l l' : List α} {m : List β} :
    List.Forall₂ R (l ++ l') m ↔
      ∃ m₁ m₂, List.Forall₂ R l m₁ ∧ List.Forall₂ R l' m₂ ∧ m = m₁ ++ m₂ := by
  induction l generalizing m with
  | nil => simp
  | cons a l ih =>
    rw [List.cons_append, List.forall₂_cons_left_iff]
    constructor
    · rintro ⟨b, rest, hab, hrest, rfl⟩
      obtain ⟨m₁, m₂, h₁, h₂, rfl⟩ := ih.mp hrest
      exact ⟨b :: m₁, m₂, .cons hab h₁, h₂, rfl⟩
    · rintro ⟨m₁, m₂, h₁, h₂, rfl⟩
      obtain ⟨b, rest, hab, hrest, rfl⟩ := List.forall₂_cons_left_iff.mp h₁
      exact ⟨b, rest ++ m₂, hab, ih.mpr ⟨rest, m₂, hrest, h₂, rfl⟩, rfl⟩

theorem printed_values {package : Package} {lines : List (List Char)} :
    Printed serde package.values lines ↔ ∃ manifestLine recordLines footerLine,
      serde.toString package.manifest.serialize = .ok manifestLine ∧
      Printed serde (package.records.map Record.serialize) recordLines ∧
      serde.toString package.footer.serialize = .ok footerLine ∧
      lines = manifestLine :: recordLines ++ [footerLine] := by
  unfold Package.values Printed
  constructor
  · intro h
    rw [List.cons_append] at h
    obtain ⟨manifestLine, rest, hmanifest, hrest, rfl⟩ := List.forall₂_cons_left_iff.mp h
    obtain ⟨recordLines, back, hrecords, hback, rfl⟩ := forall₂_append_left.mp hrest
    obtain ⟨footerLine, none, hfooter, hnone, rfl⟩ := List.forall₂_cons_left_iff.mp hback
    cases hnone
    exact ⟨manifestLine, recordLines, footerLine, hmanifest, hrecords, hfooter, rfl⟩
  · rintro ⟨manifestLine, recordLines, footerLine, hmanifest, hrecords, hfooter, rfl⟩
    exact .cons hmanifest (forall₂_append_left.mpr ⟨_, _, hrecords, .cons hfooter .nil, rfl⟩)

theorem checkExportable_total {package : Package} {limits : Limits} {lines : List (List Char)}
    (hlines : Printed serde package.values lines)
    (h : checkExportable serde package limits = .ok ()) :
    saturatingAdd 0 (wireBytes lines).length ≤ limits.maxPackageBytes := by
  obtain ⟨manifestLine, recordLines, footerLine, hmanifest, hrecords, hfooter, rfl⟩ :=
    printed_values.mp hlines
  unfold checkExportable at h
  obtain ⟨s₁, h₁, h⟩ := bind_eq_ok_iff.mp h
  obtain ⟨s₂, h₂, h⟩ := bind_eq_ok_iff.mp h
  obtain ⟨s₃, h₃, -⟩ := bind_eq_ok_iff.mp h
  obtain ⟨htotal₁, -⟩ := checkSerialized_total hmanifest h₁
  have htotal₂ := foldlM_checkSerialized (htotal₁ ▸ saturatingAdd_le _ _) hrecords h₂
  obtain ⟨htotal₃, hcap⟩ := checkSerialized_total hfooter h₃
  rw [htotal₃, htotal₂, htotal₁, saturatingAdd_assoc, saturatingAdd_assoc] at hcap
  rwa [List.cons_append, length_wireBytes_cons, length_wireBytes_append]

theorem foldlM_serializeRecord {records : List Record} {out out' : List Char}
    (h : records.foldlM (fun out record => do
      let line ← serializeRecord serde record
      .ok (out ++ '\n' :: line)) out = .ok out') :
    ∃ lines, Printed serde (records.map Record.serialize) lines ∧
      out' = out ++ lines.flatMap ('\n' :: ·) := by
  induction records generalizing out with
  | nil =>
    obtain rfl := Except.ok.inj h
    exact ⟨[], .nil, by simp⟩
  | cons record records ih =>
    rw [List.foldlM_cons] at h
    obtain ⟨mid, hmid, h⟩ := bind_eq_ok_iff.mp h
    obtain ⟨line, hline, hmid⟩ := bind_eq_ok_iff.mp hmid
    obtain rfl := Except.ok.inj hmid
    obtain ⟨lines, hlines, rfl⟩ := ih h
    exact ⟨line :: lines, .cons (canonicalJson_ok_iff.mp hline) hlines, by simp⟩

theorem bytes_lines (line : List Char) (lines : List (List Char)) :
    Utf8.bytes (line ++ lines.flatMap ('\n' :: ·)) ++ [10] = wireBytes (line :: lines) := by
  induction lines generalizing line with
  | nil => simp [wireBytes]
  | cons next lines ih =>
    have hnewline : Utf8.bytes ['\n'] = [10] := by decide
    have hcons : wireBytes (line :: next :: lines) =
        Utf8.bytes line ++ [10] ++ wireBytes (next :: lines) := rfl
    rw [hcons, ← ih, ← hnewline, ← Utf8.bytes_append, ← Utf8.bytes_append, ← Utf8.bytes_append,
      ← Utf8.bytes_append]
    simp

/-- What is written is the printed values, line by line. -/
theorem toJsonl_lines {package : Package} {text : List Char}
    (h : toJsonl serde sha256 package = .ok text) : ∃ lines, Printed serde package.values lines ∧
      Utf8.bytes text = wireBytes lines ∧
      verifyPackage serde sha256 package package.manifest.limits = .ok () ∧
      checkExportable serde package package.manifest.limits = .ok () := by
  unfold toJsonl at h
  obtain ⟨⟨⟩, hverify, h⟩ := bind_eq_ok_iff.mp h
  obtain ⟨⟨⟩, hexport, h⟩ := bind_eq_ok_iff.mp h
  obtain ⟨manifestLine, hmanifest, h⟩ := bind_eq_ok_iff.mp h
  obtain ⟨out, hout, h⟩ := bind_eq_ok_iff.mp h
  obtain ⟨footerLine, hfooter, h⟩ := bind_eq_ok_iff.mp h
  obtain rfl := Except.ok.inj h
  obtain ⟨recordLines, hrecords, rfl⟩ := foldlM_serializeRecord hout
  refine ⟨manifestLine :: recordLines ++ [footerLine], printed_values.mpr ⟨_, _, _,
    canonicalJson_ok_iff.mp hmanifest, hrecords, canonicalJson_ok_iff.mp hfooter, rfl⟩, ?_,
    hverify, hexport⟩
  have hnewline : Utf8.bytes ['\n'] = [10] := by decide
  rw [List.cons_append, ← bytes_lines, ← hnewline, ← Utf8.bytes_append]
  simp

end LawNexus.SourcePackage
