import LawNexus.SourcePackage.Machine
import LawNexus.SourcePackage.RoundTrip
import Mathlib.Algebra.Order.BigOperators.Group.List

/-!
# What a stream delivers

The loop over the lines never overflows, whatever the caps are. It ends in the verification of the
package that the lines spell.
-/

namespace LawNexus.SourcePackage.Machine

open Loops

variable {serde : SerdeJson} {sha256 : List UInt8 → List UInt8}

/-! ## Single steps -/

section

variable {α β : Type}

theorem of_ne_overflow {r : Except SourcePackageError α} : Run.of r ≠ .error .overflow := by
  cases r with
  | ok a => nofun
  | error error => nofun

theorem of_bind (r : Except SourcePackageError α) (f : α → Except SourcePackageError β) :
    Run.of (r >>= f) = Run.of r >>= fun a => Run.of (f a) := by
  cases r <;> rfl

theorem of_forM (l : List α) (f : α → Except SourcePackageError Unit) :
    Run.of (l.forM f) = l.forM fun a => Run.of (f a) := by
  induction l with
  | nil => rfl
  | cons a l ih =>
    change Run.of (f a >>= fun _ => l.forM f) =
      Run.of (f a) >>= fun _ => l.forM fun a => Run.of (f a)
    rw [of_bind, ih]

/-- A run that only begins with a step that does not overflow overflows behind it. -/
theorem of_bind_overflow_iff {r : Except SourcePackageError α} {f : α → Run β} :
    (Run.of r >>= f) = .error .overflow ↔ ∃ a, r = .ok a ∧ f a = .error .overflow := by
  rw [bind_eq_error_iff, or_iff_right of_ne_overflow]
  simp only [of_eq_ok_iff]

/-- A pass ends in an error at the first element that gives it. -/
theorem forM_eq_error_iff {ε : Type} {f : α → Except ε Unit} {l : List α} {e : ε} :
    l.forM f = .error e ↔
      ∃ (i : Nat) (a : α), l[i]? = some a ∧ f a = .error e ∧
        ∀ j < i, ∀ b, l[j]? = some b → f b = .ok () := by
  induction l with
  | nil => exact iff_of_false nofun fun ⟨i, a, h, _⟩ => nomatch h
  | cons a l ih =>
    change (f a >>= fun _ => l.forM f) = .error e ↔ _
    rw [bind_eq_error_iff, ih]
    constructor
    · rintro (ha | ⟨⟨⟩, ha, i, b, hb, herror, hbefore⟩)
      · exact ⟨0, a, rfl, ha, nofun⟩
      · refine ⟨i + 1, b, hb, herror, ?_⟩
        rintro (_ | j) hj c hc
        · obtain rfl := Option.some.inj hc
          exact ha
        · exact hbefore j (Nat.lt_of_succ_lt_succ hj) c hc
    · rintro ⟨_ | i, b, hb, herror, hbefore⟩
      · obtain rfl := Option.some.inj hb
        exact Or.inl herror
      · refine Or.inr ⟨(), hbefore 0 (Nat.succ_pos i) a rfl, i, b, hb, herror, fun j hj c hc => ?_⟩
        exact hbefore (j + 1) (Nat.succ_lt_succ hj) c hc

end

theorem add_ok {a b : Nat} (h : a + b ≤ u64Max) : add a b = .ok (a + b) := if_neg (not_lt.mpr h)

theorem add_overflow {a b : Nat} (h : u64Max < a + b) : add a b = .error .overflow := if_pos h

theorem hold_ok_iff {n : Nat} : hold n = .ok () ↔ n ≤ isizeMax := by
  unfold hold
  split_ifs with h
  · exact iff_of_false nofun (not_le.mpr h)
  · exact iff_of_true rfl (not_lt.mp h)

theorem hold_ne_overflow {n : Nat} : hold n ≠ .error .overflow := by
  unfold hold
  split_ifs <;> nofun

theorem isizeMax_add : isizeMax + isizeMax + 1 ≤ u64Max := by decide

/-! ## Lines -/

/-- A line that fits the caps and the memory. -/
structure Fits (lineCap totalCap total : Nat) (line : List UInt8) : Prop where
  newline : (10 : UInt8) ∉ line
  line_cap : line.length + 1 ≤ lineCap
  total_cap : saturatingAdd total (line.length + 1) ≤ totalCap
  memory : line.length + 1 ≤ isizeMax

theorem exists_of_idxOf? {α : Type} [DecidableEq α] {l : List α} {a : α} {i : Nat}
    (h : l.idxOf? a = some i) :
    ∃ front back, l = front ++ a :: back ∧ a ∉ front ∧ front.length = i := by
  obtain ⟨hlt, hget, hbefore⟩ := List.idxOf?_eq_some_iff.mp h
  refine ⟨l.take i, l.drop (i + 1), ?_, ?_, List.length_take_of_le hlt.le⟩
  · rw [← hget, ← List.drop_eq_getElem_cons hlt, List.take_append_drop]
  · intro hmem
    obtain ⟨j, hj, hja⟩ := List.mem_take_iff_getElem.mp hmem
    exact hbefore j (by omega) hja

theorem readLineBounded_line {lineCap totalCap total total' : Nat} {reader reader' : Reader}
    {out read : List UInt8} (h : SourcePackage.readLineBounded lineCap totalCap reader out total =
      .ok (.line read total' reader')) :
    ∃ line, (10 : UInt8) ∉ line ∧ read = out ++ line ++ [10] ∧
      reader.flatten = line ++ 10 :: reader'.flatten ∧
      total' = saturatingAdd total (line.length + 1) := by
  induction reader generalizing out total with
  | nil => cases out <;> cases h
  | cons buf reader ih =>
    cases buf with
    | nil => exact ih h
    | cons byte more =>
      rw [SourcePackage.readLineBounded] at h
      generalize byte :: more = buf at h ⊢
      cases hposition : buf.idxOf? 10 with
      | some position =>
        simp only [hposition] at h
        obtain ⟨total₁, htake, hline⟩ := bind_eq_ok_iff.mp h
        obtain ⟨-, -, rfl⟩ := checkTake_ok_iff.mp htake
        obtain ⟨front, back, rfl, hnewline, rfl⟩ := exists_of_idxOf? hposition
        cases hline
        refine ⟨front, hnewline, ?_, ?_, rfl⟩
        · rw [List.append_cons, List.take_left' (by simp), List.append_assoc]
        · rw [List.flatten_cons, List.flatten_cons, List.append_cons,
            List.drop_left' (by simp)]
          simp
      | none =>
        simp only [hposition] at h
        obtain ⟨total₁, htake, hrest⟩ := bind_eq_ok_iff.mp h
        obtain ⟨-, -, rfl⟩ := checkTake_ok_iff.mp htake
        obtain ⟨line, hnewline, rfl, hflat, rfl⟩ := ih hrest
        refine ⟨buf ++ line, ?_, by simp, by simp [hflat], ?_⟩
        · rw [List.mem_append, not_or]
          exact ⟨List.idxOf?_eq_none_iff.mp hposition, hnewline⟩
        · rw [saturatingAdd_assoc, List.length_append, Nat.add_assoc]

/-- The length of a line never overflows. -/
theorem readLineBounded_ne_overflow {lineCap totalCap total : Nat} {reader : Reader}
    {out : List UInt8} (hslices : ∀ buf ∈ reader, buf.length ≤ isizeMax)
    (hout : out.length ≤ isizeMax) :
    readLineBounded lineCap totalCap reader out total ≠ .error .overflow := by
  induction reader generalizing out total with
  | nil => nofun
  | cons buf reader ih =>
    obtain ⟨hbuf, hleft⟩ := List.forall_mem_cons.mp hslices
    cases buf with
    | nil => exact ih hleft hout
    | cons byte more =>
      rw [readLineBounded]
      generalize byte :: more = buf at hbuf ⊢
      have hsum := isizeMax_add
      have htake : ∀ take ≤ buf.length,
          checkTake lineCap totalCap out.length total take ≠ .error .overflow := by
        intro take hle h
        rw [checkTake, add_ok (by omega), ok_bind] at h
        exact of_ne_overflow h
      intro h
      cases hposition : buf.idxOf? 10 with
      | some position =>
        obtain ⟨front, back, rfl, -, rfl⟩ := exists_of_idxOf? hposition
        simp only [hposition] at h
        rcases bind_eq_error_iff.mp h with h | ⟨total₁, -, h⟩
        · exact htake _ (by simp) h
        · rcases bind_eq_error_iff.mp h with h | ⟨⟨⟩, -, h⟩
          · exact hold_ne_overflow h
          · cases h
      | none =>
        simp only [hposition] at h
        rcases bind_eq_error_iff.mp h with h | ⟨total₁, -, h⟩
        · exact htake _ le_rfl h
        · rcases bind_eq_error_iff.mp h with h | ⟨⟨⟩, hhold, h⟩
          · exact hold_ne_overflow h
          · exact ih hleft (hold_ok_iff.mp hhold) h

/-- A line that is read lies in memory, and leaves slices behind. -/
theorem memory_of_readLineBounded {lineCap totalCap total total' : Nat} {reader reader' : Reader}
    {out read : List UInt8} (hslices : ∀ buf ∈ reader, buf.length ≤ isizeMax)
    (h : readLineBounded lineCap totalCap reader out total = .ok (.line read total' reader')) :
    read.length ≤ isizeMax ∧ ∀ buf ∈ reader', buf.length ≤ isizeMax := by
  induction reader generalizing out total with
  | nil => cases out <;> cases h
  | cons buf reader ih =>
    obtain ⟨hbuf, hleft⟩ := List.forall_mem_cons.mp hslices
    cases buf with
    | nil => exact ih hleft h
    | cons byte more =>
      rw [readLineBounded] at h
      generalize byte :: more = buf at hbuf h
      cases hposition : buf.idxOf? 10 with
      | some position =>
        simp only [hposition] at h
        obtain ⟨total₁, -, h⟩ := bind_eq_ok_iff.mp h
        obtain ⟨⟨⟩, hhold, h⟩ := bind_eq_ok_iff.mp h
        cases h
        refine ⟨hold_ok_iff.mp hhold, List.forall_mem_cons.mpr ⟨?_, hleft⟩⟩
        exact (List.length_drop.trans_le (Nat.sub_le _ _)).trans hbuf
      | none =>
        simp only [hposition] at h
        obtain ⟨total₁, -, h⟩ := bind_eq_ok_iff.mp h
        obtain ⟨⟨⟩, -, h⟩ := bind_eq_ok_iff.mp h
        exact ih hleft h

theorem readLineBounded_ok {lineCap totalCap total total' : Nat} {reader reader' : Reader}
    {out read : List UInt8} (hmemory : read.length ≤ isizeMax)
    (h : SourcePackage.readLineBounded lineCap totalCap reader out total =
      .ok (.line read total' reader')) :
    readLineBounded lineCap totalCap reader out total = .ok (.line read total' reader') := by
  induction reader generalizing out total with
  | nil => cases out <;> cases h
  | cons buf reader ih =>
    cases buf with
    | nil => exact ih h
    | cons byte more =>
      rw [SourcePackage.readLineBounded] at h
      rw [readLineBounded]
      generalize byte :: more = buf at h ⊢
      have hsum := isizeMax_add
      have htake : ∀ {take total₁}, out.length + take ≤ read.length →
          SourcePackage.checkTake lineCap totalCap out.length total take = .ok total₁ →
          checkTake lineCap totalCap out.length total take = .ok total₁ := by
        intro take total₁ hle htake
        rw [checkTake, add_ok (by omega), ok_bind, htake]
        rfl
      cases hposition : buf.idxOf? 10 with
      | some position =>
        obtain ⟨front, back, rfl, -, rfl⟩ := exists_of_idxOf? hposition
        simp only [hposition] at h ⊢
        obtain ⟨total₁, hcheck, h⟩ := bind_eq_ok_iff.mp h
        cases h
        rw [htake (by simp) hcheck, ok_bind, hold_ok_iff.mpr hmemory, ok_bind]
      | none =>
        simp only [hposition] at h ⊢
        obtain ⟨total₁, hcheck, h⟩ := bind_eq_ok_iff.mp h
        obtain ⟨line, -, hread, -⟩ := readLineBounded_line h
        have hle : (out ++ buf).length ≤ read.length := by
          rw [hread]
          simp
        rw [htake (by rwa [List.length_append] at hle) hcheck, ok_bind,
          hold_ok_iff.mpr (hle.trans hmemory), ok_bind]
        exact ih h

theorem Fits.exists_readLineBounded {lineCap totalCap total : Nat} {reader : Reader}
    {line rest : List UInt8} (h : Fits lineCap totalCap total line)
    (hreader : reader.flatten = line ++ 10 :: rest) : ∃ reader' : Reader, reader'.flatten = rest ∧
      readLineBounded lineCap totalCap reader [] total =
        .ok (.line (line ++ [10]) (saturatingAdd total (line.length + 1)) reader') := by
  obtain ⟨reader', hflat, hread⟩ := @readLineBounded_of_fits lineCap totalCap total reader line rest
    [] h.newline hreader (by simpa using h.line_cap) h.total_cap
  exact ⟨reader', hflat, readLineBounded_ok (by simpa using h.memory) hread⟩

theorem exists_fits {lineCap totalCap total total' : Nat} {reader reader' : Reader}
    {read : List UInt8} (hslices : ∀ buf ∈ reader, buf.length ≤ isizeMax)
    (h : readLineBounded lineCap totalCap reader [] total = .ok (.line read total' reader')) :
    ∃ line, Fits lineCap totalCap total line ∧ read = line ++ [10] ∧
      reader.flatten = line ++ 10 :: reader'.flatten ∧
      total' = saturatingAdd total (line.length + 1) := by
  have hplain := ok_of_readLineBounded h
  obtain ⟨line, hnewline, hread, hflat, htotal⟩ := readLineBounded_line hplain
  obtain ⟨hcap, hsum⟩ := fits_of_readLineBounded hnewline hflat hplain
  obtain ⟨hmemory, -⟩ := memory_of_readLineBounded hslices h
  rw [List.nil_append] at hread
  rw [hread] at hmemory
  exact ⟨line, ⟨hnewline, by simpa using hcap, hsum, by simpa using hmemory⟩, hread, hflat, htotal⟩

/-! ## What a stream delivers -/

/-- The line is the text of this value. -/
def Spells (serde : SerdeJson) (line : List UInt8) (value : Json) : Prop :=
  ∃ text, (∀ n, finishLine line n = .ok text) ∧ ∀ n, strictValue serde text n = .ok value

theorem finishLine_any {line : List UInt8} {n : Nat} {text : List Char}
    (h : finishLine line n = .ok text) (m : Nat) : finishLine line m = .ok text := by
  unfold finishLine fail at h ⊢
  split_ifs at h ⊢
  exact h

theorem strictValue_any {text : List Char} {n : Nat} {value : Json}
    (h : strictValue serde text n = .ok value) (m : Nat) :
    strictValue serde text m = .ok value := by
  unfold strictValue fail at h ⊢
  cases hscan : strictScan [] (serde.tokens text) with
  | error error =>
    rw [hscan] at h
    cases error <;> cases h
  | ok =>
    rw [hscan] at h
    cases hvalue : serde.fromStr text with
    | error detail =>
      rw [hvalue] at h
      cases h
    | ok value' =>
      rw [hvalue] at h
      exact h

theorem fromValueTyped_ok_iff {α : Type} {decoded : Except String α} {n : Nat} {a : α} :
    fromValueTyped decoded n = .ok a ↔ decoded = .ok a := by
  cases decoded <;> simp [fromValueTyped, fail]

theorem parseRecord_any {value : Json} {n : Nat} {record : Record}
    (h : SourcePackage.parseRecord serde value n = .ok record) (m : Nat) :
    SourcePackage.parseRecord serde value m = .ok record := by
  unfold SourcePackage.parseRecord fail at h ⊢
  cases hkind : kindOf value with
  | none =>
    rw [hkind] at h
    cases h
  | some kind =>
    rw [hkind] at h
    dsimp only at h ⊢
    split_ifs at h ⊢
    · simpa only [map_eq_ok_iff, fromValueTyped_ok_iff] using h
    · simpa only [map_eq_ok_iff, fromValueTyped_ok_iff] using h

/-- The kinds of the values that are parsed to records. -/
theorem kindOf_of_parseRecord {value : Json} {n : Nat} {record : Record}
    (h : SourcePackage.parseRecord serde value n = .ok record) :
    kindOf value = some "element" ∨ kindOf value = some "text" := by
  unfold SourcePackage.parseRecord fail at h
  cases hkind : kindOf value with
  | none =>
    rw [hkind] at h
    cases h
  | some kind =>
    rw [hkind] at h
    dsimp only at h
    split_ifs at h with helement htext
    · exact Or.inl (congrArg some helement)
    · exact Or.inr (congrArg some htext)

/-- The lines behind the manifest: one for each record, then the footer. -/
inductive Delivers (serde : SerdeJson) (effective : Limits) :
    Nat → List UInt8 → List Record → Footer → Prop
  | footer {total : Nat} {line : List UInt8} {value : Json} {footer : Footer} :
    Fits effective.maxLineBytes effective.maxPackageBytes total line → Spells serde line value →
    kindOf value = some "source_package_footer" → serde.footer value = .ok footer →
    Delivers serde effective total (line ++ [10]) [] footer
  | record {total : Nat} {line rest : List UInt8} {value : Json} {record : Record}
      {records : List Record} {footer : Footer} :
    Fits effective.maxLineBytes effective.maxPackageBytes total line → Spells serde line value →
    (∀ n, SourcePackage.parseRecord serde value n = .ok record) →
    Delivers serde effective (saturatingAdd total (line.length + 1)) rest records footer →
    Delivers serde effective total (line ++ 10 :: rest) (record :: records) footer

def acceptAll (effective : Limits) (state : ReadState) (records : List Record) :
    Except SourcePackageError ReadState :=
  records.foldlM (fun state record => state.accept effective record) state

/-- The records lie in memory side by side. -/
def Held (records : List Record) : Prop := (records.map footprint).sum ≤ isizeMax

theorem length_le_footprints (records : List Record) :
    records.length ≤ (records.map footprint).sum := by
  have hpos : ∀ n ∈ records.map footprint, 1 ≤ n := by
    rw [List.forall_mem_map]
    rintro (element | text) -
    · exact Nat.le_add_right _ _
    · exact le_rfl
  simpa using List.length_le_sum_of_one_le _ hpos

theorem Held.le {records : List Record} (h : Held records) {record : Record}
    (hmem : record ∈ records) : footprint record ≤ isizeMax :=
  (List.single_le_sum (fun _ _ => Nat.zero_le _) _ (List.mem_map_of_mem hmem)).trans h

theorem attributes_le {element : ElementRecord} (h : footprint (.element element) ≤ isizeMax) :
    element.attrs.len + element.namespaceDeclarations.len ≤ u64Max := by
  have hsum := isizeMax_add
  rw [footprint] at h
  omega

/-- The caps of the loop never overflow on a record that lies in memory. -/
theorem accept_eq {effective : Limits} {state : ReadState} {record : Record}
    (h : footprint record ≤ isizeMax) :
    accept effective state record = Run.of (state.accept effective record) := by
  cases record with
  | text text => rfl
  | element element =>
    rw [accept, ReadState.accept, add_ok (attributes_le h)]
    dsimp only
    rw [ok_bind]
    unfold ElementRecord.attributeCount
    split_ifs <;> rfl

theorem records_of_accept {effective : Limits} {state state' : ReadState} {record : Record}
    (h : state.accept effective record = .ok state') :
    state'.records = state.records ++ [record] := by
  unfold ReadState.accept ReadState.push fail at h
  cases record with
  | element element =>
    dsimp only at h
    split_ifs at h
    obtain rfl := Except.ok.inj h
    rfl
  | text text =>
    dsimp only at h
    split_ifs at h
    obtain rfl := Except.ok.inj h
    rfl

/-! ## The loop over the lines -/

section

variable {manifest : Manifest} {effective : Limits}

theorem parseRecord_ok {kept : List Record} {value : Json} {n : Nat} {record : Record}
    (h : ∀ n, SourcePackage.parseRecord serde value n = .ok record)
    (hheld : Held (kept ++ [record])) : parseRecord serde kept value n = .ok record := by
  rw [parseRecord, of_eq_ok_iff.mpr (h n), ok_bind, hold_ok_iff.mpr hheld, ok_bind]

theorem Held.front {records more : List Record} (h : Held (records ++ more)) : Held records := by
  rw [Held, List.map_append, List.sum_append] at h
  exact (Nat.le_add_right _ _).trans h

theorem add_lineNumber {records : List Record} (h : Held records) :
    add (records.length + 1) 1 = .ok (records.length + 2) := by
  have hsum := isizeMax_add
  have hpos : 1 ≤ isizeMax := by decide
  have hlength := (length_le_footprints records).trans h
  exact add_ok (by omega)

/-- Where the rest of the stream delivers records, the loop ends in their verification. -/
theorem readLines_of_delivers {state final : ReadState} {total : Nat} {bytes : List UInt8}
    {records : List Record} {footer : Footer} {reader : Reader}
    (h : Delivers serde effective total bytes records footer) (hreader : reader.flatten = bytes)
    (hheld : Held (state.records ++ records))
    (haccept : acceptAll effective state records = .ok final) :
    readLines serde sha256 manifest effective state (state.records.length + 1) total reader =
      (verifyPackage serde sha256 ⟨manifest, state.records ++ records, footer⟩ effective >>=
        fun _ => .ok ⟨manifest, state.records ++ records, footer⟩) := by
  induction h generalizing state reader with
  | @footer total line value footer hfits hspells hkind hfooter =>
    obtain ⟨text, hfinish, hvalue⟩ := hspells
    obtain ⟨reader', hflat, hread⟩ := hfits.exists_readLineBounded hreader
    have hleft : reader'.left = 0 := by rw [Reader.left, hflat, List.length_nil]
    rw [readLines, hread]
    dsimp only
    rw [add_lineNumber hheld.front, ok_bind, List.dropLast_concat, of_eq_ok_iff.mpr (hfinish _),
      ok_bind, of_eq_ok_iff.mpr (hvalue _), ok_bind, hkind]
    rw [of_eq_ok_iff.mpr (fromValueTyped_ok_iff.mpr hfooter), ok_bind, if_neg (not_not.mpr hleft),
      List.append_nil]
    rfl
  | @record total line rest value record records footer hfits hspells hparse _ ih =>
    obtain ⟨text, hfinish, hvalue⟩ := hspells
    obtain ⟨reader', hflat, hread⟩ := hfits.exists_readLineBounded hreader
    obtain ⟨state', hstate, hrest⟩ := bind_eq_ok_iff.mp haccept
    have hrecords := records_of_accept hstate
    have happend : state.records ++ record :: records = state'.records ++ records := by
      rw [hrecords, List.append_assoc]
      rfl
    have hone : Held (state.records ++ [record]) := by
      rw [happend] at hheld
      rw [← hrecords]
      exact hheld.front
    have hnext := ih hflat (by rwa [← happend]) hrest
    rw [← happend, hrecords, List.length_append, List.length_singleton] at hnext
    rw [readLines, hread]
    dsimp only
    rw [add_lineNumber hheld.front, ok_bind, List.dropLast_concat, of_eq_ok_iff.mpr (hfinish _),
      ok_bind, of_eq_ok_iff.mpr (hvalue _), ok_bind]
    rcases kindOf_of_parseRecord (hparse 0) with hkind | hkind
    · rw [hkind]
      rw [parseRecord_ok hparse hone, ok_bind,
        accept_eq (hone.le (List.mem_append_right _ (List.mem_singleton_self record))),
        of_eq_ok_iff.mpr hstate, ok_bind, hnext]
      rfl
    · rw [hkind]
      rw [parseRecord_ok hparse hone, ok_bind,
        accept_eq (hone.le (List.mem_append_right _ (List.mem_singleton_self record))),
        of_eq_ok_iff.mpr hstate, ok_bind, hnext]
      rfl

/-- A record that is taken in overflows nothing. -/
theorem record_of_overflow {state : ReadState} {value : Json} {n : Nat}
    {next : ReadState → Run Package}
    (h : (parseRecord serde state.records value n >>= fun record =>
      accept effective state record >>= next) = .error .overflow) :
    ∃ record state', (∀ n, SourcePackage.parseRecord serde value n = .ok record) ∧
      Held (state.records ++ [record]) ∧ state.accept effective record = .ok state' ∧
      next state' = .error .overflow := by
  rcases bind_eq_error_iff.mp h with h | ⟨record, hrecord, h⟩
  · obtain ⟨record, -, h⟩ := of_bind_overflow_iff.mp h
    rcases bind_eq_error_iff.mp h with h | ⟨⟨⟩, -, h⟩
    · exact absurd h hold_ne_overflow
    · cases h
  · obtain ⟨record', hparse, hrest⟩ := bind_eq_ok_iff.mp hrecord
    obtain ⟨⟨⟩, hhold, hrest⟩ := bind_eq_ok_iff.mp hrest
    obtain rfl := Except.ok.inj hrest
    have hheld : Held (state.records ++ [record']) := hold_ok_iff.mp hhold
    rw [accept_eq (hheld.le (List.mem_append_right _ (List.mem_singleton_self record')))] at h
    obtain ⟨state', hstate, h⟩ := of_bind_overflow_iff.mp h
    exact ⟨record', state', parseRecord_any (of_eq_ok_iff.mp hparse), hheld, hstate, h⟩

/-- The loop overflows in the verification of what the stream delivers, and nowhere else. -/
theorem delivers_of_overflow {state : ReadState} {total : Nat} {reader : Reader}
    (hslices : ∀ buf ∈ reader, buf.length ≤ isizeMax) (hheld : Held state.records)
    (h : readLines serde sha256 manifest effective state (state.records.length + 1) total reader =
      .error .overflow) :
    ∃ records footer final, Delivers serde effective total reader.flatten records footer ∧
      Held (state.records ++ records) ∧ acceptAll effective state records = .ok final ∧
      verifyPackage serde sha256 ⟨manifest, state.records ++ records, footer⟩ effective =
        .error .overflow := by
  induction hleft : reader.left using Nat.strong_induction_on generalizing state total reader with
  | _ left ih =>
    rw [readLines] at h
    split at h
    · rename_i halt hread
      obtain rfl := Except.error.inj h
      exact absurd hread (readLineBounded_ne_overflow hslices (Nat.zero_le _))
    · exact absurd h of_ne_overflow
    · exact absurd h of_ne_overflow
    · rename_i read total' reader' hread
      obtain ⟨-, hslices'⟩ := memory_of_readLineBounded hslices hread
      have hless := left_readLineBounded (ok_of_readLineBounded hread)
      obtain ⟨line, hfits, rfl, hflat, rfl⟩ := exists_fits hslices hread
      rw [add_lineNumber hheld, ok_bind, List.dropLast_concat] at h
      obtain ⟨text, hfinish, h⟩ := of_bind_overflow_iff.mp h
      obtain ⟨value, hvalue, h⟩ := of_bind_overflow_iff.mp h
      have hspells : Spells serde line value :=
        ⟨text, finishLine_any hfinish, strictValue_any hvalue⟩
      have hnext : ∀ record state', (∀ n, SourcePackage.parseRecord serde value n = .ok record) →
          Held (state.records ++ [record]) → state.accept effective record = .ok state' →
          readLines serde sha256 manifest effective state' (state.records.length + 2)
            (saturatingAdd total (line.length + 1)) reader' = .error .overflow →
          ∃ records footer final, Delivers serde effective total reader.flatten records footer ∧
            Held (state.records ++ records) ∧ acceptAll effective state records = .ok final ∧
            verifyPackage serde sha256 ⟨manifest, state.records ++ records, footer⟩ effective =
              .error .overflow := by
        intro record state' hparse hone hstate h
        have hrecords := records_of_accept hstate
        have hlength : state.records.length + 2 = state'.records.length + 1 := by
          rw [hrecords, List.length_append, List.length_singleton]
        rw [hlength] at h
        obtain ⟨records, footer, final, hdelivers, hmore, haccept, hverify⟩ :=
          ih reader'.left (hleft ▸ hless) hslices' (by rwa [hrecords]) h rfl
        have happend : state.records ++ record :: records = state'.records ++ records := by
          rw [hrecords, List.append_assoc]
          rfl
        refine ⟨record :: records, footer, final, ?_, ?_, ?_, ?_⟩
        · rw [hflat]
          exact .record hfits hspells hparse hdelivers
        · rwa [happend]
        · rw [acceptAll, List.foldlM_cons, hstate]
          exact haccept
        · rwa [happend]
      split at h
      · rename_i hkind
        obtain ⟨footer, hfooter, h⟩ := of_bind_overflow_iff.mp h
        split_ifs at h with hrest
        · exact absurd h of_ne_overflow
        · have hempty : reader'.flatten = [] := List.length_eq_zero_iff.mp (not_not.mp hrest)
          rcases bind_eq_error_iff.mp h with h | ⟨⟨⟩, -, h⟩
          · refine ⟨[], footer, state, ?_, by rwa [List.append_nil], rfl, by rwa [List.append_nil]⟩
            rw [hflat, hempty]
            exact .footer hfits hspells hkind (fromValueTyped_ok_iff.mp hfooter)
          · cases h
      · exact absurd h of_ne_overflow
      · obtain ⟨record, state', hparse, hone, hstate, h⟩ := record_of_overflow h
        exact hnext record state' hparse hone hstate h
      · obtain ⟨record, state', hparse, hone, hstate, h⟩ := record_of_overflow h
        exact hnext record state' hparse hone hstate h
      · exact absurd h of_ne_overflow

end

end LawNexus.SourcePackage.Machine
