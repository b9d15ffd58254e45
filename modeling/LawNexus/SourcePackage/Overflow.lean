import LawNexus.SourcePackage.Delivery

/-!
# What overflows while a package is read

The sums of the declared lengths and the depth below a parent may overflow, and nothing else does.
-/

namespace LawNexus.SourcePackage.Machine

open Loops

variable {serde : SerdeJson} {sha256 : List UInt8 → List UInt8}

/-! ## The counts -/

def declaredChars (records : List Record) : Nat :=
  ((records.filterMap Record.text?).map (·.chars)).sum

def declaredBytes (records : List Record) : Nat :=
  ((records.filterMap Record.text?).map (·.bytes)).sum

/-- The counts, and those of the records on top. -/
def tally (counts : Counts) (records : List Record) : Counts where
  elements := counts.elements + (records.filterMap Record.element?).length
  textFragments := counts.textFragments + (records.filterMap Record.text?).length
  textChars := counts.textChars + declaredChars records
  textBytes := counts.textBytes + declaredBytes records
  namespaceDeclarations := counts.namespaceDeclarations +
    ((records.filterMap Record.element?).map (·.namespaceDeclarations.len)).sum
  records := counts.records

theorem tally_element (counts : Counts) (element : ElementRecord) (records : List Record) :
    tally counts (.element element :: records) =
      tally { counts with
        elements := counts.elements + 1
        namespaceDeclarations :=
          counts.namespaceDeclarations + element.namespaceDeclarations.len } records := by
  simp only [tally, declaredChars, declaredBytes, List.filterMap_cons, Record.element?,
    Record.text?, List.length_cons, List.map_cons, List.sum_cons, Nat.add_assoc,
    Nat.add_comm 1]

theorem tally_text (counts : Counts) (text : TextRecord) (records : List Record) :
    tally counts (.text text :: records) =
      tally { counts with
        textFragments := counts.textFragments + 1
        textChars := counts.textChars + text.chars
        textBytes := counts.textBytes + text.bytes } records := by
  simp only [tally, declaredChars, declaredBytes, List.filterMap_cons, Record.element?,
    Record.text?, List.length_cons, List.map_cons, List.sum_cons, Nat.add_assoc,
    Nat.add_comm 1]

/-- A chain of checked additions fails exactly where one of the exact sums is too large. -/
theorem foldlM_countRecord {counts : Counts} {records : List Record}
    (helements : (tally counts records).elements ≤ u64Max)
    (hfragments : (tally counts records).textFragments ≤ u64Max)
    (hdeclarations : (tally counts records).namespaceDeclarations ≤ u64Max)
    (hchars : counts.textChars ≤ u64Max) (hbytes : counts.textBytes ≤ u64Max) :
    records.foldlM countRecord counts =
      if (tally counts records).textChars ≤ u64Max ∧ (tally counts records).textBytes ≤ u64Max then
        .ok (tally counts records)
      else .error .overflow := by
  induction records generalizing counts with
  | nil =>
    have htally : tally counts [] = counts := by simp [tally, declaredChars, declaredBytes]
    rw [htally, if_pos ⟨hchars, hbytes⟩]
    rfl
  | cons record records ih =>
    rw [List.foldlM_cons]
    cases record with
    | element element =>
      rw [tally_element] at helements hfragments hdeclarations ⊢
      have hone := (Nat.le_add_right _ _).trans helements
      have hmore := (Nat.le_add_right _ _).trans hdeclarations
      rw [countRecord, add_ok hone, ok_bind, add_ok hmore, ok_bind, ok_bind]
      exact ih helements hfragments hdeclarations hchars hbytes
    | text text =>
      rw [tally_text] at helements hfragments hdeclarations ⊢
      have hone := (Nat.le_add_right _ _).trans hfragments
      rw [countRecord, add_ok hone, ok_bind]
      rcases le_or_gt (counts.textChars + text.chars) u64Max with hc | hc
      · rw [add_ok hc, ok_bind]
        rcases le_or_gt (counts.textBytes + text.bytes) u64Max with hb | hb
        · rw [add_ok hb, ok_bind, ok_bind]
          exact ih helements hfragments hdeclarations hc hb
        · rw [add_overflow hb, if_neg]
          · rfl
          · exact fun h => absurd ((Nat.le_add_right _ _).trans h.2) (not_le.mpr hb)
      · rw [add_overflow hc, if_neg]
        · rfl
        · exact fun h => absurd ((Nat.le_add_right _ _).trans h.1) (not_le.mpr hc)

theorem lengths_le_footprints (records : List Record) :
    (records.filterMap Record.element?).length + (records.filterMap Record.text?).length +
      ((records.filterMap Record.element?).map (·.namespaceDeclarations.len)).sum ≤
      (records.map footprint).sum := by
  induction records with
  | nil => exact le_rfl
  | cons record records ih =>
    cases record with
    | element element =>
      simp only [List.filterMap_cons, Record.element?, Record.text?, List.length_cons,
        List.map_cons, List.sum_cons, footprint]
      omega
    | text text =>
      simp only [List.filterMap_cons, Record.element?, Record.text?, List.length_cons,
        List.map_cons, List.sum_cons, footprint]
      omega

theorem tally_init (records : List Record) :
    tally ⟨0, 0, 0, 0, 0, records.length⟩ records = SourcePackage.recomputeCounts records := by
  simp only [tally, Nat.zero_add]
  rfl

theorem recomputeCounts_eq {records : List Record} (hheld : Held records) :
    recomputeCounts records =
      if declaredChars records ≤ u64Max ∧ declaredBytes records ≤ u64Max then
        .ok (SourcePackage.recomputeCounts records)
      else .error .overflow := by
  have hlengths := (lengths_le_footprints records).trans hheld
  have hsum := isizeMax_add
  have htally := tally_init records
  have helements : (SourcePackage.recomputeCounts records).elements ≤ u64Max := by
    dsimp only [SourcePackage.recomputeCounts]
    omega
  have hfragments : (SourcePackage.recomputeCounts records).textFragments ≤ u64Max := by
    dsimp only [SourcePackage.recomputeCounts]
    omega
  have hdeclarations : (SourcePackage.recomputeCounts records).namespaceDeclarations ≤ u64Max := by
    dsimp only [SourcePackage.recomputeCounts]
    omega
  rw [recomputeCounts, foldlM_countRecord (by rwa [htally]) (by rwa [htally]) (by rwa [htally])
    (Nat.zero_le _) (Nat.zero_le _), htally]
  rfl

/-! ## The passes of the verification -/

theorem forM_congr {ε α : Type} {f g : α → Except ε Unit} {l : List α} (h : ∀ a ∈ l, f a = g a) :
    l.forM f = l.forM g := by
  induction l with
  | nil => rfl
  | cons a l ih =>
    obtain ⟨ha, hl⟩ := List.forall_mem_cons.mp h
    change (f a >>= fun _ => l.forM f) = (g a >>= fun _ => l.forM g)
    rw [ha, ih hl]

/-- The cap on the attributes of a record, as the pass over exact numbers has it. -/
def cappedAttributes (limits : Limits) (index : Nat) : Record → Except SourcePackageError Unit
  | .element element =>
    capped element.attributeCount limits.maxAttrsPerElement
      (s!"element {index} attributes+declarations {element.attributeCount} > cap " ++
        toString limits.maxAttrsPerElement)
  | .text _ => .ok ()

/-- The caps of the verification never overflow on records that lie in memory. -/
theorem enforceLimits_eq {limits : Limits} {counts : Counts} {records : List Record}
    (hheld : Held records) : enforceLimits limits counts records =
      Run.of (SourcePackage.enforceLimits limits counts records) := by
  unfold enforceLimits SourcePackage.enforceLimits
  simp only [of_bind, of_forM]
  have hpass : (records.zipIdx.forM fun x => capAttributes limits x.2 x.1) =
      records.zipIdx.forM fun x => Run.of (cappedAttributes limits x.2 x.1) := by
    refine forM_congr ?_
    rintro ⟨record, i⟩ hmem
    have hle := hheld.le (List.mem_of_getElem? (List.mem_zipIdx_iff_getElem?.mp hmem))
    cases record with
    | text text => rfl
    | element element =>
      rw [capAttributes, add_ok (attributes_le hle), ok_bind]
      rfl
  exact hpass.symm ▸ rfl

variable {elements : List ElementRecord}

/-- The parent of the element is declared as deep as 64 bits allow. -/
def BelowDeepest (elements : List ElementRecord) (element : ElementRecord) : Prop :=
  ∃ id parent, element.parent = some id ∧ (idIndex elements id).bind (elements[·]?) = some parent ∧
    u64Max ≤ parent.depth

theorem checkParent_overflow_iff {element : ElementRecord} {index : Nat} :
    checkParent elements element index = .error .overflow ↔ BelowDeepest elements element := by
  unfold checkParent BelowDeepest
  cases element.parent with
  | none =>
    dsimp only
    refine iff_of_false ?_ fun ⟨id, parent, h, _⟩ => nomatch h
    split_ifs
    · exact of_ne_overflow
    · nofun
  | some id =>
    dsimp only
    cases hparent : (idIndex elements id).bind (elements[·]?) with
    | none =>
      refine iff_of_false of_ne_overflow ?_
      rintro ⟨id', parent, hid, hfind, -⟩
      obtain rfl := Option.some.inj hid
      cases hparent.symm.trans hfind
    | some parent =>
      dsimp only
      rcases le_or_gt (parent.depth + 1) u64Max with hle | hlt
      · rw [add_ok hle, ok_bind]
        refine iff_of_false ?_ ?_
        · split_ifs
          · exact of_ne_overflow
          · nofun
        · rintro ⟨id', parent', hid, hfind, hdeep⟩
          obtain rfl := Option.some.inj hid
          obtain rfl := Option.some.inj (hparent.symm.trans hfind)
          omega
      · rw [add_overflow hlt]
        exact iff_of_true rfl ⟨id, parent, rfl, hparent, Nat.le_of_lt_succ hlt⟩

theorem checkParent_ok_iff {element : ElementRecord} {index : Nat} :
    checkParent elements element index = .ok () ↔
      Placed elements element ∧ ¬ BelowDeepest elements element := by
  rw [← @checkParent_overflow_iff _ _ index, ← @SourcePackage.checkParent_ok_iff _ _ index]
  unfold checkParent SourcePackage.checkParent
  cases element.parent with
  | none =>
    dsimp only
    split_ifs <;> simp [fail, Run.of, Except.mapError]
  | some id =>
    dsimp only
    cases (idIndex elements id).bind (elements[·]?) with
    | none => simp [fail, Run.of, Except.mapError]
    | some parent =>
      dsimp only
      rcases le_or_gt (parent.depth + 1) u64Max with hle | hlt
      · rw [add_ok hle, ok_bind]
        split_ifs <;> simp [fail, Run.of, Except.mapError]
      · simp [add_overflow hlt]

/-- The loop over the parents comes to such an element. -/
def ReachesDeepest (elements : List ElementRecord) : Prop :=
  ∃ (i : Nat) (element : ElementRecord), elements[i]? = some element ∧
    BelowDeepest elements element ∧ ∀ j < i, ∀ e, elements[j]? = some e → Placed elements e

theorem checkTopology_overflow_iff :
    checkTopology elements = .error .overflow ↔ ReachesDeepest elements := by
  have hsome : ∀ {i : Nat} {x : ElementRecord × Nat}, elements.zipIdx[i]? = some x ↔
      elements[i]? = some x.1 ∧ x.2 = i := by
    intro i x
    rw [List.getElem?_zipIdx, Option.map_eq_some_iff]
    constructor
    · rintro ⟨e, he, rfl⟩
      exact ⟨he, Nat.zero_add i⟩
    · rintro ⟨he, rfl⟩
      exact ⟨x.1, he, by rw [Nat.zero_add]⟩
  rw [checkTopology, bind_eq_error_iff, or_iff_left fun ⟨_, _, h⟩ => of_ne_overflow h,
    forM_eq_error_iff]
  constructor
  · rintro ⟨i, x, hx, hoverflow, hbefore⟩
    refine ⟨i, x.1, (hsome.mp hx).1, checkParent_overflow_iff.mp hoverflow, fun j hj e he => ?_⟩
    exact (checkParent_ok_iff.mp (hbefore j hj (e, j) (hsome.mpr ⟨he, rfl⟩))).1
  · rintro ⟨i, element, helement, hdeep, hbefore⟩
    -- The loop stops at the first of these elements.
    classical
    have hexists : ∃ i e, elements[i]? = some e ∧ BelowDeepest elements e :=
      ⟨i, element, helement, hdeep⟩
    obtain ⟨e, he, hfirst⟩ := Nat.find_spec hexists
    refine ⟨Nat.find hexists, (e, Nat.find hexists), hsome.mpr ⟨he, rfl⟩,
      checkParent_overflow_iff.mpr hfirst, fun j hj b hb => ?_⟩
    obtain ⟨hb, -⟩ := hsome.mp hb
    refine checkParent_ok_iff.mpr ⟨?_, fun hbelow => Nat.find_min hexists hj ⟨b.1, hb, hbelow⟩⟩
    exact hbefore j (hj.trans_le (Nat.find_min' hexists ⟨element, helement, hdeep⟩)) b.1 hb

/-- What the verification has checked when it comes to the parents. -/
structure Intact (package : Package) (limits : Limits) (elements : List ElementRecord)
    (texts : List TextRecord) : Prop where
  limits : SourcePackage.enforceLimits limits (SourcePackage.recomputeCounts package.records)
    package.records = .ok ()
  counts : compareCounts package.footer.counts (SourcePackage.recomputeCounts package.records) =
    .ok ()
  sections : sections false package.records = .ok (elements, texts)
  ids : checkIds elements texts = .ok ()

/-- The declared numbers of a package stay within 64 bits wherever they are added up. -/
structure Bounded (package : Package) (limits : Limits) : Prop where
  chars : declaredChars package.records ≤ u64Max
  bytes : declaredBytes package.records ≤ u64Max
  depth : ∀ elements texts, Intact package limits elements texts → ¬ ReachesDeepest elements

theorem verifyRecords_overflow_iff {package : Package} {limits : Limits}
    (hheld : Held package.records) :
    verifyRecords package limits = .error .overflow ↔ ¬ Bounded package limits := by
  rw [verifyRecords, recomputeCounts_eq hheld]
  by_cases hsums : declaredChars package.records ≤ u64Max ∧ declaredBytes package.records ≤ u64Max
  · rw [if_pos hsums, ok_bind, enforceLimits_eq hheld]
    constructor
    · intro h hbounded
      obtain ⟨⟨⟩, hlimits, h⟩ := of_bind_overflow_iff.mp h
      obtain ⟨⟨⟩, hcounts, h⟩ := of_bind_overflow_iff.mp h
      obtain ⟨⟨E, X⟩, hsections, h⟩ := of_bind_overflow_iff.mp h
      obtain ⟨⟨⟩, hids, h⟩ := of_bind_overflow_iff.mp h
      split_ifs at h with hempty
      · exact of_ne_overflow h
      · rcases bind_eq_error_iff.mp h with h | ⟨root, -, h⟩
        · exact hbounded.depth E X ⟨hlimits, hcounts, hsections, hids⟩
            (checkTopology_overflow_iff.mp h)
        · simp only [← of_bind] at h
          exact of_ne_overflow h
    · intro h
      have hdepth : ∃ E X, Intact package limits E X ∧ ReachesDeepest E := by
        by_contra hnone
        refine h ⟨hsums.1, hsums.2, fun E X hintact hreaches => ?_⟩
        exact hnone ⟨E, X, hintact, hreaches⟩
      obtain ⟨E, X, hintact, hreaches⟩ := hdepth
      have hne : E.isEmpty = false := by
        obtain ⟨i, e, he, -⟩ := hreaches
        cases E with
        | nil => cases he
        | cons a E => rfl
      rw [of_eq_ok_iff.mpr hintact.limits, ok_bind, of_eq_ok_iff.mpr hintact.counts, ok_bind,
        of_eq_ok_iff.mpr hintact.sections, ok_bind]
      dsimp only
      rw [of_eq_ok_iff.mpr hintact.ids, ok_bind, hne, if_neg (by simp),
        checkTopology_overflow_iff.mpr hreaches]
      rfl
  · rw [if_neg hsums]
    exact iff_of_true rfl fun h => hsums ⟨h.chars, h.bytes⟩

theorem verifyPackage_overflow_iff {package : Package} {limits : Limits}
    (hheld : Held package.records) :
    verifyPackage serde sha256 package limits = .error .overflow ↔
      verifyManifest package.manifest = .ok () ∧
        verifyFooter package.manifest package.footer = .ok () ∧ ¬ Bounded package limits := by
  rw [verifyPackage, of_bind_overflow_iff]
  simp only [of_bind_overflow_iff, ← verifyRecords_overflow_iff hheld]
  constructor
  · rintro ⟨⟨⟩, hmanifest, ⟨⟩, hfooter, h⟩
    refine ⟨hmanifest, hfooter, ?_⟩
    rcases bind_eq_error_iff.mp h with h | ⟨⟨⟩, -, h⟩
    · exact h
    · simp only [← of_bind] at h
      exact absurd h of_ne_overflow
  · rintro ⟨hmanifest, hfooter, h⟩
    refine ⟨(), hmanifest, (), hfooter, ?_⟩
    rw [h]
    rfl

/-! ## The whole reading -/

/-- The stream holds a package that is handed over to the verification of its records. -/
structure HandsOver (serde : SerdeJson) (limits : Limits) (stream : Stream) (package : Package) :
    Prop where
  lines : ∃ line value rest, Fits limits.maxLineBytes limits.maxPackageBytes 0 line ∧
    Spells serde line value ∧ kindOf value = some "source_package_manifest" ∧
    serde.manifest value = .ok package.manifest ∧ stream.buffers.flatten = line ++ 10 :: rest ∧
    Delivers serde (effectiveLimits limits package.manifest.limits)
      (saturatingAdd 0 (line.length + 1)) rest package.records package.footer
  accepted : ∃ final,
    acceptAll (effectiveLimits limits package.manifest.limits) .init package.records = .ok final
  held : Held package.records
  manifest : verifyManifest package.manifest = .ok ()
  footer : verifyFooter package.manifest package.footer = .ok ()

theorem handsOver_of_overflow {stream : Stream} {limits : Limits}
    (h : readPackage serde sha256 stream limits = .error .overflow) :
    ∃ package, HandsOver serde limits stream package ∧
      ¬ Bounded package (effectiveLimits limits package.manifest.limits) := by
  have hslices := stream.slices
  rcases bind_eq_error_iff.mp h with h | ⟨r, hread, h⟩
  · exact absurd h (readLineBounded_ne_overflow hslices (Nat.zero_le _))
  · cases r with
    | eof => exact absurd h of_ne_overflow
    | eofNoLf => exact absurd h of_ne_overflow
    | line read total reader =>
      obtain ⟨line, hfits, rfl, hflat, rfl⟩ := exists_fits hslices hread
      dsimp only at h
      rw [List.dropLast_concat] at h
      obtain ⟨text, hfinish, h⟩ := of_bind_overflow_iff.mp h
      obtain ⟨value, hvalue, h⟩ := of_bind_overflow_iff.mp h
      split_ifs at h with hkind
      · exact absurd h of_ne_overflow
      · obtain ⟨manifest, hmanifest, h⟩ := of_bind_overflow_iff.mp h
        obtain ⟨records, footer, final, hdelivers, hheld, haccept, hverify⟩ :=
          delivers_of_overflow (memory_of_readLineBounded hslices hread).2
            (show Held ReadState.init.records from Nat.zero_le _) h
        obtain ⟨hconstants, hfooter, hbounded⟩ := (verifyPackage_overflow_iff hheld).mp hverify
        refine ⟨⟨manifest, records, footer⟩, ⟨?_, ⟨final, haccept⟩, hheld, hconstants, hfooter⟩,
          hbounded⟩
        exact ⟨line, value, reader.flatten, hfits,
          ⟨text, finishLine_any hfinish, strictValue_any hvalue⟩, not_not.mp hkind,
          fromValueTyped_ok_iff.mp hmanifest, hflat, hdelivers⟩

theorem overflow_of_handsOver {stream : Stream} {limits : Limits} {package : Package}
    (h : HandsOver serde limits stream package)
    (hbounded : ¬ Bounded package (effectiveLimits limits package.manifest.limits)) :
    readPackage serde sha256 stream limits = .error .overflow := by
  obtain ⟨line, value, rest, hfits, ⟨text, hfinish, hvalue⟩, hkind, hmanifest, hflat, hdelivers⟩ :=
    h.lines
  obtain ⟨final, haccept⟩ := h.accepted
  obtain ⟨reader, hrest, hread⟩ := hfits.exists_readLineBounded hflat
  have hverify : verifyPackage serde sha256
      ⟨package.manifest, [] ++ package.records, package.footer⟩
      (effectiveLimits limits package.manifest.limits) = .error .overflow :=
    (verifyPackage_overflow_iff h.held).mpr ⟨h.manifest, h.footer, hbounded⟩
  have hloop := @readLines_of_delivers serde sha256 package.manifest
    (effectiveLimits limits package.manifest.limits) .init final _ rest package.records
    package.footer reader hdelivers hrest h.held haccept
  rw [readPackage, hread, ok_bind]
  dsimp only
  rw [List.dropLast_concat, of_eq_ok_iff.mpr (hfinish 1), ok_bind, of_eq_ok_iff.mpr (hvalue 1),
    ok_bind, if_neg (not_not.mpr hkind), of_eq_ok_iff.mpr (fromValueTyped_ok_iff.mpr hmanifest),
    ok_bind]
  refine hloop.trans ?_
  change (verifyPackage serde sha256 ⟨package.manifest, [] ++ package.records, package.footer⟩
    (effectiveLimits limits package.manifest.limits) >>= _) = _
  rw [hverify]
  rfl

/-- The reading overflows nothing exactly where the numbers of a package that is handed over are
bounded. -/
theorem readPackage_no_overflow_iff (serde : SerdeJson) (sha256 : List UInt8 → List UInt8)
    (stream : Stream) (limits : Limits) :
    readPackage serde sha256 stream limits ≠ .error .overflow ↔
      ∀ package, HandsOver serde limits stream package →
        Bounded package (effectiveLimits limits package.manifest.limits) := by
  constructor
  · intro h package hhands
    by_contra hbounded
    exact h (overflow_of_handsOver hhands hbounded)
  · intro h hoverflow
    obtain ⟨package, hhands, hbounded⟩ := handsOver_of_overflow hoverflow
    exact hbounded (h package hhands)

/-! ## Without overflow -/

section

variable {α β : Type}

/-- A run that neither overflows nor runs out of memory ends like this one without bounds. -/
def Refines (m : Run α) (r : Except SourcePackageError α) : Prop :=
  m = .error .overflow ∨ m = .error .outOfMemory ∨ m = Run.of r

theorem refines_of (r : Except SourcePackageError α) : Refines (Run.of r) r := Or.inr (Or.inr rfl)

theorem refines_ok (a : α) : Refines (.ok a) (.ok a) := refines_of (.ok a)

theorem Refines.bind {m : Run α} {r : Except SourcePackageError α} {f : α → Run β}
    {g : α → Except SourcePackageError β} (h : Refines m r) (hf : ∀ a, Refines (f a) (g a)) :
    Refines (m >>= f) (r >>= g) := by
  rcases h with rfl | rfl | rfl
  · exact Or.inl rfl
  · exact Or.inr (Or.inl rfl)
  · cases r with
    | error error => exact refines_of (.error error)
    | ok a => exact hf a

theorem Refines.bind_value {m : Run α} {a : α} {f : α → Run β} {r : Except SourcePackageError β}
    (h : Refines m (.ok a)) (hf : Refines (f a) r) : Refines (m >>= f) r := by
  rcases h with rfl | rfl | rfl
  · exact Or.inl rfl
  · exact Or.inr (Or.inl rfl)
  · exact hf

theorem refines_add {a b : Nat} {f : Nat → Run β} {r : Except SourcePackageError β}
    (h : Refines (f (a + b)) r) : Refines (add a b >>= f) r := by
  unfold add
  split_ifs
  · exact Or.inl rfl
  · exact h

theorem refines_hold {n : Nat} {f : Unit → Run β} {r : Except SourcePackageError β}
    (h : Refines (f ()) r) : Refines (hold n >>= f) r := by
  unfold hold
  split_ifs
  · exact Or.inr (Or.inl rfl)
  · exact h

theorem refines_ite {p : Prop} [Decidable p] {m m' : Run α} {r r' : Except SourcePackageError α}
    (h : Refines m r) (h' : Refines m' r') :
    Refines (if p then m else m') (if p then r else r') := by
  split_ifs
  · exact h
  · exact h'

theorem refines_forM {l : List α} {f : α → Run Unit} {g : α → Except SourcePackageError Unit}
    (h : ∀ a, Refines (f a) (g a)) : Refines (l.forM f) (l.forM g) := by
  induction l with
  | nil => exact refines_ok ()
  | cons a l ih => exact (h a).bind fun _ => ih

end

theorem refines_checkTake (lineCap totalCap outLen total take : Nat) :
    Refines (checkTake lineCap totalCap outLen total take)
      (SourcePackage.checkTake lineCap totalCap outLen total take) :=
  refines_add (refines_of _)

theorem refines_readLineBounded (lineCap totalCap total : Nat) (reader : Reader)
    (out : List UInt8) : Refines (readLineBounded lineCap totalCap reader out total)
      (SourcePackage.readLineBounded lineCap totalCap reader out total) := by
  induction reader generalizing out total with
  | nil => exact refines_ok _
  | cons buf reader ih =>
    cases buf with
    | nil => exact ih total out
    | cons byte more =>
      rw [readLineBounded, SourcePackage.readLineBounded]
      cases (byte :: more).idxOf? 10 with
      | some position =>
        exact (refines_checkTake _ _ _ _ _).bind fun _ => refines_hold (refines_ok _)
      | none =>
        exact (refines_checkTake _ _ _ _ _).bind fun total => refines_hold (ih total _)

theorem refines_foldlM_countRecord (counts : Counts) (records : List Record) :
    Refines (records.foldlM countRecord counts) (.ok (tally counts records)) := by
  induction records generalizing counts with
  | nil =>
    have htally : tally counts [] = counts := by simp [tally, declaredChars, declaredBytes]
    rw [htally]
    exact refines_ok counts
  | cons record records ih =>
    rw [List.foldlM_cons]
    cases record with
    | element element =>
      rw [tally_element, countRecord, bind_assoc]
      refine refines_add ?_
      rw [bind_assoc]
      exact refines_add (ih _)
    | text text =>
      rw [tally_text, countRecord, bind_assoc]
      refine refines_add ?_
      rw [bind_assoc]
      refine refines_add ?_
      rw [bind_assoc]
      exact refines_add (ih _)

theorem refines_recomputeCounts (records : List Record) :
    Refines (recomputeCounts records) (.ok (SourcePackage.recomputeCounts records)) := by
  rw [← tally_init]
  exact refines_foldlM_countRecord _ records

theorem refines_enforceLimits (limits : Limits) (counts : Counts) (records : List Record) :
    Refines (enforceLimits limits counts records)
      (SourcePackage.enforceLimits limits counts records) := by
  refine (refines_of _).bind fun _ => (refines_of _).bind fun _ => (refines_of _).bind fun _ =>
    (refines_of _).bind fun _ => (refines_of _).bind fun _ => refines_forM ?_
  rintro ⟨record, index⟩
  cases record with
  | text text => exact refines_ok ()
  | element element => exact refines_add (refines_of _)

theorem refines_checkParent (elements : List ElementRecord) (element : ElementRecord)
    (index : Nat) : Refines (checkParent elements element index)
      (SourcePackage.checkParent elements element index) := by
  unfold checkParent SourcePackage.checkParent
  cases element.parent with
  | none => exact refines_ite (refines_of _) (refines_ok ())
  | some id =>
    dsimp only
    cases (idIndex elements id).bind (elements[·]?) with
    | none => exact refines_of _
    | some parent => exact refines_add (refines_ite (refines_of _) (refines_ok ()))

theorem refines_checkTopology (elements : List ElementRecord) :
    Refines (checkTopology elements) (SourcePackage.checkTopology elements) := by
  have hpass : Refines (elements.zipIdx.forM fun x => checkParent elements x.1 x.2)
      (elements.zipIdx.forM fun x => SourcePackage.checkParent elements x.1 x.2) :=
    refines_forM fun x => refines_checkParent elements x.1 x.2
  exact hpass.bind fun _ => refines_of (checkOrder elements)

theorem refines_verifyRecords (package : Package) (limits : Limits) :
    Refines (verifyRecords package limits) (SourcePackage.verifyRecords package limits) := by
  refine (refines_recomputeCounts package.records).bind_value ?_
  refine (refines_enforceLimits limits _ package.records).bind fun _ => ?_
  refine (refines_of _).bind fun _ => (refines_of _).bind fun s => ?_
  refine (refines_of _).bind fun _ => refines_ite (refines_of _) ?_
  refine (refines_checkTopology s.1).bind fun root => ?_
  exact (refines_of _).bind fun _ => (refines_of _).bind fun _ => (refines_of _).bind fun _ =>
    refines_of _

theorem refines_verifyPackage (package : Package) (limits : Limits) :
    Refines (verifyPackage serde sha256 package limits)
      (SourcePackage.verifyPackage serde sha256 package limits) := by
  refine (refines_of _).bind fun _ => (refines_of _).bind fun _ => ?_
  exact (refines_verifyRecords package limits).bind fun _ => (refines_of _).bind fun _ =>
    refines_of _

theorem refines_accept (effective : Limits) (state : ReadState) (record : Record) :
    Refines (accept effective state record) (state.accept effective record) := by
  cases record with
  | text text => exact refines_of _
  | element element =>
    exact refines_ite (refines_of _) (refines_ite (refines_of _)
      (refines_add (refines_ite (refines_of _) (refines_of _))))

theorem refines_parseRecord (kept : List Record) (value : Json) (n : Nat) :
    Refines (parseRecord serde kept value n) (SourcePackage.parseRecord serde value n) := by
  have h : Refines (parseRecord serde kept value n)
      (SourcePackage.parseRecord serde value n >>= Except.ok) :=
    (refines_of _).bind fun record => refines_hold (refines_ok record)
  rwa [show (SourcePackage.parseRecord serde value n >>= Except.ok) =
    SourcePackage.parseRecord serde value n from bind_pure _] at h

theorem refines_readLines (manifest : Manifest) (effective : Limits) (state : ReadState)
    (n total : Nat) (reader : Reader) :
    Refines (readLines serde sha256 manifest effective state n total reader)
      (SourcePackage.readLines serde sha256 manifest effective state n total reader) := by
  induction hleft : reader.left using Nat.strong_induction_on generalizing state n total reader with
  | _ left ih =>
    have hline := refines_readLineBounded effective.maxLineBytes effective.maxPackageBytes total
      reader []
    rw [readLines, SourcePackage.readLines]
    cases hplain : SourcePackage.readLineBounded effective.maxLineBytes effective.maxPackageBytes
      reader [] total with
    | error error =>
      rw [hplain] at hline
      rcases hline with h | h | h
      · rw [h]
        exact Or.inl rfl
      · rw [h]
        exact Or.inr (Or.inl rfl)
      · rw [h]
        exact Or.inr (Or.inr rfl)
    | ok r =>
      rw [hplain] at hline
      rcases hline with h | h | h
      · rw [h]
        exact Or.inl rfl
      · rw [h]
        exact Or.inr (Or.inl rfl)
      · rw [h]
        cases r with
        | eof => exact Or.inr (Or.inr rfl)
        | eofNoLf => exact Or.inr (Or.inr rfl)
        | line line total' reader' =>
          have hless := hleft ▸ left_readLineBounded hplain
          change Refines (add n 1 >>= _) _
          refine refines_add ((refines_of _).bind fun text => (refines_of _).bind fun value => ?_)
          have hrecord : Refines
              (parseRecord serde state.records value (n + 1) >>= fun record =>
                accept effective state record >>= fun state =>
                  readLines serde sha256 manifest effective state (n + 1) total' reader')
              (SourcePackage.parseRecord serde value (n + 1) >>= fun record =>
                state.accept effective record >>= fun state =>
                  SourcePackage.readLines serde sha256 manifest effective state (n + 1) total'
                    reader') :=
            (refines_parseRecord _ _ _).bind fun record =>
              (refines_accept _ _ record).bind fun state => ih _ hless state _ _ _ rfl
          generalize kindOf value = kind
          split
          · refine (refines_of _).bind fun footer => refines_ite (refines_of _) ?_
            exact (refines_verifyPackage _ _).bind fun _ => refines_ok _
          · exact refines_of _
          · exact hrecord
          · exact hrecord
          · repeat' split
            all_goals first | exact refines_of _ | contradiction

/-- Without overflow and within the memory, a package is read as without bounds. -/
theorem refines_readPackage (stream : Stream) (limits : Limits) :
    Refines (readPackage serde sha256 stream limits)
      (SourcePackage.readPackage serde sha256 stream.buffers limits) := by
  refine (refines_readLineBounded _ _ _ _ _).bind fun r => ?_
  cases r with
  | eof => exact refines_of _
  | eofNoLf => exact refines_of _
  | line line total reader =>
    refine (refines_of _).bind fun text => (refines_of _).bind fun value => ?_
    refine refines_ite (refines_of _) ((refines_of _).bind fun manifest => ?_)
    exact refines_readLines manifest _ _ _ _ reader

namespace Sample

open SourcePackage.Sample (print plainLength plainLength_spec singleSource signed signedFooter
  manifestLine footerLine plain_manifest plain_footer ne_of_plain verifyManifest_signed
  verifyFooter_signed manifest)

/-! ### Two texts with 2⁶⁴ characters -/

/-- A text of one character that declares as many as a number can say. -/
def first : TextRecord := { textRecord 0 0 .text ['a'] with chars := u64Max }

def second : TextRecord := textRecord 1 0 .tail ['b']

def firstLine : List Char := print first.serialize []

def secondLine : List Char := print second.serialize []

def hostile : Package := ⟨manifest singleSource, [.text first, .text second], signedFooter⟩

def parse (line : List Char) : Json :=
  if line = manifestLine then hostile.manifest.serialize
  else if line = firstLine then first.serialize
  else if line = secondLine then second.serialize
  else signedFooter.serialize

def hostileSerde : SerdeJson where
  toString value := .ok (print value [])
  tokens line := (parse line).tokens
  fromStr line := .ok (parse line)
  manifest _ := .ok hostile.manifest
  element _ := .error "no element"
  text value := .ok (if (value.get "id").bind Json.asStr = some ['t', '0'] then first else second)
  footer _ := .ok signedFooter

def limits : Limits := { SourcePackage.Sample.limits with maxLineBytes := 1228 }

theorem plain_first : plainLength firstLine 0 = some 147 := by decide +kernel

theorem plain_second : plainLength secondLine 0 = some 128 := by decide +kernel

theorem spells_of_plain {line : List Char} {value : Json} {n : Nat}
    (hplain : plainLength line 0 = some n) (hpos : 0 < n) (hparse : parse line = value)
    (hdistinct : value.Distinct) : Spells hostileSerde (Utf8.bytes line) value := by
  obtain ⟨hlength, hcontrol⟩ := plainLength_spec hplain
  have hne : line ≠ [] := by
    rintro rfl
    simp at hlength
    omega
  refine ⟨line, finishLine_bytes hne fun hmem => absurd (hcontrol _ hmem) (by decide), fun n => ?_⟩
  have hscan := strictScan_tokens hdistinct [] []
  rw [List.append_nil] at hscan
  rw [strictValue, show hostileSerde.tokens line = value.tokens from congrArg Json.tokens hparse,
    hscan, strictScan, show hostileSerde.fromStr line = .ok value from congrArg Except.ok hparse]

theorem fits_of_plain {line : List Char} {lineCap totalCap total n : Nat}
    (hplain : plainLength line 0 = some n) (hline : n + 1 ≤ lineCap)
    (htotal : saturatingAdd total (n + 1) ≤ totalCap) (hmemory : n + 1 ≤ isizeMax) :
    Fits lineCap totalCap total (Utf8.bytes line) := by
  obtain ⟨hlength, hcontrol⟩ := plainLength_spec hplain
  rw [Nat.zero_add] at hlength
  refine ⟨Utf8.newline_notMem_bytes fun hmem => absurd (hcontrol _ hmem) (by decide), ?_, ?_, ?_⟩
  · rwa [Utf8.length_bytes, hlength]
  · rwa [Utf8.length_bytes, hlength]
  · rwa [Utf8.length_bytes, hlength]

def hostileLines : List (List Char) := [manifestLine, firstLine, secondLine, footerLine]

theorem wireBytes_hostileLines : wireBytes hostileLines = Utf8.bytes manifestLine ++
    10 :: (Utf8.bytes firstLine ++ 10 :: (Utf8.bytes secondLine ++ 10 ::
      (Utf8.bytes footerLine ++ [10]))) := by
  simp [wireBytes, hostileLines]

theorem length_bytes_of_plain {line : List Char} {n : Nat} (h : plainLength line 0 = some n) :
    (Utf8.bytes line).length = n := by
  rw [Utf8.length_bytes, ← (plainLength_spec h).1, Nat.zero_add]

theorem length_hostileLines : (wireBytes hostileLines).length = 2107 := by
  rw [wireBytes_hostileLines, List.length_append, length_bytes_of_plain plain_manifest,
    List.length_cons, List.length_append, length_bytes_of_plain plain_first, List.length_cons,
    List.length_append, length_bytes_of_plain plain_second, List.length_cons, List.length_append,
    length_bytes_of_plain plain_footer, List.length_singleton]

def hostileStream : Stream where
  buffers := [wireBytes hostileLines]
  slices := by
    rintro buf hbuf
    rw [List.mem_singleton.mp hbuf, length_hostileLines]
    decide

theorem handsOver_hostile : HandsOver hostileSerde limits hostileStream hostile := by
  have hfm := ne_of_plain plain_first plain_manifest (by decide)
  have hsm := ne_of_plain plain_second plain_manifest (by decide)
  have hsf := ne_of_plain plain_second plain_first (by decide)
  have hlm := ne_of_plain plain_footer plain_manifest (by decide)
  have hlf := ne_of_plain plain_footer plain_first (by decide)
  have hls := ne_of_plain plain_footer plain_second (by decide)
  have hdistinct : ∀ text : TextRecord, text.serialize.Distinct := fun text =>
    (Record.text text).distinct_serialize
  refine ⟨⟨Utf8.bytes manifestLine, hostile.manifest.serialize, _,
    fits_of_plain plain_manifest (by decide) (by decide) (by decide),
    spells_of_plain plain_manifest (by decide) (if_pos rfl) (Manifest.distinct_serialize _),
    kindOf_manifest _, rfl, (List.flatten_singleton ..).trans wireBytes_hostileLines, ?_⟩,
    ⟨⟨[.text first, .text second], 0, 2, 2⟩, by decide⟩, by unfold Held; decide,
    verifyManifest_signed, verifyFooter_signed⟩
  have hparse : ∀ (text : TextRecord) (n : Nat), text.kind = "text" →
      hostileSerde.text text.serialize = .ok text →
      SourcePackage.parseRecord hostileSerde text.serialize n = .ok (.text text) := by
    intro text n hkind htext
    rw [SourcePackage.parseRecord, kindOf_text, hkind]
    dsimp only
    rw [if_neg (by decide), if_pos rfl, htext]
    rfl
  rw [length_bytes_of_plain plain_manifest]
  refine .record (fits_of_plain plain_first (by decide) (by decide) (by decide))
    (spells_of_plain plain_first (by decide) ?_ (hdistinct first))
    (fun n => hparse first n rfl (by decide)) ?_
  · exact (if_neg hfm).trans (if_pos rfl)
  rw [length_bytes_of_plain plain_first]
  refine .record (fits_of_plain plain_second (by decide) (by decide) (by decide))
    (spells_of_plain plain_second (by decide) ?_ (hdistinct second))
    (fun n => hparse second n rfl (by decide)) ?_
  · exact (if_neg hsm).trans ((if_neg hsf).trans (if_pos rfl))
  rw [length_bytes_of_plain plain_second]
  refine .footer (fits_of_plain plain_footer (by decide) (by decide) (by decide))
    (spells_of_plain plain_footer (by decide) ?_ (Footer.distinct_serialize signedFooter))
    (kindOf_footer signedFooter) rfl
  exact (if_neg hlm).trans ((if_neg hlf).trans (if_neg hls))

/-- The loop takes both texts, and the count of their characters overflows. -/
theorem hostile_overflows :
    readPackage hostileSerde SourcePackage.Sample.sha256 hostileStream limits = .error .overflow :=
  overflow_of_handsOver handsOver_hostile fun h => absurd h.chars (by decide)

end Sample

end LawNexus.SourcePackage.Machine
