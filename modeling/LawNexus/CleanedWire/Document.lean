import LawNexus.CleanedWire.ReadBack

/-!
# Documents

A document is taken apart into lines that end with a line feed, and its lines into a manifest, the
policies, the records and a footer.
-/

namespace LawNexus.CleanedWire

open Chars Loops

/-! ## Lines -/

/-- The lines of a document: neither empty nor broken. -/
structure AreLines (lines : List (List Char)) : Prop where
  nonempty : lines ≠ []
  filled : ∀ line ∈ lines, line ≠ []
  newline : ∀ line ∈ lines, '\n' ∉ line
  carriageReturn : ∀ line ∈ lines, '\r' ∉ line

theorem written_eq_joinLines {lines : List (List Char)} (h : lines ≠ []) :
    written lines = joinLines lines ++ ['\n'] := by
  obtain ⟨front, last, rfl⟩ := (List.eq_nil_or_concat' lines).resolve_left h
  rw [joinLines_concat, written_append, written_cons, List.append_assoc]
  rfl

theorem bodyOf_concat (body : List Char) : bodyOf (body ++ ['\n']) = .ok body := by
  unfold bodyOf
  have hlen : Utf8.byteLen (body ++ ['\n']) - 1 = Utf8.byteLen body := by
    rw [Utf8.byteLen_append]
    exact Nat.add_sub_cancel ..
  rw [hlen, Utf8.sliceTo_append]
  rfl

theorem splitOn_joinLines {lines : List (List Char)} (h : AreLines lines) :
    (joinLines lines).splitOn '\n' = lines :=
  List.splitOn_intercalate '\n' h.newline h.nonempty

theorem bodyOf_written {lines : List (List Char)} (h : AreLines lines) :
    bodyOf (written lines) = .ok (joinLines lines) := by
  rw [written_eq_joinLines h.nonempty, bodyOf_concat]

theorem documentLines_written {lines : List (List Char)} (h : AreLines lines) :
    documentLines (written lines) = .ok lines := by
  have hreturn : '\r' ∉ written lines := by
    intro hmem
    obtain ⟨line, hline, hmem⟩ := List.mem_flatMap.mp hmem
    rcases List.mem_append.mp hmem with hmem | hmem
    · exact h.carriageReturn line hline hmem
    · simp at hmem
  have hbody : joinLines lines ≠ [] := by
    obtain ⟨line, hline⟩ := List.exists_mem_of_ne_nil lines h.nonempty
    obtain ⟨c, hc⟩ := List.exists_mem_of_ne_nil line (h.filled line hline)
    exact List.ne_nil_of_mem (mem_joinLines_of_mem hline hc)
  have hfilled : ¬ lines.any List.isEmpty = true := by
    intro hany
    obtain ⟨line, hline, hempty⟩ := List.any_eq_true.mp hany
    exact h.filled line hline (List.isEmpty_iff.mp hempty)
  unfold documentLines
  rw [if_neg hreturn, if_neg (not_not.mpr (getLast?_written h.nonempty)), bodyOf_written h, ok_bind,
    if_neg hbody, splitOn_joinLines h, if_neg hfilled]

/-- What a text is that has lines. -/
theorem areLines_of_documentLines {text : List Char} {lines : List (List Char)}
    (h : documentLines text = .ok lines) : AreLines lines ∧ text = written lines := by
  unfold documentLines at h
  split_ifs at h with hreturn hend
  · cases h
  · cases h
  · obtain ⟨body, rfl⟩ : ∃ body, text = body ++ ['\n'] := by
      obtain rfl | ⟨body, last, rfl⟩ := List.eq_nil_or_concat' text
      · simp at hend
      · rw [List.getLast?_concat, not_not, Option.some_inj] at hend
        exact ⟨body, by rw [hend]⟩
    rw [bodyOf_concat, ok_bind] at h
    split_ifs at h with hbody hempty
    · cases h
    · cases h
    · obtain rfl := Except.ok.inj h
      have hne : body.splitOn '\n' ≠ [] := List.splitOnP_ne_nil _ _
      have hjoin : joinLines (body.splitOn '\n') = body := List.intercalate_splitOn '\n'
      refine ⟨⟨hne, ?_, ?_, ?_⟩, by rw [written_eq_joinLines hne, hjoin]⟩
      · rintro line hline rfl
        exact hempty (List.any_eq_true.mpr ⟨[], hline, rfl⟩)
      · exact fun line hline hmem => (of_mem_splitOn hline '\n' hmem).2 rfl
      · exact fun line hline hmem =>
          hreturn (List.mem_append_left _ (of_mem_splitOn hline '\r' hmem).1)

/-! ## Positions -/

theorem footerPositions_concat (front : List String) (last : String) :
    footerPositions (front ++ [last]) =
      footerPositions front ++ if last = KIND_FOOTER then [front.length] else [] := by
  unfold footerPositions
  rw [List.zipIdx_append, List.filter_append, List.map_append]
  by_cases h : last = KIND_FOOTER <;> simp [h]

theorem footerPositions_eq_nil {kinds : List String} :
    footerPositions kinds = [] ↔ KIND_FOOTER ∉ kinds := by
  unfold footerPositions
  rw [List.map_eq_nil_iff, List.filter_eq_nil_iff]
  constructor
  · intro h hmem
    obtain ⟨i, hi⟩ := List.getElem?_of_mem hmem
    exact h (KIND_FOOTER, i) (List.mem_zipIdx_iff_getElem?.mpr hi) (by simp)
  · rintro h ⟨kind, i⟩ hmem hkind
    have hi := List.mem_zipIdx_iff_getElem?.mp hmem
    obtain rfl : kind = KIND_FOOTER := by simpa using hkind
    exact h (List.mem_of_getElem? hi)

theorem lt_of_mem_footerPositions {kinds : List String} {i : Nat}
    (h : i ∈ footerPositions kinds) : i < kinds.length := by
  obtain ⟨⟨kind, j⟩, hmem, rfl⟩ := List.mem_map.mp h
  have hj := List.mem_zipIdx_iff_getElem?.mp (List.mem_of_mem_filter hmem)
  exact (List.getElem?_eq_some_iff.mp hj).1

/-- There is one footer, and it is the last line. -/
theorem footerPositions_eq_last {kinds : List String} {position : Nat}
    (h : footerPositions kinds = [position]) (hlast : position = kinds.length - 1) :
    ∃ front, kinds = front ++ [KIND_FOOTER] ∧ KIND_FOOTER ∉ front := by
  obtain rfl | ⟨front, last, rfl⟩ := List.eq_nil_or_concat' kinds
  · cases h
  · rw [List.length_append, List.length_singleton, Nat.add_sub_cancel] at hlast
    rw [footerPositions_concat] at h
    split_ifs at h with hfooter
    · have hnil : footerPositions front = [] := by
        rw [hlast] at h
        exact List.append_left_eq_self.mp h
      exact ⟨front, by rw [hfooter], footerPositions_eq_nil.mp hnil⟩
    · rw [List.append_nil] at h
      have hlt := lt_of_mem_footerPositions (h ▸ List.mem_singleton_self position)
      omega

/-! ## The frame -/

/-- A manifest, the policies, what is between them and the footer, and the footer. -/
def framed {α : Type} (manifest policies : α) (body : List α) (footer : α) : List α :=
  manifest :: policies :: (body ++ [footer])

section

variable {α β : Type} (manifest policies : α) (body : List α) (footer : α)

@[simp] theorem length_framed : (framed manifest policies body footer).length = body.length + 3 := by
  simp [framed]

@[simp] theorem map_framed (f : α → β) : (framed manifest policies body footer).map f =
    framed (f manifest) (f policies) (body.map f) (f footer) := by
  simp [framed]

@[simp] theorem indexed_framed_zero :
    indexed (framed manifest policies body footer) 0 = .ok manifest := rfl

@[simp] theorem indexed_framed_one :
    indexed (framed manifest policies body footer) 1 = .ok policies := rfl

@[simp] theorem indexed_framed_last :
    indexed (framed manifest policies body footer) (body.length + 2) = .ok footer := by
  simp [indexed, framed]

@[simp] theorem ranged_framed :
    ranged (framed manifest policies body footer) 2 (body.length + 2) = .ok body := by
  unfold ranged
  rw [if_pos ⟨by omega, by simp⟩]
  simp [framed]

end

/-- A kind that stands between the policies and the footer. -/
def IsBodyKind (kind : String) : Prop :=
  kind ≠ KIND_MANIFEST ∧ kind ≠ KIND_POLICIES ∧ kind ≠ KIND_FOOTER

theorem checkPositions_framed {body : List String} (h : ∀ kind ∈ body, IsBodyKind kind) :
    checkPositions (framed KIND_MANIFEST KIND_POLICIES body KIND_FOOTER) = .ok () := by
  have hfront : KIND_FOOTER ∉ KIND_MANIFEST :: KIND_POLICIES :: body := by
    intro hmem
    rcases List.mem_cons.mp hmem with heq | hmem
    · simp [KIND_FOOTER, KIND_MANIFEST] at heq
    rcases List.mem_cons.mp hmem with heq | hmem
    · simp [KIND_FOOTER, KIND_POLICIES] at heq
    · exact (h _ hmem).2.2 rfl
  have hpositions : footerPositions (framed KIND_MANIFEST KIND_POLICIES body KIND_FOOTER) =
      [body.length + 2] := by
    rw [framed, ← List.cons_append, ← List.cons_append, footerPositions_concat,
      footerPositions_eq_nil.mpr hfront]
    rfl
  unfold checkPositions
  rw [indexed_framed_zero, ok_bind, if_neg (by simp [KIND_MANIFEST, KIND_POLICIES]),
    if_neg (not_not.mpr rfl), if_neg (by simp), indexed_framed_one, ok_bind,
    if_neg (by simp [KIND_MANIFEST, KIND_POLICIES]), if_neg (not_not.mpr rfl), hpositions]
  simp only [length_framed]
  rw [if_neg (by simp), show body.length + 3 - 1 = body.length + 2 from rfl, ranged_framed, ok_bind,
    if_neg fun hmem => (h _ hmem).1 rfl, if_neg fun hmem => (h _ hmem).2.1 rfl]

/-! ## Readings that answer -/

/-- The reading refuses, or gives what has the property. -/
def Answers {α : Type} (P : α → Prop) (r : Reading α) : Prop :=
  (∃ error, r = .error (.refused error)) ∨ ∃ a, P a ∧ r = .ok a

section

variable {α β : Type} {P Q : α → Prop} {R : β → Prop}

theorem answers_ok {a : α} (h : P a) : Answers P (.ok a) := Or.inr ⟨a, h, rfl⟩

theorem answers_refuse (kind : EnvelopeErrorKind) (detail : String) :
    Answers P (refuse kind detail) := Or.inl ⟨_, rfl⟩

theorem Answers.bind {r : Reading α} {f : α → Reading β} (h : Answers P r)
    (hf : ∀ a, P a → Answers R (f a)) : Answers R (r >>= f) := by
  rcases h with ⟨error, rfl⟩ | ⟨a, ha, rfl⟩
  · exact Or.inl ⟨error, rfl⟩
  · exact hf a ha

theorem Answers.mono {r : Reading α} (h : Answers P r) (hPQ : ∀ a, P a → Q a) : Answers Q r := by
  rcases h with h | ⟨a, ha, hr⟩
  · exact Or.inl h
  · exact Or.inr ⟨a, hPQ a ha, hr⟩

theorem answers_ite {c : Prop} [Decidable c] {r r' : Reading α} (h : c → Answers P r)
    (h' : ¬ c → Answers P r') : Answers P (if c then r else r') := by
  split_ifs with hc
  · exact h hc
  · exact h' hc

theorem answers_orRefuse {value : Option α} (kind : EnvelopeErrorKind) (detail : String) :
    Answers (fun a => value = some a) (orRefuse value kind detail) := by
  cases value with
  | none => exact Or.inl ⟨_, rfl⟩
  | some a => exact answers_ok rfl

theorem Answers.of_ok {a : α} {r : Reading α} (h : Answers P r) (hr : r = .ok a) : P a := by
  rcases h with ⟨error, rfl⟩ | ⟨b, hb, rfl⟩
  · cases hr
  · obtain rfl := Except.ok.inj hr
    exact hb

theorem Answers.given {r : Reading α} (h : Answers P r) : Answers (fun a => r = .ok a) r := by
  rcases h with h | ⟨a, -, hr⟩
  · exact Or.inl h
  · exact Or.inr ⟨a, hr, hr⟩

theorem answers_mapM {f : α → Reading β} {l : List α} (h : ∀ a ∈ l, Answers R (f a)) :
    Answers (fun bs => List.Forall₂ (fun a b => R b ∧ f a = .ok b) l bs) (l.mapM f) := by
  induction l with
  | nil => exact answers_ok .nil
  | cons a l ih =>
    obtain ⟨ha, hl⟩ := List.forall_mem_cons.mp h
    rw [List.mapM_cons]
    rcases ha with ⟨error, he⟩ | ⟨b, hb, hr⟩
    · exact Or.inl ⟨error, by rw [he]; rfl⟩
    · rw [hr]
      refine (ih hl).bind fun bs hbs => answers_ok (.cons ⟨hb, hr⟩ hbs)

theorem answers_forM {f : α → Reading Unit} {l : List α}
    (h : ∀ a ∈ l, Answers (fun _ => P a) (f a)) : Answers (fun _ => ∀ a ∈ l, P a) (l.forM f) := by
  induction l with
  | nil => exact answers_ok (List.forall_mem_nil _)
  | cons a l ih =>
    obtain ⟨ha, hl⟩ := List.forall_mem_cons.mp h
    change Answers _ (f a >>= fun _ => l.forM f)
    exact ha.bind fun _ hPa => (ih hl).mono fun _ hPl => List.forall_mem_cons.mpr ⟨hPa, hPl⟩

end

theorem answers_indexed {α : Type} {items : List α} {i : Nat} (h : i < items.length) :
    Answers (fun a => items[i]? = some a) (indexed items i) := by
  unfold indexed
  rw [List.getElem?_eq_getElem h]
  exact answers_ok rfl

/-- The positions are refused, or the lines are framed. -/
theorem answers_checkPositions {kinds : List String} (hne : kinds ≠ []) :
    Answers (fun _ => ∃ body, kinds = framed KIND_MANIFEST KIND_POLICIES body KIND_FOOTER ∧
      ∀ kind ∈ body, IsBodyKind kind) (checkPositions kinds) := by
  have hpos := List.length_pos_iff.mpr hne
  unfold checkPositions
  refine (answers_indexed hpos).bind fun first hfirst => ?_
  refine answers_ite (fun _ => answers_refuse _ _) fun _ => ?_
  refine answers_ite (fun _ => answers_refuse _ _) fun hmanifest => ?_
  refine answers_ite (fun _ => answers_refuse _ _) fun hlength => ?_
  rw [not_not] at hmanifest
  refine (answers_indexed (Nat.not_lt.mp hlength)).bind fun second hsecond => ?_
  refine answers_ite (fun _ => answers_refuse _ _) fun _ => ?_
  refine answers_ite (fun _ => answers_refuse _ _) fun hpolicies => ?_
  rw [not_not] at hpolicies
  subst hmanifest hpolicies
  dsimp only
  split
  · exact answers_refuse _ _
  · exact answers_refuse _ _
  · rename_i position hpositions
    refine answers_ite (fun _ => answers_refuse _ _) fun hlast => ?_
    obtain ⟨front, rfl, hfront⟩ := footerPositions_eq_last hpositions (not_not.mp hlast)
    -- The first two lines stand in front of the footer.
    obtain ⟨body, rfl⟩ : ∃ body, front = KIND_MANIFEST :: KIND_POLICIES :: body := by
      rcases front with _ | ⟨a, _ | ⟨b, body⟩⟩
      · simp at hlength
      · simp [KIND_POLICIES, KIND_FOOTER] at hsecond
      · simp at hfirst hsecond
        exact ⟨body, by rw [hfirst, hsecond]⟩
    have hframed : KIND_MANIFEST :: KIND_POLICIES :: body ++ [KIND_FOOTER] =
        framed KIND_MANIFEST KIND_POLICIES body KIND_FOOTER := rfl
    rw [hframed, length_framed, show body.length + 3 - 1 = body.length + 2 from rfl, ranged_framed,
      ok_bind]
    refine answers_ite (fun _ => answers_refuse _ _) fun hmanifest => ?_
    refine answers_ite (fun _ => answers_refuse _ _) fun hpolicies => ?_
    refine answers_ok ⟨body, rfl, fun kind hkind => ⟨?_, ?_, ?_⟩⟩
    · rintro rfl
      exact hmanifest hkind
    · rintro rfl
      exact hpolicies hkind
    · rintro rfl
      exact hfront (List.mem_cons_of_mem _ (List.mem_cons_of_mem _ hkind))

/-! ## Framed documents -/

section

variable {text : List Char} {lines : List (List Char)} {manifest policies footer : JsonFields}
  {body : List WireLine}

theorem inspectCleanedWire_framed (hlines : documentLines text = .ok lines)
    (hparsed : lines.mapM inspectLine = .ok (framed (KIND_MANIFEST, manifest)
      (KIND_POLICIES, policies) body (KIND_FOOTER, footer)))
    (hbody : ∀ kind ∈ body.map (·.1), IsBodyKind kind) :
    inspectCleanedWire text = (do
      inspectManifest manifest lines (body.length + 2)
      inspectPolicies policies
      body.forM inspectRecord
      inspectFooter footer body) := by
  have hlast : (framed (KIND_MANIFEST, manifest) (KIND_POLICIES, policies) body
      (KIND_FOOTER, footer)).length - 1 = body.length + 2 := by
    rw [length_framed]
    rfl
  unfold inspectCleanedWire
  rw [hlines, ok_bind, hparsed, ok_bind, map_framed, checkPositions_framed hbody, ok_bind]
  simp only [hlast, indexed_framed_zero, indexed_framed_one, indexed_framed_last, ranged_framed,
    ok_bind]

/-- What the inspection takes, the reader reads. -/
theorem readCleanedWire_framed (sha256 : Sha256) {summary : WireEnvelopeSummary}
    (hinspect : inspectCleanedWire text = .ok summary) (hlines : documentLines text = .ok lines)
    (hparsed : lines.mapM readLine = .ok (framed (KIND_MANIFEST, manifest)
      (KIND_POLICIES, policies) body (KIND_FOOTER, footer))) :
    readCleanedWire sha256 text = (do
      enforceRecordGroupOrder (body.map (·.1))
      let (source, parent) ← readPins manifest
      let pin ← readFooter footer
      let read ← body.foldlM readRecord ⟨[], [], [], []⟩
      checkSeals sha256 lines pin
      let contractVersion ← recordU64 manifest "version"
      .ok {
        contractVersion, source, parent
        projection := ⟨read.views, read.segments, read.references, none⟩
        inlineTexts := read.inlineTexts
        completion := pin.completion
        counts := pin.counts
        recordsSealHash := pin.recordsSealHash
        manifestHash := pin.manifestHash }) := by
  obtain ⟨hare, rfl⟩ := areLines_of_documentLines hlines
  have hlength : lines.length - 1 = body.length + 2 := by
    have hlength := (mapM_eq_ok_iff.mp hparsed).length_eq
    rw [length_framed] at hlength
    omega
  unfold readCleanedWire
  rw [hinspect, ok_bind, bodyOf_written hare, ok_bind]
  simp only [splitOn_joinLines hare, hparsed, hlength, indexed_framed_zero, indexed_framed_last,
    ranged_framed, ok_bind]

end

theorem checkSeals_framed (sha256 : Sha256) (manifestLine policiesLine footerLine : List Char)
    (recordLines : List (List Char)) (pin : FooterPin) :
    checkSeals sha256 (framed manifestLine policiesLine recordLines footerLine) pin = .ok () ↔
      recordsSealHash sha256 policiesLine recordLines = pin.recordsSealHash ∧
        manifestHash sha256 manifestLine pin.recordsSealHash
          (footerBody pin.completion pin.counts) = pin.manifestHash := by
  have hlast : (framed manifestLine policiesLine recordLines footerLine).length - 1 =
      recordLines.length + 2 := by
    rw [length_framed]
    rfl
  unfold checkSeals
  simp only [hlast, indexed_framed_zero, indexed_framed_one, ranged_framed, ok_bind]
  by_cases hrecords : recordsSealHash sha256 policiesLine recordLines = pin.recordsSealHash
  · simp [hrecords, refuse]
  · simp [hrecords, refuse]

end LawNexus.CleanedWire
