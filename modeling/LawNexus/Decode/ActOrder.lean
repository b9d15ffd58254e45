import LawNexus.Decode.ActPlaces

/-!
# The dates of act lists

Which dates of a block come back as members of the frames of `extract_act_list_frames`: all of
them, in order and under the anchor, when no lone date stands in front of a captured one of its
group and no capture starts in front of the word that it is grouped by.
-/

namespace LawNexus.Decode

open Utf8 Loops

/-! ## Spans under an anchor -/

def spanAnchor (head : Option Nat) (spans : List TextSpan) : Option TextSpan := do
  let first ← spans.head?
  let last ← spans.getLast?
  TextSpan.tryNew (head.getD first.start) last.stop

/-- Spans in the order of the text, under their anchor. -/
def Anchored (head : Option Nat) (spans : List TextSpan) : Prop :=
  ∃ anchor, spanAnchor head spans = some anchor ∧
    (spans.Pairwise fun a b => a.start ≤ b.start) ∧
    ∀ span ∈ spans, anchor.start ≤ span.start ∧ span.stop ≤ anchor.stop

section

variable {head : Option Nat} {caps lones spans : List TextSpan}

theorem spanAnchor_eq_some {anchor : TextSpan} (h : spanAnchor head spans = some anchor) :
    ∃ first ∈ spans.head?, ∃ last ∈ spans.getLast?,
      anchor.start = head.getD first.start ∧ anchor.stop = last.stop := by
  obtain ⟨first, hfirst, h⟩ := Option.bind_eq_some_iff.mp h
  obtain ⟨last, hlast, h⟩ := Option.bind_eq_some_iff.mp h
  exact ⟨first, hfirst, last, hlast, TextSpan.tryNew_eq_some.mp h⟩

theorem anchored_of_pairwise (hne : spans ≠ [])
    (h : spans.Pairwise fun a b => a.start ≤ b.start ∧ a.stop ≤ b.stop)
    (hhead : ∀ start ∈ head, ∀ span ∈ spans, start ≤ span.start) : Anchored head spans := by
  obtain ⟨first, rest, rfl⟩ := List.exists_cons_of_ne_nil hne
  obtain ⟨front, last, hspans⟩ := (List.eq_nil_or_concat' (first :: rest)).resolve_left hne
  have hstart : ∀ span ∈ first :: rest, head.getD first.start ≤ span.start := by
    intro span hspan
    cases head with
    | some start => exact hhead start rfl span hspan
    | none =>
      rcases List.mem_cons.mp hspan with rfl | hspan
      · exact le_rfl
      · exact ((List.pairwise_cons.mp h).1 span hspan).1
  have hstop : ∀ span ∈ first :: rest, span.stop ≤ last.stop := by
    intro span hspan
    rw [hspans] at h hspan
    rcases List.mem_append.mp hspan with hspan | hspan
    · exact ((List.pairwise_append.mp h).2.2 span hspan last List.mem_cons_self).2
    · rw [List.mem_singleton.mp hspan]
  have hspan : head.getD first.start < last.stop :=
    (hstart first List.mem_cons_self).trans_lt
      (first.nonempty.trans_le (hstop first List.mem_cons_self))
  have hlast : (first :: rest).getLast? = some last := by rw [hspans, List.getLast?_concat]
  refine ⟨⟨_, _, hspan⟩, ?_, h.imp fun hab => hab.1,
    fun span hmem => ⟨hstart span hmem, hstop span hmem⟩⟩
  unfold spanAnchor
  rw [hlast]
  exact dif_pos hspan

/-- Captured dates and the lone ones behind them are anchored when they stand like that. -/
theorem anchored_append_iff (hne : caps ++ lones ≠ [])
    (hcaps : caps.Pairwise fun a b => a.start ≤ b.start ∧ a.stop ≤ b.stop)
    (hlones : lones.Pairwise fun a b => a.stop ≤ b.start)
    (hapart : ∀ c ∈ caps, ∀ l ∈ lones, c.stop ≤ l.start ∨ l.stop ≤ c.start)
    (hhead : ∀ start ∈ head, ∀ l ∈ lones, start ≤ l.start) :
    Anchored head (caps ++ lones) ↔ (∀ c ∈ caps, ∀ l ∈ lones, c.stop ≤ l.start) ∧
      ∀ start ∈ head, ∀ c ∈ caps, start ≤ c.start := by
  constructor
  · rintro ⟨anchor, hanchor, hsorted, hcovered⟩
    constructor
    · intro c hc l hl
      have hcl := (List.pairwise_append.mp hsorted).2.2 c hc l hl
      have hspan := l.nonempty
      rcases hapart c hc l hl with h | h
      · exact h
      · omega
    · rintro start hstart c hc
      obtain ⟨first, -, last, -, hfrom, -⟩ := spanAnchor_eq_some hanchor
      rw [Option.mem_def.mp hstart, Option.getD_some] at hfrom
      exact hfrom ▸ (hcovered c (List.mem_append_left _ hc)).1
  · rintro ⟨hbehind, hword⟩
    refine anchored_of_pairwise hne (List.pairwise_append.mpr ⟨hcaps, ?_, ?_⟩) ?_
    · refine hlones.imp fun {a b} hab => ?_
      have ha := a.nonempty
      have hb := b.nonempty
      omega
    · intro c hc l hl
      have hcl := hbehind c hc l hl
      have ha := c.nonempty
      have hb := l.nonempty
      omega
    · intro start hstart span hspan
      rcases List.mem_append.mp hspan with h | h
      · exact hword start hstart span h
      · exact hhead start hstart span h

end

/-! ## The groups of the dates -/

section

variable (tables : CharTables) (tokens : List NpaToken) (src : List Char)
  (sentences : List TextSpan) (captures : List LawRef)

/-- The group of a date that has the word "от" in front of it, within a sentence. -/
def dateGroup (date : TextSpan) : Option ActKey := do
  let index ← sentenceContaining sentences date
  let sentence ← sentences[index]?
  if hasLocalOt tokens src date then
    some (index, findActHead tables tokens src date sentence)
  else none

def captureGroup (capture : LawRef) : Option ActKey :=
  (capture.subspan src capture.slots.date).bind (dateGroup tables tokens src sentences)

/-- The group of a date token that no capture has as its date. -/
def loneGroup (token : NpaToken) : Option ActKey :=
  if token.kind = .Date && !alreadyCaptured src captures token then
    dateGroup tables tokens src sentences token.span
  else none

def loneMember (token : NpaToken) : ActMemberCandidate :=
  .incomplete token.span (token.text src)

/-- The dated references of a block: the captured ones and the lone ones. -/
def datedReferences : List CapturedHeadFields :=
  ((captures.filter fun capture => (captureGroup tables tokens src sentences capture).isSome).map
      fun capture => (ActMemberCandidate.capture capture).fields src) ++
    (tokens.filter fun token => (loneGroup tables tokens src sentences captures token).isSome).map
      fun token => (loneMember src token).fields src

/-- No reference is dropped: each is a member once, the members of a frame are in the order of
the text, and its anchor covers them. -/
structure DatesKept (references : List CapturedHeadFields) (frames : List ActListFrame) :
    Prop where
  once : (frames.flatMap fun frame => frame.members.map (·.toCapturedHeadFields)).Perm references
  ordered : ∀ frame ∈ frames, frame.members.Pairwise fun a b =>
    a.valueSpan.start ≤ b.valueSpan.start
  covered : ∀ frame ∈ frames, ∀ member ∈ frame.members,
    frame.localAnchor.start ≤ member.valueSpan.start ∧
      member.valueSpan.stop ≤ frame.localAnchor.stop

/-- Within each group the lone dates are the tail, and the captures stand behind the act word. -/
structure TailsBehind : Prop where
  lone : ∀ capture ∈ captures, ∀ token ∈ tokens,
    ∀ group ∈ captureGroup tables tokens src sentences capture,
      loneGroup tables tokens src sentences captures token = some group →
        capture.span.stop ≤ token.span.start
  word : ∀ capture ∈ captures, ∀ group ∈ captureGroup tables tokens src sentences capture,
    ∀ token ∈ group.2.bind (tokens[·]?), token.span.start ≤ capture.span.start

end

section

variable {tables : CharTables} {tokens : List NpaToken} {src : List Char}
  {sentences : List TextSpan} {captures : List LawRef} {date sentence : TextSpan}
  {token : NpaToken} {index : Nat}

def Within (span sentence : TextSpan) : Prop :=
  sentence.start ≤ span.start ∧ span.stop ≤ sentence.stop

/-- The sentence of a date is the one that it stands in, as no two overlap. -/
theorem sentenceContaining_iff (h : sentences.Pairwise fun a b => a.stop ≤ b.start)
    (hsentence : sentences[index]? = some sentence) :
    sentenceContaining sentences date = some index ↔ Within date sentence := by
  obtain ⟨hlt, rfl⟩ := List.getElem?_eq_some_iff.mp hsentence
  unfold sentenceContaining
  rw [List.findIdx?_eq_some_iff_getElem]
  simp only [Bool.and_eq_true, decide_eq_true_eq]
  constructor
  · exact fun ⟨_, hin, _⟩ => hin
  · intro hin
    refine ⟨hlt, hin, fun j hj hother => ?_⟩
    have hjlt : j < sentences.length := hj.trans hlt
    have happart := List.pairwise_iff_getElem.mp h j index hjlt hlt hj
    have hspan := date.nonempty
    obtain ⟨hstart, hstop⟩ := hin
    obtain ⟨hstart', hstop'⟩ := hother
    omega

theorem captureCandidate_eq (capture : LawRef) :
    captureCandidate tables tokens src sentences capture =
      (captureGroup tables tokens src sentences capture).map (·, .capture capture) := by
  unfold captureCandidate captureGroup dateGroup
  cases hdate : capture.subspan src capture.slots.date with
  | none => rfl
  | some date =>
    cases hindex : sentenceContaining sentences date with
    | none => simp [hindex]
    | some index =>
      cases hsentence : sentences[index]? <;>
        cases hot : hasLocalOt tokens src date <;> simp [hindex, hsentence, hot, actKey]

theorem loneCandidate_eq (h : sentences.Pairwise fun a b => a.stop ≤ b.start)
    (hsentence : sentences[index]? = some sentence) (token : NpaToken) :
    loneCandidate tables tokens src captures sentence index token =
      ((loneGroup tables tokens src sentences captures token).map (·, loneMember src token)).filter
        fun candidate => candidate.1.1 = index := by
  have hin : sentenceContaining sentences token.span = some index ↔ Within token.span sentence :=
    sentenceContaining_iff h hsentence
  unfold loneCandidate loneGroup
  by_cases hwithin : Within token.span sentence
  · have hout : ¬ (token.span.start < sentence.start ∨ sentence.stop < token.span.stop) := by
      rw [not_or, Nat.not_lt, Nat.not_lt]
      exact hwithin
    rw [dateGroup, hin.mpr hwithin]
    by_cases hkind : token.kind = .Date
    · cases hcaptured : alreadyCaptured src captures token
      · cases hot : hasLocalOt tokens src token.span <;>
          simp [hout, hkind, hsentence, actKey, loneMember, Option.filter_some]
      · simp [hkind]
    · simp [hkind]
  · have hout : token.span.start < sentence.start ∨ sentence.stop < token.span.stop := by
      rw [Within, not_and_or, Nat.not_le, Nat.not_le] at hwithin
      exact hwithin
    rw [if_pos (by simp [hout])]
    symm
    rw [Option.filter_eq_none_iff]
    rintro ⟨group, member⟩ hmember
    obtain ⟨found, hfound, heq⟩ := Option.map_eq_some_iff.mp hmember
    obtain ⟨rfl, -⟩ := Prod.mk.inj heq
    split_ifs at hfound
    obtain ⟨place, hplace, hfound⟩ := Option.bind_eq_some_iff.mp hfound
    obtain ⟨other, -, hfound⟩ := Option.bind_eq_some_iff.mp hfound
    split_ifs at hfound
    obtain rfl := Option.some.inj hfound
    rw [decide_eq_true_eq]
    rintro rfl
    exact hwithin (hin.mp hplace)

variable (tables tokens src sentences captures) in
/-- The lone dates of a block in the order of the text. -/
def loneDates : List (ActKey × ActMemberCandidate) :=
  tokens.filterMap fun token =>
    (loneGroup tables tokens src sentences captures token).map (·, loneMember src token)

variable (tables tokens src sentences captures) in
/-- The lone dates in the order of the loop: sentence by sentence. -/
def loneRuns : List (ActKey × ActMemberCandidate) :=
  (List.range sentences.length).flatMap fun index =>
    (loneDates tables tokens src sentences captures).filter (·.1.1 = index)

theorem actCandidates_eq (h : sentences.Pairwise fun a b => a.stop ≤ b.start) :
    actCandidates tables tokens src sentences captures =
      captures.filterMap (fun capture =>
        (captureGroup tables tokens src sentences capture).map (·, .capture capture)) ++
      loneRuns tables tokens src sentences captures := by
  unfold actCandidates loneRuns
  congr 1
  · exact List.filterMap_congr fun capture _ => captureCandidate_eq capture
  · rw [List.range_eq_range', ← List.zipIdx_map_snd 0 sentences, List.flatMap_map]
    refine List.flatMap_congr fun item hitem => ?_
    obtain ⟨sentence, index⟩ := item
    have hsentence := List.mem_zipIdx_iff_getElem?.mp hitem
    unfold loneDates
    rw [List.filter_filterMap]
    exact List.filterMap_congr fun token _ => loneCandidate_eq h hsentence token

theorem dateGroup_lt {group : ActKey}
    (h : dateGroup tables tokens src sentences date = some group) :
    group.1 < sentences.length := by
  obtain ⟨index, hindex, h⟩ := Option.bind_eq_some_iff.mp h
  obtain ⟨sentence, hsentence, h⟩ := Option.bind_eq_some_iff.mp h
  split_ifs at h
  obtain rfl := Option.some.inj h
  exact (List.getElem?_eq_some_iff.mp hsentence).1

theorem loneGroup_eq_some {group : ActKey} :
    loneGroup tables tokens src sentences captures token = some group ↔ token.kind = .Date ∧
      alreadyCaptured src captures token = false ∧
      dateGroup tables tokens src sentences token.span = some group := by
  unfold loneGroup
  split_ifs with h
  · simp only [Bool.and_eq_true, decide_eq_true_eq, Bool.not_eq_true'] at h
    simp [h.1, h.2]
  · simp only [Bool.and_eq_true, decide_eq_true_eq, Bool.not_eq_true', not_and] at h
    exact iff_of_false nofun fun hdate => h hdate.1 hdate.2.1

theorem loneRuns_perm : (loneRuns tables tokens src sentences captures).Perm
    (loneDates tables tokens src sentences captures) := by
  refine flatMap_filter_perm List.nodup_range fun candidate hcandidate => ?_
  obtain ⟨token, -, hmember⟩ := List.mem_filterMap.mp hcandidate
  obtain ⟨group, hgroup, rfl⟩ := Option.map_eq_some_iff.mp hmember
  exact List.mem_range.mpr (dateGroup_lt (loneGroup_eq_some.mp hgroup).2.2)

/-- The lone dates of one group stand in the order of the text. -/
theorem pairwise_loneRuns (hin : InOrder tokens) (group : ActKey) :
    ((loneRuns tables tokens src sentences captures).filter (·.1 = group)).Pairwise fun a b =>
      a.2.span.stop ≤ b.2.span.start := by
  have hdates : (loneDates tables tokens src sentences captures).Pairwise fun a b =>
      a.2.span.stop ≤ b.2.span.start := by
    refine List.pairwise_filterMap.mpr (hin.imp fun {a b} hab => ?_)
    intro x hx y hy
    obtain ⟨-, -, rfl⟩ := Option.map_eq_some_iff.mp hx
    obtain ⟨-, -, rfl⟩ := Option.map_eq_some_iff.mp hy
    exact hab
  unfold loneRuns
  rw [List.filter_flatMap, List.pairwise_flatMap]
  refine ⟨fun index _ => (hdates.filter _).filter _, ?_⟩
  refine List.nodup_range.imp fun {i j} hne x hx y hy => ?_
  -- Only one sentence has dates of the group.
  obtain ⟨hx, hxgroup⟩ := List.mem_filter.mp hx
  obtain ⟨hy, hygroup⟩ := List.mem_filter.mp hy
  have hxi := of_decide_eq_true (List.mem_filter.mp hx).2
  have hyj := of_decide_eq_true (List.mem_filter.mp hy).2
  rw [of_decide_eq_true hxgroup] at hxi
  rw [of_decide_eq_true hygroup] at hyj
  exact absurd (hxi.symm.trans hyj) hne

/-! ## Candidates and references -/

theorem map_filterMap_map {α β γ : Type} {g : α → Option β} {h : α → ActMemberCandidate}
    (f : ActMemberCandidate → γ) (l : List α) :
    (l.filterMap fun a => (g a).map (·, h a)).map (fun candidate => f candidate.2) =
      (l.filter fun a => (g a).isSome).map fun a => f (h a) := by
  induction l with
  | nil => rfl
  | cons a l ih => cases hg : g a <;> simp [hg, ih]

theorem actCandidates_perm (h : sentences.Pairwise fun a b => a.stop ≤ b.start) :
    ((actCandidates tables tokens src sentences captures).map fun candidate =>
      candidate.2.fields src).Perm (datedReferences tables tokens src sentences captures) := by
  rw [actCandidates_eq h, List.map_append, map_filterMap_map (·.fields src), datedReferences]
  refine (loneRuns_perm.map _).append_left _ |>.trans ?_
  unfold loneDates
  rw [map_filterMap_map (·.fields src)]

/-! ## The frame of a group -/

variable {head : Option Nat} {candidates : List ActMemberCandidate} {frame : ActListFrame}

@[simp] theorem valueSpan_fields (candidate : ActMemberCandidate) :
    (candidate.fields src).valueSpan = candidate.span := by
  cases candidate <;> rfl

variable (tokens) in
/-- Where the act word of a group starts. -/
def headStart (head : Option Nat) : Option Nat := (head.bind (tokens[·]?)).map (·.span.start)

theorem frameAnchor_eq : frameAnchor tokens head candidates =
    spanAnchor (headStart tokens head) (candidates.map (·.span)) := by
  unfold frameAnchor spanAnchor headStart
  rw [List.head?_map, List.getLast?_map]
  cases candidates.head? <;> cases candidates.getLast? <;> rfl

theorem actFrame_some (h : actFrame tables tokens src head candidates = some frame) :
    frameAnchor tokens head candidates = some frame.localAnchor ∧
      frame.members.map (·.toCapturedHeadFields) = candidates.map (·.fields src) := by
  obtain ⟨anchor, hanchor, h⟩ := Option.bind_eq_some_iff.mp h
  obtain rfl := Option.some.inj h
  refine ⟨hanchor, ?_⟩
  dsimp only
  rw [List.map_map]
  conv_rhs => rw [← List.zipIdx_map_fst 0 candidates, List.map_map]
  rfl

theorem exists_actFrame {anchor : TextSpan}
    (h : frameAnchor tokens head candidates = some anchor) :
    ∃ frame, actFrame tables tokens src head candidates = some frame := by
  unfold actFrame
  rw [h]
  exact ⟨_, rfl⟩

theorem map_valueSpan (h : actFrame tables tokens src head candidates = some frame) :
    frame.members.map (·.valueSpan) = candidates.map (·.span) := by
  have hfields := congrArg (List.map (·.valueSpan)) (actFrame_some h).2
  rw [List.map_map, List.map_map] at hfields
  refine hfields.trans (List.map_congr_left fun candidate _ => ?_)
  exact valueSpan_fields candidate

/-- A frame is in order under its anchor when its spans are. -/
theorem anchored_iff (h : actFrame tables tokens src head candidates = some frame) :
    Anchored (headStart tokens head) (candidates.map (·.span)) ↔
      (frame.members.Pairwise fun a b => a.valueSpan.start ≤ b.valueSpan.start) ∧
      ∀ member ∈ frame.members, frame.localAnchor.start ≤ member.valueSpan.start ∧
        member.valueSpan.stop ≤ frame.localAnchor.stop := by
  have hanchor := (actFrame_some h).1
  rw [frameAnchor_eq] at hanchor
  rw [← map_valueSpan h] at hanchor ⊢
  unfold Anchored
  rw [hanchor, List.pairwise_map]
  simp only [Option.some_inj, exists_eq_left', List.forall_mem_map]

end

/-! ## No group is dropped -/

section

variable {α β γ : Type} {f : α → Option β} {parts : β → List γ} {whole : α → List γ} {l : List α}

theorem flatMap_filterMap_eq (hparts : ∀ a ∈ l, ∀ b, f a = some b → parts b = whole a)
    (hall : ∀ a ∈ l, (f a).isSome) : (l.filterMap f).flatMap parts = l.flatMap whole := by
  induction l with
  | nil => rfl
  | cons a l ih =>
    obtain ⟨hpart, hparts⟩ := List.forall_mem_cons.mp hparts
    obtain ⟨hsome, hall⟩ := List.forall_mem_cons.mp hall
    obtain ⟨b, hb⟩ := Option.isSome_iff_exists.mp hsome
    rw [List.filterMap_cons_some hb, List.flatMap_cons, List.flatMap_cons, hpart b hb,
      ih hparts hall]

theorem length_flatMap_filterMap_le (hparts : ∀ a ∈ l, ∀ b, f a = some b → parts b = whole a) :
    ((l.filterMap f).flatMap parts).length ≤ (l.flatMap whole).length := by
  induction l with
  | nil => exact le_rfl
  | cons a l ih =>
    obtain ⟨hpart, hparts⟩ := List.forall_mem_cons.mp hparts
    have hrest := ih hparts
    rw [List.flatMap_cons, List.length_append]
    cases hb : f a with
    | none =>
      rw [List.filterMap_cons_none hb]
      omega
    | some b =>
      rw [List.filterMap_cons_some hb, List.flatMap_cons, List.length_append, hpart b hb]
      omega

/-- Where nothing is missing in number, no element without a part is left out. -/
theorem isSome_of_length_eq (hparts : ∀ a ∈ l, ∀ b, f a = some b → parts b = whole a)
    (hwhole : ∀ a ∈ l, whole a ≠ [])
    (h : ((l.filterMap f).flatMap parts).length = (l.flatMap whole).length) :
    ∀ a ∈ l, (f a).isSome := by
  induction l with
  | nil => exact nofun
  | cons a l ih =>
    obtain ⟨hpart, hparts⟩ := List.forall_mem_cons.mp hparts
    obtain ⟨hne, hwhole⟩ := List.forall_mem_cons.mp hwhole
    have hle := length_flatMap_filterMap_le hparts
    have hpos := List.length_pos_iff.mpr hne
    rw [List.flatMap_cons, List.length_append] at h
    cases hb : f a with
    | none =>
      rw [List.filterMap_cons_none hb] at h
      omega
    | some b =>
      rw [List.filterMap_cons_some hb, List.flatMap_cons, List.length_append, hpart b hb] at h
      exact List.forall_mem_cons.mpr ⟨by rw [hb]; rfl, ih hparts hwhole (by omega)⟩

end

section

variable {tables : CharTables} {tokens : List NpaToken} {src : List Char}
  {sentences : List TextSpan} {captures : List LawRef}

variable (tables tokens src sentences captures) in
def actGroups : List (ActKey × List (ActKey × ActMemberCandidate)) :=
  group Prod.fst (actCandidates tables tokens src sentences captures)

theorem actGroups_perm : ((actGroups tables tokens src sentences captures).flatMap (·.2)).Perm
    (actCandidates tables tokens src sentences captures) := by
  rw [actGroups, group_eq, List.flatMap_map]
  exact flatMap_filter_perm (nodup_distinct _) fun candidate hcandidate =>
    mem_distinct.mpr (List.mem_map_of_mem hcandidate)

theorem ne_nil_of_mem_actGroups {key : ActKey}
    {candidates : List (ActKey × ActMemberCandidate)}
    (h : (key, candidates) ∈ actGroups tables tokens src sentences captures) :
    candidates ≠ [] := by
  obtain ⟨rfl, candidate, hcandidate, hkey⟩ := mem_group.mp h
  have hmem : candidate ∈ (actCandidates tables tokens src sentences captures).filter
      (·.1 = key) := List.mem_filter.mpr ⟨hcandidate, decide_eq_true hkey⟩
  exact List.ne_nil_of_mem hmem

/-- The references are kept when the spans of each group are in order under their anchor. -/
theorem datesKept_iff (h : sentences.Pairwise fun a b => a.stop ≤ b.start) :
    DatesKept (datedReferences tables tokens src sentences captures)
        (actFrames tables tokens src sentences captures) ↔
      ∀ group ∈ actGroups tables tokens src sentences captures,
        Anchored (headStart tokens group.1.2) (group.2.map (·.2.span)) := by
  let frameOf (group : ActKey × List (ActKey × ActMemberCandidate)) : Option ActListFrame :=
    actFrame tables tokens src group.1.2 (group.2.map Prod.snd)
  have hspans (group : ActKey × List (ActKey × ActMemberCandidate)) :
      group.2.map (·.2.span) = (group.2.map Prod.snd).map (·.span) := by
    rw [List.map_map]
    rfl
  have hparts : ∀ group ∈ actGroups tables tokens src sentences captures, ∀ frame,
      frameOf group = some frame → frame.members.map (·.toCapturedHeadFields) =
        group.2.map fun candidate => candidate.2.fields src := by
    intro group _ frame hframe
    rw [(actFrame_some hframe).2, List.map_map]
    rfl
  have hreferences : ((actGroups tables tokens src sentences captures).flatMap fun group =>
      group.2.map fun candidate => candidate.2.fields src).Perm
        (datedReferences tables tokens src sentences captures) := by
    rw [← List.map_flatMap]
    exact (actGroups_perm.map _).trans (actCandidates_perm h)
  constructor
  · rintro ⟨honce, hordered, hcovered⟩ group hgroup
    have hlen := (honce.trans hreferences.symm).length_eq
    have hne : ∀ group ∈ actGroups tables tokens src sentences captures,
        (group.2.map fun candidate => candidate.2.fields src) ≠ [] := fun group hgroup hnil =>
      ne_nil_of_mem_actGroups hgroup (List.map_eq_nil_iff.mp hnil)
    obtain ⟨frame, hframe⟩ := Option.isSome_iff_exists.mp
      (isSome_of_length_eq hparts hne hlen group hgroup)
    have hmem : frame ∈ actFrames tables tokens src sentences captures :=
      List.mem_filterMap.mpr ⟨group, hgroup, hframe⟩
    rw [hspans]
    exact (anchored_iff hframe).mpr ⟨hordered frame hmem, hcovered frame hmem⟩
  · intro hall
    have hsome : ∀ group ∈ actGroups tables tokens src sentences captures,
        (frameOf group).isSome := by
      intro group hgroup
      obtain ⟨anchor, hanchor, -⟩ := hall group hgroup
      rw [hspans, ← frameAnchor_eq] at hanchor
      exact Option.isSome_iff_exists.mpr (exists_actFrame hanchor)
    have hframes : ∀ frame ∈ actFrames tables tokens src sentences captures,
        (frame.members.Pairwise fun a b => a.valueSpan.start ≤ b.valueSpan.start) ∧
        ∀ member ∈ frame.members, frame.localAnchor.start ≤ member.valueSpan.start ∧
          member.valueSpan.stop ≤ frame.localAnchor.stop := by
      intro frame hmem
      obtain ⟨group, hgroup, hframe⟩ := List.mem_filterMap.mp hmem
      have hanchored := hall group hgroup
      rw [hspans] at hanchored
      exact (anchored_iff hframe).mp hanchored
    refine ⟨?_, fun frame hmem => (hframes frame hmem).1, fun frame hmem => (hframes frame hmem).2⟩
    have heq := flatMap_filterMap_eq hparts hsome
    exact (List.Perm.of_eq heq).trans hreferences

/-! ## The order of one group -/

variable (tables tokens src sentences captures) in
def capturedSpans (key : ActKey) : List TextSpan :=
  ((captures.filterMap fun capture => (captureGroup tables tokens src sentences capture).map
      (·, ActMemberCandidate.capture capture)).filter (·.1 = key)).map (·.2.span)

variable (tables tokens src sentences captures) in
def loneSpans (key : ActKey) : List TextSpan :=
  ((loneRuns tables tokens src sentences captures).filter (·.1 = key)).map (·.2.span)

theorem mem_capturedSpans {key : ActKey} {span : TextSpan} :
    span ∈ capturedSpans tables tokens src sentences captures key ↔ ∃ capture ∈ captures,
      captureGroup tables tokens src sentences capture = some key ∧ capture.span = span := by
  unfold capturedSpans
  rw [List.mem_map]
  constructor
  · rintro ⟨candidate, hcandidate, rfl⟩
    obtain ⟨hmem, hkey⟩ := List.mem_filter.mp hcandidate
    obtain ⟨capture, hcapture, hmap⟩ := List.mem_filterMap.mp hmem
    obtain ⟨found, hfound, rfl⟩ := Option.map_eq_some_iff.mp hmap
    exact ⟨capture, hcapture, of_decide_eq_true hkey ▸ hfound, rfl⟩
  · rintro ⟨capture, hcapture, hkey, rfl⟩
    refine ⟨(key, .capture capture), List.mem_filter.mpr ⟨?_, decide_eq_true rfl⟩, rfl⟩
    exact List.mem_filterMap.mpr ⟨capture, hcapture, by rw [hkey]; rfl⟩

theorem mem_loneSpans {key : ActKey} {span : TextSpan} :
    span ∈ loneSpans tables tokens src sentences captures key ↔ ∃ token ∈ tokens,
      loneGroup tables tokens src sentences captures token = some key ∧ token.span = span := by
  unfold loneSpans
  rw [List.mem_map]
  constructor
  · rintro ⟨candidate, hcandidate, rfl⟩
    obtain ⟨hmem, hkey⟩ := List.mem_filter.mp hcandidate
    obtain ⟨token, htoken, hmap⟩ := List.mem_filterMap.mp (loneRuns_perm.mem_iff.mp hmem)
    obtain ⟨found, hfound, rfl⟩ := Option.map_eq_some_iff.mp hmap
    exact ⟨token, htoken, of_decide_eq_true hkey ▸ hfound, rfl⟩
  · rintro ⟨token, htoken, hkey, rfl⟩
    refine ⟨(key, loneMember src token), List.mem_filter.mpr ⟨?_, decide_eq_true rfl⟩, rfl⟩
    refine loneRuns_perm.mem_iff.mpr (List.mem_filterMap.mpr ⟨token, htoken, ?_⟩)
    rw [hkey]
    rfl

variable (tables tokens src sentences captures) in
/-- The lone dates of one group are its tail, and its captures stand behind its act word. -/
def IsTail (key : ActKey) : Prop :=
  (∀ c ∈ capturedSpans tables tokens src sentences captures key,
    ∀ l ∈ loneSpans tables tokens src sentences captures key, c.stop ≤ l.start) ∧
  ∀ start ∈ headStart tokens key.2,
    ∀ c ∈ capturedSpans tables tokens src sentences captures key, start ≤ c.start

theorem tailsBehind_iff : TailsBehind tables tokens src sentences captures ↔
    ∀ key, IsTail tables tokens src sentences captures key := by
  constructor
  · rintro ⟨hlone, hword⟩ key
    constructor
    · intro c hc l hl
      obtain ⟨capture, hcapture, hkey, rfl⟩ := mem_capturedSpans.mp hc
      obtain ⟨token, htoken, htokenKey, rfl⟩ := mem_loneSpans.mp hl
      exact hlone capture hcapture token htoken key hkey htokenKey
    · intro start hstart c hc
      obtain ⟨capture, hcapture, hkey, rfl⟩ := mem_capturedSpans.mp hc
      obtain ⟨token, htoken, rfl⟩ := Option.map_eq_some_iff.mp hstart
      exact hword capture hcapture key hkey token htoken
  · intro h
    constructor
    · intro capture hcapture token htoken key hkey htokenKey
      exact (h key).1 _ (mem_capturedSpans.mpr ⟨capture, hcapture, hkey, rfl⟩) _
        (mem_loneSpans.mpr ⟨token, htoken, htokenKey, rfl⟩)
    · intro capture hcapture key hkey token htoken
      exact (h key).2 _ (Option.mem_map_of_mem (·.span.start) htoken) _
        (mem_capturedSpans.mpr ⟨capture, hcapture, hkey, rfl⟩)

/-- The spans of a group are those of its captures, then those of its lone dates. -/
theorem spans_of_group (h : sentences.Pairwise fun a b => a.stop ≤ b.start)
    {key : ActKey} {candidates : List (ActKey × ActMemberCandidate)}
    (hgroup : (key, candidates) ∈ actGroups tables tokens src sentences captures) :
    candidates.map (·.2.span) = capturedSpans tables tokens src sentences captures key ++
      loneSpans tables tokens src sentences captures key := by
  rw [(mem_group.mp hgroup).1, actCandidates_eq h, List.filter_append, List.map_append]
  rfl

theorem exists_group {key : ActKey}
    (hkey : capturedSpans tables tokens src sentences captures key ++
      loneSpans tables tokens src sentences captures key ≠ [])
    (h : sentences.Pairwise fun a b => a.stop ≤ b.start) :
    ∃ candidates, (key, candidates) ∈ actGroups tables tokens src sentences captures := by
  refine ⟨_, mem_group.mpr ⟨rfl, ?_⟩⟩
  have hne : (actCandidates tables tokens src sentences captures).filter (·.1 = key) ≠ [] := by
    rw [actCandidates_eq h, List.filter_append]
    unfold capturedSpans loneSpans at hkey
    rw [← List.map_append] at hkey
    exact fun hnil => hkey (by rw [hnil]; rfl)
  obtain ⟨candidate, hcandidate⟩ := List.exists_mem_of_ne_nil _ hne
  obtain ⟨hmem, hfst⟩ := List.mem_filter.mp hcandidate
  exact ⟨candidate, hmem, of_decide_eq_true hfst⟩

/-- The act word of a date stands in front of it. -/
theorem headStart_le (hin : InOrder tokens) {date : TextSpan} {key : ActKey}
    (h : dateGroup tables tokens src sentences date = some key) :
    ∀ start ∈ headStart tokens key.2, start ≤ date.start := by
  intro start hstart
  obtain ⟨index, hindex, h⟩ := Option.bind_eq_some_iff.mp h
  obtain ⟨sentence, hsentence, h⟩ := Option.bind_eq_some_iff.mp h
  split_ifs at h
  obtain rfl := Option.some.inj h
  obtain ⟨word, hhead, rfl⟩ := Option.map_eq_some_iff.mp hstart
  obtain ⟨place, hact, hword⟩ := Option.bind_eq_some_iff.mp hhead
  obtain ⟨spot, hspot, hplace⟩ := Option.bind_eq_some_iff.mp hact
  obtain ⟨token, htoken, rfl⟩ := findIdx?_span hspot
  have hlt := List.mem_range.mp (List.mem_reverse.mp (List.mem_of_find?_eq_some hplace))
  have hstop := hin.stop_le hword htoken hlt
  have hspan := word.span.nonempty
  omega

theorem pairwise_capturedSpans (key : ActKey)
    (h : (captures.filter (·.slots.date.isSome)).Pairwise fun a b =>
      a.span.start ≤ b.span.start ∧ a.span.stop ≤ b.span.stop) :
    (capturedSpans tables tokens src sentences captures key).Pairwise fun a b =>
      a.start ≤ b.start ∧ a.stop ≤ b.stop := by
  have hdated : ∀ capture candidate,
      (captureGroup tables tokens src sentences capture).map
        (·, ActMemberCandidate.capture capture) = some candidate →
      capture.slots.date.isSome = true ∧ candidate.2.span = capture.span := by
    intro capture candidate hcandidate
    obtain ⟨key, hkey, rfl⟩ := Option.map_eq_some_iff.mp hcandidate
    obtain ⟨date, hdate, -⟩ := Option.bind_eq_some_iff.mp hkey
    obtain ⟨text, htext, -⟩ := Option.bind_eq_some_iff.mp hdate
    exact ⟨Option.isSome_of_mem htext, rfl⟩
  refine List.pairwise_map.mpr (List.Pairwise.filter _ (List.pairwise_filterMap.mpr ?_))
  refine (List.pairwise_filter.mp h).imp fun {a b} hab x hx y hy => ?_
  obtain ⟨ha, hxspan⟩ := hdated a x hx
  obtain ⟨hb, hyspan⟩ := hdated b y hy
  rw [hxspan, hyspan]
  exact hab ha hb

/-- A group is in order under its anchor when its lone dates are its tail, and its captures
stand behind its act word. -/
theorem anchored_group_iff {lexicon : Lexicon} (hin : InOrder tokens)
    (hscanned : ∀ token ∈ tokens, Scanned lexicon src token)
    (hdated : (captures.filter (·.slots.date.isSome)).Pairwise fun a b =>
      a.span.start ≤ b.span.start ∧ a.span.stop ≤ b.span.stop)
    (hwindow : ∀ capture ∈ captures, capture.slots.date ≠ none →
      ∃ first date last, DateWindow tokens src first date last capture.raw)
    {key : ActKey} (hne : capturedSpans tables tokens src sentences captures key ++
      loneSpans tables tokens src sentences captures key ≠ []) :
    Anchored (headStart tokens key.2) (capturedSpans tables tokens src sentences captures key ++
        loneSpans tables tokens src sentences captures key) ↔
      IsTail tables tokens src sentences captures key := by
  refine anchored_append_iff hne (pairwise_capturedSpans key hdated)
    (List.pairwise_map.mpr (pairwise_loneRuns hin key)) ?_ ?_
  · intro c hc l hl
    obtain ⟨capture, hcapture, hcaptureKey, rfl⟩ := mem_capturedSpans.mp hc
    obtain ⟨token, htoken, htokenKey, rfl⟩ := mem_loneSpans.mp hl
    obtain ⟨date, hdate, hgroup⟩ := Option.bind_eq_some_iff.mp hcaptureKey
    obtain ⟨text, htext, -⟩ := Option.bind_eq_some_iff.mp hdate
    obtain ⟨hkind, hcaptured, -⟩ := loneGroup_eq_some.mp htokenKey
    obtain ⟨first, place, last, hfits⟩ := hwindow capture hcapture (by simp [htext])
    have hot : hasLocalOt tokens src date = true := by
      obtain ⟨index, -, hgroup⟩ := Option.bind_eq_some_iff.mp hgroup
      obtain ⟨sentence, -, hgroup⟩ := Option.bind_eq_some_iff.mp hgroup
      split_ifs at hgroup with hot
      exact hot
    refine hfits.apart hin hscanned hdate hot htoken hkind ?_
    rintro rfl
    have hnone := List.any_eq_false.mp hcaptured capture hcapture
    exact hnone (decide_eq_true hdate)
  · intro start hstart l hl
    obtain ⟨token, -, htokenKey, rfl⟩ := mem_loneSpans.mp hl
    exact headStart_le hin (loneGroup_eq_some.mp htokenKey).2.2 start hstart

end

/-! ## The result -/

/-- Every dated reference of a text comes back as a member of one frame, in order and under its
anchor, exactly when within each group the lone dates stand behind the captured ones and no
capture starts in front of the act word. -/
theorem act_list_dates_iff (lexicon : Lexicon) (precedence : LawRefPrecedence)
    (src : List Char) : ∃ tokens batch frames, lex lexicon src = .ok tokens ∧
      captureLawrefs lexicon precedence src = .ok batch ∧
      extractActListFrames lexicon src batch = .ok frames ∧
      (DatesKept (datedReferences lexicon.tables tokens src
          (splitLegalSentences lexicon.tables src) batch.captures) frames ↔
        TailsBehind lexicon.tables tokens src (splitLegalSentences lexicon.tables src)
          batch.captures) := by
  obtain ⟨tokens, fired, batch, htokens, hcovers, hfired, -, hbatch, hadmitted⟩ :=
    captureLawrefs_ok lexicon precedence src
  let sentences := splitLegalSentences lexicon.tables src
  have hsentences : sentences.Pairwise fun a b => a.stop ≤ b.start :=
    pairwise_splitLegalSentences src
  have hin : InOrder tokens := hcovers.1.pairwise
  have hgroup := fun {key : ActKey}
      (hne : capturedSpans lexicon.tables tokens src sentences batch.captures key ++
        loneSpans lexicon.tables tokens src sentences batch.captures key ≠ []) =>
    anchored_group_iff hin (lexFrom_scanned 0 htokens) (hadmitted.dated_pairwise hin hfired)
      (fun capture hcapture hdate => (hadmitted.dated_window hfired capture hcapture hdate).2) hne
  refine ⟨tokens, batch, _, htokens, hbatch, by rw [extractActListFrames, htokens]; rfl, ?_⟩
  rw [datesKept_iff hsentences, tailsBehind_iff]
  constructor
  · intro hall key
    by_cases hne : capturedSpans lexicon.tables tokens src sentences batch.captures key ++
        loneSpans lexicon.tables tokens src sentences batch.captures key = []
    · obtain ⟨hcaptured, -⟩ := List.append_eq_nil_iff.mp hne
      unfold IsTail
      rw [hcaptured]
      exact ⟨nofun, nofun⟩
    · obtain ⟨candidates, hmem⟩ := exists_group hne hsentences
      have hanchored := hall _ hmem
      rw [spans_of_group hsentences hmem] at hanchored
      exact (hgroup hne).mp hanchored
  · rintro hall ⟨key, candidates⟩ hmem
    have hspans := spans_of_group hsentences hmem
    have hne : candidates.map (·.2.span) ≠ [] := fun hnil =>
      ne_nil_of_mem_actGroups hmem (List.map_eq_nil_iff.mp hnil)
    rw [hspans] at hne ⊢
    exact (hgroup hne).mpr (hall key)

/-! ### A lone date in front of a captured one -/

namespace Sample

def actLexicon : Lexicon where
  tables := ⟨fun c => 'А' ≤ c && c ≤ 'я', fun c => [c], id⟩
  parsed := []

def actPrecedence : LawRefPrecedence where
  overlapDateDocnoInsideAmendment := "drop"
  overlapSamePatternContainment := "drop"
  chainAbbrevIds := []
  amendmentAbbrevIds := []
  quotedMarkerAbbrevIds := []
  fullwordTails := []
  anaphoraHeads := []
  dateDocnoPolicy := List.mem_cons_self
  samePatternPolicy := List.mem_cons_self

def twoDates : List Char :=
  ['о', 'т', ' ', '0', '1', '.', '0', '1', '.', '2', '0', '2', '0', ' ', 'о', 'т', ' ', '0', '2',
    '.', '0', '2', '.', '2', '0', '2', '0', ' ', 'Ф', 'З']

/-- How many frames the text has, and how many dated references. -/
def frameCount : Except Panic (Nat × Nat) := do
  let tokens ← lex actLexicon twoDates
  let batch ← captureLawrefs actLexicon actPrecedence twoDates
  let frames ← extractActListFrames actLexicon twoDates batch
  let references := datedReferences actLexicon.tables tokens twoDates
    (splitLegalSentences actLexicon.tables twoDates) batch.captures
  return (frames.length, references.length)

theorem frameCount_eq : frameCount = .ok (0, 2) := by decide +kernel

end Sample

/-- A lone date in front of a captured one, with no act word, takes the frame of both away. -/
theorem lone_date_drops_frame : ¬ ∀ lexicon precedence src tokens batch frames,
    lex lexicon src = .ok tokens → captureLawrefs lexicon precedence src = .ok batch →
      extractActListFrames lexicon src batch = .ok frames →
        DatesKept (datedReferences lexicon.tables tokens src
          (splitLegalSentences lexicon.tables src) batch.captures) frames := by
  intro hall
  obtain ⟨tokens, htokens, hcount⟩ := bind_eq_ok_iff.mp Sample.frameCount_eq
  obtain ⟨batch, hbatch, hcount⟩ := bind_eq_ok_iff.mp hcount
  obtain ⟨frames, hframes, hcount⟩ := bind_eq_ok_iff.mp hcount
  obtain ⟨hnone, htwo⟩ := Prod.mk.inj (Except.ok.inj hcount)
  have hlen := (hall _ _ _ _ _ _ htokens hbatch hframes).once.length_eq
  rw [List.length_eq_zero_iff.mp hnone, htwo] at hlen
  exact absurd hlen (by decide)

end LawNexus.Decode
