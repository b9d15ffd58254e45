import LawNexus.Groups.Entries

/-!
# The two engines

When the catalog and the profile read the same groups from one text. They go apart over a list
that is written in its own line, and over a `groups:` heading inside a list that only the
catalog skips.
-/

namespace LawNexus.Groups

open Chars Loops Ranked

/-! ## Lists in their own line -/

def needleOf : Entry → List GroupNeedle
  | .needle flow => (parseGroupNeedle flow).toOption.toList
  | _ => []

def ladderOf : Entry → List LadderEntry
  | .ladder flow => (parseLadderEntry flow).toOption.toList
  | _ => []

/-- No entry of a list stands in front of the same list in its own line. -/
def KeepsEntries (es : List Entry) : Prop :=
  (∀ front back, es = front ++ .inlineNeedles :: back → ∀ flow, .needle flow ∉ front) ∧
    ∀ front back, es = front ++ .inlineLadder :: back → ∀ flow, .ladder flow ∉ front

/-- The entries of the lists can be read. -/
def ReadableEntries (es : List Entry) : Prop :=
  (∀ flow, .needle flow ∈ es → ∃ needle, parseGroupNeedle flow = .ok needle) ∧
    ∀ flow, .ladder flow ∈ es → ∃ entry, parseLadderEntry flow = .ok entry

section

variable {es : List Entry} {d : Draft}

theorem foldl_add_needles :
    (es.foldl Draft.add d).needles = d.needles ++ es.flatMap needleOf := by
  induction es generalizing d with
  | nil => simp
  | cons e es ih =>
    rw [List.foldl_cons, ih, List.flatMap_cons, ← List.append_assoc]
    congr 1
    cases e <;> simp [Draft.add, needleOf]

theorem foldl_add_ladder :
    (es.foldl Draft.add d).ladder = d.ladder ++ es.flatMap ladderOf := by
  induction es generalizing d with
  | nil => simp
  | cons e es ih =>
    rw [List.foldl_cons, ih, List.flatMap_cons, ← List.append_assoc]
    congr 1
    cases e <;> simp [Draft.add, ladderOf]

theorem foldl_addAnew_needles : (es.foldl Draft.addAnew d).needles =
    es.foldl (fun acc e => if e = .inlineNeedles then [] else acc ++ needleOf e) d.needles :=
  (List.foldl_hom Draft.needles fun d e => by
    cases e <;> simp [Draft.addAnew, Draft.add, needleOf]).symm

theorem foldl_addAnew_ladder : (es.foldl Draft.addAnew d).ladder =
    es.foldl (fun acc e => if e = .inlineLadder then [] else acc ++ ladderOf e) d.ladder :=
  (List.foldl_hom Draft.ladder fun d e => by
    cases e <;> simp [Draft.addAnew, Draft.add, ladderOf]).symm

/-- The scalars of a block are read in the same way. -/
theorem foldl_addAnew_scalars {d' : Draft} (hid : d.id = d'.id) (htext : d.textOnly = d'.textOnly) :
    (es.foldl Draft.addAnew d).id = (es.foldl Draft.add d').id ∧
      (es.foldl Draft.addAnew d).textOnly = (es.foldl Draft.add d').textOnly := by
  induction es generalizing d d' with
  | nil => exact ⟨hid, htext⟩
  | cons e es ih =>
    rw [List.foldl_cons, List.foldl_cons]
    apply ih
    · cases e <;> simp [Draft.addAnew, Draft.add, hid]
    · cases e <;> simp [Draft.addAnew, Draft.add, htext]

theorem flatMap_needleOf_eq_nil_iff (h : ReadableEntries es) :
    es.flatMap needleOf = [] ↔ ∀ flow, .needle flow ∉ es := by
  rw [List.flatMap_eq_nil_iff]
  constructor
  · intro hnone flow hflow
    obtain ⟨needle, hneedle⟩ := h.1 flow hflow
    simpa [needleOf, hneedle, Except.toOption] using hnone _ hflow
  · rintro hnone (_ | _ | flow | _ | _ | _ | _) he
    all_goals first | rfl | exact absurd he (hnone flow)

theorem flatMap_ladderOf_eq_nil_iff (h : ReadableEntries es) :
    es.flatMap ladderOf = [] ↔ ∀ flow, .ladder flow ∉ es := by
  rw [List.flatMap_eq_nil_iff]
  constructor
  · intro hnone flow hflow
    obtain ⟨entry, hentry⟩ := h.2 flow hflow
    simpa [ladderOf, hentry, Except.toOption] using hnone _ hflow
  · rintro hnone (_ | _ | _ | flow | _ | _ | _) he
    all_goals first | rfl | exact absurd he (hnone flow)

theorem ReadableEntries.front {front back : List Entry} (h : ReadableEntries (front ++ back)) :
    ReadableEntries front :=
  ⟨fun flow hflow => h.1 flow (List.mem_append_left _ hflow),
    fun flow hflow => h.2 flow (List.mem_append_left _ hflow)⟩

/-- Nothing is dropped when nothing stands in front of what drops it. -/
theorem foldl_addAnew_eq_iff (h : ReadableEntries es) :
    es.foldl Draft.addAnew .empty = es.foldl Draft.add .empty ↔ KeepsEntries es := by
  have hneedles : (es.foldl Draft.addAnew .empty).needles = (es.foldl Draft.add .empty).needles ↔
      ∀ front back, es = front ++ .inlineNeedles :: back → ∀ flow, .needle flow ∉ front := by
    rw [foldl_addAnew_needles, foldl_add_needles]
    refine (foldl_emptied_eq_iff (by rintro _ rfl; rfl)).trans ⟨?_, ?_⟩
    · rintro hnone front back rfl
      exact (flatMap_needleOf_eq_nil_iff h.front).mp (hnone front _ back rfl rfl)
    · rintro hnone front _ back rfl rfl
      exact (flatMap_needleOf_eq_nil_iff h.front).mpr (hnone front back rfl)
  have hladder : (es.foldl Draft.addAnew .empty).ladder = (es.foldl Draft.add .empty).ladder ↔
      ∀ front back, es = front ++ .inlineLadder :: back → ∀ flow, .ladder flow ∉ front := by
    rw [foldl_addAnew_ladder, foldl_add_ladder]
    refine (foldl_emptied_eq_iff (by rintro _ rfl; rfl)).trans ⟨?_, ?_⟩
    · rintro hnone front back rfl
      exact (flatMap_ladderOf_eq_nil_iff h.front).mp (hnone front _ back rfl rfl)
    · rintro hnone front _ back rfl rfl
      exact (flatMap_ladderOf_eq_nil_iff h.front).mpr (hnone front back rfl)
  obtain ⟨hid, htext⟩ := @foldl_addAnew_scalars es .empty .empty rfl rfl
  unfold KeepsEntries
  rw [← hneedles, ← hladder]
  constructor
  · intro heq
    rw [heq]
    exact ⟨rfl, rfl⟩
  · rintro ⟨heq, heq'⟩
    exact Draft.ext hid htext heq heq'

end

/-! ## Entries that were read -/

theorem topEntry_ne_flow (text flow : List Char) :
    topEntry text ≠ .needle flow ∧ topEntry text ≠ .ladder flow := by
  unfold topEntry
  repeat' split
  all_goals exact ⟨nofun, nofun⟩

/-- What was read without an error can be read. -/
theorem ProfileState.step_readable {s next : ProfileState} {line : SectionLine}
    (h : s.step line = .ok next) : ReadableEntries [entryAt (s.lists.place line).1 line] := by
  unfold ProfileState.step at h
  rcases hplace : s.lists.place line with ⟨place, lists⟩
  simp only [hplace] at h ⊢
  unfold ReadableEntries
  simp only [List.mem_singleton]
  cases place with
  | needle flow =>
    obtain ⟨needle, hneedle, -⟩ := map_eq_ok_iff.mp h
    exact ⟨fun _ heq => ⟨needle, Entry.needle.inj heq ▸ hneedle⟩, by simp [entryAt]⟩
  | ladder flow =>
    obtain ⟨entry, hentry, -⟩ := map_eq_ok_iff.mp h
    exact ⟨by simp [entryAt], fun _ heq => ⟨entry, Entry.ladder.inj heq ▸ hentry⟩⟩
  | inside => simp [entryAt]
  | top =>
    exact ⟨fun flow heq => absurd heq.symm (topEntry_ne_flow line.text flow).1,
      fun flow heq => absurd heq.symm (topEntry_ne_flow line.text flow).2⟩

theorem ProfileState.run_readable {s next : ProfileState} {block : List SectionLine}
    (h : block.foldlM ProfileState.step s = .ok next) :
    ReadableEntries (entriesFrom s.lists block) := by
  induction block generalizing s with
  | nil => exact ⟨nofun, nofun⟩
  | cons line block ih =>
    rw [List.foldlM_cons] at h
    obtain ⟨mid, hmid, h⟩ := bind_eq_ok_iff.mp h
    have hrest := ih h
    rw [(ProfileState.step_ok hmid).2] at hrest
    have hfirst := ProfileState.step_readable hmid
    unfold ReadableEntries at hfirst ⊢
    simp only [entriesFrom, List.mem_cons, List.not_mem_nil, or_false] at hfirst ⊢
    exact ⟨fun flow hflow => hflow.elim (hfirst.1 flow) (hrest.1 flow),
      fun flow hflow => hflow.elim (hfirst.2 flow) (hrest.2 flow)⟩

/-- One block is read alike when it keeps its entries. -/
theorem declared_eq_iff {block : List SectionLine} {profile : GroupProfile}
    (hprofile : parseGroupProfile block = .ok profile) :
    declared block = declaredAnew block ↔ KeepsEntries (entries block) := by
  obtain ⟨s, hrun, -⟩ := bind_eq_ok_iff.mp hprofile
  have hread : ReadableEntries (entries block) := ProfileState.run_readable hrun
  obtain ⟨hid, htext⟩ := @foldl_addAnew_scalars (entries block) .empty .empty rfl rfl
  rw [← foldl_addAnew_eq_iff hread]
  unfold declared declaredAnew Draft.profile
  rw [GroupProfile.mk.injEq]
  constructor
  · rintro ⟨-, -, hladder, hneedles⟩
    exact Draft.ext hid htext hneedles.symm hladder.symm
  · intro heq
    rw [heq]
    exact ⟨rfl, rfl, rfl, rfl⟩

/-! ## The last heading of the groups -/

/-- The lines under the last `groups:` heading that a loop stops at. -/
def lastGroups (stops : List (List Char × List SectionLine)) : List SectionLine :=
  ((stops.filter fun stop => stop.1 = groupsKey).getLast?.map (·.2)).getD []

def groupsUnder (keys : List (List Char)) (text : List Char) : List SectionLine :=
  ((sectionLines documentGroupsKey (lines text)).map fun body =>
    lastGroups (headings keys body)).getD []

theorem lastGroups_concat (stops : List (List Char × List SectionLine))
    (stop : List Char × List SectionLine) :
    lastGroups (stops ++ [stop]) = if stop.1 = groupsKey then stop.2 else lastGroups stops := by
  unfold lastGroups
  rw [List.filter_append]
  split_ifs with h <;> simp [h]

theorem mem_headings {keys : List (List Char)} {body : List SectionLine}
    {stop : List Char × List SectionLine} (h : stop ∈ headings keys body) : stop.1 ∈ keys := by
  fun_induction headings keys body with
  | case1 => simp at h
  | case2 line rest hkey ih =>
    rcases List.mem_cons.mp h with rfl | h
    · exact hkey
    · exact ih h
  | case3 line rest hkey ih => exact ih h

theorem parseDocumentGroups_ok {text : List Char} {s : DocumentGroupsSection}
    (h : parseDocumentGroups text = .ok s) :
    (groupBlocks (groupsUnder catalogKeys text)).mapM parseGroupBlock = .ok s.groups := by
  unfold parseDocumentGroups at h
  unfold groupsUnder
  cases hbody : sectionLines documentGroupsKey (lines text) with
  | none =>
    rw [hbody] at h
    obtain rfl := Except.ok.inj h
    simp [groupBlocks, DocumentGroupsSection.empty, pure, Except.pure]
  | some body =>
    simp only [hbody] at h
    refine foldlM_fronts (fun stops (s : DocumentGroupsSection) =>
      (∀ stop ∈ stops, stop.1 ∈ catalogKeys) →
        (groupBlocks (lastGroups stops)).mapM parseGroupBlock = .ok s.groups)
      (fun _ => ?_) (fun {stops stop s next} ih hnext hkeys => ?_) h fun stop => mem_headings
    · simp [lastGroups, groupBlocks, DocumentGroupsSection.empty, pure, Except.pure]
    · have hrest := ih fun stop hstop => hkeys stop (List.mem_append_left _ hstop)
      have hkey := hkeys stop (by simp)
      unfold DocumentGroupsSection.read at hnext
      rw [lastGroups_concat]
      split_ifs at hnext with hroles htokens hclaims
      · obtain rfl := Except.ok.inj hnext
        rwa [hroles, if_neg (by decide)]
      · obtain rfl := Except.ok.inj hnext
        rwa [htokens, if_neg (by decide)]
      · obtain rfl := Except.ok.inj hnext
        rwa [hclaims, if_neg (by decide)]
      · obtain ⟨groups, hgroups, rfl⟩ := map_eq_ok_iff.mp hnext
        have hlast : stop.1 = groupsKey := by simpa [catalogKeys, hroles, htokens, hclaims] using hkey
        rwa [if_pos hlast]

theorem parseDocumentGroupsSection_ok {text : List Char}
    {s : List (List Char) × List GroupProfile} (h : parseDocumentGroupsSection text = .ok s) :
    (groupBlocks (groupsUnder profileKeys text)).mapM parseGroupProfile = .ok s.2 := by
  unfold parseDocumentGroupsSection at h
  unfold groupsUnder
  cases hbody : sectionLines documentGroupsKey (lines text) with
  | none =>
    rw [hbody] at h
    obtain rfl := Except.ok.inj h
    simp [groupBlocks, pure, Except.pure]
  | some body =>
    simp only [hbody] at h
    refine foldlM_fronts (fun stops (s : List (List Char) × List GroupProfile) =>
      (∀ stop ∈ stops, stop.1 ∈ profileKeys) →
        (groupBlocks (lastGroups stops)).mapM parseGroupProfile = .ok s.2)
      (fun _ => ?_) (fun {stops stop s next} ih hnext hkeys => ?_) h fun stop => mem_headings
    · simp [lastGroups, groupBlocks, pure, Except.pure]
    · have hrest := ih fun stop hstop => hkeys stop (List.mem_append_left _ hstop)
      have hkey := hkeys stop (by simp)
      unfold readProfileHeading at hnext
      rw [lastGroups_concat]
      split_ifs at hnext with hclaims
      · obtain rfl := Except.ok.inj hnext
        rwa [hclaims, if_neg (by decide)]
      · obtain ⟨groups, hgroups, rfl⟩ := map_eq_ok_iff.mp hnext
        have hlast : stop.1 = groupsKey := by simpa [profileKeys, hclaims] using hkey
        rwa [if_pos hlast]

/-! ## The result -/

/-- The groups and the verdicts are the same, and the needles of the lowest rank decide. -/
def EnginesAgree (catalog : OntologyCatalog) (profile : StructuralProfile) : Prop :=
  profile.groups = catalog.documentGroups.map (·.profile) ∧
    ∀ lower m, profile.detectMetadata lower m = catalog.classifyDocumentGroup lower m ∧
      IsVerdict (groupHits lower m catalog.needleGroups) (profile.detectMetadata lower m).verdict

/-- Both loops end at the same `groups:` heading and no entry there is dropped; or they end at
different ones that declare the same groups. -/
def ReadAlike (text : List Char) : Prop :=
  (groupsUnder profileKeys text = groupsUnder catalogKeys text ∧
    ∀ block ∈ groupBlocks (groupsUnder catalogKeys text), KeepsEntries (entries block)) ∨
  (groupsUnder profileKeys text ≠ groupsUnder catalogKeys text ∧
    (groupBlocks (groupsUnder profileKeys text)).map declared =
      (groupBlocks (groupsUnder catalogKeys text)).map declaredAnew)

theorem parseYaml_documentGroups {text : List Char} {catalog : OntologyCatalog}
    (h : OntologyCatalog.parseYaml text = .ok catalog) :
    (groupBlocks (groupsUnder catalogKeys text)).mapM parseGroupBlock =
      .ok catalog.documentGroups := by
  unfold OntologyCatalog.parseYaml at h
  simp only [bind_eq_ok_iff] at h
  obtain ⟨_, -, _, -, _, -, _, -, _, -, _, -, _, -, _, -, _, -, _, -, _, -, _, -, _, -, _, -, _, -,
    s, hs, _, -, h⟩ := h
  obtain rfl := Except.ok.inj h
  exact parseDocumentGroups_ok hs

theorem parseYaml_groups {text : List Char} {profile : StructuralProfile}
    (h : StructuralProfile.parseYaml text = .ok profile) :
    (groupBlocks (groupsUnder profileKeys text)).mapM parseGroupProfile = .ok profile.groups := by
  obtain ⟨_, -, h⟩ := bind_eq_ok_iff.mp h
  obtain ⟨s, hs, h⟩ := bind_eq_ok_iff.mp h
  obtain rfl := Except.ok.inj h
  exact parseDocumentGroupsSection_ok hs

/-- The engines agree on the groups, and then on every verdict. -/
theorem enginesAgree_iff {catalog : OntologyCatalog} {profile : StructuralProfile} :
    EnginesAgree catalog profile ↔
      profile.groups = catalog.documentGroups.map (·.profile) := by
  refine ⟨And.left, fun hgroups => ⟨hgroups, fun lower m => ?_⟩⟩
  have hsame : profile.needleGroups = catalog.needleGroups := by
    unfold StructuralProfile.needleGroups OntologyCatalog.needleGroups
    rw [hgroups, List.map_map]
    rfl
  have houtcome : profile.detectMetadata lower m = catalog.classifyDocumentGroup lower m := by
    unfold StructuralProfile.detectMetadata OntologyCatalog.classifyDocumentGroup
    rw [hsame]
  exact ⟨houtcome, houtcome ▸ classifyDocumentGroup_isVerdict catalog lower m⟩

/-- The two engines agree on the texts that they read alike. -/
theorem engines_agree_iff {text : List Char} {catalog : OntologyCatalog}
    {profile : StructuralProfile} (hcatalog : OntologyCatalog.parseYaml text = .ok catalog)
    (hprofile : StructuralProfile.parseYaml text = .ok profile) :
    EnginesAgree catalog profile ↔ ReadAlike text := by
  have hmine := parseYaml_groups hprofile
  have htheirs := map_eq_of_mapM (parseYaml_documentGroups hcatalog) fun _ _ => parseGroupBlock_ok
  have hmine' := map_eq_of_mapM hmine fun _ _ => parseGroupProfile_ok
  rw [List.map_id'] at hmine'
  rw [enginesAgree_iff, htheirs, hmine']
  unfold ReadAlike
  by_cases hsame : groupsUnder profileKeys text = groupsUnder catalogKeys text
  · rw [hsame] at hmine ⊢
    simp only [true_and, ne_eq, not_true, false_and, or_false]
    rw [List.map_inj_left]
    refine forall₂_congr fun block hblock => ?_
    obtain ⟨group, hgroup⟩ := exists_mapM_ok_iff.mp ⟨_, hmine⟩ block hblock
    exact declared_eq_iff hgroup
  · simp only [hsame, false_and, ne_eq, not_false_eq_true, true_and, false_or]

/-! ### A list of needles that is written twice -/

namespace Sample

/-- The second list of needles is empty and stands in its own line. -/
def twice : List Char :=
  "schema_version: v1\nfsm:\n  current: A\n  states:\n    A:\ntransitions:\n".toList ++
  "  - \x7bfrom: A, to: A\x7d\nvocabulary:\n  hierarchy_levels:\n    - statya\n".toList ++
  "  node_kinds:\n    - Work\n  forbidden_node_kinds:\n    - Blob\n".toList ++
  "decode_marker_prefixes:\n  Statya: [Art]\ndecode_number_styles:\n  Statya: digit\n".toList ++
  "document_groups:\n  structural_roles:\n    - unit\n  groups:\n    - id: law\n".toList ++
  "      text_only: true\n      needles:\n        - \x7bfield: path, needle: law, ".toList ++
  "rank: 1\x7d\n      needles: []\n".toList

/-- A literal is its list of characters, so that the text is read from the list. -/
theorem toList_pieces (a b c d e f g : List Char) :
    (String.ofList a).toList ++ (String.ofList b).toList ++ (String.ofList c).toList ++
      (String.ofList d).toList ++ (String.ofList e).toList ++ (String.ofList f).toList ++
      (String.ofList g).toList = a ++ b ++ c ++ d ++ e ++ f ++ g := by
  simp only [String.toList_ofList]

def catalog : OntologyCatalog where
  schemaVersion := "v1".toList
  currentState := ['A']
  states := [['A']]
  transitions := [⟨['A'], ['A']⟩]
  hierarchyLevels := ["statya".toList]
  nodeKinds := ["Work".toList]
  forbiddenNodeKinds := ["Blob".toList]
  decodeLevelAliases := []
  corpusRoles := []
  corpusRoleSignals := []
  structuralRoles := ["unit".toList]
  structuralOnlyTokens := []
  documentGroupNonClaims := []
  documentGroups := [⟨"law".toList, none, [], none, true, [], []⟩]

def profile : StructuralProfile where
  nonClaims := []
  groups := [⟨"law".toList, true, [], [⟨"path".toList, "law".toList, 1⟩]⟩]
  prefixes := ⟨[⟨.statya, "Art".toList, .required⟩], [(.statya, .digit)]⟩

theorem catalog_read : OntologyCatalog.parseYaml twice = .ok catalog :=
  (congrArg OntologyCatalog.parseYaml (toList_pieces _ _ _ _ _ _ _)).trans (by decide +kernel)

theorem profile_read : StructuralProfile.parseYaml twice = .ok profile :=
  (congrArg StructuralProfile.parseYaml (toList_pieces _ _ _ _ _ _ _)).trans (by decide +kernel)

/-- A document at `law` is bound by one engine and unknown to the other. -/
example : profile.detectMetadata id ⟨some "law".toList, none, none⟩ =
    .bound "law".toList "law".toList ∧
      catalog.classifyDocumentGroup id ⟨some "law".toList, none, none⟩ = .unknown := by
  decide

theorem engines_agree_twice : EnginesAgree catalog profile ↔ ReadAlike twice :=
  engines_agree_iff catalog_read profile_read

end Sample

/-- The catalog drops the needle in front of the empty list, the profile keeps it. -/
theorem twice_apart : ¬ ∀ text catalog profile, OntologyCatalog.parseYaml text = .ok catalog →
    StructuralProfile.parseYaml text = .ok profile → EnginesAgree catalog profile := by
  intro hall
  have hgroups := (hall _ _ _ Sample.catalog_read Sample.profile_read).1
  exact absurd hgroups (by decide)

end LawNexus.Groups
