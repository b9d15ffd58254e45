import LawNexus.Groups.Metadata

/-!
# The entries of a block

What the lines of a block say, apart from who reads them, and what each of the two readers
makes of it. They differ in a list that is written in its own line: the catalog drops the
entries in front of it, the profile does not see it.
-/

namespace LawNexus.Groups

open Chars Loops

/-! ## Entries -/

inductive Entry
  | id (id : List Char)
  | textOnly (value : Bool)
  | needle (flow : List Char)
  | ladder (flow : List Char)
  | inlineNeedles
  | inlineLadder
  | other
deriving DecidableEq, Repr

/-- A line of the block itself. -/
def topEntry (text : List Char) : Entry :=
  match "- id:".toList.isPrefixOf? text with
  | some rest => .id (trim rest)
  | none =>
    match "text_only:".toList.isPrefixOf? text with
    | some rest => .textOnly (trim rest = "true".toList)
    | none =>
      match "needles:".toList.isPrefixOf? text with
      | some rest => if rest.isEmpty then .other else .inlineNeedles
      | none =>
        match "ladder:".toList.isPrefixOf? text with
        | some rest => if rest.isEmpty then .other else .inlineLadder
        | none => .other

def entryAt (place : Place) (line : SectionLine) : Entry :=
  match place with
  | .needle flow => .needle flow
  | .ladder flow => .ladder flow
  | .inside => .other
  | .top => topEntry line.text

/-- A heading of a list opens it. -/
def ListState.opened (s : ListState) (line : SectionLine) : ListState :=
  if "needles:".toList.isPrefixOf? line.text = some [] then s.openNeedles line.indent
  else if "ladder:".toList.isPrefixOf? line.text = some [] then s.openLadder line.indent
  else s

def ListState.next (s : ListState) (line : SectionLine) : ListState :=
  let (place, s) := s.place line
  if place = .top then s.opened line else s

def entriesFrom : ListState → List SectionLine → List Entry
  | _, [] => []
  | s, line :: rest => entryAt (s.place line).1 line :: entriesFrom (s.next line) rest

def entries (block : List SectionLine) : List Entry := entriesFrom .start block

/-! ## What the entries declare -/

@[ext] structure Draft where
  id : Option (List Char)
  textOnly : Bool
  needles : List GroupNeedle
  ladder : List LadderEntry
deriving DecidableEq, Repr

def Draft.empty : Draft := ⟨none, false, [], []⟩

/-- An entry that cannot be read adds nothing. -/
def Draft.add (d : Draft) : Entry → Draft
  | .id id => { d with id := some id }
  | .textOnly value => { d with textOnly := value }
  | .needle flow => { d with needles := d.needles ++ (parseGroupNeedle flow).toOption.toList }
  | .ladder flow => { d with ladder := d.ladder ++ (parseLadderEntry flow).toOption.toList }
  | .inlineNeedles | .inlineLadder | .other => d

/-- The same, where a list in its own line drops the entries in front of it. -/
def Draft.addAnew (d : Draft) : Entry → Draft
  | .inlineNeedles => { d with needles := [] }
  | .inlineLadder => { d with ladder := [] }
  | entry => d.add entry

def Draft.profile (d : Draft) : GroupProfile := ⟨d.id.getD [], d.textOnly, d.ladder, d.needles⟩

def declared (block : List SectionLine) : GroupProfile :=
  ((entries block).foldl Draft.add .empty).profile

def declaredAnew (block : List SectionLine) : GroupProfile :=
  ((entries block).foldl Draft.addAnew .empty).profile

/-! ## The profile's block -/

def ProfileState.draft (s : ProfileState) : Draft := ⟨s.id, s.textOnly, s.needles, s.ladder⟩

theorem isPrefixOf?_whole (pat : List Char) {text : List Char} : pat.isPrefixOf? text = some [] ↔ text = pat := by
  rw [isPrefixOf?_eq_some, List.append_nil]

theorem ProfileState.top_eq (s : ProfileState) (line : SectionLine) :
    (s.top line).draft = s.draft.add (topEntry line.text) ∧
      (s.top line).lists = s.lists.opened line := by
  unfold ProfileState.top topEntry ListState.opened
  simp only [← isPrefixOf?_whole "needles:".toList, ← isPrefixOf?_whole "ladder:".toList]
  cases hid : "- id:".toList.isPrefixOf? line.text with
  | some rest =>
    have hneedles : "needles:".toList.isPrefixOf? line.text = none :=
      isPrefixOf?_apart hid (by decide) (by decide)
    have hladder : "ladder:".toList.isPrefixOf? line.text = none :=
      isPrefixOf?_apart hid (by decide) (by decide)
    rw [hneedles, hladder]
    exact ⟨rfl, rfl⟩
  | none =>
    cases htext : "text_only:".toList.isPrefixOf? line.text with
    | some rest =>
      have hneedles : "needles:".toList.isPrefixOf? line.text = none :=
        isPrefixOf?_apart htext (by decide) (by decide)
      have hladder : "ladder:".toList.isPrefixOf? line.text = none :=
        isPrefixOf?_apart htext (by decide) (by decide)
      rw [hneedles, hladder]
      exact ⟨rfl, rfl⟩
    | none =>
      cases hneedles : "needles:".toList.isPrefixOf? line.text with
      | some rest =>
        have hladder : "ladder:".toList.isPrefixOf? line.text = none :=
          isPrefixOf?_apart hneedles (by decide) (by decide)
        rw [hladder]
        cases rest <;> exact ⟨rfl, rfl⟩
      | none =>
        cases hladder : "ladder:".toList.isPrefixOf? line.text with
        | some rest => cases rest <;> exact ⟨rfl, rfl⟩
        | none => exact ⟨rfl, rfl⟩

theorem ProfileState.step_ok {s next : ProfileState} {line : SectionLine}
    (h : s.step line = .ok next) :
    next.draft = s.draft.add (entryAt (s.lists.place line).1 line) ∧
      next.lists = s.lists.next line := by
  unfold ProfileState.step at h
  unfold ListState.next
  rcases hplace : s.lists.place line with ⟨place, lists⟩
  simp only [hplace] at h ⊢
  cases place with
  | needle flow =>
    obtain ⟨needle, hneedle, rfl⟩ := map_eq_ok_iff.mp h
    simp [ProfileState.draft, entryAt, Draft.add, hneedle, Except.toOption]
  | ladder flow =>
    obtain ⟨entry, hentry, rfl⟩ := map_eq_ok_iff.mp h
    simp [ProfileState.draft, entryAt, Draft.add, hentry, Except.toOption]
  | inside =>
    obtain rfl := Except.ok.inj h
    exact ⟨rfl, rfl⟩
  | top =>
    obtain rfl := Except.ok.inj h
    exact ProfileState.top_eq _ line

/-- A run of the profile's reader adds up the entries. -/
theorem ProfileState.run_ok {s next : ProfileState} {block : List SectionLine}
    (h : block.foldlM ProfileState.step s = .ok next) :
    next.draft = (entriesFrom s.lists block).foldl Draft.add s.draft := by
  induction block generalizing s with
  | nil =>
    obtain rfl := Except.ok.inj h
    rfl
  | cons line block ih =>
    rw [List.foldlM_cons] at h
    obtain ⟨mid, hmid, h⟩ := bind_eq_ok_iff.mp h
    obtain ⟨hdraft, hlists⟩ := ProfileState.step_ok hmid
    rw [ih h, hdraft, hlists, entriesFrom, List.foldl_cons]

theorem okOr_ok {α : Type} {reason : String} {o : Option α} {a : α} :
    okOr reason o = .ok a ↔ o = some a := by
  cases o <;> simp [okOr]

theorem parseGroupProfile_ok {block : List SectionLine} {profile : GroupProfile}
    (h : parseGroupProfile block = .ok profile) : profile = declared block := by
  obtain ⟨s, hrun, h⟩ := bind_eq_ok_iff.mp h
  obtain ⟨id, hid, h⟩ := bind_eq_ok_iff.mp h
  obtain rfl := Except.ok.inj h
  have hdraft := ProfileState.run_ok hrun
  unfold declared entries
  rw [show Draft.empty = ProfileState.start.draft from rfl,
    show ListState.start = ProfileState.start.lists from rfl, ← hdraft]
  simp [Draft.profile, ProfileState.draft, okOr_ok.mp hid]

/-! ## The catalog's block -/

def BlockState.draft (s : BlockState) : Draft := ⟨s.id, s.textOnly, s.needles, s.ladder⟩

def DocumentGroup.profile (group : DocumentGroup) : GroupProfile :=
  ⟨group.id, group.textOnly, group.ladder, group.needles⟩

theorem parseCatalogNeedle_ok {flow : List Char} {needle : GroupNeedle}
    (h : parseCatalogNeedle flow = .ok needle) : parseGroupNeedle flow = .ok needle := by
  obtain ⟨needle', hread, h⟩ := bind_eq_ok_iff.mp h
  split_ifs at h
  obtain rfl := Except.ok.inj h
  exact mapError_eq_ok_iff.mp hread

theorem parseCatalogLadderEntry_ok {flow : List Char} {entry : LadderEntry}
    (h : parseCatalogLadderEntry flow = .ok entry) : parseLadderEntry flow = .ok entry := by
  have h := mapError_eq_ok_iff.mp h
  unfold parseLadderEntry
  unfold readLadderEntry at h ⊢
  simp only [bind_eq_ok_iff, okOr_ok] at h ⊢
  obtain ⟨token, htoken, role, hrole, depth, hdepth, h⟩ := h
  refine ⟨token, htoken, role, hrole, depth, ?_, h⟩
  cases hfield : flowField flow "max_depth" with
  | none => simpa [hfield, readMaxDepth] using hdepth
  | some value =>
    simp only [hfield, readMaxDepth, map_eq_ok_iff, okOr_ok] at hdepth ⊢
    exact hdepth

/-- The keys that a block's own line may start with and that an entry is made of. -/
def entryKeys : List (List Char) :=
  ["- id:".toList, "text_only:".toList, "needles:".toList, "ladder:".toList]

/-- A line with another key is no entry, and opens no list. -/
theorem topEntry_other {pat rest : List Char} {line : SectionLine}
    (h : pat.isPrefixOf? line.text = some rest)
    (hapart : ∀ key ∈ entryKeys, ¬ pat <+: key ∧ ¬ key <+: pat) (s : ListState) :
    topEntry line.text = .other ∧ s.opened line = s := by
  have hnone : ∀ key ∈ entryKeys, key.isPrefixOf? line.text = none := fun key hkey =>
    isPrefixOf?_apart h (hapart key hkey).1 (hapart key hkey).2
  unfold topEntry ListState.opened
  rw [hnone _ (by decide), hnone _ (by decide), hnone _ (by decide), hnone _ (by decide)]
  exact ⟨rfl, rfl⟩

theorem emptyInlineList_map_ok {reason : String} {rest : List Char} {s next : BlockState}
    (h : (emptyInlineList reason rest).map (fun _ => s) = .ok next) : next = s := by
  obtain ⟨-, -, rfl⟩ := map_eq_ok_iff.mp h
  rfl

/-- The keys of the lists: a heading opens its list, a list in its own line drops what was
read. -/
theorem BlockState.topLists_ok {s next : BlockState} {line : SectionLine}
    (h : s.topLists line = .ok next) (hid : "- id:".toList.isPrefixOf? line.text = none)
    (htext : "text_only:".toList.isPrefixOf? line.text = none) :
    next.draft = s.draft.addAnew (topEntry line.text) ∧ next.lists = s.lists.opened line := by
  have htrim : trim line.text = line.text := trim_trim line.raw
  unfold BlockState.topLists at h
  unfold topEntry ListState.opened
  rw [hid, htext]
  cases hneedles : "needles:".toList.isPrefixOf? line.text with
  | some rest =>
    have hladder : "ladder:".toList.isPrefixOf? line.text = none :=
      isPrefixOf?_apart hneedles (by decide) (by decide)
    have hrest : trim rest = [] ↔ rest = [] :=
      trim_eq_nil_of_append (isPrefixOf?_eq_some.mp hneedles ▸ htrim)
    simp only [hneedles, List.isEmpty_iff, hrest] at h
    rw [hladder]
    split_ifs at h with hempty
    · obtain rfl := Except.ok.inj h
      subst hempty
      exact ⟨rfl, rfl⟩
    · obtain rfl := emptyInlineList_map_ok h
      simp [hempty, BlockState.draft, Draft.addAnew]
  | none =>
    simp only [hneedles] at h
    cases hladder : "ladder:".toList.isPrefixOf? line.text with
    | some rest =>
      have hrest : trim rest = [] ↔ rest = [] :=
        trim_eq_nil_of_append (isPrefixOf?_eq_some.mp hladder ▸ htrim)
      simp only [hladder, List.isEmpty_iff, hrest] at h
      split_ifs at h with hempty
      · obtain rfl := Except.ok.inj h
        subst hempty
        exact ⟨rfl, rfl⟩
      · obtain rfl := emptyInlineList_map_ok h
        simp [hempty, BlockState.draft, Draft.addAnew]
    | none =>
      simp only [hladder] at h
      obtain rfl := Except.ok.inj h
      exact ⟨rfl, rfl⟩

theorem BlockState.top_ok {s next : BlockState} {line : SectionLine} (h : s.top line = .ok next) :
    next.draft = s.draft.addAnew (topEntry line.text) ∧ next.lists = s.lists.opened line := by
  unfold BlockState.top at h
  cases hid : "- id:".toList.isPrefixOf? line.text with
  | some rest =>
    have hneedles : "needles:".toList.isPrefixOf? line.text = none :=
      isPrefixOf?_apart hid (by decide) (by decide)
    have hladder : "ladder:".toList.isPrefixOf? line.text = none :=
      isPrefixOf?_apart hid (by decide) (by decide)
    simp only [hid] at h
    obtain rfl := Except.ok.inj h
    unfold topEntry ListState.opened
    rw [hid, hneedles, hladder]
    exact ⟨rfl, rfl⟩
  | none =>
  simp only [hid] at h
  cases hgranularity : "granularity:".toList.isPrefixOf? line.text with
  | some rest =>
    simp only [hgranularity] at h
    obtain rfl := Except.ok.inj h
    obtain ⟨hentry, hopened⟩ := topEntry_other hgranularity (by decide) s.lists
    rw [hentry, hopened]
    exact ⟨rfl, rfl⟩
  | none =>
  simp only [hgranularity] at h
  cases hboundary : "text_boundary:".toList.isPrefixOf? line.text with
  | some rest =>
    simp only [hboundary] at h
    obtain ⟨roles, -, rfl⟩ := map_eq_ok_iff.mp h
    obtain ⟨hentry, hopened⟩ := topEntry_other hboundary (by decide) s.lists
    rw [hentry, hopened]
    exact ⟨rfl, rfl⟩
  | none =>
  simp only [hboundary] at h
  cases hdepth : "max_depth:".toList.isPrefixOf? line.text with
  | some rest =>
    simp only [hdepth] at h
    obtain ⟨depth, -, rfl⟩ := map_eq_ok_iff.mp h
    obtain ⟨hentry, hopened⟩ := topEntry_other hdepth (by decide) s.lists
    rw [hentry, hopened]
    exact ⟨rfl, rfl⟩
  | none =>
  simp only [hdepth] at h
  cases htext : "text_only:".toList.isPrefixOf? line.text with
  | some rest =>
    have hneedles : "needles:".toList.isPrefixOf? line.text = none :=
      isPrefixOf?_apart htext (by decide) (by decide)
    have hladder : "ladder:".toList.isPrefixOf? line.text = none :=
      isPrefixOf?_apart htext (by decide) (by decide)
    simp only [htext] at h
    obtain rfl := Except.ok.inj h
    unfold topEntry ListState.opened
    rw [hid, htext, hneedles, hladder]
    exact ⟨rfl, rfl⟩
  | none =>
    simp only [htext] at h
    exact BlockState.topLists_ok h hid htext

theorem BlockState.step_ok {s next : BlockState} {line : SectionLine}
    (h : s.step line = .ok next) :
    next.draft = s.draft.addAnew (entryAt (s.lists.place line).1 line) ∧
      next.lists = s.lists.next line := by
  unfold BlockState.step at h
  unfold ListState.next
  rcases hplace : s.lists.place line with ⟨place, lists⟩
  simp only [hplace] at h ⊢
  cases place with
  | needle flow =>
    obtain ⟨needle, hneedle, rfl⟩ := map_eq_ok_iff.mp h
    simp [BlockState.draft, entryAt, Draft.addAnew, Draft.add, parseCatalogNeedle_ok hneedle,
      Except.toOption]
  | ladder flow =>
    obtain ⟨entry, hentry, rfl⟩ := map_eq_ok_iff.mp h
    simp [BlockState.draft, entryAt, Draft.addAnew, Draft.add, parseCatalogLadderEntry_ok hentry,
      Except.toOption]
  | inside =>
    obtain rfl := Except.ok.inj h
    exact ⟨rfl, rfl⟩
  | top => exact BlockState.top_ok h

/-- A run of the catalog's reader adds up the entries, where an inline list drops some. -/
theorem BlockState.run_ok {s next : BlockState} {block : List SectionLine}
    (h : block.foldlM BlockState.step s = .ok next) :
    next.draft = (entriesFrom s.lists block).foldl Draft.addAnew s.draft := by
  induction block generalizing s with
  | nil =>
    obtain rfl := Except.ok.inj h
    rfl
  | cons line block ih =>
    rw [List.foldlM_cons] at h
    obtain ⟨mid, hmid, h⟩ := bind_eq_ok_iff.mp h
    obtain ⟨hdraft, hlists⟩ := BlockState.step_ok hmid
    rw [ih h, hdraft, hlists, entriesFrom, List.foldl_cons]

theorem parseGroupBlock_ok {block : List SectionLine} {group : DocumentGroup}
    (h : parseGroupBlock block = .ok group) : group.profile = declaredAnew block := by
  obtain ⟨s, hrun, h⟩ := bind_eq_ok_iff.mp h
  obtain ⟨id, hid, h⟩ := bind_eq_ok_iff.mp h
  obtain rfl := Except.ok.inj h
  have hdraft := BlockState.run_ok hrun
  unfold declaredAnew entries
  rw [show Draft.empty = BlockState.start.draft from rfl,
    show ListState.start = BlockState.start.lists from rfl, ← hdraft]
  simp [Draft.profile, DocumentGroup.profile, BlockState.draft, orCatalogError_ok.mp hid]

end LawNexus.Groups
