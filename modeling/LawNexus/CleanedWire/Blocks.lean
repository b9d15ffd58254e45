import LawNexus.CleanedWire.Agreed
import LawNexus.Decode.Structure
import LawNexus.Numbered

/-!
# Blocks from an artifact

`blocks_from_cleaned_projection` of `wire_blocks`: the blocks that the hierarchy is read from, one
for each primary view that is not blank.
-/

namespace LawNexus.CleanedWire

open Chars Loops Reader
open Decode (ParagraphStyle)
open Reader.Projection (Stages buildProjection viewId warranted)
open Reader.Verifier (verifyProjection)
open SourcePackage (Package TextRecord Limits SerdeJson verifyPackage)

/-! ## Blocks -/

inductive SourceFormatId where
  | consultantWordMl
  | garantOdt
deriving DecidableEq, Repr

/-- The errors that a block can be refused with. -/
inductive ParserDomainError where
  | invalidSourceSpan (start stop : Nat)
  | emptyBlockText
  | emptyProviderStyleId
deriving DecidableEq, Repr

/-- As `Debug` has it. -/
def ParserDomainError.debug : ParserDomainError → String
  | invalidSourceSpan start stop =>
    "InvalidSourceSpan \x7b " ++ s!"start: {start}, end: {stop}" ++ " \x7d"
  | emptyBlockText => "EmptyBlockText"
  | emptyProviderStyleId => "EmptyProviderStyleId"

abbrev SourceStreamId := CheckedId "source stream id"

@[ext]
structure SourceSpan where
  start : Nat
  stop : Nat
  start_lt : start < stop
deriving Repr

instance : DecidableEq SourceSpan := fun _ _ => decidable_of_iff _ SourceSpan.ext_iff.symm

def SourceSpan.tryNew (start stop : Nat) : Except ParserDomainError SourceSpan :=
  if h : start < stop then .ok ⟨start, stop, h⟩ else .error (.invalidSourceSpan start stop)

structure SourceLocation where
  stream : SourceStreamId
  span : SourceSpan
deriving DecidableEq, Repr

/-- A block, with where it comes from. -/
structure ParsedBlock extends Decode.ParsedBlock where
  providerStyleId : Option (List Char)
  sourceLocation : SourceLocation
  sourceFormat : SourceFormatId
  text_ne : trim text ≠ []
  provider_ne : ∀ value ∈ providerStyleId, trim value ≠ []
deriving DecidableEq, Repr

def ParsedBlock.tryNew (text : List Char) (providerStyleId : Option (List Char))
    (style : ParagraphStyle) (sourceLocation : SourceLocation) (sourceFormat : SourceFormatId) :
    Except ParserDomainError ParsedBlock :=
  if htext : trim text = [] then .error .emptyBlockText
  else if hprovider : ∀ value ∈ providerStyleId, trim value ≠ [] then
    .ok ⟨⟨text, style⟩, providerStyleId, sourceLocation, sourceFormat, htext, hprovider⟩
  else .error .emptyProviderStyleId

/-! ## The bridge -/

inductive WireBlocksError where
  | danglingSegmentRef (view : ViewId) (segment : SegmentId)
  | missingSegmentText (segment : SegmentId)
  | invalidSourceStream (view : ViewId)
  | blockRejected (view : ViewId) (detail : String)
deriving DecidableEq, Repr

section

variable (projection : CleanedProjection) (sourceFormat : SourceFormatId)

/-- The text of a segment, or the one beside it. -/
def segmentPiece (segment : ProjectedSegment) : Except WireBlocksError (List Char) :=
  match segment.text with
  | some piece => .ok piece
  | none => orError ((inlineBySegment projection segment.id).map (·.text))
      (.missingSegmentText segment.id)

def assembleViewText (view : ProjectedView) : Except WireBlocksError (List Char) := do
  let ordered ← view.segmentRefs.mapM fun segmentId =>
    orError (projection.projection.segmentById segmentId) (.danglingSegmentRef view.id segmentId)
  let pieces ← (sortBy (·.ordinal) ordered).mapM (segmentPiece projection)
  .ok pieces.flatten

/-- Views of structure have no style. -/
def paragraphStyle : ReaderViewKind → Option ParagraphStyle
  | .paragraph => some .bodyText
  | .residual => some .unknown
  | .table | .row | .cell | .note => none

def blockOfText (view : ProjectedView) (style : ParagraphStyle) (text : List Char) :
    Except WireBlocksError ParsedBlock := do
  let stream ← (CheckedId.parse "source stream id" ("wire:" ++ view.id)).mapError fun _ =>
    .invalidSourceStream view.id
  let span ← (SourceSpan.tryNew 0 (Utf8.byteLen text)).mapError fun _ =>
    .blockRejected view.id "projection-local span invalid"
  (ParsedBlock.tryNew text none style ⟨stream, span⟩ sourceFormat).mapError fun error =>
    .blockRejected view.id error.debug

/-- A turn of the loop over the views. -/
def viewBlock (view : ProjectedView) : Except WireBlocksError (Option ParsedBlock) :=
  match paragraphStyle view.kind with
  | none => .ok none
  | some style => do
    let text ← assembleViewText projection view
    if trim text = [] then .ok none else (blockOfText sourceFormat view style text).map some

def blocksFromCleanedProjection : Except WireBlocksError (List ParsedBlock) :=
  (projection.projection.views.mapM (viewBlock projection sourceFormat)).map List.reduceOption

end

/-! ## The texts of the document -/

/-- What a token stands for. -/
def contentOf (index : ReaderRecordIndex) : Token → List Char
  | .source fragment => ((index.text fragment).map (·.value)).getD []
  | .derived kind => kind.literal

/-- The text of a view, in document order. -/
def textOf (index : ReaderRecordIndex) (key : ReaderViewKey) : List Char :=
  (tokensOf index key).flatMap (contentOf index)

/-- The segments that a view refers to. -/
def referred (p : ReaderProjection) (view : ProjectedView) : List ProjectedSegment :=
  view.segmentRefs.filterMap p.segmentById

/-- The text of a view, in the order of the ordinals of its segments. -/
def orderedText (index : ReaderRecordIndex) (p : ReaderProjection) (view : ProjectedView) :
    List Char :=
  (sortBy (·.1) (((referred p view).map (·.ordinal)).zip (tokensOf index view.key))).flatMap
    fun entry => contentOf index entry.2

section

variable {index : ReaderRecordIndex} {p : ReaderProjection} {view : ProjectedView}
  {package : Package} {read : CleanedProjection}

/-- The segments of a view stand for the tokens of its key. -/
theorem exists_referred (h : Represented index p view) :
    Resolves p view.segmentRefs (referred p view) ∧
      List.Forall₂ (fun segment token => tokenOfSegment segment = some token) (referred p view)
        (tokensOf index view.key) ∧ referred p view ⊆ p.segments := by
  obtain ⟨segments, hown, htokens⟩ := h.segments
  have hresolves : Resolves p view.segmentRefs segments := by
    have hall : List.Forall₂ (fun id segment => Verifier.ownSegment p view id = some segment)
        view.segmentRefs segments := by
      rwa [← List.forall₂_eq_eq_eq, List.forall₂_map_left_iff, List.forall₂_map_right_iff] at hown
    exact hall.imp fun id segment h => (Option.filter_eq_some_iff.mp h).1
  obtain rfl : segments = referred p view := by
    unfold referred
    clear hown htokens
    generalize view.segmentRefs = ids at hresolves
    induction hresolves with
    | nil => rfl
    | cons hs _ ih => rw [List.filterMap_cons_some hs, ← ih]
  refine ⟨hresolves, ?_, fun segment hs => (mem_of_ownSegment hown hs).1⟩
  rwa [← List.forall₂_eq_eq_eq, List.forall₂_map_left_iff, List.forall₂_map_right_iff] at htokens

theorem orderedText_eq_textOf (h : Represented index p view)
    (hordered : ((referred p view).map (·.ordinal)).Pairwise (· ≤ ·)) :
    orderedText index p view = textOf index view.key := by
  have hlength := (exists_referred h).2.1.length_eq
  have hsorted : (((referred p view).map (·.ordinal)).zip (tokensOf index view.key)).Pairwise
      fun a b => a.1 ≤ b.1 := by
    rw [← List.pairwise_map (f := Prod.fst), List.map_fst_zip (by rw [List.length_map, hlength])]
    exact hordered
  have hsnd : (((referred p view).map (·.ordinal)).zip (tokensOf index view.key)).map Prod.snd =
      tokensOf index view.key := List.map_snd_zip (by rw [List.length_map, hlength])
  rw [orderedText, sortBy_eq_self hsorted, textOf]
  conv_rhs => rw [← hsnd]
  rw [List.flatMap_map]

/-- The text beside a segment is that of its token. -/
theorem segmentPiece_eq (hnew : ReaderRecordIndex.new package.records = .ok index)
    (h : Agrees package index read) {segment : ProjectedSegment} {token : Token}
    (hs : segment ∈ read.projection.segments) (htoken : tokenOfSegment segment = some token) :
    segmentPiece read segment = .ok (contentOf index token) := by
  have hsourced := h.represents.sourced segment hs
  unfold Verifier.Sourced at hsourced
  unfold tokenOfSegment at htoken
  unfold segmentPiece
  cases horigin : segment.origin with
  | sourceFragment =>
    rw [horigin] at hsourced htoken
    obtain ⟨x, hx, hquotes⟩ := hsourced
    dsimp only at htoken
    rw [hquotes.fragmentRef, Option.map_some, Option.some.injEq] at htoken
    obtain rfl := htoken
    have hmem : x ∈ textRecords package := by
      rwa [textRecords, ← (ReaderRecordIndex.new_eq_ok hnew).2]
    rw [hquotes.text, h.worded segment (List.mem_filter.mpr ⟨hs, decide_eq_true horigin⟩) x hmem
      hquotes.fragmentRef, contentOf, ReaderRecordIndex.text_eq_some_iff.mpr ⟨hx, rfl⟩]
    rfl
  | derived kind =>
    rw [horigin] at hsourced htoken
    obtain rfl := Option.some.inj htoken
    rw [hsourced.rendered.1]
    rfl

theorem assembleViewText_eq (hnew : ReaderRecordIndex.new package.records = .ok index)
    (h : Agrees package index read) (hview : view ∈ read.projection.views) :
    assembleViewText read view = .ok (orderedText index read.projection view) := by
  obtain ⟨hresolves, htokens, hsegments⟩ := exists_referred (h.represents.represented view hview)
  have hordered : view.segmentRefs.mapM (fun segmentId =>
      orError (read.projection.segmentById segmentId)
        (WireBlocksError.danglingSegmentRef view.id segmentId)) =
      .ok (referred read.projection view) := by
    refine mapM_eq_ok_iff.mpr (hresolves.imp fun id segment hs => ?_)
    rw [hs, orError_some]
  rw [assembleViewText, hordered, ok_bind]
  -- Each segment comes with its token, and the sort keeps the two together.
  let pairs := (referred read.projection view).zip (tokensOf index view.key)
  have hfst : pairs.map Prod.fst = referred read.projection view :=
    List.map_fst_zip htokens.length_eq.le
  have hpieces : (sortBy (·.ordinal) (referred read.projection view)).mapM (segmentPiece read) =
      .ok ((sortBy (fun entry => entry.1.ordinal) pairs).map
        fun entry => contentOf index entry.2) := by
    rw [← hfst, sortBy_map, mapM_eq_ok_iff, List.forall₂_map_left_iff, List.forall₂_map_right_iff,
      List.forall₂_same]
    intro entry hentry
    rw [mem_sortBy] at hentry
    exact segmentPiece_eq hnew h (hsegments (List.of_mem_zip hentry).1)
      (List.forall₂_zip htokens hentry)
  have hzip : ((referred read.projection view).map (·.ordinal)).zip (tokensOf index view.key) =
      pairs.map fun entry => (entry.1.ordinal, entry.2) := List.zip_map_left ..
  rw [hpieces, ok_bind, orderedText, hzip, sortBy_map, List.flatMap_map, ← List.flatMap_def]

end

/-! ## What a block is made of -/

theorem SourceSpan.tryNew_eq_ok_iff {start stop : Nat} {span : SourceSpan} :
    SourceSpan.tryNew start stop = .ok span ↔ span.start = start ∧ span.stop = stop := by
  unfold SourceSpan.tryNew
  constructor
  · intro h
    split_ifs at h
    obtain rfl := Except.ok.inj h
    exact ⟨rfl, rfl⟩
  · rintro ⟨rfl, rfl⟩
    rw [dif_pos span.start_lt]

theorem ParsedBlock.tryNew_eq_ok_iff {text : List Char} {providerStyleId : Option (List Char)}
    {style : ParagraphStyle} {location : SourceLocation} {format : SourceFormatId}
    {block : ParsedBlock} :
    ParsedBlock.tryNew text providerStyleId style location format = .ok block ↔
      block.text = text ∧ block.providerStyleId = providerStyleId ∧ block.style = style ∧
        block.sourceLocation = location ∧ block.sourceFormat = format := by
  unfold ParsedBlock.tryNew
  constructor
  · intro h
    split_ifs at h
    obtain rfl := Except.ok.inj h
    exact ⟨rfl, rfl, rfl, rfl, rfl⟩
  · rintro ⟨rfl, rfl, rfl, rfl, rfl⟩
    rw [dif_neg block.text_ne, dif_pos block.provider_ne]

section

variable (sourceFormat : SourceFormatId) (textAt : ProjectedView → List Char)

/-- The block of a view. -/
structure IsBlock (view : ProjectedView) (block : ParsedBlock) : Prop where
  text : block.text = textAt view
  providerStyleId : block.providerStyleId = none
  style : paragraphStyle view.kind = some block.style
  stream : "wire:" ++ view.id = block.sourceLocation.stream.asStr
  start : block.sourceLocation.span.start = 0
  stop : block.sourceLocation.span.stop = Utf8.byteLen (textAt view)
  format : block.sourceFormat = sourceFormat

/-- A view of running text that is not blank. -/
def Shown (view : ProjectedView) : Prop :=
  (paragraphStyle view.kind).isSome ∧ trim (textAt view) ≠ []

instance : DecidablePred (Shown textAt) := fun _ => inferInstanceAs (Decidable (_ ∧ _))

end

section

variable {sourceFormat : SourceFormatId} {textAt : ProjectedView → List Char}
  {projection : CleanedProjection} {view : ProjectedView} {views : List ProjectedView}

theorem blockOfText_eq_ok_iff {style : ParagraphStyle} {block : ParsedBlock}
    (hstyle : paragraphStyle view.kind = some style) :
    blockOfText sourceFormat view style (textAt view) = .ok block ↔
      IsBlock sourceFormat textAt view block := by
  unfold blockOfText
  simp only [bind_eq_ok_iff, mapError_eq_ok_iff, SourceSpan.tryNew_eq_ok_iff,
    ParsedBlock.tryNew_eq_ok_iff]
  constructor
  · rintro ⟨stream, hstream, span, ⟨hstart, hstop⟩, htext, hprovider, rfl, hlocation, hformat⟩
    obtain ⟨rfl, rfl⟩ :
        block.sourceLocation.stream = stream ∧ block.sourceLocation.span = span := by
      simp [hlocation]
    exact ⟨htext, hprovider, hstyle, CheckedId.asStr_of_parse hstream, hstart, hstop, hformat⟩
  · intro h
    refine ⟨block.sourceLocation.stream, ?_, block.sourceLocation.span, ⟨h.start, h.stop⟩, h.text,
      h.providerStyleId, ?_, rfl, h.format⟩
    · rw [h.stream, CheckedId.parse_asStr]
    · exact Option.some.inj (h.style.symm.trans hstyle)

/-- A turn of the loop makes the block of the view, where it is shown. -/
theorem viewBlock_eq_ok_iff (htext : assembleViewText projection view = .ok (textAt view))
    {made : Option ParsedBlock} : viewBlock projection sourceFormat view = .ok made ↔
      if Shown textAt view then ∃ block, made = some block ∧ IsBlock sourceFormat textAt view block
      else made = none := by
  unfold viewBlock
  cases hstyle : paragraphStyle view.kind with
  | none =>
    have hshown : ¬ Shown textAt view := fun h => by simpa [hstyle] using h.1
    simp [hshown, eq_comm]
  | some style =>
    dsimp only
    rw [htext, ok_bind]
    split_ifs with hblank hshown hshown
    · exact absurd hblank hshown.2
    · simp [eq_comm]
    · simp only [map_eq_ok_iff, blockOfText_eq_ok_iff hstyle]
      exact exists_congr fun block => and_comm.trans (and_congr_left fun _ => eq_comm)
    · exact absurd ⟨by simp [hstyle], hblank⟩ hshown

/-- The blocks are those of the views that are shown, in their order. -/
theorem viewBlocks_eq_ok_iff {blocks : List ParsedBlock}
    (htexts : ∀ view ∈ views, assembleViewText projection view = .ok (textAt view)) :
    (views.mapM (viewBlock projection sourceFormat)).map List.reduceOption = .ok blocks ↔
      List.Forall₂ (IsBlock sourceFormat textAt) (views.filter (Shown textAt ·)) blocks := by
  simp only [map_eq_ok_iff, mapM_eq_ok_iff]
  induction views generalizing blocks with
  | nil =>
    simp only [List.filter_nil, List.forall₂_nil_left_iff, exists_eq_left]
    exact eq_comm
  | cons view views ih =>
    rw [List.forall_mem_cons] at htexts
    simp only [List.forall₂_cons_left_iff, viewBlock_eq_ok_iff htexts.1, List.filter_cons,
      decide_eq_true_eq]
    split_ifs with hshown
    · simp only [List.forall₂_cons_left_iff, ← ih htexts.2]
      constructor
      · rintro ⟨_, ⟨_, rest, ⟨block, rfl, hblock⟩, hrest, rfl⟩, rfl⟩
        exact ⟨block, rest.reduceOption, hblock, ⟨rest, hrest, rfl⟩, rfl⟩
      · rintro ⟨block, _, hblock, ⟨rest, hrest, rfl⟩, rfl⟩
        exact ⟨_, ⟨some block, rest, ⟨block, rfl, hblock⟩, hrest, rfl⟩, rfl⟩
    · rw [← ih htexts.2]
      constructor
      · rintro ⟨_, ⟨_, rest, rfl, hrest, rfl⟩, rfl⟩
        exact ⟨rest, hrest, rfl⟩
      · rintro ⟨rest, hrest, rfl⟩
        exact ⟨_, ⟨none, rest, rfl, hrest, rfl⟩, rfl⟩

/-- The only thing a shown view can want for is a stream. -/
theorem exists_isBlock (hshown : Shown textAt view)
    (hstream : parseId "source stream id" ("wire:" ++ view.id) maxIdLen =
      .ok ("wire:" ++ view.id)) :
    ∃ block, IsBlock sourceFormat textAt view block := by
  obtain ⟨hstyle, htrim⟩ := hshown
  obtain ⟨style, hstyle⟩ := Option.isSome_iff_exists.mp hstyle
  have hne : textAt view ≠ [] := by
    intro hnil
    rw [hnil] at htrim
    exact htrim rfl
  exact ⟨⟨⟨textAt view, style⟩, none, ⟨⟨_, hstream⟩, ⟨0, _, Utf8.byteLen_pos hne⟩⟩, sourceFormat,
    htrim, by simp⟩, rfl, rfl, hstyle, rfl, rfl, rfl, rfl⟩

theorem exists_viewBlock (htext : assembleViewText projection view = .ok (textAt view))
    (hstream : parseId "source stream id" ("wire:" ++ view.id) maxIdLen =
      .ok ("wire:" ++ view.id)) :
    ∃ made, viewBlock projection sourceFormat view = .ok made := by
  simp only [viewBlock_eq_ok_iff htext]
  split_ifs with hshown
  · obtain ⟨block, hblock⟩ : ∃ block, IsBlock sourceFormat textAt view block :=
      exists_isBlock hshown hstream
    exact ⟨some block, block, rfl, hblock⟩
  · exact ⟨none, rfl⟩

theorem exists_viewBlocks
    (htexts : ∀ view ∈ views, assembleViewText projection view = .ok (textAt view))
    (hstreams : ∀ view ∈ views, parseId "source stream id" ("wire:" ++ view.id) maxIdLen =
      .ok ("wire:" ++ view.id)) :
    ∃ blocks,
      (views.mapM (viewBlock projection sourceFormat)).map List.reduceOption = .ok blocks := by
  obtain ⟨made, hmade⟩ : ∃ made, views.mapM (viewBlock projection sourceFormat) = .ok made :=
    exists_mapM_ok_iff.mpr fun view hview =>
      exists_viewBlock (htexts view hview) (hstreams view hview)
  exact ⟨made.reduceOption, by rw [hmade]; rfl⟩

/-- The number of a view leaves its stream an id. -/
theorem parseId_viewId {i : Nat} (hi : i < 2 ^ 64) :
    parseId "source stream id" ("wire:" ++ viewId i) maxIdLen = .ok ("wire:" ++ viewId i) := by
  have hnumber : (UInt64.ofNat i).toNat = i := UInt64.toNat_ofNat_of_lt' hi
  have hid : "wire:" ++ viewId i = "wire:v" ++ Nat.repr (UInt64.ofNat i).toNat := by
    rw [hnumber, viewId, ← String.append_assoc]
    rfl
  rw [hid]
  exact parseId_numbered (by decide) _

end

/-! ## From the package to the blocks -/

namespace Sample

open SourcePackage.Sample (signed serde verifyPackage_signed)

end Sample

section

variable {sha256 : Sha256} {package : Package} {p : ReaderProjection} {completion : WireCompletion}
  {limits : WireLimits} {texts : List (List Char)} {view : ProjectedView}

/-- An export of what was built has the text of each view in document order. -/
theorem assembleViewText_readBack (stages : Stages package.records p)
    (hrepresents : Represents stages.index p)
    (hresolves : List.Forall₂
      (fun segment text => resolveText (textIndex package) segment = .ok text) p.segments texts)
    (hview : view ∈ p.views) :
    assembleViewText (readBack sha256 package p completion limits texts) view =
      .ok (textOf stages.index view.key) := by
  have hprojection : (readBack sha256 package p completion limits texts).projection = p :=
    readBack_projection stages hresolves
  have hagrees : Agrees package stages.index (readBack sha256 package p completion limits texts) :=
    agrees_readBack stages hrepresents hresolves
  obtain ⟨i, hi⟩ := List.mem_iff_getElem?.mp hview
  rw [assembleViewText_eq stages.index_eq hagrees (by rwa [hprojection]), hprojection,
    orderedText_eq_textOf (hrepresents.represented view hview) (stages.numbered hi).2]

theorem parseId_stream (stages : Stages package.records p) (hviews : p.views.length < 2 ^ 64)
    (hview : view ∈ p.views) :
    parseId "source stream id" ("wire:" ++ view.id) maxIdLen = .ok ("wire:" ++ view.id) := by
  obtain ⟨i, hi⟩ := List.mem_iff_getElem?.mp hview
  rw [(stages.numbered hi).1]
  exact parseId_viewId (lt_trans (List.getElem?_eq_some_iff.mp hi).1 hviews)

end

namespace Sample

open SourcePackage.Sample (signed serde verifyPackage_signed)

end Sample

end LawNexus.CleanedWire
