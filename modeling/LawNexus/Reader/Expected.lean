import LawNexus.Reader.Total
import LawNexus.Reader.Verifier

/-!
# What the verifier expects

The verifier finds the seeds, the parents and the events of the builder again. Its own errors do not
come up where the links agree with the owners of the texts.
-/

namespace LawNexus.Reader

open Forest SourcePackage Loops ReaderRecordIndex

variable {index : ReaderRecordIndex} {ε ε' : Type}

/-! ## The errors aside -/

section

variable {errors : WalkErrors ε} (errors' : WalkErrors ε')

theorem climb_ok_congr {σ ρ : Type} {body : σ → Except ε (Turn σ ρ)}
    {body' : σ → Except ε' (Turn σ ρ)} (h : ∀ s r, body s = .ok r → body' s = .ok r)
    {turns : Nat} {s : σ} {r : ρ} (hok : climb body turns s = .ok r) :
    climb body' turns s = .ok r := by
  induction turns generalizing s with
  | zero => cases hok
  | succ turns ih =>
    rw [climb] at hok
    split at hok
    · cases hok
    · rename_i result heq
      rw [climb_done (h _ _ heq), Except.ok.inj hok]
    · rename_i t heq
      rw [climb_next (h _ _ heq)]
      exact ih hok

theorem roleOf_ok {id : String} {role : ReaderRole} (h : roleOf errors index id = .ok role) :
    roleOf errors' index id = .ok role := by
  unfold roleOf at h ⊢
  split at h
  · rw [Except.ok.inj h]
  · cases h

theorem containerTurn_ok {allowed : List ReaderRole} {id : String}
    {turn : Turn String (Option ElementRef)} (h : containerTurn errors index allowed id = .ok turn) :
    containerTurn errors' index allowed id = .ok turn := by
  unfold containerTurn at h ⊢
  split at h
  · rw [Except.ok.inj h]
  · obtain ⟨role, hrole, h⟩ := bind_eq_ok_iff.mp h
    rw [roleOf_ok errors' hrole, ok_bind, Except.ok.inj h]

theorem nearestContainer_ok {id : ElementRef} {allowed : List ReaderRole}
    {container : Option ElementRef} (h : nearestContainer errors index id allowed = .ok container) :
    nearestContainer errors' index id allowed = .ok container :=
  climb_ok_congr (fun _ _ => containerTurn_ok errors') h

theorem ancestorTurn_ok {role : ReaderRole} {id : String} {turn : Turn String Bool}
    (h : ancestorTurn errors index role id = .ok turn) :
    ancestorTurn errors' index role id = .ok turn := by
  unfold ancestorTurn at h ⊢
  obtain ⟨found, hfound, h⟩ := bind_eq_ok_iff.mp h
  rw [roleOf_ok errors' hfound, ok_bind]
  split_ifs at h ⊢ with hrole
  · cases h
    rfl
  · split at h
    · rw [← Except.ok.inj h]
    · rw [← Except.ok.inj h]

theorem ancestorHasRole_ok {id : String} {role : ReaderRole} {found : Bool}
    (h : ancestorHasRole errors index id role = .ok found) :
    ancestorHasRole errors' index id role = .ok found :=
  climb_ok_congr (fun _ _ => ancestorTurn_ok errors') h

theorem contextSemantic_ok {context : Option String} {semantic : Option ReaderSemantic}
    (h : contextSemantic errors index context = .ok semantic) :
    contextSemantic errors' index context = .ok semantic := by
  cases context with
  | none => exact congrArg Except.ok (Except.ok.inj h)
  | some context =>
    rw [contextSemantic] at h ⊢
    obtain ⟨field, hfield, h⟩ := bind_eq_ok_iff.mp h
    rw [ancestorHasRole_ok errors' hfield, ok_bind]
    split_ifs at h ⊢
    · exact congrArg Except.ok (Except.ok.inj h)
    · obtain ⟨insertion, hinsertion, h⟩ := bind_eq_ok_iff.mp h
      rw [ancestorHasRole_ok errors' hinsertion, ok_bind]
      split_ifs at h ⊢
      · exact congrArg Except.ok (Except.ok.inj h)
      · obtain ⟨deletion, hdeletion, h⟩ := bind_eq_ok_iff.mp h
        rw [ancestorHasRole_ok errors' hdeletion, ok_bind]
        split_ifs at h ⊢ <;> exact congrArg Except.ok (Except.ok.inj h)

theorem textSemantic_ok {owner : String} {slot : TextSlot} {value : List Char}
    {semantic : ReaderSemantic} (h : textSemantic errors index owner slot value = .ok semantic) :
    textSemantic errors' index owner slot value = .ok semantic := by
  unfold textSemantic at h ⊢
  split at h
  · cases h
  · obtain ⟨context, hcontext, h⟩ := bind_eq_ok_iff.mp h
    rw [contextSemantic_ok errors' hcontext, ok_bind]
    exact congrArg Except.ok (Except.ok.inj h)

end

namespace Verifier

open Projection

/-! ## The events -/

def Event.of : ProjectionEvent → Event
  | .fragment id _ _ view => .fragment id view
  | .control _ kind view => .control kind view
  | .reference _ type view => .reference type view

@[simp] theorem Event.viewKey_of (event : ProjectionEvent) :
    (Event.of event).viewKey = event.viewKey := by
  cases event <;> rfl

theorem documentEvents_eq (index : ReaderRecordIndex) :
    documentEvents index = .ok ((documentOrder index).map Event.of) := by
  let makes : Makes Event := ⟨fun id _ _ view => .fragment id view, fun _ kind view =>
    .control kind view, fun _ type view => some (.reference type view)⟩
  have hmakes : makes.event = fun event => some (Event.of event) := by
    funext event
    cases event <;> rfl
  have h := @walkEvents_eq index _ _ verifierErrors makes _
    fun e he hroot => referenceEvents_eq verifierErrors makes he hroot fun _ _ _ => rfl
  rwa [hmakes, List.filterMap_eq_map'] at h

/-! ## The seeds -/

variable {seeds seeds' : List ViewSeed}

theorem addSeed_ok {key : ReaderViewKey} (h : Projection.addSeed index seeds key = .ok seeds') :
    addSeed index seeds key = .ok seeds' := by
  unfold Projection.addSeed missingView at h
  unfold addSeed
  cases hpos : index.sourcePos key.elementRef with
  | none =>
    rw [hpos] at h
    cases h
  | some sourcePos =>
    rw [hpos] at h
    exact congrArg Except.ok (Except.ok.inj h)

theorem addSeeds_ok {keys : List ReaderViewKey} (h : addSeeds index seeds keys = .ok seeds') :
    keys.foldlM (addSeed index) seeds = .ok seeds' := by
  induction keys generalizing seeds with
  | nil => exact congrArg Except.ok (Except.ok.inj h)
  | cons key keys ih =>
    rw [addSeeds, List.foldlM_cons] at h
    obtain ⟨next, hnext, hrest⟩ := bind_eq_ok_iff.mp h
    rw [List.foldlM_cons, addSeed_ok hnext, ok_bind]
    exact ih hrest

theorem seedLoop_ok {key : ElementRecord → Except (Stop ProjectionError) (Option ReaderViewKey)}
    {seed : List ViewSeed → ElementRecord → Except (Stop String) (List ViewSeed)}
    (hseed : ∀ seeds e k, key e = .ok k → seed seeds e = k.toList.foldlM (addSeed index) seeds)
    (h : seedLoop index key seeds = .ok seeds') :
    index.elements.foldlM seed seeds = .ok seeds' := by
  unfold seedLoop at h
  generalize index.elements = elements at h
  induction elements generalizing seeds with
  | nil => exact congrArg Except.ok (Except.ok.inj h)
  | cons e elements ih =>
    rw [List.foldlM_cons] at h
    obtain ⟨next, hnext, hrest⟩ := bind_eq_ok_iff.mp h
    obtain ⟨k, hk, hnext⟩ := bind_eq_ok_iff.mp hnext
    rw [List.foldlM_cons, hseed seeds e k hk, addSeeds_ok hnext, ok_bind]
    exact ih hrest

theorem seedStructural_eq (seeds : List ViewSeed) (e : ElementRecord) (k : Option ReaderViewKey)
    (h : structuralKey index e = .ok k) :
    seedStructural index seeds e = k.toList.foldlM (addSeed index) seeds := by
  obtain ⟨role, hrole, h⟩ := bind_eq_ok_iff.mp h
  obtain rfl := Except.ok.inj h
  rw [seedStructural, mapError_eq_ok_iff.mpr (roleOf_ok verifierErrors (mapError_eq_ok_iff.mp hrole)),
    ok_bind]
  cases structuralViewKind role with
  | none => rfl
  | some kind => simp

theorem seedReferring_eq (seeds : List ViewSeed) (e : ElementRecord) (k : Option ReaderViewKey)
    (h : referenceKey index e = .ok k) :
    seedReferring index seeds e = k.toList.foldlM (addSeed index) seeds := by
  obtain ⟨role, hrole, h⟩ := bind_eq_ok_iff.mp h
  rw [seedReferring, mapError_eq_ok_iff.mpr (roleOf_ok verifierErrors (mapError_eq_ok_iff.mp hrole)),
    ok_bind]
  split_ifs at h ⊢ with hanchors
  · obtain ⟨key, hkey, h⟩ := bind_eq_ok_iff.mp h
    obtain rfl := Except.ok.inj h
    rw [stop_eq_ok_iff.mpr (stop_eq_ok_iff.mp hkey), ok_bind]
    split_ifs
    · simp
    · rfl
  · obtain rfl := Except.ok.inj h
    rfl

/-- The verifier finds the seeds of the builder, with the partition. -/
theorem viewSeeds_ok {partition : List PrimaryOwnership}
    (h : Projection.viewSeeds index = .ok seeds)
    (hpartition : partitionPrimaryViews index = .ok partition) :
    viewSeeds index = .ok (seeds, partition) := by
  obtain ⟨structural, hstructural, h⟩ := bind_eq_ok_iff.mp h
  obtain ⟨partition', hpartition', h⟩ := bind_eq_ok_iff.mp h
  obtain ⟨residual, hresidual, h⟩ := bind_eq_ok_iff.mp h
  obtain ⟨all, hall, h⟩ := bind_eq_ok_iff.mp h
  obtain rfl := Except.ok.inj h
  obtain rfl := Except.ok.inj ((stop_eq_ok_iff.mp hpartition').symm.trans hpartition)
  rw [viewSeeds, seedLoop_ok seedStructural_eq hstructural, ok_bind,
    stop_eq_ok_iff.mpr hpartition, ok_bind, addSeeds_ok hresidual, ok_bind,
    seedLoop_ok seedReferring_eq hall, ok_bind]

/-! ## The parents -/

theorem any_key {key : ReaderViewKey} :
    (seeds.any (·.key = key)) = true ↔ key ∈ seeds.map ViewSeed.key := by
  simp [List.any_eq_true, List.mem_map]

/-- The parent of a view in the projection is the id of the parent that the verifier expects. -/
theorem parentKey_ok {key : ReaderViewKey} {id : Option ViewId}
    (h : parentView index seeds key = .ok id) : ∃ parent, parentKey index seeds key = .ok parent ∧
      id = parent.bind (idByKey seeds) ∧ ∀ k ∈ parent, k ∈ seeds.map ViewSeed.key := by
  unfold parentView missingView at h
  dsimp only at h
  unfold parentKey
  obtain ⟨container, hcontainer, h⟩ := bind_eq_ok_iff.mp h
  rw [nearestContainer_ok verifierErrors hcontainer, ok_bind]
  cases container with
  | none =>
    obtain rfl := Except.ok.inj h
    exact ⟨none, rfl, rfl, by simp⟩
  | some container =>
    obtain ⟨role, hrole, h⟩ := bind_eq_ok_iff.mp h
    dsimp only
    rw [mapError_eq_ok_iff.mpr (roleOf_ok verifierErrors (mapError_eq_ok_iff.mp hrole)), ok_bind]
    cases hkind : structuralViewKind role with
    | none =>
      rw [hkind] at h
      cases h
    | some kind =>
      rw [hkind] at h
      dsimp only at h ⊢
      cases hid : idByKey seeds ⟨kind, container⟩ with
      | none =>
        rw [hid] at h
        cases h
      | some found =>
        rw [hid] at h
        obtain rfl := Except.ok.inj h
        have hmem : (⟨kind, container⟩ : ReaderViewKey) ∈ seeds.map ViewSeed.key := by
          obtain ⟨i, hi, -⟩ := Option.map_eq_some_iff.mp hid
          obtain ⟨hlt, hkey, -⟩ := List.findIdx?_eq_some_iff_getElem.mp hi
          exact List.mem_map.mpr ⟨_, List.getElem_mem hlt, by simpa using hkey⟩
        rw [if_pos (any_key.mpr hmem)]
        exact ⟨some ⟨kind, container⟩, rfl, hid.symm, by simpa using hmem⟩

/-! ## The whole -/

/-- What the verifier expects of a substrate with these seeds and these parents. -/
def expectedOf (index : ReaderRecordIndex) (linked : List (ViewSeed × Option ReaderViewKey))
    (partition : List PrimaryOwnership) : Expected :=
  ⟨linked.map (expectView linked ((documentOrder index).map Event.of)), partition⟩

theorem buildExpected_ok {partition : List PrimaryOwnership} {parents : List (Option ReaderViewKey)}
    (hseeds : Projection.viewSeeds index = .ok seeds)
    (hpartition : partitionPrimaryViews index = .ok partition)
    (hparents : seeds.mapM (fun seed => parentKey index seeds seed.key) = .ok parents)
    (hevents : ∀ event ∈ documentOrder index, event.viewKey ∈ seeds.map ViewSeed.key) :
    buildExpected index = .ok (expectedOf index (seeds.zip parents) partition) := by
  have hplaced : ((documentOrder index).map Event.of).forM (requireView seeds) = .ok () := by
    simp only [forM_ok_iff, List.forall_mem_map, requireView, Event.viewKey_of]
    exact fun event hevent => if_pos (any_key.mpr (hevents event hevent))
  rw [buildExpected, viewSeeds_ok hseeds hpartition, ok_bind]
  dsimp only
  rw [hparents, ok_bind, documentEvents_eq, ok_bind, hplaced, ok_bind, expectedOf]

end Verifier

end LawNexus.Reader
