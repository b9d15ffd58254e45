import LawNexus.Closure.Evidence
import Mathlib.Data.Set.Card

/-!
# The worklist is exact

What the loop of `compute` comes to, as sets that know no order: the nodes behind the changed ones
and the nodes that are missing. The status is read off these sets, the bound included.
-/

namespace LawNexus.Closure

variable {frozen frozen' : Frozen} {changed changed' : List NodeId} {work work' : Worklist}
  {node dep n : NodeId}

/-! ## The sets -/

/-- A registered node that is changed, or that a chain of registered nodes leads to. -/
inductive Reached (frozen : Frozen) (changed : List NodeId) : NodeId → Prop
  | changed {c : NodeId} : c ∈ changed → c ∈ frozen.registered → Reached frozen changed c
  | dependency {n d : NodeId} : Reached frozen changed n → d ∈ frozen.dependencies n →
    d ∈ frozen.registered → Reached frozen changed d

theorem Reached.registered (h : Reached frozen changed n) : n ∈ frozen.registered := by
  cases h <;> assumption

section

variable (frozen : Frozen) (changed : List NodeId)

def unknownSeeds : Set NodeId := {n | n ∈ changed ∧ n ∉ frozen.registered}

def affectedSet : Set NodeId := unknownSeeds frozen changed ∪ {n | Reached frozen changed n}

def missingSet : Set NodeId := unknownSeeds frozen changed ∪
  {d | d ∉ frozen.registered ∧ ∃ n, Reached frozen changed n ∧ d ∈ frozen.dependencies n}

theorem finite_affectedSet : (affectedSet frozen changed).Finite := by
  refine (List.finite_toSet (changed ++ frozen.registered)).subset ?_
  rintro n (⟨hn, -⟩ | hn)
  · exact List.mem_append_left _ hn
  · exact List.mem_append_right _ hn.registered

end

theorem mem_affectedSet_of_changed (h : n ∈ changed) : n ∈ affectedSet frozen changed := by
  by_cases hn : n ∈ frozen.registered
  · exact .inr (.changed h hn)
  · exact .inl ⟨h, hn⟩

theorem mem_affectedSet_registered (hn : n ∈ frozen.registered) :
    n ∈ affectedSet frozen changed ↔ Reached frozen changed n :=
  or_iff_right fun h => h.2 hn

/-- Two snapshots, and changed nodes, that differ in order and repetition only. -/
structure SameSets (frozen frozen' : Frozen) (changed changed' : List NodeId) : Prop where
  registered : ∀ n, n ∈ frozen.registered ↔ n ∈ frozen'.registered
  changed : ∀ n, n ∈ changed ↔ n ∈ changed'
  dependencies : ∀ n ∈ frozen.registered, ∀ d,
    d ∈ frozen.dependencies n ↔ d ∈ frozen'.dependencies n

namespace SameSets

theorem symm (h : SameSets frozen frozen' changed changed') :
    SameSets frozen' frozen changed' changed where
  registered n := (h.registered n).symm
  changed n := (h.changed n).symm
  dependencies n hn d := (h.dependencies n ((h.registered n).mpr hn) d).symm

theorem reached (h : SameSets frozen frozen' changed changed') (hn : Reached frozen changed n) :
    Reached frozen' changed' n := by
  induction hn with
  | changed hc hregistered => exact .changed ((h.changed _).mp hc) ((h.registered _).mp hregistered)
  | dependency hreached hdep hregistered ih =>
    exact .dependency ih ((h.dependencies _ hreached.registered _).mp hdep)
      ((h.registered _).mp hregistered)

theorem unknownSeeds_eq (h : SameSets frozen frozen' changed changed') :
    unknownSeeds frozen changed = unknownSeeds frozen' changed' := by
  ext n
  exact and_congr (h.changed n) (not_congr (h.registered n))

theorem affectedSet_eq (h : SameSets frozen frozen' changed changed') :
    affectedSet frozen changed = affectedSet frozen' changed' := by
  unfold affectedSet
  rw [h.unknownSeeds_eq]
  congr 1
  ext n
  exact ⟨h.reached, h.symm.reached⟩

theorem missingSet_subset (h : SameSets frozen frozen' changed changed') :
    missingSet frozen changed ⊆ missingSet frozen' changed' := by
  rintro d (hd | ⟨hd, n, hn, hdep⟩)
  · exact .inl (h.unknownSeeds_eq ▸ hd)
  · exact .inr ⟨fun hmem => hd ((h.registered d).mpr hmem), n, h.reached hn,
      (h.dependencies n hn.registered d).mp hdep⟩

theorem missingSet_eq (h : SameSets frozen frozen' changed changed') :
    missingSet frozen changed = missingSet frozen' changed' :=
  Set.Subset.antisymm h.missingSet_subset h.symm.missingSet_subset

end SameSets

/-! ## The missing nodes -/

theorem nodup_pushMissing {missing : List NodeId} (h : missing.Nodup) :
    (pushMissing missing node).Nodup := by
  unfold pushMissing
  split_ifs with hmem
  · exact h
  · rw [List.nodup_append]
    refine ⟨h, List.nodup_singleton _, ?_⟩
    rintro a ha b hb rfl
    obtain rfl := List.mem_singleton.mp hb
    exact hmem (List.contains_iff_mem.mpr ha)

/-- What the loop over the dependencies adds to the missing nodes. -/
structure Misses (frozen : Frozen) (deps : List NodeId) (work work' : Worklist) : Prop where
  nodup : work.missing.Nodup → work'.missing.Nodup
  new : ∀ n ∈ work'.missing, n ∈ work.missing ∨ n ∈ deps ∧ n ∉ frozen.registered

theorem pushDependency_misses (work : Worklist) (dep : NodeId) :
    Misses frozen [dep] work (pushDependency frozen work dep) := by
  unfold pushDependency
  split_ifs with hseen hknown
  · exact ⟨id, fun n hn => .inl hn⟩
  · refine ⟨nodup_pushMissing, fun n hn => ?_⟩
    refine (mem_pushMissing.mp hn).imp_right ?_
    rintro rfl
    exact ⟨List.mem_singleton_self _, by simpa using hknown⟩
  · exact ⟨id, fun n hn => .inl hn⟩

theorem pushDependencies_misses (deps : List NodeId) (work : Worklist) :
    Misses frozen deps work (deps.foldl (pushDependency frozen) work) := by
  induction deps generalizing work with
  | nil => exact ⟨id, fun n hn => .inl hn⟩
  | cons dep deps ih =>
    have hturn := @pushDependency_misses frozen work dep
    have hrest := ih (pushDependency frozen work dep)
    refine ⟨fun h => hrest.nodup (hturn.nodup h), fun n hn => ?_⟩
    rcases hrest.new n hn with hn | ⟨hdep, hunknown⟩
    · refine (hturn.new n hn).imp_right ?_
      rintro ⟨hdep, hunknown⟩
      exact ⟨List.mem_cons.mpr (.inl (List.mem_singleton.mp hdep)), hunknown⟩
    · exact .inr ⟨List.mem_cons_of_mem _ hdep, hunknown⟩

/-- A node that is visited misses its dependencies; one that is not registered is changed. -/
theorem visit_misses (work : Worklist) (hnode : node ∈ affectedSet frozen changed) :
    Misses frozen (if node ∈ frozen.registered then frozen.dependencies node else []) work
      (visit frozen changed work node) := by
  by_cases hknown : node ∈ frozen.registered
  · rw [if_pos hknown, visit, if_neg (by simpa using hknown)]
    have h := @pushDependencies_misses frozen (frozen.dependencies node)
      { work with affected := work.affected ++ [node] }
    exact ⟨h.nodup, h.new⟩
  · have hchanged : node ∈ changed := by
      rcases hnode with h | h
      · exact h.1
      · exact absurd h.registered hknown
    rw [if_neg hknown, visit, if_pos (by simpa using hknown)]
    dsimp only
    rw [if_pos (by simpa using hchanged)]
    exact ⟨id, fun n hn => .inl hn⟩

/-! ## The loop -/

/-- The nodes of the worklist belong to the sets, and each stands in its list once. -/
structure Exact (frozen : Frozen) (changed : List NodeId) (work : Worklist) : Prop where
  stands : Stands frozen changed work
  within : ∀ n, n ∈ work.affected ∨ n ∈ work.queue → n ∈ affectedSet frozen changed
  missing : ∀ n ∈ work.missing, n ∈ missingSet frozen changed
  unknown : ∀ n ∈ unknownSeeds frozen changed, n ∈ work.missing
  nodup_affected : work.affected.Nodup
  nodup_missing : work.missing.Nodup

theorem seeds_exact : Exact frozen changed (seeds frozen changed) := by
  have hmem : ∀ {l acc : List NodeId} {n : NodeId},
      n ∈ l.foldl pushMissing acc ↔ n ∈ acc ∨ n ∈ l := by
    intro l
    induction l with
    | nil => simp
    | cons a l ih =>
      intro acc n
      rw [List.foldl_cons, ih, mem_pushMissing, List.mem_cons, or_assoc]
  have hnodup : ∀ {l acc : List NodeId}, acc.Nodup → (l.foldl pushMissing acc).Nodup := by
    intro l
    induction l with
    | nil => exact id
    | cons a l ih => exact fun h => ih (nodup_pushMissing h)
  have hseeds : ∀ n, n ∈ (seeds frozen changed).missing ↔ n ∈ unknownSeeds frozen changed := by
    intro n
    simp [seeds, hmem, unknownSeeds]
  constructor
  case stands => exact seeds_stands
  case within =>
    rintro n (hn | hn)
    · cases hn
    · exact mem_affectedSet_of_changed hn
  case missing => exact fun n hn => .inl ((hseeds n).mp hn)
  case unknown => exact fun n hn => (hseeds n).mpr hn
  case nodup_affected => exact List.nodup_nil
  case nodup_missing => exact hnodup List.nodup_nil

/-- A turn of the loop, at the first node of the queue that was not seen. -/
theorem visit_exact {queue : List NodeId} (h : Exact frozen changed work)
    (hfresh : node ∉ work.affected)
    (hqueue : ∀ n ∈ work.queue, n ∈ work.affected ∨ n = node ∨ n ∈ queue)
    (hnew : ∀ n, n = node ∨ n ∈ queue → n ∈ work.queue) :
    Exact frozen changed (visit frozen changed { work with queue } node) := by
  have hnode : node ∈ affectedSet frozen changed := h.within node (.inr (hnew node (.inl rfl)))
  have hpushed := visit_spec frozen changed { work with queue } node
  have hmisses := visit_misses { work with queue } hnode
  have hstands := visit_stands h.stands hqueue hnew
  generalize visit frozen changed { work with queue } node = work' at hpushed hmisses hstands ⊢
  have hreached : node ∈ frozen.registered → Reached frozen changed node :=
    fun hknown => (mem_affectedSet_registered hknown).mp hnode
  constructor
  case stands => exact hstands
  case within =>
    rintro n (hn | hn)
    · rw [hpushed.affected, List.mem_append, List.mem_singleton] at hn
      rcases hn with hn | rfl
      · exact h.within n (.inl hn)
      · exact hnode
    · rcases hpushed.new n hn with hn | ⟨hdep, hregistered⟩
      · exact h.within n (.inr (hnew n (.inr hn)))
      · split_ifs at hdep with hknown
        · exact .inr (.dependency (hreached hknown) hdep hregistered)
        · cases hdep
  case missing =>
    intro n hn
    rcases hmisses.new n hn with hn | ⟨hdep, hunknown⟩
    · exact h.missing n hn
    · split_ifs at hdep with hknown
      · exact .inr ⟨hunknown, node, hreached hknown, hdep⟩
      · cases hdep
  case unknown => exact fun n hn => hpushed.missing n (h.unknown n hn)
  case nodup_affected =>
    rw [hpushed.affected, List.nodup_append]
    refine ⟨h.nodup_affected, List.nodup_singleton _, ?_⟩
    rintro a ha b hb rfl
    obtain rfl := List.mem_singleton.mp hb
    exact hfresh ha
  case nodup_missing => exact hmisses.nodup h.nodup_missing

/-- With an empty queue, the lists hold the whole of the sets. -/
theorem Exact.done (h : Exact frozen changed work) (hqueue : work.queue = []) :
    (∀ n, n ∈ work.affected ↔ n ∈ affectedSet frozen changed) ∧
      ∀ n, n ∈ work.missing ↔ n ∈ missingSet frozen changed := by
  have hnone : ∀ n, n ∉ work.queue := by simp [hqueue]
  -- A registered dependency cannot be missing, so it is affected.
  have hreached : ∀ {n}, Reached frozen changed n → n ∈ work.affected := by
    intro n hn
    induction hn with
    | changed hc _ => exact (h.stands.started _ hc).resolve_right (hnone _)
    | @dependency n d hreached hdep hregistered ih =>
      rcases h.stands.followed n ih hreached.registered d hdep with hd | hd | hd
      · exact hd
      · exact absurd hd (hnone d)
      · rcases h.missing d hd with ⟨-, hunknown⟩ | ⟨hunknown, -⟩ <;> exact absurd hregistered hunknown
  refine ⟨fun n => ⟨fun hn => h.within n (.inl hn), ?_⟩, fun d => ⟨h.missing d, ?_⟩⟩
  · rintro (⟨hc, -⟩ | hn)
    · exact (h.stands.started n hc).resolve_right (hnone n)
    · exact hreached hn
  · rintro (hd | ⟨hunknown, n, hn, hdep⟩)
    · exact h.unknown d hd
    · rcases h.stands.followed n (hreached hn) hn.registered d hdep with hd | hd | hd
      -- An affected node that is not registered is a changed one.
      · rcases h.within d (.inl hd) with hseed | hd
        · exact h.unknown d hseed
        · exact absurd hd.registered hunknown
      · exact absurd hd (hnone d)
      · exact hd

/-- How the loop ends: with the whole of the sets, or with a node more than there was room for. -/
inductive Ends (frozen : Frozen) (changed : List NodeId) (bound : Nat) :
    Except Worklist Worklist → Prop
  | ok {work : Worklist} : Exact frozen changed work → work.queue = [] →
    work.affected.length ≤ bound → Ends frozen changed bound (.ok work)
  | error {work : Worklist} : work.affected.Nodup →
    (∀ n ∈ work.affected, n ∈ affectedSet frozen changed) → work.affected.length = bound + 1 →
    Ends frozen changed bound (.error work)

theorem Exact.drop (h : Exact frozen changed work)
    (hqueue : work.queue.dropWhile work.affected.contains = []) :
    Exact frozen changed { work with queue := [] } where
  stands := h.stands.drop hqueue
  within n hn := h.within n (hn.imp_right nofun)
  missing := h.missing
  unknown := h.unknown
  nodup_affected := h.nodup_affected
  nodup_missing := h.nodup_missing

/-- The node that a turn takes from the queue, and what it leaves there. -/
theorem dropWhile_seen {queue : List NodeId}
    (h : work.queue.dropWhile work.affected.contains = node :: queue) :
    node ∉ work.affected ∧ (∀ n ∈ work.queue, n ∈ work.affected ∨ n = node ∨ n ∈ queue) ∧
      ∀ n, n = node ∨ n ∈ queue → n ∈ work.queue := by
  refine ⟨fun hmem => ?_, fun n hn => ?_, fun n hn => ?_⟩
  · have hhead := List.head?_dropWhile_not work.affected.contains work.queue
    rw [h] at hhead
    simp [hmem] at hhead
  · rw [← List.takeWhile_append_dropWhile (p := work.affected.contains) (l := work.queue), h,
      List.mem_append, List.mem_cons] at hn
    exact hn.imp_left fun hn => List.contains_iff_mem.mp (List.mem_takeWhile_imp hn)
  · rw [← List.mem_cons, ← h] at hn
    exact (List.dropWhile_sublist _).subset hn

theorem worklist_ends {room bound : Nat} (h : Exact frozen changed work)
    (hroom : work.affected.length + room = bound) :
    Ends frozen changed bound (worklist frozen changed room work) := by
  induction room generalizing work with
  | zero =>
    unfold worklist
    split
    next hqueue => exact .ok (h.drop hqueue) rfl (le_of_eq hroom)
    next node queue hqueue =>
      obtain ⟨hfresh, -, hnew⟩ := dropWhile_seen hqueue
      refine .error ?_ ?_ ?_
      · exact List.nodup_append.mpr ⟨h.nodup_affected, List.nodup_singleton _, fun a ha b hb heq =>
          hfresh (List.mem_singleton.mp hb ▸ heq ▸ ha)⟩
      · intro n hn
        rcases List.mem_append.mp hn with hn | hn
        · exact h.within n (.inl hn)
        · exact h.within n (.inr (hnew n (.inl (List.mem_singleton.mp hn))))
      · rw [List.length_append, List.length_singleton, ← hroom]
  | succ room ih =>
    unfold worklist
    split
    next hqueue => exact .ok (h.drop hqueue) rfl (by dsimp only; omega)
    next node queue hqueue =>
      obtain ⟨hfresh, hold, hnew⟩ := dropWhile_seen hqueue
      have hvisit := visit_spec frozen changed { work with queue } node
      refine ih (visit_exact h hfresh hold hnew) ?_
      rw [hvisit.affected, List.length_append, List.length_singleton]
      dsimp only
      omega

/-! ## The status -/

/-- What the result says, by the sets alone. -/
noncomputable def statusOf (frozen : Frozen) (changed : List NodeId) : ClosureStatus :=
  open Classical in
  if MAX_BOUNDED_FANOUT < (affectedSet frozen changed).ncard then .unbounded
  else if (unknownSeeds frozen changed).Nonempty then .unknown
  else if (missingSet frozen changed).Nonempty then .incomplete
  else .complete

/-- A list that holds each node of a set once. -/
def Lists (nodes : List NodeId) (set : Set NodeId) : Prop :=
  nodes.Nodup ∧ ∀ n, n ∈ nodes ↔ n ∈ set

theorem Lists.ncard {nodes : List NodeId} {set : Set NodeId} (h : Lists nodes set) :
    set.ncard = nodes.length := by
  have hset : set = (nodes.toFinset : Set NodeId) := by
    ext n
    simp [h.2]
  rw [hset, Set.ncard_coe_finset, List.toFinset_card_of_nodup h.1]

theorem Lists.eq_nil_iff {nodes : List NodeId} {set : Set NodeId} (h : Lists nodes set) :
    nodes = [] ↔ ¬ set.Nonempty := by
  rw [Set.not_nonempty_iff_eq_empty, Set.eq_empty_iff_forall_notMem, List.eq_nil_iff_forall_not_mem]
  simp only [h.2]

theorem Lists.perm {nodes nodes' : List NodeId} {set : Set NodeId} (h : Lists nodes set)
    (h' : Lists nodes' set) : nodes.Perm nodes' :=
  (List.perm_ext_iff_of_nodup h.1 h'.1).mpr fun n => (h.2 n).trans (h'.2 n).symm

section

variable {ε ε' : Type} (port : DependencyEvidencePort ε)

/-- A node that was always answered for in one way has these dependencies, or none. -/
theorem freeze_dependencies {frozen : Frozen} {evidence : ε} {nodes : List NodeId}
    {answer : Option (List NodeId)}
    (h : ∀ a, (n, a) ∈ answers port evidence nodes → a = answer) :
    (freeze port frozen evidence nodes).1.dependencies n =
      if n ∈ nodes then answer.getD [] else frozen.dependencies n := by
  induction nodes generalizing frozen evidence with
  | nil => rfl
  | cons node rest ih =>
    rw [answers] at h
    rw [freeze, ih fun a ha => h a (List.mem_cons_of_mem _ ha)]
    by_cases hrest : n ∈ rest
    · rw [if_pos hrest, if_pos (List.mem_cons_of_mem _ hrest)]
    · by_cases hnode : n = node
      · subst hnode
        have hanswer := h _ List.mem_cons_self
        rw [if_neg hrest, if_pos List.mem_cons_self, Frozen.dependencies, Frozen.insert,
          IdMap.get_insert, if_pos rfl, hanswer, Option.getD_some]
      · rw [if_neg hrest, if_neg (by simp [hnode, hrest]), Frozen.dependencies, Frozen.insert,
          IdMap.get_insert, if_neg hnode]
        rfl

theorem reading_dependencies {evidence : ε} {answer : Option (List NodeId)}
    (hmem : (n, answer) ∈ (reading port evidence).answers)
    (h : ∀ a, (n, a) ∈ (reading port evidence).answers → a = answer) :
    (reading port evidence).frozen.dependencies n = answer.getD [] := by
  refine (freeze_dependencies port h).trans (if_pos ?_)
  have hnode := List.mem_map_of_mem (f := Prod.fst) hmem
  rwa [show (reading port evidence).answers.map Prod.fst = _ from answers_nodes port _ _] at hnode

variable {port} {evidence : ε} {request : ClosureRequest}

/-- What the result of a computation is, for the frozen evidence. -/
structure Computes (frozen : Frozen) (changed : List NodeId) (result : ClosureResult) : Prop where
  status : result.status = statusOf frozen changed
  affected : result.status ≠ .unbounded → Lists result.affected (affectedSet frozen changed)
  missing : result.status ≠ .unbounded → Lists result.missing (missingSet frozen changed)

theorem compute_computes (hclaim : request.completenessClaim.isForbidden = false)
    (hversion : (reading port evidence).version = request.expectedRuleVersion) :
    Computes (reading port evidence).frozen request.changed (compute port evidence request).1 := by
  have hends : ∀ outcome, worklist (reading port evidence).frozen request.changed
      MAX_BOUNDED_FANOUT (seeds (reading port evidence).frozen request.changed) = outcome →
      Ends (reading port evidence).frozen request.changed MAX_BOUNDED_FANOUT outcome :=
    fun _ h => h ▸ worklist_ends seeds_exact (Nat.zero_add _)
  have hunknown : (request.changed.any fun node =>
      !(reading port evidence).frozen.registered.contains node) = true ↔
        (unknownSeeds (reading port evidence).frozen request.changed).Nonempty := by
    simp [Set.Nonempty, unknownSeeds]
  generalize hresult : (compute port evidence request).1 = result
  rw [compute, if_neg (by simp [hclaim])] at hresult
  dsimp only at hresult
  split at hresult
  next hother => exact absurd hversion hother
  split at hresult
  next work hwork =>
    cases hends _ hwork with | error hnodup hwithin hlength =>
    have hcard := List.toFinset_card_of_nodup hnodup
    rw [← Set.ncard_coe_finset] at hcard
    have hle := Set.ncard_le_ncard (s := (work.affected.toFinset : Set NodeId))
      (fun n hn => hwithin n (by simpa using hn)) (finite_affectedSet _ _)
    have hstatus : statusOf (reading port evidence).frozen request.changed = .unbounded :=
      if_pos (by omega)
    subst hresult
    exact ⟨hstatus.symm, fun h => absurd rfl h, fun h => absurd rfl h⟩
  next work hwork =>
    cases hends _ hwork with | ok hexact hqueue hlength =>
    have haffected : Lists work.affected _ := ⟨hexact.nodup_affected, (hexact.done hqueue).1⟩
    have hmissing : Lists work.missing _ := ⟨hexact.nodup_missing, (hexact.done hqueue).2⟩
    have hbound := not_lt.mpr hlength
    rw [← haffected.ncard] at hbound
    split_ifs at hresult with hseeds hnone
    · subst hresult
      refine ⟨Eq.symm ?_, fun _ => haffected, fun _ => hmissing⟩
      exact (if_neg hbound).trans (if_pos (hunknown.mp hseeds))
    · subst hresult
      refine ⟨Eq.symm ?_, fun _ => haffected, fun _ => hmissing⟩
      have hmore := not_not.mp (mt hmissing.eq_nil_iff.mpr hnone)
      exact (if_neg hbound).trans ((if_neg (mt hunknown.mpr hseeds)).trans (if_pos hmore))
    · subst hresult
      refine ⟨Eq.symm ?_, fun _ => haffected, fun _ => hmissing⟩
      have hempty := hmissing.eq_nil_iff.mp (not_not.mp hnone)
      exact (if_neg hbound).trans ((if_neg (mt hunknown.mpr hseeds)).trans (if_neg hempty))

/-! ## The theorem -/

/-- Evidence and changed nodes of the same sets have a result that differs in order only. -/
def OrderFree (port : DependencyEvidencePort ε) (evidence : ε) (request : ClosureRequest) : Prop :=
  ∀ (ε' : Type) (port' : DependencyEvidencePort ε') (evidence' : ε') (request' : ClosureRequest),
    request'.completenessClaim.isForbidden = false →
    (reading port' evidence').version = request'.expectedRuleVersion →
    SameSets (reading port evidence).frozen (reading port' evidence').frozen request.changed
      request'.changed →
    let result := (compute port evidence request).1
    let result' := (compute port' evidence' request').1
    result'.status = result.status ∧ (result.status ≠ .unbounded →
      result'.affected.Perm result.affected ∧ result'.missing.Perm result.missing)

/-- The frozen dependencies of a node are what was answered for it, and none where nothing was. -/
def ReadAsAnswered (r : Reading) : Prop :=
  ∀ n answer, (n, answer) ∈ r.answers → (∀ a, (n, a) ∈ r.answers → a = answer) →
    r.frozen.dependencies n = answer.getD []

/-- The status is read off the affected and the missing nodes, which are listed once each where the
status is not `unbounded`. -/
theorem compute_exact (port : DependencyEvidencePort ε) (evidence : ε) (request : ClosureRequest)
    (hclaim : request.completenessClaim.isForbidden = false)
    (hversion : (reading port evidence).version = request.expectedRuleVersion) :
    ReadAsAnswered (reading port evidence) ∧
      Computes (reading port evidence).frozen request.changed (compute port evidence request).1 ∧
      OrderFree port evidence request := by
  have hcomputes := compute_computes hclaim hversion
  refine ⟨fun n answer hmem h => reading_dependencies port hmem h, hcomputes, ?_⟩
  intro ε' port' evidence' request' hclaim' hversion' hsame
  have hcomputes' := compute_computes hclaim' hversion'
  dsimp only
  have hstatus : (compute port' evidence' request').1.status =
      (compute port evidence request).1.status := by
    rw [hcomputes'.status, hcomputes.status, statusOf, statusOf, hsame.affectedSet_eq,
      hsame.missingSet_eq, hsame.unknownSeeds_eq]
  refine ⟨hstatus, fun hbounded => ⟨?_, ?_⟩⟩
  · have haffected := hcomputes'.affected (hstatus ▸ hbounded)
    rw [← hsame.affectedSet_eq] at haffected
    exact haffected.perm (hcomputes.affected hbounded)
  · have hmissing := hcomputes'.missing (hstatus ▸ hbounded)
    rw [← hsame.missingSet_eq] at hmissing
    exact hmissing.perm (hcomputes.missing hbounded)

end

namespace Sample

/-- A node that depends on itself and on a node that is not registered. -/
theorem compute_exact_first : ReadAsAnswered (reading (port [first]) ⟨[], [some [first, second]]⟩) ∧
    Computes (reading (port [first]) ⟨[], [some [first, second]]⟩).frozen [first]
      (compute (port [first]) ⟨[], [some [first, second]]⟩ request).1 ∧
    OrderFree (port [first]) ⟨[], [some [first, second]]⟩ request :=
  compute_exact (port [first]) ⟨[], [some [first, second]]⟩ request rfl rfl

example : (compute (port [first]) ⟨[], [some [first, second]]⟩ request).1.status = .incomplete ∧
    (compute (port [first]) ⟨[], [some [first, second]]⟩ request).1.missing = [second] := by decide

end Sample

end LawNexus.Closure
