import LawNexus.Closure.Compute
import Mathlib.Data.List.TakeWhile
import Mathlib.Logic.Relation

/-!
# What a complete closure rests on

The worklist comes to every node that the changed nodes lead to; where the evidence behind it is
missing or changes, the result is complete all the same.
-/

namespace LawNexus.Closure

open Relation

variable {frozen : Frozen} {changed : List NodeId} {work work' : Worklist} {node dep : NodeId}

/-! ## The worklist -/

/-- A changed node, or one behind it in the frozen dependencies. -/
def Leads (frozen : Frozen) (changed : List NodeId) (node : NodeId) : Prop :=
  ∃ c ∈ changed, ReflTransGen (fun a b => b ∈ frozen.dependencies a) c node

theorem leads_of_mem (h : node ∈ changed) : Leads frozen changed node := ⟨node, h, .refl⟩

theorem Leads.dependency (h : Leads frozen changed node) (hdep : dep ∈ frozen.dependencies node) :
    Leads frozen changed dep := by
  obtain ⟨c, hc, hpath⟩ := h
  exact ⟨c, hc, hpath.tail hdep⟩

/-- Where the worklist stands, and what is still to be done for the affected nodes. -/
structure Stands (frozen : Frozen) (changed : List NodeId) (work : Worklist) : Prop where
  started : ∀ c ∈ changed, c ∈ work.affected ∨ c ∈ work.queue
  followed : ∀ n ∈ work.affected, n ∈ frozen.registered → ∀ d ∈ frozen.dependencies n,
    d ∈ work.affected ∨ d ∈ work.queue ∨ d ∈ work.missing
  leads : ∀ n, n ∈ work.affected ∨ n ∈ work.queue → Leads frozen changed n
  registered : ∀ n, n ∈ work.affected ∨ n ∈ work.queue → n ∈ frozen.registered ∨ n ∈ changed

theorem mem_pushMissing {missing : List NodeId} {n : NodeId} :
    n ∈ pushMissing missing node ↔ n ∈ missing ∨ n = node := by
  unfold pushMissing
  split_ifs with h
  · constructor
    · exact .inl
    · rintro (hn | rfl)
      · exact hn
      · exact List.contains_iff_mem.mp h
  · rw [List.mem_append, List.mem_singleton]

/-- What a turn of the loop over the dependencies, or all of it, adds. -/
structure Pushed (frozen : Frozen) (deps : List NodeId) (work work' : Worklist) : Prop where
  affected : work'.affected = work.affected
  missing : ∀ n ∈ work.missing, n ∈ work'.missing
  queue : ∀ n ∈ work.queue, n ∈ work'.queue
  all : ∀ d ∈ deps, d ∈ work'.affected ∨ d ∈ work'.queue ∨ d ∈ work'.missing
  new : ∀ n ∈ work'.queue, n ∈ work.queue ∨ n ∈ deps ∧ n ∈ frozen.registered

theorem pushDependency_spec (frozen : Frozen) (work : Worklist) (dep : NodeId) :
    Pushed frozen [dep] work (pushDependency frozen work dep) := by
  unfold pushDependency
  split_ifs with hseen hknown
  · refine ⟨rfl, fun n hn => hn, fun n hn => hn, ?_, fun n hn => .inl hn⟩
    intro d hd
    obtain rfl := List.mem_singleton.mp hd
    exact .inl (List.contains_iff_mem.mp hseen)
  · refine ⟨rfl, fun n hn => mem_pushMissing.mpr (.inl hn), fun n hn => hn, ?_, fun n hn => .inl hn⟩
    intro d hd
    obtain rfl := List.mem_singleton.mp hd
    exact .inr (.inr (mem_pushMissing.mpr (.inr rfl)))
  · refine ⟨rfl, fun n hn => hn, fun n hn => List.mem_append_left _ hn, ?_, ?_⟩
    · intro d hd
      exact .inr (.inl (List.mem_append_right _ hd))
    · intro n hn
      rcases List.mem_append.mp hn with hn | hn
      · exact .inl hn
      · obtain rfl := List.mem_singleton.mp hn
        exact .inr ⟨hn, by simpa using hknown⟩

theorem pushDependencies_spec (deps : List NodeId) (work : Worklist) :
    Pushed frozen deps work (deps.foldl (pushDependency frozen) work) := by
  induction deps generalizing work with
  | nil =>
    exact ⟨rfl, fun n hn => hn, fun n hn => hn, fun d hd => (by cases hd), fun n hn => .inl hn⟩
  | cons dep deps ih =>
    have hturn := pushDependency_spec frozen work dep
    have hrest := ih (pushDependency frozen work dep)
    refine ⟨hrest.affected.trans hturn.affected,
      fun n hn => hrest.missing n (hturn.missing n hn),
      fun n hn => hrest.queue n (hturn.queue n hn), ?_, ?_⟩
    · intro d hd
      rcases List.mem_cons.mp hd with rfl | hd
      · rcases hturn.all d List.mem_cons_self with h | h | h
        · exact .inl (hrest.affected ▸ h)
        · exact .inr (.inl (hrest.queue d h))
        · exact .inr (.inr (hrest.missing d h))
      · exact hrest.all d hd
    · intro n hn
      rcases hrest.new n hn with h | ⟨h, hregistered⟩
      · rcases hturn.new n h with h | ⟨h, hregistered⟩
        · exact .inl h
        · exact .inr ⟨List.mem_cons.mpr (.inl (List.mem_singleton.mp h)), hregistered⟩
      · exact .inr ⟨List.mem_cons_of_mem _ h, hregistered⟩

theorem visit_spec (frozen : Frozen) (changed : List NodeId) (work : Worklist)
    (node : NodeId) :
    Pushed frozen (if node ∈ frozen.registered then frozen.dependencies node else [])
      { work with affected := work.affected ++ [node] } (visit frozen changed work node) := by
  by_cases hknown : node ∈ frozen.registered
  · rw [if_pos hknown, visit, if_neg (by simpa using hknown)]
    exact pushDependencies_spec _ _
  · rw [if_neg hknown, visit, if_pos (by simpa using hknown)]
    dsimp only
    refine ⟨?_, ?_, ?_, fun d hd => (by cases hd), ?_⟩
    all_goals split_ifs
    · rfl
    · rfl
    · exact fun n hn => hn
    · exact fun n hn => mem_pushMissing.mpr (.inl hn)
    · exact fun n hn => hn
    · exact fun n hn => hn
    · exact fun n hn => .inl hn
    · exact fun n hn => .inl hn

/-- The node is the first one of the queue that was not seen. -/
theorem visit_stands {queue : List NodeId} (h : Stands frozen changed work)
    (hqueue : ∀ n ∈ work.queue, n ∈ work.affected ∨ n = node ∨ n ∈ queue)
    (hnew : ∀ n, n = node ∨ n ∈ queue → n ∈ work.queue) :
    Stands frozen changed (visit frozen changed { work with queue } node) := by
  have hvisit := visit_spec frozen changed { work with queue } node
  generalize visit frozen changed { work with queue } node = work' at hvisit
  have hmem : ∀ n, n ∈ work'.affected ↔ n ∈ work.affected ∨ n = node := by
    intro n
    rw [hvisit.affected, List.mem_append, List.mem_singleton]
  -- Nothing that was affected or queued gets lost.
  have hkept : ∀ n, n ∈ work.affected ∨ n ∈ work.queue → n ∈ work'.affected ∨ n ∈ work'.queue := by
    rintro n (hn | hn)
    · exact .inl ((hmem n).mpr (.inl hn))
    · rcases hqueue n hn with hn | hn | hn
      · exact .inl ((hmem n).mpr (.inl hn))
      · exact .inl ((hmem n).mpr (.inr hn))
      · exact .inr (hvisit.queue n hn)
  -- What is new is a dependency of the node.
  have hcame : ∀ n, n ∈ work'.affected ∨ n ∈ work'.queue → (n ∈ work.affected ∨ n ∈ work.queue) ∨
      n ∈ frozen.dependencies node ∧ n ∈ frozen.registered := by
    rintro n (hn | hn)
    · rcases (hmem n).mp hn with hn | hn
      · exact .inl (.inl hn)
      · exact .inl (.inr (hnew n (.inl hn)))
    · rcases hvisit.new n hn with hn | ⟨hdep, hregistered⟩
      · exact .inl (.inr (hnew n (.inr hn)))
      · split_ifs at hdep with hknown
        · exact .inr ⟨hdep, hregistered⟩
        · cases hdep
  constructor
  case started => exact fun c hc => hkept c (h.started c hc)
  case followed =>
    intro n hn hregistered d hd
    rcases (hmem n).mp hn with hn | rfl
    · rcases h.followed n hn hregistered d hd with hd | hd | hd
      · exact or_assoc.mp (.inl (hkept d (.inl hd)))
      · exact or_assoc.mp (.inl (hkept d (.inr hd)))
      · exact .inr (.inr (hvisit.missing d hd))
    · exact hvisit.all d (by rwa [if_pos hregistered])
  case leads =>
    intro n hn
    rcases hcame n hn with hn | ⟨hdep, -⟩
    · exact h.leads n hn
    · exact (h.leads node (.inr (hnew node (.inl rfl)))).dependency hdep
  case registered =>
    intro n hn
    rcases hcame n hn with hn | ⟨-, hregistered⟩
    · exact h.registered n hn
    · exact .inl hregistered

/-- A queue where every node was seen can be dropped. -/
theorem Stands.drop (h : Stands frozen changed work)
    (hqueue : work.queue.dropWhile work.affected.contains = []) :
    Stands frozen changed { work with queue := [] } := by
  have hseen : ∀ n ∈ work.queue, n ∈ work.affected := fun n hn =>
    List.contains_iff_mem.mp (List.dropWhile_eq_nil_iff.mp hqueue n hn)
  have hkept : ∀ n, n ∈ work.affected ∨ n ∈ work.queue → n ∈ work.affected := by
    rintro n (hn | hn)
    · exact hn
    · exact hseen n hn
  have hback : ∀ n, n ∈ work.affected ∨ n ∈ ([] : List NodeId) → n ∈ work.affected ∨
      n ∈ work.queue := by
    rintro n (hn | hn)
    · exact .inl hn
    · cases hn
  constructor
  case started => exact fun c hc => .inl (hkept c (h.started c hc))
  case followed =>
    intro n hn hregistered d hd
    rcases h.followed n hn hregistered d hd with hd | hd | hd
    · exact .inl hd
    · exact .inl (hseen d hd)
    · exact .inr (.inr hd)
  case leads => exact fun n hn => h.leads n (hback n hn)
  case registered => exact fun n hn => h.registered n (hback n hn)

/-- A loop that ends without an error has an empty queue. -/
theorem worklist_stands {room : Nat} (h : Stands frozen changed work)
    (hwork : worklist frozen changed room work = .ok work') :
    Stands frozen changed work' ∧ work'.queue = [] := by
  induction room generalizing work with
  | zero =>
    unfold worklist at hwork
    split at hwork
    next hqueue =>
      cases hwork
      exact ⟨h.drop hqueue, rfl⟩
    next => cases hwork
  | succ room ih =>
    unfold worklist at hwork
    split at hwork
    next hqueue =>
      cases hwork
      exact ⟨h.drop hqueue, rfl⟩
    next node queue hqueue =>
      refine ih (visit_stands h ?_ ?_) hwork
      · intro n hn
        rw [← List.takeWhile_append_dropWhile (p := work.affected.contains) (l := work.queue),
          hqueue, List.mem_append, List.mem_cons] at hn
        refine hn.imp_left fun hn => ?_
        exact List.contains_iff_mem.mp (List.mem_takeWhile_imp hn)
      · intro n hn
        rw [← List.mem_cons, ← hqueue] at hn
        exact (List.dropWhile_sublist _).subset hn

theorem seeds_stands : Stands frozen changed (seeds frozen changed) := by
  constructor
  case started => exact fun c hc => .inr hc
  case followed => exact fun n hn => by cases hn
  case leads =>
    rintro n (hn | hn)
    · cases hn
    · exact leads_of_mem hn
  case registered =>
    rintro n (hn | hn)
    · cases hn
    · exact .inr hn

/-- With every changed node registered and nothing missing, the affected nodes are the ones led to,
and they are registered. -/
theorem worklist_complete {room : Nat}
    (hwork : worklist frozen changed room (seeds frozen changed) = .ok work)
    (hknown : ∀ c ∈ changed, c ∈ frozen.registered) (hmissing : work.missing = []) :
    (∀ n, n ∈ work.affected ↔ Leads frozen changed n) ∧
      ∀ n ∈ work.affected, n ∈ frozen.registered := by
  obtain ⟨hstands, hqueue⟩ := worklist_stands seeds_stands hwork
  have hregistered : ∀ n ∈ work.affected, n ∈ frozen.registered := by
    intro n hn
    rcases hstands.registered n (.inl hn) with h | h
    · exact h
    · exact hknown n h
  refine ⟨fun n => ⟨fun hn => hstands.leads n (.inl hn), ?_⟩, hregistered⟩
  rintro ⟨c, hc, hpath⟩
  induction hpath with
  | refl => simpa [hqueue] using hstands.started c hc
  | tail _ hdep ih => simpa [hqueue, hmissing] using hstands.followed _ ih (hregistered _ ih) _ hdep

/-! ## What the port answers -/

section

variable {ε : Type} (port : DependencyEvidencePort ε)

/-- The answers of `dependencies_of` for the nodes, in order. -/
def answers (evidence : ε) : List NodeId → List (NodeId × Option (List NodeId))
  | [] => []
  | node :: rest =>
    let (answer, evidence) := port.dependenciesOf evidence node
    (node, answer) :: answers evidence rest

theorem freeze_registered (frozen : Frozen) (evidence : ε) (nodes : List NodeId) :
    (freeze port frozen evidence nodes).1.registered = frozen.registered ++ nodes := by
  induction nodes generalizing frozen evidence with
  | nil => exact (List.append_nil _).symm
  | cons node rest ih =>
    rw [freeze, ih, Frozen.insert, List.append_assoc, List.singleton_append]

theorem answers_nodes (evidence : ε) (nodes : List NodeId) :
    (answers port evidence nodes).map Prod.fst = nodes := by
  induction nodes generalizing evidence with
  | nil => rfl
  | cons node rest ih => rw [answers, List.map_cons, ih]

/-- What a computation reads of the port. -/
structure Reading where
  version : RuleVersion
  answers : List (NodeId × Option (List NodeId))
  frozen : Frozen
  /-- The version read for the trace. -/
  observed : RuleVersion

def reading (evidence : ε) : Reading :=
  let (version, evidence) := port.ruleVersion evidence
  let (registered, evidence) := port.registeredNodes evidence
  let (frozen, evidence') := freeze port .empty evidence registered
  let (_, evidence'') := port.progressCount evidence'
  let (_, evidence'') := port.queueDepth evidence''
  { version
    answers := answers port evidence registered
    frozen
    observed := (port.ruleVersion evidence'').1 }

/-- The registered nodes are the ones that were asked for. -/
theorem reading_registered (evidence : ε) :
    (reading port evidence).frozen.registered = (reading port evidence).answers.map Prod.fst := by
  refine (freeze_registered port .empty _ _).trans ?_
  exact (answers_nodes port _ _).symm

variable (request : ClosureRequest)

/-- The evidence that a result is to rest on. -/
structure FullyEvidenced (r : Reading) (result : ClosureResult) : Prop where
  registered : ∀ n ∈ result.affected, n ∈ r.frozen.registered
  present : ∀ n ∈ result.affected, ∀ answer, (n, answer) ∈ r.answers →
    ∃ deps, answer = some deps ∧ ∀ d ∈ deps, d ∈ result.affected
  changed : ∀ c ∈ result.changed, c ∈ result.affected
  version : result.trace.observedRuleVersion = some result.trace.expectedRuleVersion

/-- No node that counts is without an answer, or has one that another answer of it took the place
of, and the version is the same at both reads. -/
structure Steady (r : Reading) : Prop where
  present : ∀ n, Leads r.frozen request.changed n → (n, none) ∉ r.answers
  replaced : ∀ n deps, (n, some deps) ∈ r.answers → Leads r.frozen request.changed n →
    ∀ d ∈ deps, Leads r.frozen request.changed d
  version : r.observed = r.version

/-- What the answer `complete` says of the computation. -/
theorem compute_complete (evidence : ε) (h : (compute port evidence request).1.status = .complete) :
    let r := reading port evidence
    let result := (compute port evidence request).1
    (∀ n, n ∈ result.affected ↔ Leads r.frozen request.changed n) ∧
      (∀ n ∈ result.affected, n ∈ r.frozen.registered) ∧ r.version = request.expectedRuleVersion ∧
      result.changed = request.changed ∧ result.trace.observedRuleVersion = some r.observed ∧
      result.trace.expectedRuleVersion = request.expectedRuleVersion := by
  dsimp only
  generalize hresult : (compute port evidence request).1 = result at h ⊢
  by_cases hclaim : request.completenessClaim.isForbidden
  · rw [compute, if_pos hclaim] at hresult
    subst hresult
    cases h
  rw [compute, if_neg hclaim] at hresult
  dsimp only at hresult
  split at hresult
  · subst hresult
    cases h
  next hversion =>
  split at hresult
  · subst hresult
    cases h
  next work hwork =>
  split_ifs at hresult with hknown hmissing
  · subst hresult
    cases h
  · subst hresult
    cases h
  · have hall : ∀ c ∈ request.changed, c ∈ (reading port evidence).frozen.registered := by
      intro c hc
      by_contra hnot
      refine hknown (List.any_eq_true.mpr ⟨c, hc, ?_⟩)
      rw [Bool.not_eq_true', ← Bool.not_eq_true, List.contains_iff_mem]
      exact hnot
    obtain ⟨haffected, hregistered⟩ := worklist_complete hwork hall (not_not.mp hmissing)
    subst hresult
    exact ⟨haffected, hregistered, not_not.mp hversion, rfl, rfl, rfl⟩

/-- A complete result is fully evidenced if and only if the evidence was steady. -/
theorem complete_evidenced (evidence : ε)
    (h : (compute port evidence request).1.status = .complete ∧
      (compute port evidence request).1.publicationEligibility = .eligible) :
    FullyEvidenced (reading port evidence) (compute port evidence request).1 ↔
      Steady request (reading port evidence) := by
  obtain ⟨haffected, hregistered, hversion, hchanged, hobserved, hexpected⟩ :=
    compute_complete port request evidence h.1
  constructor
  · intro hevidenced
    constructor
    case present =>
      intro n hn hanswer
      obtain ⟨deps, hnone, -⟩ := hevidenced.present n ((haffected n).mpr hn) none hanswer
      cases hnone
    case replaced =>
      intro n deps hanswer hn d hd
      obtain ⟨deps', hsome, hall⟩ := hevidenced.present n ((haffected n).mpr hn) _ hanswer
      cases hsome
      exact (haffected d).mp (hall d hd)
    case version =>
      have := hevidenced.version
      rw [hobserved, hexpected, ← hversion] at this
      exact Option.some.inj this
  · intro hsteady
    constructor
    case registered => exact hregistered
    case present =>
      intro n hn answer hanswer
      rw [haffected] at hn
      cases answer with
      | none => exact absurd hanswer (hsteady.present n hn)
      | some deps =>
        refine ⟨deps, rfl, fun d hd => ?_⟩
        exact (haffected d).mpr (hsteady.replaced n deps hanswer hn d hd)
    case changed =>
      intro c hc
      rw [hchanged] at hc
      exact (haffected c).mpr (leads_of_mem hc)
    case version => rw [hobserved, hexpected, hsteady.version, hversion]

end

namespace Sample

/-! ### A complete result with evidence that is absent, replaced or moved -/

def first : NodeId := ⟨"node:1", rfl⟩

def second : NodeId := ⟨"node:2", rfl⟩

def version : RuleVersion := ⟨"rule:1", rfl⟩

/-- What the port still has to say of the version and of the dependencies. -/
structure Script where
  versions : List RuleVersion
  dependencies : List (Option (List NodeId))

/-- A port that answers from a script. -/
def port (registered : List NodeId) : DependencyEvidencePort Script where
  ruleVersion e := (e.versions.headD version, { e with versions := e.versions.tail })
  registeredNodes e := (registered, e)
  dependenciesOf e _ := (e.dependencies.headD none, { e with dependencies := e.dependencies.tail })
  progressCount e := (0, e)
  queueDepth e := (0, e)

def request : ClosureRequest where
  requestId := ⟨"request:1", rfl⟩
  changed := [first]
  expectedRuleVersion := version
  completenessClaim := .none
  requestIncrementalPublication := true

/-- The node has no record at all, or only one that a second registration leaves out, or the rules
are others by the time of the trace. -/
theorem unevidenced_complete :
    let absent := compute (port [first]) ⟨[], [none]⟩ request
    let replaced := compute (port [first, first]) ⟨[], [some [second], some []]⟩ request
    let moved := compute (port [first]) ⟨[version, ⟨"rule:2", rfl⟩], [some []]⟩ request
    (∀ result ∈ [absent.1, replaced.1, moved.1], result.status = .complete ∧
      result.publicationEligibility = .eligible ∧ result.affected = [first]) ∧
    ¬ FullyEvidenced (reading (port [first]) ⟨[], [none]⟩) absent.1 ∧
    ¬ FullyEvidenced (reading (port [first, first]) ⟨[], [some [second], some []]⟩) replaced.1 ∧
    ¬ FullyEvidenced (reading (port [first]) ⟨[version, ⟨"rule:2", rfl⟩], [some []]⟩) moved.1 := by
  refine ⟨by decide, fun h => ?_, fun h => ?_, fun h => ?_⟩
  · obtain ⟨deps, hnone, -⟩ := h.present first (by decide) none (by decide)
    cases hnone
  · obtain ⟨deps, hsome, hall⟩ := h.present first (by decide) (some [second]) (by decide)
    cases hsome
    exact absurd (hall second (by decide)) (by decide)
  · exact absurd h.version (by decide)

/-- A node with an empty record of its own. -/
theorem evidenced_complete :
    FullyEvidenced (reading (port [first]) ⟨[], [some []]⟩)
      (compute (port [first]) ⟨[], [some []]⟩ request).1 := by
  refine (complete_evidenced (port [first]) request ⟨[], [some []]⟩ (by decide)).mpr ?_
  constructor
  case present => exact fun n _ h => absurd h (by simp [reading, answers, port])
  case replaced =>
    intro n deps hanswer _ d hd
    obtain ⟨-, rfl⟩ : n = first ∧ deps = [] := by simpa [reading, answers, port] using hanswer
    cases hd
  case version => rfl

end Sample

end LawNexus.Closure
