import Mathlib.Data.List.Basic

/-!
# Runs of a component

A component that answers one call after another, and what holds over any run of calls.
-/

namespace LawNexus.Calls

variable {σ κ α : Type*}

/-- What one call did. -/
structure Turn (σ κ α : Type*) where
  before : σ
  call : κ
  answer : α
  after : σ

variable (step : σ → κ → α × σ)

def turn (s : σ) (call : κ) : Turn σ κ α := ⟨s, call, (step s call).1, (step s call).2⟩

/-- The state after a list of calls. -/
def after (s : σ) : List κ → σ
  | [] => s
  | call :: rest => after (step s call).2 rest

def turns (s : σ) : List κ → List (Turn σ κ α)
  | [] => []
  | call :: rest => turn step s call :: turns (step s call).2 rest

variable {step} {s : σ} {calls more : List κ} {t : Turn σ κ α}

@[simp] theorem after_append : after step s (calls ++ more) = after step (after step s calls) more := by
  induction calls generalizing s with
  | nil => rfl
  | cons call rest ih => exact ih

@[simp] theorem turns_append : turns step s (calls ++ more) =
    turns step s calls ++ turns step (after step s calls) more := by
  induction calls generalizing s with
  | nil => rfl
  | cons call rest ih => rw [List.cons_append, turns, turns, ih, after, List.cons_append]

/-- Every turn of a run is a step of the component. -/
theorem eq_turn (h : t ∈ turns step s calls) : t = turn step t.before t.call := by
  induction calls generalizing s with
  | nil => cases h
  | cons call rest ih =>
    rcases List.mem_cons.mp h with rfl | h
    · rfl
    · exact ih h

/-! ## Invariants -/

/-- What every turn keeps holds in every state of the run. -/
theorem invariant {p : σ → Prop} (hs : p s)
    (hturn : ∀ t ∈ turns step s calls, p t.before → p t.after) :
    p (after step s calls) ∧ ∀ t ∈ turns step s calls, p t.before ∧ p t.after := by
  induction calls generalizing s with
  | nil => exact ⟨hs, fun t ht => by cases ht⟩
  | cons call rest ih =>
    rw [turns, List.forall_mem_cons] at hturn ⊢
    have hnext := hturn.1 hs
    obtain ⟨hlast, hrest⟩ := ih hnext hturn.2
    exact ⟨hlast, ⟨hs, hnext⟩, hrest⟩

/-- A relation that every turn respects holds between the ends of the run. -/
theorem related {r : σ → σ → Prop} (hrefl : ∀ s, r s s) (htrans : ∀ {a b c}, r a b → r b c → r a c)
    (hturn : ∀ t ∈ turns step s calls, r t.before t.after) : r s (after step s calls) := by
  induction calls generalizing s with
  | nil => exact hrefl s
  | cons call rest ih =>
    rw [turns, List.forall_mem_cons] at hturn
    exact htrans hturn.1 (ih hturn.2)

/-- Such a relation leads from the start of the run to each turn, and from the turn to the end. -/
theorem related_turn {r : σ → σ → Prop} (hrefl : ∀ s, r s s)
    (htrans : ∀ {a b c}, r a b → r b c → r a c)
    (hturn : ∀ t ∈ turns step s calls, r t.before t.after) (ht : t ∈ turns step s calls) :
    r s t.before ∧ r t.after (after step s calls) := by
  induction calls generalizing s with
  | nil => cases ht
  | cons call rest ih =>
    rw [turns, List.forall_mem_cons] at hturn
    rcases List.mem_cons.mp ht with rfl | ht
    · exact ⟨hrefl s, related hrefl htrans hturn.2⟩
    · obtain ⟨hbefore, hafter⟩ := ih hturn.2 ht
      exact ⟨htrans hturn.1 hbefore, hafter⟩

/-- A number that the turns of one kind raise by one counts them. -/
theorem count {f : σ → Nat} {p : Turn σ κ α → Bool}
    (hturn : ∀ t ∈ turns step s calls, f t.after = f t.before + if p t then 1 else 0) :
    f (after step s calls) = f s + (turns step s calls).countP p := by
  induction calls generalizing s with
  | nil => rfl
  | cons call rest ih =>
    rw [turns, List.forall_mem_cons] at hturn
    have hfirst : f (step s call).2 = f s + if p (turn step s call) then 1 else 0 := hturn.1
    rw [after, ih hturn.2, hfirst, turns, List.countP_cons]
    omega

/-- What a turn leaves behind, and later turns keep, bears on every later turn. -/
theorem pairwise {q : Turn σ κ α → σ → Prop} {r : Turn σ κ α → Turn σ κ α → Prop}
    (hleft : ∀ t ∈ turns step s calls, q t t.after)
    (hkept : ∀ t, ∀ t' ∈ turns step s calls, q t t'.before → q t t'.after)
    (hlater : ∀ t, ∀ t' ∈ turns step s calls, q t t'.before → r t t') :
    (turns step s calls).Pairwise r := by
  induction calls generalizing s with
  | nil => exact .nil
  | cons call rest ih =>
    rw [turns] at hleft hkept hlater ⊢
    rw [List.forall_mem_cons] at hleft
    simp only [List.forall_mem_cons] at hkept hlater
    refine .cons (fun t' ht' => ?_) (ih hleft.2 (fun t => (hkept t).2) fun t => (hlater t).2)
    refine (hlater _).2 t' ht' ?_
    exact ((invariant hleft.1 (hkept _).2).2 t' ht').1

end LawNexus.Calls
